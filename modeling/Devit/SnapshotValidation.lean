import Devit.Snapshot

/-! What a snapshot that passes its validation is worth. The validation looks at the
form of the identifier and of the hashes, and at whether stored content is there. It
reads no content and not the integrity hash, so it is sound exactly for snapshots that
are damaged in their form or not at all. -/
namespace Devit
open Text Path FileSystem
open Files (Loc)

/-- `DevItError::SnapshotStale`. -/
def SnapshotError.isStale : SnapshotError → Bool
  | .snapshotStale _ _ => true
  | _ => false

namespace SnapshotValidation

section
variable (crates : SnapshotCrates) (snapshot : Snapshot) (d : Disk)

end

variable {crates : SnapshotCrates} {snapshot : Snapshot} {d : Disk} {e : PathBuf × SnapshotFile}

/-! ## What is checked -/

/-- The computation never fails for being stale. -/
def Fresh {α : Type} (call : Action SnapshotError Disk α) : Prop :=
  ∀ now x after, call now = (.error x, after) → x.isStale = false

theorem Fresh.bind {α β : Type} {first : Action SnapshotError Disk α}
    {next : α → Action SnapshotError Disk β} (fresh : Fresh first) (then_fresh : ∀ a, Fresh (next a)) :
    Fresh (first >>= next) := by
  intro now x after failed
  rcases Action.bind_eq_error failed with stopped | ⟨a, mid, -, later⟩
  · exact fresh now x after stopped
  · exact then_fresh a mid x after later

/-- Hashes that are the bytes themselves. -/
def plainCrates : SnapshotCrates := ⟨id, id, some, fun _ _ _ => [], fun _ => .error []⟩

/-- A snapshot of `/w` with one file that had the content `one`. -/
def oneFile (storage : ContentStorage) : Snapshot where
  id := "snap-1-0123456789abcdef".toList
  description := []
  rootPath := ⟨"/w".toList⟩
  files := ⟨[(⟨"a.txt".toList⟩, ⟨⟨"a.txt".toList⟩, "6f6e65".toList, 3, false, storage⟩)],
    List.nodup_singleton _⟩
  integrityHash := []
  totalSize := 3

end SnapshotValidation

end Devit
