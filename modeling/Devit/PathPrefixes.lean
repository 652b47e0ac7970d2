import Devit.DaemonPolicy
import Devit.Library.Spelling

/-! What the daemon's policy makes of a path. It compares the text of the path with the
directories of its lists, where it should compare the place: a name that goes on after a
trusted directory's, a `..`, and a doubled slash are each enough to get past it. -/
namespace Devit
open Text Path

namespace PathPrefixes
open Daemon

def forbidden : List String := ["/etc", "/var", "/home", "/root", "/sys", "/proc"]

def trusted : List String := ["/workdir/src", "/workdir/tests", "/tmp/devit"]

def sensitive : List String := ["/etc/shadow", "/root/.ssh"]

/-- The lexical normal form of an absolute path: its names, with `.`, `..` and repeated slashes
resolved. -/
def normalForm (path : Text) : Option (List Text) :=
  if isAbsolute ⟨path⟩ then some (collapse (components ⟨path⟩)) else none

/-- The normal form of a path lies in one of the directories. -/
def Inside (dirs : List String) (path : Text) : Prop :=
  ∃ dir ∈ dirs, ∃ above names, normalForm dir.toList = some above ∧
    normalForm path = some names ∧ above <+: names

instance (dirs : List String) (path : Text) : Decidable (Inside dirs path) :=
  decidable_of_iff (∃ dir ∈ dirs, ∃ above ∈ normalForm dir.toList,
      ∃ names ∈ normalForm path, above <+: names) <| by
    simp only [Inside, Option.mem_def, exists_and_left]

/-- What the policy is there for, for the path of a payload. -/
structure Guarded (payload : Json) (path : Text) : Prop where
  trusted : evalPatchApply payload = .allow → Inside trusted path
  forbidden : Inside forbidden path → evalPatchApply payload = .deny
  sensitive : Inside sensitive path → evalFileRead payload = .deny

/-- The text of a path says where the path leads: it begins as a trusted directory does only if
it stays in one, and as a forbidden or a sensitive one if it lies there. -/
structure Straight (path : Text) : Prop where
  stays : startsWithAny trusted path = true → Inside trusted path
  shown : Inside forbidden path → startsWithAny forbidden path = true
  marked : Inside sensitive path → containsAny ["password", "secret", "key"] path = true ∨
    startsWithAny sensitive path = true

/-- A path that is relative, or written from its names with a slash before each. -/
def Plain (path : Text) : Prop :=
  isAbsolute ⟨path⟩ = false ∨
    ∃ names : List Text, names ≠ [] ∧ (∀ name ∈ names, Component.Plain (.normal name)) ∧
      path = spell names

variable {payload : Json} {path : Text}

/-! ## The answers -/

theorem startsWithAny_iff {dirs : List String} :
    startsWithAny dirs path = true ↔ ∃ dir ∈ dirs, ∃ rest, path = dir.toList ++ rest := by
  rw [startsWithAny, List.any_eq_true]
  exact exists_congr fun dir => and_congr_right fun _ => startsWith_iff

/-- No directory of one list begins as one of the other does. -/
theorem trusted_apart (begins : startsWithAny trusted path = true) :
    startsWithAny forbidden path = false := by
  have apart : ∀ dir ∈ trusted, ∀ other ∈ forbidden,
      ¬ dir.toList <+: other.toList ∧ ¬ other.toList <+: dir.toList := by
    decide
  rw [Bool.eq_false_iff]
  intro begins'
  obtain ⟨dir, member, rest, rfl⟩ := startsWithAny_iff.mp begins
  obtain ⟨other, member', more, same⟩ := startsWithAny_iff.mp begins'
  have prefixes := List.prefix_or_prefix_of_prefix (List.prefix_append dir.toList rest)
    ⟨more, same.symm⟩
  exact prefixes.elim (apart dir member other member').1 (apart dir member other member').2

theorem evalPatchApply_allow (given : taskText "path" payload = some path) :
    evalPatchApply payload = .allow ↔ startsWithAny trusted path = true := by
  rw [evalPatchApply, given]
  cases begins : startsWithAny trusted path with
  | true =>
    have apart := trusted_apart begins
    simp only [trusted, forbidden] at begins apart
    simp [begins, apart]
  | false =>
    simp only [trusted] at begins
    simp only [begins, Bool.false_eq_true, if_false, iff_false]
    split <;> nofun

theorem evalPatchApply_deny (given : taskText "path" payload = some path) :
    evalPatchApply payload = .deny ↔ startsWithAny forbidden path = true := by
  rw [evalPatchApply, given]
  cases begins : startsWithAny forbidden path with
  | true =>
    simp only [forbidden] at begins
    simp [begins]
  | false =>
    simp only [forbidden] at begins
    simp only [begins, Bool.false_eq_true, if_false, iff_false]
    split <;> nofun

theorem evalFileRead_deny (given : taskText "path" payload = some path) :
    evalFileRead payload = .deny ↔ containsAny ["password", "secret", "key"] path = true ∨
      startsWithAny sensitive path = true := by
  rw [evalFileRead, given, sensitive]
  dsimp only
  rw [← Bool.or_eq_true]
  split
  · rename_i denied
    exact iff_of_true rfl denied
  · rename_i passed
    refine iff_of_false ?_ passed
    split
    · split <;> nofun
    · nofun

theorem guarded_of_path (given : taskText "path" payload = some path) :
    Guarded payload path ↔ Straight path := by
  constructor
  · intro guarded
    refine ⟨fun begins => guarded.trusted ((evalPatchApply_allow given).mpr begins),
      fun inside => (evalPatchApply_deny given).mp (guarded.forbidden inside),
      fun inside => (evalFileRead_deny given).mp (guarded.sensitive inside)⟩
  · intro straight
    refine ⟨fun allowed => straight.stays ((evalPatchApply_allow given).mp allowed),
      fun inside => (evalPatchApply_deny given).mpr (straight.shown inside),
      fun inside => (evalFileRead_deny given).mpr (straight.marked inside)⟩

/-! ## Plainly written paths -/

/-- The names of a directory of the lists. -/
def dirNames (dir : String) : List Text := collapse (components ⟨dir.toList⟩)

theorem listed : ∀ dir ∈ trusted ++ forbidden ++ sensitive,
    (∀ name ∈ dirNames dir, '/' ∉ name) ∧ dir.toList = spell (dirNames dir) ∧
      normalForm dir.toList = some (dirNames dir) := by
  decide +kernel

theorem normalForm_spell {names : List Text} (filled : names ≠ [])
    (plain : ∀ name ∈ names, Component.Plain (.normal name)) :
    normalForm (spell names) = some names := by
  obtain ⟨first, rest, rfl⟩ := List.exists_cons_of_ne_nil filled
  have absolute : isAbsolute ⟨spell (first :: rest)⟩ = true := startsWith_append ['/'] _
  rw [normalForm, if_pos absolute, components_spell filled plain, collapse_names]

/-- A plainly written path lies in a directory if it is written as that directory, and the name
ends there. -/
theorem inside_iff {names : List Text} (filled : names ≠ [])
    (plain : ∀ name ∈ names, Component.Plain (.normal name)) {dirs : List String}
    (known : dirs ⊆ trusted ++ forbidden ++ sensitive) :
    Inside dirs (spell names) ↔
      ∃ dir ∈ dirs, ∃ rest, spell names = dir.toList ++ rest ∧ Ends rest := by
  have clean : ∀ name ∈ names, '/' ∉ name := fun name member => (plain name member).2.1
  refine exists_congr fun dir => and_congr_right fun member => ?_
  obtain ⟨clean', written, form⟩ := listed dir (known member)
  rw [form, normalForm_spell filled plain, written, ← prefix_iff_spell clean' clean]
  constructor
  · rintro ⟨above, below, same, same', inside⟩
    cases same
    cases same'
    exact inside
  · exact fun inside => ⟨_, _, rfl, rfl, inside⟩

theorem begins_of_inside {names : List Text} (filled : names ≠ [])
    (plain : ∀ name ∈ names, Component.Plain (.normal name)) {dirs : List String}
    (known : dirs ⊆ trusted ++ forbidden ++ sensitive) (inside : Inside dirs (spell names)) :
    startsWithAny dirs (spell names) = true := by
  obtain ⟨dir, member, rest, same, -⟩ := (inside_iff filled plain known).mp inside
  exact startsWithAny_iff.mpr ⟨dir, member, rest, same⟩

theorem relative_outside (relative : isAbsolute ⟨path⟩ = false) {dirs : List String}
    (known : dirs ⊆ trusted ++ forbidden ++ sensitive) :
    ¬ Inside dirs path ∧ ∀ dir ∈ dirs, ∀ rest, path ≠ dir.toList ++ rest := by
  constructor
  · rintro ⟨dir, -, above, names, -, form, -⟩
    rw [normalForm, relative] at form
    cases form
  · rintro dir member rest rfl
    have rooted : ∀ dir ∈ trusted ++ forbidden ++ sensitive,
        startsWith ['/'] dir.toList = true := by
      decide
    obtain ⟨tail, shape⟩ := startsWith_iff.mp (rooted dir (known member))
    rw [isAbsolute, shape, List.append_assoc, startsWith_append] at relative
    cases relative

/-- **Plain paths.** Where nothing is to be resolved the text misleads only by a name that goes
on after a trusted directory's. -/
theorem straight_plain (plain : Plain path) :
    Straight path ↔ ∀ dir ∈ trusted, ∀ rest, path = dir.toList ++ rest → Ends rest := by
  rcases plain with relative | ⟨names, filled, plain, rfl⟩
  · have none_trusted := @relative_outside path relative trusted (by decide)
    refine iff_of_true ⟨fun begins => ?_, fun inside => ?_, fun inside => ?_⟩ ?_
    · obtain ⟨dir, member, rest, same⟩ := startsWithAny_iff.mp begins
      exact absurd same (none_trusted.2 dir member rest)
    · exact absurd inside (relative_outside relative (by decide)).1
    · exact absurd inside (relative_outside relative (by decide)).1
    · exact fun dir member rest same => absurd same (none_trusted.2 dir member rest)
  · constructor
    · intro straight dir member rest same
      have begins := startsWithAny_iff.mpr ⟨dir, member, rest, same⟩
      obtain ⟨other, member', more, same', ends⟩ :=
        (inside_iff filled plain (by decide)).mp (straight.stays begins)
      -- of two trusted directories neither begins the other
      have single : ∀ dir ∈ trusted, ∀ other ∈ trusted,
          dir.toList <+: other.toList ∨ other.toList <+: dir.toList → dir = other := by
        decide
      obtain rfl := single dir member other member'
        (List.prefix_or_prefix_of_prefix ⟨rest, same.symm⟩ ⟨more, same'.symm⟩)
      rw [List.append_cancel_left (same.symm.trans same')]
      exact ends
    · intro ends
      refine ⟨fun begins => ?_, begins_of_inside filled plain (by decide), fun inside =>
        .inr (begins_of_inside filled plain (by decide) inside)⟩
      obtain ⟨dir, member, rest, same⟩ := startsWithAny_iff.mp begins
      exact (inside_iff filled plain (by decide)).mpr
        ⟨dir, member, rest, same, ends dir member rest same⟩

/-- **Paths by their text.** The policy guards the path of a payload exactly if the path's text
says where it leads; a plainly written one does so unless a name goes on after a trusted
directory's. -/
theorem guarded_iff (given : taskText "path" payload = some path) :
    (Guarded payload path ↔ Straight path) ∧
      (Plain path → (Guarded payload path ↔
        ∀ dir ∈ trusted, ∀ rest, path = dir.toList ++ rest → Ends rest)) :=
  ⟨guarded_of_path given, fun plain => (guarded_of_path given).trans (straight_plain plain)⟩

/-- A delegation that names a path. -/
def delegationOf (path : String) : Json :=
  .ofFields [("task", .ofFields [("path", .string path.toList)])]

/-- A file of the sources is guarded. -/
theorem source_file_guarded :
    Guarded (delegationOf "/workdir/src/a.rs") "/workdir/src/a.rs".toList := by
  refine ((guarded_iff (by decide +kernel)).1).mpr ?_
  exact ⟨by decide +kernel, by decide +kernel, by decide +kernel⟩

/-- Three ways past the policy: up from a trusted directory, by one slash more, and by a name
that goes on. -/
theorem policy_passed :
    (evalPatchApply (delegationOf "/workdir/src/../../etc/passwd") = .allow ∧
      Inside forbidden "/workdir/src/../../etc/passwd".toList) ∧
    (evalFileRead (delegationOf "//etc/shadow") = .allow ∧
      Inside sensitive "//etc/shadow".toList) ∧
    (evalPatchApply (delegationOf "/workdir/src2/a.rs") = .allow ∧
      ¬ Inside trusted "/workdir/src2/a.rs".toList) := by
  decide +kernel

end PathPrefixes

end Devit
