import Devit.PatchSections
import Devit.SnapshotRestore
import Devit.Library.Outline

/-! What a restore that fails leaves behind. Files are written one after the other and
nothing is taken back, so a file written before stays as it was written. The tree is
what it was exactly if every file before the one that fails is put back over one that
is there, they all hold in the end what they held, and no directory is made. -/
namespace Devit
open Text Path FileSystem
open Files (Loc Later entry)

namespace RestoreAtomicity
open PatchSections (ParentThere)
open SnapshotRestore (writeFile_cases createParents_widens)

/-- One file of a snapshot, under its path. -/
abbrev Entry := PathBuf × SnapshotFile

/-- The options of `restore_snapshot`. -/
abbrev forced : RestoreOptions := ⟨true, true, false, false⟩

section
variable (crates : SnapshotCrates) (denied : Loc Text → Bool) (snapshot : Snapshot) (d : Disk)

/-- Where a file of the snapshot is restored. -/
def target (e : Entry) : PathBuf := pathJoin snapshot.rootPath e.1

/-- The content of the file can be had. -/
def Decodable (e : Entry) : Prop :=
  ∃ content, decode crates snapshot d (target snapshot e) e.2 = .ok content

/-- A file can be written at the path. -/
def Writable (p : PathBuf) : Prop :=
  ∃ place, lookup d true p = .ok place ∧ entry d.tree place.loc ≠ some .dir ∧
    denied place.loc = false

/-- Restoring the file needs no directory made and succeeds. -/
structure Restorable (e : Entry) : Prop where
  parent : ParentThere d (target snapshot e)
  decodable : Decodable crates snapshot d e
  writable : Writable denied d (target snapshot e)

/-- The file is restored over one that is there. -/
def Replaces (e : Entry) : Prop := ∃ content, readFile d (target snapshot e) = .ok content

/-- What a file is restored with is written where its path leads on the disk before. -/
def overwrite (now : Disk) (e : Entry) : Disk :=
  match lookup d true (target snapshot e), decode crates snapshot now (target snapshot e) e.2 with
  | .ok place, .ok content => now.put place.loc (some (.file content))
  | _, _ => now

/-- The disk with these files written over, one after the other. -/
def overwritten (done : List Entry) : Disk := done.foldl (overwrite crates snapshot d) d

/-- The files before the one that fails are put back over files that are there and that
hold in the end what they held, and for the one that fails no directory can be made. -/
structure FailsUntouched (done : List Entry) (e : Entry) : Prop where
  before : ∀ f ∈ done, Replaces snapshot d f ∧ Restorable crates denied snapshot d f
  same : (overwritten crates snapshot d done).tree = d.tree
  blocked : ¬ Restorable crates denied snapshot d e
  unmakeable : ∀ above, parent (target snapshot e) = some above → Unmakeable d above

end

variable {crates : SnapshotCrates} {denied : Loc Text → Bool} {snapshot : Snapshot}
  {d d' s s' : Disk} {e : Entry}

/-! ## On a disk where files were written over -/

theorem readFile_ok {p : PathBuf} {content : Content} : readFile d p = .ok content ↔
    ∃ place, lookup d true p = .ok place ∧ entry d.tree place.loc = some (.file content) := by
  rw [readFile, stat_eq]
  cases lookup d true p with
  | error e => simp
  | ok place =>
    cases there : entry d.tree place.loc with
    | none => simp [there]
    | some node => cases node <;> simp [there]

theorem readable_iff (overlaid : Overlaid d s) (p : PathBuf) :
    (∃ content, readFile s p = .ok content) ↔ ∃ content, readFile d p = .ok content := by
  simp only [readFile_ok, overlaid.lookup]
  rw [exists_comm, exists_comm (α := Content)]
  simp only [exists_and_left, overlaid.outline.file_iff]

theorem decodable_iff (overlaid : Overlaid d s) (e : Entry) :
    Decodable crates snapshot s e ↔ Decodable crates snapshot d e := by
  have reads := readable_iff overlaid
  unfold Decodable decode
  cases e.2.storage with
  | inline content => exact Iff.rfl
  | compressed packed => exact Iff.rfl
  | deduplicated hash => exact Iff.rfl
  | external path =>
    have one := reads path
    dsimp only
    cases first : readFile s path <;> cases second : readFile d path <;>
      simp [first, second] at one ⊢

theorem writable_iff (overlaid : Overlaid d s) (p : PathBuf) :
    Writable denied s p ↔ Writable denied d p := by
  simp only [Writable, overlaid.lookup, ne_eq, overlaid.outline.dir_iff]

theorem parentThere_iff (overlaid : Overlaid d s) (p : PathBuf) :
    ParentThere s p ↔ ParentThere d p := by
  simp only [ParentThere, overlaid.isDir_iff]

theorem restorable_iff (overlaid : Overlaid d s) (e : Entry) :
    Restorable crates denied snapshot s e ↔ Restorable crates denied snapshot d e := by
  constructor
  · rintro ⟨parent, decodable, writable⟩
    exact ⟨(parentThere_iff overlaid _).mp parent, (decodable_iff overlaid e).mp decodable,
      (writable_iff overlaid _).mp writable⟩
  · rintro ⟨parent, decodable, writable⟩
    exact ⟨(parentThere_iff overlaid _).mpr parent, (decodable_iff overlaid e).mpr decodable,
      (writable_iff overlaid _).mpr writable⟩

theorem overwrite_overlaid (overlaid : Overlaid d s) (now : Disk) (e : Entry) :
    overwrite crates snapshot s now e = overwrite crates snapshot d now e := by
  rw [overwrite, overwrite, overlaid.lookup]

/-- Writing over a file that is there keeps the outline. -/
theorem Replaces.overlaid (replaces : Replaces snapshot d e) (overlaid : Overlaid d s) :
    Overlaid d (overwrite crates snapshot d s e) := by
  obtain ⟨content, reads⟩ := replaces
  obtain ⟨place, leads, there⟩ := readFile_ok.mp reads
  rw [overwrite, leads]
  split
  · rename_i found _ same _
    cases same
    exact overlaid.put there
  · exact overlaid

/-! ## One file -/

theorem createParents_unchanged_iff (sound : s.Sound) (p : PathBuf) :
    (createParents forced p s).2 = s ↔ ∀ above, parent p = some above → Unmakeable s above := by
  unfold createParents
  rw [if_pos rfl]
  cases parent p with
  | none => simp
  | some above =>
    simp only [Option.some.injEq, forall_eq']
    rw [← createDirAll_unchanged_iff sound]
    cases createDirAll above s with
    | mk outcome made => cases outcome <;> exact Iff.rfl

theorem createParents_of_there (sound : s.Sound) {p : PathBuf} (there : ParentThere s p) :
    createParents forced p s = (.ok (), s) := by
  unfold createParents
  rw [if_pos rfl]
  cases higher : parent p with
  | none => rfl
  | some above =>
    dsimp only
    rcases there above higher with empty | isDir
    · rw [createDirAll, createDirAllWithin]
      simp only [empty, ↓reduceIte]
    · rw [createDirAll_there sound isDir]

/-- Where nothing is made, the call succeeds if the directory is there. -/
theorem createParents_there (sound : s.Sound) {p : PathBuf} (stays : (createParents forced p s).2 = s) :
    (createParents forced p s).1 = .ok () ↔ ParentThere s p := by
  refine ⟨fun ran above higher => ?_, fun there => by rw [createParents_of_there sound there]⟩
  unfold createParents at stays ran
  rw [if_pos rfl, higher] at stays ran
  dsimp only at stays ran
  refine isDir_of_createDirAll sound ?_
  cases result : createDirAll above s with
  | mk outcome made =>
    rw [result] at stays ran
    cases outcome with
    | ok _ => rw [show made = s from stays]
    | error e => cases ran

theorem restoreFile_after {p : PathBuf} {file : SnapshotFile} {made : Disk}
    (parents : createParents forced p s = (.ok (), made)) :
    restoreFile crates denied forced snapshot p file s =
      match decode crates snapshot made p file with
      | .error x => (.error x, made)
      | .ok content => ioAt "write file" p (writeFile denied p content) made := by
  refine (Action.bind_of_ok parents).trans ?_
  cases decoded : decode crates snapshot made p file with
  | error x => exact Action.bind_of_error (congrArg (·, made) decoded)
  | ok content => exact Action.bind_of_ok (congrArg (·, made) decoded)

theorem restoreFile_cases (crates : SnapshotCrates) (denied : Loc Text → Bool) (snapshot : Snapshot)
    (p : PathBuf) (file : SnapshotFile) (s : Disk) :
    (∃ x, restoreFile crates denied forced snapshot p file s =
      (.error x, (createParents forced p s).2)) ∨
    ∃ made place content, createParents forced p s = (.ok (), made) ∧
      lookup made true p = .ok place ∧ entry made.tree place.loc ≠ some .dir ∧
      denied place.loc = false ∧ decode crates snapshot made p file = .ok content ∧
      restoreFile crates denied forced snapshot p file s =
        (.ok (), made.put place.loc (some (.file content))) := by
  cases parents : createParents forced p s with
  | mk outcome made =>
    cases outcome with
    | error x => exact .inl ⟨x, Action.bind_of_error parents⟩
    | ok _ =>
      rw [restoreFile_after parents]
      cases decoded : decode crates snapshot made p file with
      | error x => exact .inl ⟨x, rfl⟩
      | ok content =>
        dsimp only
        rw [ioAt]
        rcases writeFile_cases denied p content made with
          ⟨x, failed⟩ | ⟨place, leads, notDir, permitted, wrote⟩
        · rw [failed]
          exact .inl ⟨_, rfl⟩
        · rw [wrote]
          exact .inr ⟨made, place, content, rfl, leads, notDir, permitted, decoded, rfl⟩

/-- **One file.** Where nothing is made, a file is written over if it can be restored,
and else nothing happens. -/
theorem restoreFile_still (sound : s.Sound)
    (stays : (createParents forced (target snapshot e) s).2 = s) :
    (Restorable crates denied snapshot s e →
      restoreFile crates denied forced snapshot (target snapshot e) e.2 s =
        (.ok (), overwrite crates snapshot s s e)) ∧
    (¬ Restorable crates denied snapshot s e →
      ∃ x, restoreFile crates denied forced snapshot (target snapshot e) e.2 s = (.error x, s)) := by
  have parents := createParents_there sound stays
  rcases restoreFile_cases crates denied snapshot (target snapshot e) e.2 s with
    ⟨x, failed⟩ | ⟨made, place, content, ran, leads, notDir, permitted, decoded, wrote⟩
  · rw [stays] at failed
    refine ⟨fun restorable => ?_, fun _ => ⟨x, failed⟩⟩
    obtain ⟨parent, ⟨content, decoded⟩, place, leads, notDir, permitted⟩ := restorable
    have ran : createParents forced (target snapshot e) s = (.ok (), s) :=
      Prod.ext (parents.mpr parent) stays
    have written : writeFile denied (target snapshot e) content s =
        (.ok (), s.put place.loc (some (.file content))) := by
      unfold writeFile
      simp only [leads, notDir, permitted, Bool.false_eq_true, ↓reduceIte]
    rw [overwrite, leads, restoreFile_after ran, decoded]
    dsimp only
    rw [ioAt, written]
  · rw [ran] at stays parents
    rw [show made = s from stays] at leads notDir decoded wrote
    rw [overwrite, leads, decoded]
    exact ⟨fun _ => wrote, fun stuck =>
      absurd ⟨parents.mp rfl, ⟨content, decoded⟩, place, leads, notDir, permitted⟩ stuck⟩

theorem restoreEntry_eq (listed : e ∈ snapshot.files.entries) (acc : List PathBuf) (s : Disk) :
    restoreEntry crates denied forced snapshot acc e.1 s =
      match restoreFile crates denied forced snapshot (target snapshot e) e.2 s with
      | (.ok (), s') => (.ok (acc ++ [e.1]), s')
      | (.error x, s') => (.error x, s') := by
  have unbacked : backupTarget denied forced (target snapshot e) s = (.ok (), s) := by
    rw [backupTarget, Bool.and_false, if_neg Bool.false_ne_true]
  unfold restoreEntry
  rw [FileMap.get_of_mem listed]
  simp only [Bool.not_true, Bool.and_false, Bool.false_eq_true, ↓reduceIte]
  refine (Action.bind_of_ok unbacked).trans ?_
  cases ran : restoreFile crates denied forced snapshot (target snapshot e) e.2 s with
  | mk outcome s' =>
    cases outcome with
    | ok _ => exact Action.bind_of_ok ran
    | error x => exact Action.bind_of_error ran

/-- Files that can be restored over ones that are there are written over, and all goes well. -/
theorem restoreAll_overwrites (sound : d.Sound) {done : List Entry}
    (listed : ∀ e ∈ done, e ∈ snapshot.files.entries)
    (before : ∀ f ∈ done, Replaces snapshot d f ∧ Restorable crates denied snapshot d f)
    (overlaid : Overlaid d s) (acc : List PathBuf) :
    Action.forEach (restoreEntry crates denied forced snapshot) acc (done.map (·.1)) s =
        (.ok (acc ++ done.map (·.1)), done.foldl (overwrite crates snapshot d) s) ∧
      Overlaid d (done.foldl (overwrite crates snapshot d) s) := by
  induction done generalizing s acc with
  | nil => exact ⟨by simp, overlaid⟩
  | cons e done ih =>
    obtain ⟨replaces, restorable⟩ := before e List.mem_cons_self
    have own := (restorable_iff overlaid e).mpr restorable
    have parents := createParents_of_there (overlaid.sound sound) own.parent
    have ran := (restoreFile_still (overlaid.sound sound) (by rw [parents])).1 own
    rw [overwrite_overlaid overlaid] at ran
    have first : restoreEntry crates denied forced snapshot acc e.1 s =
        (.ok (acc ++ [e.1]), overwrite crates snapshot d s e) := by
      rw [restoreEntry_eq (listed e List.mem_cons_self), ran]
    obtain ⟨rest, later⟩ := ih (fun f member => listed f (List.mem_cons_of_mem _ member))
      (fun f member => before f (List.mem_cons_of_mem _ member)) (replaces.overlaid overlaid)
      (acc ++ [e.1])
    refine ⟨?_, later⟩
    rw [List.map_cons, Action.forEach_cons, Action.bind_of_ok first, rest, List.append_assoc]
    rfl

/-- A run fails at the first file that cannot be restored, with nothing changed. -/
theorem FailsUntouched.run (sound : d.Sound) {done rest : List Entry}
    (untouched : FailsUntouched crates denied snapshot d done e)
    (split : snapshot.files.entries = done ++ e :: rest) (acc : List PathBuf) :
    ∃ x after, Action.forEach (restoreEntry crates denied forced snapshot) acc
      snapshot.files.keys d = (.error x, after) ∧ after.tree = d.tree := by
  obtain ⟨before, same, blocked, unmakeable⟩ := untouched
  have listed : ∀ f ∈ done, f ∈ snapshot.files.entries := fun f member => by
    rw [split]
    exact List.mem_append_left _ member
  have own : e ∈ snapshot.files.entries := by simp [split]
  obtain ⟨ran, overlaid⟩ : Action.forEach (restoreEntry crates denied forced snapshot) acc
      (done.map (·.1)) d = (.ok (acc ++ done.map (·.1)), overwritten crates snapshot d done) ∧
        Overlaid d (overwritten crates snapshot d done) :=
    restoreAll_overwrites sound listed before (.refl d) acc
  have stays : (createParents forced (target snapshot e) (overwritten crates snapshot d done)).2 =
      overwritten crates snapshot d done := by
    refine (createParents_unchanged_iff (overlaid.sound sound) _).mpr fun above higher => ?_
    exact (overlaid.unmakeable_iff above).mpr (unmakeable above higher)
  obtain ⟨x, failed⟩ := (restoreFile_still (overlaid.sound sound) stays).2
    fun restorable => blocked ((restorable_iff overlaid e).mp restorable)
  refine ⟨x, _, ?_, same⟩
  have last : restoreEntry crates denied forced snapshot (acc ++ done.map (·.1)) e.1
      (overwritten crates snapshot d done) = (.error x, overwritten crates snapshot d done) := by
    rw [restoreEntry_eq own, failed]
  rw [FileMap.keys, split, List.map_append, Action.forEach_append, Action.bind_of_ok ran,
    List.map_cons, Action.forEach_cons]
  exact Action.bind_of_error last

end RestoreAtomicity

end Devit
