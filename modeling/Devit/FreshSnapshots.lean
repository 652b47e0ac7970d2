import Devit.SnapshotConfinement
import Devit.SnapshotRetention
import Devit.SnapshotReversion

/-! Whether a snapshot is valid right after it is made. The capture has filters that the
comparison does not have, and the file of the snapshot is written when the capture is over: a
workspace with a filtered file, or with the store in it, has a file more than its snapshot. -/
namespace Devit
open Text Path FileSystem
open Files (Loc Node Passable entry)

namespace CoreEngine
open SnapshotManager

variable (crates : StoreCrates) (listing : Listing) (manager : SnapshotManager)

/-- `snapshot_create`, in the current directory of the workspace. The journal is in memory. -/
def snapshotCreate (rootPath : PathBuf) (name : Option Text) (timestamp createdAt : Nat) :
    Action SnapshotError Disk Text := do
  let snapshotId ← createSnapshot crates listing manager
    ⟨rootPath, name.getD "manual".toList, none, timestamp, createdAt⟩
  let _ ← fun d => (getSnapshot crates.toSnapshotCrates d manager snapshotId, d)
  pure snapshotId

def snapshotValidate (snapshotId : Text) (paths : List PathBuf) (d : Disk) :
    Except SnapshotError Bool := do
  let snapshot ← getSnapshot crates.toSnapshotCrates d manager snapshotId
  let differences ← snapshot.compareWithCurrent crates.toSnapshotCrates d
    (if paths = [] then none else some paths)
  .ok differences.isEmpty

end CoreEngine

namespace FreshSnapshots
open SnapshotManager SnapshotRestore SnapshotFiles CoreEngine
open SnapshotReversion (skipped get_isSome get_insert)

/-- The names lead down through directories, and what they lead to is none. -/
structure Walked (d : Disk) (top : Loc Text) (names : List Text) (node : Node Text Content) :
    Prop where
  named : names ≠ []
  dirs : ∀ above, above <+: names → above ≠ names → entry d.tree (top ++ above) = some .dir
  there : entry d.tree (top ++ names) = some node
  leaf : node ≠ .dir

/-- WalkDir lists what is below a directory and follows no link; names are names. -/
structure Listed (crates : StoreCrates) (d : Disk) (root : PathBuf) (top : Loc Text) : Prop where
  all : ∀ names, names ∈ crates.walkDir d false root ↔ ∃ node, Walked d top names node
  plain : ∀ names ∈ crates.walkDir d false root, ∀ name ∈ names, PlainName name

/-- serde writes a snapshot with the content of its files, so that it is longer. -/
def Longer (crates : StoreCrates) : Prop :=
  ∀ snapshot content, crates.serialize snapshot = .ok content →
    ∀ e ∈ snapshot.files.entries, ∀ stored, e.2.storage = .inline stored →
      (contentBytes stored).length < (contentBytes content).length

/-- A workspace when its storage directory is there: the store, at `shelf`, holds snapshots
only, and no link in the workspace leads to one of its entries. -/
structure Workspace (crates : StoreCrates) (manager : SnapshotManager) (d : Disk) (root : PathBuf)
    (top shelf : Loc Text) (kept : List Filed) : Prop where
  filled : root.text ≠ []
  opens : Opens d root top
  holding : Holding crates manager d shelf kept
  apart : ∀ names target loc, Walked d top names (.link target) →
    lookup d true (entryPath root names) = .ok (.found loc) → ∀ name, loc ≠ shelf ++ [name]

/-- Every file of the workspace passes the filters, and the store is not in it. -/
structure Whole (d : Disk) (root : PathBuf) (top shelf : Loc Text) : Prop where
  included : ∀ names content, Walked d top names (.file content) →
    skipped .standard root names content = false
  outside : ¬ top <+: shelf

variable {crates : StoreCrates} {manager : SnapshotManager} {d d' now after : Disk}
  {root : PathBuf} {top shelf : Loc Text} {names : List Text} {content : Content}

/-! ## What is beside the store -/

/-- The disks differ in entries of the store that are no directories and no links. -/
structure Beside (shelf : Loc Text) (d d' : Disk) : Prop where
  cwd : d'.cwd = d.cwd
  same : ∀ loc, d'.tree loc = d.tree loc ∨
    (∃ name, loc = shelf ++ [name]) ∧ ¬ Passable d.tree loc

theorem Beside.refl (shelf : Loc Text) (d : Disk) : Beside shelf d d := ⟨rfl, fun _ => .inl rfl⟩

theorem passable_congr {loc : Loc Text} (same : d'.tree loc = d.tree loc) :
    Passable d'.tree loc ↔ Passable d.tree loc := by
  unfold Passable entry
  rw [same]

theorem Beside.trans {mid : Disk} (first : Beside shelf d mid) (second : Beside shelf mid d') :
    Beside shelf d d' := by
  refine ⟨second.cwd.trans first.cwd, fun loc => ?_⟩
  rcases first.same loc with same | changed
  · rcases second.same loc with same' | ⟨inStore, blocked⟩
    · exact .inl (same'.trans same)
    · exact .inr ⟨inStore, fun passable => blocked ((passable_congr same).mpr passable)⟩
  · exact .inr changed

theorem Beside.put {name : Text} (blocked : ¬ Passable d.tree (shelf ++ [name]))
    (node : Option (Node Text Content)) : Beside shelf d (d.put (shelf ++ [name]) node) := by
  refine ⟨rfl, fun loc => ?_⟩
  by_cases here : loc = shelf ++ [name]
  · subst here
    exact .inr ⟨⟨name, rfl⟩, blocked⟩
  · exact .inl (Function.update_of_ne here _ _)

theorem Beside.tree {loc : Loc Text} (beside : Beside shelf d d')
    (other : Passable d.tree loc ∨ ∀ name, loc ≠ shelf ++ [name]) : d'.tree loc = d.tree loc := by
  rcases beside.same loc with same | ⟨⟨name, inStore⟩, blocked⟩
  · exact same
  · exact (other.elim blocked fun apart => apart name inStore).elim

theorem Beside.entry {loc : Loc Text} (beside : Beside shelf d d')
    (other : Passable d.tree loc ∨ ∀ name, loc ≠ shelf ++ [name]) :
    entry d'.tree loc = entry d.tree loc := by
  rw [Files.entry, beside.tree other, ← Files.entry]

theorem Beside.sound (beside : Beside shelf d d') (sound : d.Sound) : d'.Sound := by
  intro above within
  rw [beside.cwd] at within
  have isDir := sound above within
  rw [beside.entry (.inl (.inl isDir))]
  exact isDir

theorem Beside.base (beside : Beside shelf d d') (p : PathBuf) :
    FileSystem.base d' p = FileSystem.base d p := by
  rw [FileSystem.base, FileSystem.base, beside.cwd]

theorem Beside.opens {p : PathBuf} {dir : Loc Text} (beside : Beside shelf d d')
    (opens : Opens d p dir) : Opens d' p dir := by
  rw [Opens, beside.base]
  exact Files.LeadsTo.congr opens fun loc passable => beside.tree (.inl passable)

/-- What is found outside of the store is found again. -/
theorem Beside.lookup {p : PathBuf} {loc : Loc Text} (beside : Beside shelf d d')
    (apart : ∀ name, loc ≠ shelf ++ [name]) (leads : lookup d true p = .ok (.found loc)) :
    lookup d' true p = .ok (.found loc) := by
  unfold FileSystem.lookup at leads ⊢
  cases spelled : route p with
  | none => simp [spelled] at leads
  | some r =>
    rw [spelled] at leads
    simp only [Files.Disk.resolve, Files.resolve, Files.Route.walk, beside.cwd] at leads ⊢
    refine Files.walk_found_congr leads ?_
    rintro other (passable | rfl)
    · exact beside.tree (.inl passable)
    · exact beside.tree (.inr apart)

/-! ## What making a snapshot does beside the store -/

theorem blocked_of_shelf {files : Text → Option Content} {name : Text}
    (store : Shelf d manager.snapshotDir shelf files)
    (notDir : entry d.tree (shelf ++ [name]) ≠ some .dir) :
    ¬ Passable d.tree (shelf ++ [name]) := by
  have held := store.free notDir
  rintro (isDir | ⟨target, isLink⟩)
  · exact notDir isDir
  · rw [held] at isLink
    cases there : files name <;> rw [there] at isLink <;> cases isLink

/-- What is put is no directory and no link. -/
theorem blocked_put {loc : Loc Text} (below : loc ≠ []) {node : Option (Node Text Content)}
    (plain : node = none ∨ ∃ content, node = some (.file content)) :
    ¬ Passable (d.put loc node).tree loc := by
  have made : entry (d.put loc node).tree loc = node := Files.entry_put_self node below
  rw [Passable, made]
  rcases plain with rfl | ⟨content, rfl⟩ <;> simp

/-- Writing under another name and renaming. -/
theorem beside_replaced {files : Text → Option Content} {name temp : Text} {empty : Content}
    (store : Shelf d manager.snapshotDir shelf files) (apart : name ≠ temp)
    (tempFree : entry d.tree (shelf ++ [temp]) ≠ some .dir)
    (free : entry d.tree (shelf ++ [name]) ≠ some .dir) :
    Beside shelf d (replaced d (shelf ++ [temp]) (shelf ++ [name]) empty content) := by
  have below : shelf ++ [temp] ≠ [] := by simp
  have other : shelf ++ [name] ≠ shelf ++ [temp] := by simpa using apart
  have opened := Beside.put (blocked_of_shelf store tempFree) (some (.file empty))
  have wrote := opened.trans (.put (blocked_put below (.inr ⟨_, rfl⟩)) (some (.file content)))
  have moved := wrote.trans (.put (blocked_put below (.inr ⟨_, rfl⟩)) none)
  refine moved.trans (.put (fun passable => ?_) (some (.file content)))
  refine blocked_of_shelf store free ((passable_congr ?_).mp passable)
  simp only [Files.Disk.put, Files.put, Function.update_of_ne other]

/-- The store after some of its files are deleted. -/
structure Deleted (manager : SnapshotManager) (shelf : Loc Text) (d d' : Disk)
    (files files' : Text → Option Content) : Prop where
  store : Shelf d' manager.snapshotDir shelf files'
  beside : Beside shelf d d'
  left : ∀ name content, files' name = some content → files name = some content

theorem Deleted.trans {mid : Disk} {files files' files'' : Text → Option Content}
    (first : Deleted manager shelf d mid files files')
    (second : Deleted manager shelf mid d' files' files'') :
    Deleted manager shelf d d' files files'' :=
  ⟨second.store, first.beside.trans second.beside,
    fun name content held => first.left name content (second.left name content held)⟩

theorem deleteSnapshot_deleted {files : Text → Option Content} {id : Text}
    (store : Shelf d manager.snapshotDir shelf files) (dotless : Dotless id)
    (ran : deleteSnapshot manager id d = (.ok (), d')) :
    ∃ files', Deleted manager shelf d d' files files' := by
  have below := below_file store.filled dotless
  rcases SnapshotConfinement.deleteSnapshot_cases manager id d with ⟨e, failed⟩ | deleted
  · rw [failed] at ran
    cases ran
  · obtain ⟨loc, -, leads, notDir, ran'⟩ := deleted
    rw [ran'] at ran
    cases ran
    obtain rfl : shelf ++ [fileOf id] = loc := by
      have there := Except.ok.inj ((store.lookup false below).symm.trans leads)
      have place := congrArg Files.Place.loc there
      rwa [Files.placeAt_loc] at place
    refine ⟨_, store.put notDir none, .put (blocked_of_shelf store notDir) none, ?_⟩
    intro name content held
    by_cases own : name = fileOf id
    · rw [own, Function.update_self] at held
      cases held
    · rwa [Function.update_of_ne own] at held

/-- Deleting some snapshots, one after the other. -/
theorem deleteEach_deleted {infos : List SnapshotInfo} {deleted count : Nat}
    {files : Text → Option Content} (store : Shelf d manager.snapshotDir shelf files)
    (dotless : ∀ info ∈ infos, Dotless info.id)
    (ran : Action.forEach (fun deleted info => do
      deleteSnapshot manager info.id
      pure (deleted + 1)) deleted infos d = (.ok count, d')) :
    ∃ files', Deleted manager shelf d d' files files' := by
  induction infos generalizing deleted d files with
  | nil =>
    cases ran
    exact ⟨files, store, .refl _ _, fun _ _ held => held⟩
  | cons info infos ih =>
    rw [Action.forEach_cons] at ran
    obtain ⟨_, mid, own, rest⟩ := Action.bind_eq_ok ran
    obtain ⟨_, one, first, last⟩ := Action.bind_eq_ok own
    cases last
    obtain ⟨files', first⟩ := deleteSnapshot_deleted store (dotless info List.mem_cons_self) first
    obtain ⟨files'', later⟩ := ih first.store
      (fun other member => dotless other (List.mem_cons_of_mem _ member)) rest
    exact ⟨files'', first.trans later⟩

/-- **Cleaning up** deletes files of the store and leaves all else. -/
theorem cleanup_deleted {listing : Listing} {kept : List Filed} {count : Nat}
    (holding : Holding crates manager d shelf kept) (reads : ReadsBack crates)
    (ran : cleanupOldSnapshots crates listing manager d = (.ok count, d')) :
    ∃ files', Deleted manager shelf d d' (table kept) files' := by
  have nothing : Deleted manager shelf d d (table kept) (table kept) :=
    ⟨holding.shelf, .refl _ _, fun _ _ held => held⟩
  unfold cleanupOldSnapshots at ran
  split at ran
  · cases ran
    exact ⟨_, nothing⟩
  · cases listed : listing d with
    | error e =>
      have there := exists_of_opens holding.shelf.sound holding.shelf.filled holding.shelf.opens
      simp [listSnapshots, there, readEntries, listed] at ran
    | ok catalog =>
      obtain ⟨infos, shown, perm⟩ := holding.list reads listed
      rw [shown] at ran
      dsimp only at ran
      split at ran
      · cases ran
        exact ⟨_, nothing⟩
      · refine deleteEach_deleted holding.shelf (fun info member => ?_) ran
        have inside := (byCreation_perm infos).mem_iff.mp
          ((byCreation_perm (byCreation infos)).mem_iff.mp (List.mem_of_mem_take member))
        obtain ⟨e, own, rfl⟩ := List.mem_map.mp (perm.mem_iff.mp inside)
        exact holding.dotless e own

/-! ## Names of the walk -/

theorem walked_shape (filled : root.text ≠ []) (named : names ≠ [])
    (plain : ∀ name ∈ names, PlainName name) : ∃ init name, names = init ++ [name] ∧
      Below root (entryPath root names) (init ++ [name]) ∧
        Below root (pathJoin root (pathOf names)) (init ++ [name]) := by
  obtain ⟨init, name, rfl⟩ := (List.eq_nil_or_concat names).resolve_left named
  rw [List.concat_eq_append] at plain ⊢
  exact ⟨init, name, rfl, below_entryPath filled plain, below_join filled plain⟩

/-- A path is looked up as what it spells. -/
theorem stat_below_congr {p q : PathBuf} {init : List Text} {name : Text} (follow : Bool)
    (first : Below root p (init ++ [name])) (second : Below root q (init ++ [name])) :
    stat d follow p = stat d follow q := by
  have same : ∀ {p : PathBuf}, Below root p (init ++ [name]) → route p =
      some ⟨isAbsolute root, hops (components root ++ (init ++ [name]).map .normal)⟩ := by
    intro p below
    have shape : components p = (components root ++ init.map .normal) ++ [.normal name] := by
      rw [below.comps]
      simp
    rw [route, if_neg (text_ne_nil shape), below.comps, below.absolute, below.named,
      if_neg Bool.false_ne_true, List.append_nil]
  rw [stat, stat, same first, same second]

/-- A walked name stands where it says. -/
theorem Walked.lookup {node : Node Text Content} (walked : Walked d top names node)
    (sound : d.Sound) (filled : root.text ≠ []) (opens : Opens d root top)
    (plain : ∀ name ∈ names, PlainName name) (follow : Bool)
    (unlinked : follow = true → ∀ target, node ≠ .link target) :
    FileSystem.lookup d follow (entryPath root names) = .ok (.found (top ++ names)) := by
  obtain ⟨init, name, rfl, below, -⟩ := walked_shape filled walked.named plain
  have ground := grounded_base sound root
  have shape : components (entryPath root (init ++ [name])) =
      (components root ++ init.map .normal) ++ [.normal name] := by
    rw [below.comps]
    simp
  have held : Files.Grounded d.tree (top ++ init) := by
    intro above within
    rcases List.prefix_or_prefix_of_prefix within (List.prefix_append top init) with
      inside | ⟨more, rfl⟩
    · exact (Files.LeadsTo.grounded opens ground) above inside
    · have inside := (List.prefix_append_right_inj top).mp within
      refine walked.dirs more (inside.trans (List.prefix_append _ _)) ?_
      rintro rfl
      have short := inside.length_le
      rw [List.length_append, List.length_singleton] at short
      omega
  have holds : FileSystem.Holds d (entryPath root (init ++ [name])) (top ++ init) := by
    rw [FileSystem.Holds, shape, List.dropLast_concat, hops_append, hops_names, below.base]
    exact leads_down ground opens held
  have there := walked.there
  rw [← List.append_assoc] at there ⊢
  rw [lookup_holds sound shape below.named holds fun followed target isLink => ?_, Files.placeAt,
    if_neg (by rw [there]; simp)]
  rw [there, Option.some.injEq] at isLink
  exact unlinked followed target isLink

theorem Walked.stat {node : Node Text Content} (walked : Walked d top names node)
    (sound : d.Sound) (filled : root.text ≠ []) (opens : Opens d root top)
    (plain : ∀ name ∈ names, PlainName name) :
    FileSystem.stat d false (entryPath root names) = .ok node :=
  (stat_eq_ok (walked.lookup sound filled opens plain false nofun)).mpr walked.there

/-! ## Capturing -/

/-- The names lead to a content that no filter passes over. -/
def Takes (d : Disk) (root : PathBuf) (names : List Text) (content : Content) : Prop :=
  stat d true (entryPath root names) = .ok (.file content) ∧
    skipped .standard root names content = false

theorem strip_entryPath (filled : root.text ≠ []) (named : names ≠ [])
    (plain : ∀ name ∈ names, PlainName name) :
    pathStripPrefix (entryPath root names) root = some (pathOf names) := by
  obtain ⟨init, name, rfl, below, -⟩ := walked_shape filled named plain
  exact strip_below below

/-- One entry of the walk is captured, or none of it is taken. -/
theorem captureEntry_cases {crates : SnapshotCrates} {acc next : FileMap × Nat}
    (filled : root.text ≠ []) (named : names ≠ []) (plain : ∀ name ∈ names, PlainName name)
    (ran : captureEntry crates d .standard root acc names = .ok next) :
    ((∀ content, ¬ Takes d root names content) ∧ next.1 = acc.1) ∨
      ∃ content, Takes d root names content ∧ next.1 = acc.1.insert (pathOf names)
        (snapshotFile crates .standard (pathOf names) content) := by
  unfold captureEntry at ran
  simp only [strip_entryPath filled named plain, Option.getD_some] at ran
  unfold Takes skipped
  split at ran
  · rename_i out
    cases ran
    exact .inl ⟨fun content taken => by simp [out] at taken, rfl⟩
  · rename_i passed
    split at ran
    · cases ran
    · rename_i content found
      split at ran
      · rename_i large
        cases ran
        refine .inl ⟨fun other taken => ?_, rfl⟩
        cases found.symm.trans taken.1
        simp [large] at taken
      · rename_i small
        split at ran
        · rename_i binary
          cases ran
          refine .inl ⟨fun other taken => ?_, rfl⟩
          cases found.symm.trans taken.1
          simp [binary] at taken
        · rename_i kept
          cases ran
          exact .inr ⟨content, ⟨found, by simp [passed, small, kept]⟩, rfl⟩
    · cases ran

/-- The entry of a snapshot is what was taken. -/
def Taken (crates : SnapshotCrates) (d : Disk) (root : PathBuf) (e : PathBuf × SnapshotFile) :
    Prop :=
  ∃ names ∈ crates.walkDir d false root, ∃ content, Takes d root names content ∧
    e = (pathOf names, snapshotFile crates .standard (pathOf names) content)

/-- The snapshot has what is taken of the workspace, and nothing else. -/
structure Takings (crates : SnapshotCrates) (d : Disk) (root : PathBuf) (snapshot : Snapshot) :
    Prop where
  rootPath : snapshot.rootPath = root
  entries : ∀ e ∈ snapshot.files.entries, Taken crates d root e
  keys : ∀ path, (snapshot.files.get path).isSome ↔ ∃ names ∈ crates.walkDir d false root,
    (∃ content, Takes d root names content) ∧ same (pathOf names) path = true

theorem mem_insert {files : FileMap} {path : PathBuf} {file : SnapshotFile}
    {e : PathBuf × SnapshotFile} (member : e ∈ (files.insert path file).entries) :
    e ∈ files.entries ∨ e = (path, file) ∨
      ∃ old ∈ files.entries, same old.1 path = true ∧ e = (old.1, file) := by
  unfold FileMap.insert at member
  split at member
  · obtain ⟨old, inside, rfl⟩ := List.mem_map.mp member
    split
    · rename_i equal
      exact .inr (.inr ⟨old, inside, equal, rfl⟩)
    · exact .inl inside
  · rcases List.mem_append.mp member with inside | last
    · exact .inl inside
    · exact .inr (.inl (List.mem_singleton.mp last))

/-- What the walk adds to the snapshot. -/
theorem capture_fold {crates : SnapshotCrates} {walk : List (List Text)} {acc next : FileMap × Nat}
    (filled : root.text ≠ [])
    (plain : ∀ names ∈ crates.walkDir d false root,
      names ≠ [] ∧ ∀ name ∈ names, PlainName name)
    (inside : ∀ names ∈ walk, names ∈ crates.walkDir d false root)
    (before : ∀ e ∈ acc.1.entries, Taken crates d root e)
    (ran : walk.foldlM (captureEntry crates d .standard root) acc = .ok next) :
    (∀ e ∈ next.1.entries, Taken crates d root e) ∧
      ∀ path, (next.1.get path).isSome ↔ (acc.1.get path).isSome ∨ ∃ names ∈ walk,
        (∃ content, Takes d root names content) ∧ same (pathOf names) path = true := by
  induction walk generalizing acc with
  | nil =>
    cases ran
    exact ⟨before, by simp⟩
  | cons names walk ih =>
    rw [List.foldlM_cons] at ran
    obtain ⟨mid, first, rest⟩ := Except.bind_eq_ok ran
    have mine := inside names List.mem_cons_self
    have later := fun others =>
      @ih mid (fun other member => inside other (List.mem_cons_of_mem _ member)) others rest
    obtain ⟨named, clean⟩ := plain names mine
    rcases captureEntry_cases filled named clean first with ⟨none, same⟩ | ⟨content, takes, put⟩
    · rw [same] at later
      obtain ⟨entries, keys⟩ := later before
      refine ⟨entries, fun path => (keys path).trans (or_congr_right ?_)⟩
      simp [none]
    · have own : Taken crates d root
          (pathOf names, snapshotFile crates .standard (pathOf names) content) :=
        ⟨names, mine, content, takes, rfl⟩
      obtain ⟨entries, keys⟩ := later fun e member => by
        rw [put] at member
        rcases mem_insert member with old | rfl | ⟨old, old_inside, equal, rfl⟩
        · exact before e old
        · exact own
        · obtain ⟨names', there, content', -, rfl⟩ := before old old_inside
          rw [same_pathOf (plain names' there).2 clean] at equal
          rwa [equal]
      refine ⟨entries, fun path => (keys path).trans ?_⟩
      have taken : ∃ content, Takes d root names content := ⟨content, takes⟩
      rw [put, get_insert, or_assoc]
      simp [taken]

theorem Listed.walk_plain (listed : Listed crates d root top) :
    ∀ names ∈ crates.walkDir d false root, names ≠ [] ∧ ∀ name ∈ names, PlainName name := by
  intro names member
  obtain ⟨node, walked⟩ := (listed.all names).mp member
  exact ⟨walked.named, listed.plain names member⟩

theorem capture_takings {creation : Creation} {snapshot : DatedSnapshot}
    (filled : root.text ≠ [])
    (plain : ∀ names ∈ crates.walkDir d false root, names ≠ [] ∧ ∀ name ∈ names, PlainName name)
    (engine : creation.options = none) (at_root : creation.rootPath = root)
    (captured : capture crates creation d = .ok snapshot) :
    Takings crates.toSnapshotCrates d root snapshot.toSnapshot := by
  unfold capture at captured
  rw [engine, at_root, Option.getD_none] at captured
  split at captured
  · cases captured
  · rename_i own made
    cases captured
    unfold Snapshot.create at made
    split at made
    · cases made
    · obtain ⟨files, ran, made⟩ := Except.bind_eq_ok made
      cases made
      obtain ⟨entries, keys⟩ := capture_fold filled plain (fun _ member => member)
        (by simp [FileMap.empty]) ran
      refine ⟨rfl, entries, fun path => (keys path).trans ?_⟩
      simp [FileMap.empty, FileMap.get]

theorem Takings.alike {crates : SnapshotCrates} {made read : Snapshot}
    (takings : Takings crates d root made) (alike : Alike made read) :
    Takings crates d root read := by
  refine ⟨alike.rootPath.trans takings.rootPath, fun e member => ?_, fun path => ?_⟩
  · exact takings.entries e (alike.files.mem_iff.mp member)
  · rw [← takings.keys path, get_isSome, get_isSome]
    simp only [alike.files.mem_iff]

/-! ## Comparing -/

section
variable {crates : SnapshotCrates} {snapshot : Snapshot}

theorem mapM_flatten_nil {f : PathBuf → Except SnapshotError (List FileDifference)}
    {paths : List PathBuf} : (∃ found, paths.mapM f = .ok found ∧ found.flatten = []) ↔
      ∀ path ∈ paths, f path = .ok [] := by
  induction paths with
  | nil => exact iff_of_true ⟨[], rfl, rfl⟩ nofun
  | cons path paths ih =>
    rw [List.forall_mem_cons, ← ih, List.mapM_cons]
    constructor
    · rintro ⟨found, ran, none⟩
      obtain ⟨own, first, rest⟩ := Except.bind_eq_ok ran
      obtain ⟨others, later, last⟩ := Except.bind_eq_ok rest
      cases last
      obtain ⟨rfl, nothing⟩ := List.append_eq_nil_iff.mp none
      exact ⟨first, others, later, nothing⟩
    · rintro ⟨first, others, later, nothing⟩
      refine ⟨[] :: others, ?_, nothing⟩
      rw [first, later]
      rfl

theorem compare_nil_iff : snapshot.compareWithCurrent crates d none = .ok [] ↔
    (∀ e ∈ snapshot.files.entries, comparePath crates snapshot d e.1 = .ok []) ∧
      addedFiles crates snapshot d = [] := by
  have each : (∀ e ∈ snapshot.files.entries, comparePath crates snapshot d e.1 = .ok []) ↔
      ∀ path ∈ snapshot.files.keys, comparePath crates snapshot d path = .ok [] := by
    rw [FileMap.keys, List.forall_mem_map]
  rw [each, ← mapM_flatten_nil]
  constructor
  · intro ran
    obtain ⟨found, compared, last⟩ := Except.bind_eq_ok ran
    obtain ⟨nothing, none_added⟩ := List.append_eq_nil_iff.mp (Except.ok.inj last)
    exact ⟨⟨found, compared, nothing⟩, none_added⟩
  · rintro ⟨⟨found, compared, nothing⟩, none_added⟩
    rw [Snapshot.compareWithCurrent, Option.getD_none, compared]
    show Except.ok (found.flatten ++ addedFiles crates snapshot d) = .ok []
    rw [nothing, none_added]
    rfl

theorem comparePath_nil_iff {e : PathBuf × SnapshotFile} (member : e ∈ snapshot.files.entries) :
    comparePath crates snapshot d e.1 = .ok [] ↔ ∃ content,
      stat d true (pathJoin snapshot.rootPath e.1) = .ok (.file content) ∧
        contentHash crates content = e.2.contentHash := by
  rw [comparePath, FileMap.get_of_mem member]
  dsimp only
  unfold pathExists
  cases stat d true (pathJoin snapshot.rootPath e.1) with
  | error error => simp [Except.isOk, Except.toBool]
  | ok node =>
    cases node with
    | dir => simp [Except.isOk, Except.toBool]
    | link target => simp [Except.isOk, Except.toBool]
    | file content => simp [Except.isOk, Except.toBool]

/-- Files that were added are those of the walk that the snapshot does not have. -/
theorem addedFiles_nil_iff (at_root : snapshot.rootPath = root) (filled : root.text ≠ [])
    (walk : ∀ names ∈ crates.walkDir d false root, names ≠ [] ∧ ∀ name ∈ names, PlainName name) :
    addedFiles crates snapshot d = [] ↔ ∀ names ∈ crates.walkDir d false root, ∀ content,
      stat d false (entryPath root names) = .ok (.file content) →
        (snapshot.files.get (pathOf names)).isSome := by
  rw [addedFiles, List.filterMap_eq_nil_iff, at_root]
  refine forall₂_congr fun names member => ?_
  obtain ⟨named, plain⟩ := walk names member
  simp only [strip_entryPath filled named plain, Option.getD_some]
  cases stat d false (entryPath root names) with
  | error e => simp
  | ok node =>
    cases node with
    | dir => simp
    | link target => simp
    | file content => cases snapshot.files.get (pathOf names) <;> simp

end

/-- What a workspace that is compared has to show, for nothing to be different. -/
structure Shows (crates : StoreCrates) (now after : Disk) (root : PathBuf) (top : Loc Text) :
    Prop where
  kept : ∀ names ∈ crates.walkDir now false root, ∀ content, Takes now root names content →
    ∃ content', stat after true (entryPath root names) = .ok (.file content') ∧
      contentHash crates.toSnapshotCrates content' = contentHash crates.toSnapshotCrates content
  known : ∀ names content, Walked after top names (.file content) →
    names ∈ crates.walkDir now false root ∧ ∃ content, Takes now root names content

/-- **Comparing** finds nothing exactly if what was taken is still read, and each file was
taken. -/
theorem Takings.compare_nil_iff {snapshot : Snapshot}
    (takings : Takings crates.toSnapshotCrates now root snapshot) (filled : root.text ≠ [])
    (listed : Listed crates now root top) (listed' : Listed crates after root top)
    (sound' : after.Sound) (opens' : Opens after root top) :
    snapshot.compareWithCurrent crates.toSnapshotCrates after none = .ok [] ↔
      Shows crates now after root top := by
  have plain := listed.walk_plain
  have plain' := listed'.walk_plain
  have joined : ∀ names ∈ crates.walkDir now false root,
      stat after true (pathJoin root (pathOf names)) = stat after true (entryPath root names) := by
    intro names member
    obtain ⟨named, clean⟩ := plain names member
    obtain ⟨init, name, -, entered, below⟩ := walked_shape filled named clean
    exact stat_below_congr true below entered
  have has : ∀ names, (∀ name ∈ names, PlainName name) →
      ((snapshot.files.get (pathOf names)).isSome ↔
        names ∈ crates.walkDir now false root ∧ ∃ content, Takes now root names content) := by
    intro names clean
    rw [takings.keys]
    constructor
    · rintro ⟨other, member, taken, equal⟩
      rw [same_pathOf (plain other member).2 clean] at equal
      exact equal ▸ ⟨member, taken⟩
    · rintro ⟨member, taken⟩
      exact ⟨names, member, taken, (same_pathOf clean clean).mpr rfl⟩
  rw [FreshSnapshots.compare_nil_iff, addedFiles_nil_iff takings.rootPath filled plain']
  constructor
  · rintro ⟨compared, known⟩
    refine ⟨fun names member content takes => ?_, fun names content walked => ?_⟩
    · have clean := (plain names member).2
      obtain ⟨e, inside, equal⟩ := get_isSome.mp ((has names clean).mpr ⟨member, content, takes⟩)
      obtain ⟨other, there, content', takes', rfl⟩ := takings.entries e inside
      obtain rfl := (same_pathOf (plain other there).2 clean).mp equal
      obtain ⟨found, reads, hashes⟩ := (comparePath_nil_iff inside).mp (compared _ inside)
      rw [takings.rootPath, joined other there] at reads
      cases takes.1.symm.trans takes'.1
      exact ⟨found, reads, hashes⟩
    · have member := (listed'.all names).mpr ⟨_, walked⟩
      have clean := (plain' names member).2
      exact (has names clean).mp
        (known names member content (walked.stat sound' filled opens' clean))
  · rintro ⟨kept, known⟩
    refine ⟨fun e inside => ?_, fun names member content there => ?_⟩
    · refine (comparePath_nil_iff inside).mpr ?_
      obtain ⟨names, member, content, takes, rfl⟩ := takings.entries e inside
      rw [takings.rootPath, joined names member]
      exact kept names member content takes
    · obtain ⟨node, walked⟩ := (listed'.all names).mp member
      have clean := (plain' names member).2
      have same := (walked.stat sound' filled opens' clean).symm.trans there
      cases same
      exact (has names clean).mpr (known names content walked)

theorem snapshotValidate_true_iff {id : Text} : snapshotValidate crates manager id [] d = .ok true ↔
    ∃ snapshot, getSnapshot crates.toSnapshotCrates d manager id = .ok snapshot ∧
      snapshot.compareWithCurrent crates.toSnapshotCrates d none = .ok [] := by
  constructor
  · intro ran
    obtain ⟨snapshot, got, rest⟩ := Except.bind_eq_ok ran
    obtain ⟨differences, compared, last⟩ := Except.bind_eq_ok rest
    have none := List.isEmpty_iff.mp (Except.ok.inj last)
    rw [if_pos rfl, none] at compared
    exact ⟨snapshot, got, compared⟩
  · rintro ⟨snapshot, got, compared⟩
    rw [snapshotValidate, got]
    show (snapshot.compareWithCurrent crates.toSnapshotCrates d none >>= fun differences =>
      .ok differences.isEmpty) = _
    rw [compared]
    rfl

/-! ## One call and the next -/

variable {listing : Listing} {kept : List Filed} {name : Option Text} {timestamp createdAt : Nat}
  {id : Text}

/-- What is there after a call: the snapshot in the store, and beside the store what was. -/
structure Made (crates : StoreCrates) (manager : SnapshotManager) (now after : Disk)
    (shelf : Loc Text) (id : Text) (snapshot : DatedSnapshot) (content : Content) : Prop where
  serialized : crates.serialize snapshot = .ok content
  beside : Beside shelf now after
  opens : Opens after manager.snapshotDir shelf
  there : entry after.tree (shelf ++ [fileOf id]) = some (.file content)
  plain : PlainName (fileOf id)
  reads : ∃ read, getSnapshot crates.toSnapshotCrates after manager id = .ok read ∧
    Alike snapshot.toSnapshot read

theorem snapshotCreate_made (holding : Holding crates manager now shelf kept)
    (reads : ReadsBack crates) (ensured : ensureStorageDir manager d = (.ok (), now))
    (created : snapshotCreate crates listing manager root name timestamp createdAt d =
      (.ok id, after)) :
    ∃ snapshot content, capture crates
        ⟨root, name.getD "manual".toList, none, timestamp, createdAt⟩ now = .ok snapshot ∧
      Made crates manager now after shelf id snapshot content := by
  obtain ⟨id', written, stored, rest⟩ := Action.bind_eq_ok created
  obtain ⟨read, same, asked, last⟩ := Action.bind_eq_ok rest
  obtain ⟨got, rfl⟩ := Prod.mk.inj asked
  cases last
  obtain ⟨ready, snapshot, content, mid, ensured', captured, serialized, rfl, wrote, ends⟩ :=
    createSnapshot_eq_ok.mp stored
  rw [ensured] at ensured'
  cases ensured'
  have dotless : Dotless snapshot.id := by
    rw [(capture_ok captured).1]
    exact generateSnapshotId_dotless _ _
  obtain ⟨tempFree, free, disk⟩ := writeSnapshotFile_eq holding.shelf dotless wrote
  have over_there := @Holding.write _ _ _ _ _ _ ⟨snapshot, content⟩ holding dotless serialized wrote
  have first : Beside shelf now mid := by
    rw [disk]
    exact beside_replaced holding.shelf (fileOf_ne_tempOf _ _) tempFree free
  -- what is cleaned up afterwards is beside all else too
  obtain ⟨files, deleted⟩ : ∃ files, Deleted manager shelf mid after
      (table (withFile kept ⟨snapshot, content⟩)) files := by
    rcases ends with ⟨-, rfl⟩ | ⟨-, count, cleaned⟩
    · exact ⟨_, over_there.shelf, .refl _ _, fun _ _ held => held⟩
    · exact cleanup_deleted over_there reads cleaned
  have below := below_file holding.shelf.filled dotless
  obtain ⟨loc, found, isFile, parsed⟩ := SnapshotConfinement.getSnapshot_eq_ok.mp got
  have held := (deleted.store.stat_file true below).mp
    (SnapshotConfinement.stat_fileRead.mpr ⟨loc, isFile⟩)
  -- the file that is read is the one that was written
  obtain rfl : content = found := by
    have own := deleted.left _ _ held
    simpa [table_withFile, Filed.id] using own
  obtain ⟨-, read', parsed', alike⟩ := reads snapshot content serialized
  cases parsed.symm.trans parsed'
  exact ⟨snapshot, content, captured, serialized, first.trans deleted.beside, deleted.store.opens,
    (deleted.store.stat true below).mp ((deleted.store.stat_file true below).mpr held),
    fileOf_plain dotless, read, got, alike⟩

theorem outside_store (outside : ¬ top <+: shelf) (named : names ≠ []) (name : Text) :
    top ++ names ≠ shelf ++ [name] := by
  obtain ⟨init, last, rfl⟩ := (List.eq_nil_or_concat names).resolve_left named
  rw [List.concat_eq_append, ← List.append_assoc]
  intro same
  exact outside ⟨init, (List.append_inj' same rfl).1⟩

/-- Outside of the store the workspace is what it was. -/
theorem Beside.walked_iff {node : Node Text Content} (beside : Beside shelf now after)
    (opens : Opens now root top) (outside : ¬ top <+: shelf) :
    Walked after top names node ↔ Walked now top names node := by
  have same : ∀ more,
      Files.entry after.tree (top ++ more) = Files.entry now.tree (top ++ more) := by
    intro more
    by_cases here : more = []
    · rw [here, List.append_nil]
      exact beside.entry (.inl (.inl opens.2))
    · exact beside.entry (.inr (outside_store outside here))
  constructor
  · rintro ⟨named, dirs, there, leaf⟩
    exact ⟨named, fun above within other => (same above).symm.trans (dirs above within other),
      (same names).symm.trans there, leaf⟩
  · rintro ⟨named, dirs, there, leaf⟩
    exact ⟨named, fun above within other => (same above).trans (dirs above within other),
      (same names).trans there, leaf⟩

theorem contentHash_injective {crates : SnapshotCrates}
    (distinct : Function.Injective crates.blake3)
    {one other : Content} (same : contentHash crates one = contentHash crates other) :
    contentBytes one = contentBytes other :=
  distinct (hexEncode_injective same)

/-- Where the store is in the workspace, the new snapshot is a file more or other than what
was taken. -/
theorem Made.outside {snapshot : DatedSnapshot} (made : Made crates manager now after shelf id
      snapshot content) (longer : Longer crates) (distinct : Function.Injective crates.blake3)
    (takings : Takings crates.toSnapshotCrates now root snapshot.toSnapshot)
    (filled : root.text ≠ []) (sound : now.Sound) (opens : Opens now root top)
    (listed : Listed crates now root top) (shows : Shows crates now after root top) :
    ¬ top <+: shelf := by
  rintro ⟨rest, rfl⟩
  have sound' := made.beside.sound sound
  have ground := Files.LeadsTo.grounded made.opens (grounded_base sound' _)
  have walked : Walked after top (rest ++ [fileOf id]) (.file content) := by
    refine ⟨by simp, fun above within other => ?_, ?_, nofun⟩
    · rcases List.prefix_concat_iff.mp within with whole | inside
      · exact absurd whole other
      · exact ground _ ((List.prefix_append_right_inj top).mpr inside)
    · rw [← List.append_assoc]
      exact made.there
  obtain ⟨member, old, takes⟩ := shows.known _ _ walked
  obtain ⟨found, reads, hashes⟩ := shows.kept _ member old takes
  have clean := listed.plain _ member
  have leads := walked.lookup sound' filled (made.beside.opens opens) clean true
    fun _ target => nofun
  cases ((stat_eq_ok leads).mpr walked.there).symm.trans reads
  -- what was taken is in the snapshot, which is longer
  obtain ⟨e, inside, equal⟩ := get_isSome.mp
    ((takings.keys _).mpr ⟨_, member, ⟨old, takes⟩, (same_pathOf clean clean).mpr rfl⟩)
  obtain ⟨names', there, old', takes', rfl⟩ := takings.entries e inside
  obtain rfl := (same_pathOf (listed.plain _ there) clean).mp equal
  cases takes.1.symm.trans takes'.1
  have sizes := longer snapshot content made.serialized _ inside old rfl
  rw [contentHash_injective distinct hashes] at sizes
  exact Nat.lt_irrefl _ sizes

/-- Where every file passes the filters and the store is elsewhere, what was taken is read
again. -/
theorem Whole.shows {kept : List Filed} (whole : Whole now root top shelf)
    (workspace : Workspace crates manager now root top shelf kept)
    (beside : Beside shelf now after) (listed : Listed crates now root top) :
    Shows crates now after root top := by
  obtain ⟨filled, opens, holding, apart⟩ := workspace
  have sound := holding.shelf.sound
  refine ⟨fun names member content takes => ⟨content, ?_, rfl⟩, fun names content walked => ?_⟩
  · obtain ⟨node, walked⟩ := (listed.all names).mp member
    have clean := listed.plain names member
    obtain ⟨loc, leads, isFile, elsewhere⟩ : ∃ loc,
        lookup now true (entryPath root names) = .ok (.found loc) ∧
          entry now.tree loc = some (.file content) ∧ ∀ name, loc ≠ shelf ++ [name] := by
      cases node with
      | dir => exact absurd rfl walked.leaf
      | file own =>
        have leads := walked.lookup sound filled opens clean true fun _ target => nofun
        exact ⟨_, leads, (stat_eq_ok leads).mp takes.1,
          outside_store whole.outside walked.named⟩
      | link target =>
        cases leads : lookup now true (entryPath root names) with
        | error e =>
          have read := takes.1
          rw [stat_eq, leads] at read
          cases read
        | ok place =>
          have isFile := (stat_eq_ok leads).mp takes.1
          cases place with
          | vacant loc =>
            have free := lookup_vacant sound leads
            rw [Files.Place.loc, free] at isFile
            cases isFile
          | found loc => exact ⟨loc, rfl, isFile, apart names target loc walked leads⟩
    have again := beside.lookup elsewhere leads
    exact (stat_eq_ok again).mpr ((beside.entry (.inr elsewhere)).trans isFile)
  · have before := (beside.walked_iff opens whole.outside).mp walked
    have member := (listed.all names).mpr ⟨_, before⟩
    have leads := before.lookup sound filled opens (listed.plain names member) true
      fun _ target => nofun
    exact ⟨member, content, (stat_eq_ok leads).mpr before.there,
      whole.included names content before⟩

/-- **Fresh snapshots** are valid exactly where every file of the workspace passes the filters of
the capture, and the store is not in the workspace. -/
theorem fresh_valid_iff (reads : ReadsBack crates) (longer : Longer crates)
    (distinct : Function.Injective crates.blake3)
    (ensured : ensureStorageDir manager d = (.ok (), now))
    (workspace : Workspace crates manager now root top shelf kept)
    (listed : Listed crates now root top) (listed' : Listed crates after root top)
    (created : snapshotCreate crates listing manager root name timestamp createdAt d =
      (.ok id, after)) :
    snapshotValidate crates manager id [] after = .ok true ↔ Whole now root top shelf := by
  obtain ⟨snapshot, content, captured, made⟩ :=
    snapshotCreate_made workspace.holding reads ensured created
  obtain ⟨read, got, alike⟩ := made.reads
  have filled := workspace.filled
  have opens := workspace.opens
  have sound := workspace.holding.shelf.sound
  have takings : Takings crates.toSnapshotCrates now root snapshot.toSnapshot :=
    capture_takings filled listed.walk_plain rfl rfl captured
  have compared := (takings.alike alike).compare_nil_iff filled listed listed'
    (made.beside.sound sound) (made.beside.opens opens)
  have valid : snapshotValidate crates manager id [] after = .ok true ↔
      Shows crates now after root top := by
    rw [snapshotValidate_true_iff, ← compared]
    constructor
    · rintro ⟨other, got', nothing⟩
      cases got.symm.trans got'
      exact nothing
    · exact fun nothing => ⟨read, got, nothing⟩
  rw [valid]
  constructor
  · intro shows
    have outside := made.outside longer distinct takings filled sound opens listed shows
    refine ⟨fun names found walked => ?_, outside⟩
    obtain ⟨member, other, takes⟩ :=
      shows.known names found ((made.beside.walked_iff opens outside).mpr walked)
    have leads := walked.lookup sound filled opens (listed.plain names member) true
      fun _ target => nofun
    cases ((stat_eq_ok leads).mpr walked.there).symm.trans takes.1
    exact takes.2
  · exact fun whole => whole.shows workspace made.beside listed

/-! ## A workspace of one file -/

open SnapshotRetention (emptyStore storeTop store shot stored store_dir)

/-- A workspace `/w` with one file, and an empty store elsewhere. -/
def oneFile : Disk :=
  emptyStore.put ["w".toList, "a.txt".toList] (some (.file (.utf8 "one".toList)))

def oneCall : Creation := ⟨⟨"/w".toList⟩, "manual".toList, none, 5, 5 * 10 ^ 9⟩

/-- A file of a snapshot, as it is stored. -/
def storedFile (file : SnapshotFile) : Json :=
  .ofFields [("path", .string file.path.text), ("content_hash", .string file.contentHash),
    ("size", .unsigned (UInt64.ofNat file.size)), ("permissions", .unsigned 420),
    ("modified_at", .ofFields [("secs_since_epoch", .unsigned 4),
      ("nanos_since_epoch", .unsigned 0)]),
    ("is_binary", .bool file.isBinary), ("storage", match file.storage with
      | .inline content => .ofFields [("Inline", .ofFields [("content",
          .array ((contentBytes content).map fun b => .unsigned b.toUInt64))])]
      | .external path => .ofFields [("External", .ofFields [("path", .string path.text)])]
      | .compressed content => .ofFields [("Compressed", .ofFields [("compressed_content",
          .array ((contentBytes content).map fun b => .unsigned b.toUInt64))])]
      | .deduplicated hash => .ofFields [("Deduplicated", .ofFields [("reference_hash",
          .string hash)])])]

/-- A snapshot, as it is stored. -/
def storedShot (snapshot : DatedSnapshot) : Content :=
  .utf8 (Json.ofFields [("id", .string snapshot.id),
    ("created_at", .ofFields
      [("secs_since_epoch", .unsigned (UInt64.ofNat (snapshot.createdAt / 10 ^ 9))),
        ("nanos_since_epoch", .unsigned (UInt64.ofNat (snapshot.createdAt % 10 ^ 9)))]),
    ("description", .string snapshot.description), ("root_path", .string snapshot.rootPath.text),
    ("files", .object (snapshot.files.entries.map fun e => (e.1.text, storedFile e.2))),
    ("integrity_hash", .string snapshot.integrityHash),
    ("total_size", .unsigned (UInt64.ofNat snapshot.totalSize))]).render

/-- Crates that store and read these snapshots. -/
def fileCrates (known : List DatedSnapshot) : StoreCrates where
  blake3 := List.reverse
  deflate := fun content => content
  inflate := some
  walkDir := fun _ _ _ => [["a.txt".toList]]
  parse content := match known.find? fun snapshot => storedShot snapshot = content with
    | some snapshot => .ok snapshot.toSnapshot
    | none => .error "expected value".toList
  serialize snapshot :=
    if snapshot ∈ known then .ok (storedShot snapshot) else .error "unsupported".toList
  readCreatedAt content :=
    ((known.find? fun snapshot => storedShot snapshot = content).map (·.createdAt)).getD 0

/-- What the call captures. -/
def fileShot : DatedSnapshot :=
  let file := snapshotFile (fileCrates []).toSnapshotCrates .standard ⟨"a.txt".toList⟩
    (.utf8 "one".toList)
  { shot oneCall with
    files := FileMap.empty.insert ⟨"a.txt".toList⟩ file
    integrityHash := hexEncode ((textBytes (idOf List.reverse oneCall) ++ textBytes "manual".toList
      ++ (textBytes "a.txt".toList ++ textBytes file.contentHash ++ leBytes 3)).reverse.take 16)
    totalSize := 3 }

def fileStore : StoreCrates := fileCrates [fileShot]

theorem captured_oneFile : capture fileStore oneCall oneFile = .ok fileShot := by
  have created : Snapshot.create fileStore.toSnapshotCrates oneFile
      (idOf List.reverse oneCall) oneCall.rootPath oneCall.description .standard =
        .ok { fileShot.toSnapshot with integrityHash := [] } := by decide +kernel
  unfold capture
  split
  · rename_i failed
    cases created.symm.trans failed
  · rename_i snapshot made
    obtain rfl := Except.ok.inj (created.symm.trans made)
    unfold computeIntegrityHash
    rw [show ({ fileShot.toSnapshot with integrityHash := [] } : Snapshot).files.entries =
      [(⟨"a.txt".toList⟩, snapshotFile (fileCrates []).toSnapshotCrates .standard ⟨"a.txt".toList⟩
        (.utf8 "one".toList))] from rfl, List.mergeSort_singleton]
    rfl

/-- The workspace has one file. -/
theorem oneFile_walked {node : Node Text Content} : Walked oneFile ["w".toList] names node ↔
    names = ["a.txt".toList] ∧ node = .file (.utf8 "one".toList) := by
  have known : ∀ loc, oneFile.tree loc ≠ none ↔ loc ∈ ["w".toList, "a.txt".toList] ::
      [storeTop, ["s".toList, ".devit".toList], ["s".toList], ["w".toList]] :=
    FileExploration.known_put SnapshotRetention.emptyStore_known _ _
  constructor
  · intro walked
    have there := walked.there
    rw [entry, if_neg (by simp)] at there
    have member := (known _).mp (by rw [there]; simp)
    have own : names = ["a.txt".toList] := by
      have named := walked.named
      simp [storeTop] at member
      tauto
    subst own
    exact ⟨rfl, (Option.some.inj (there.symm.trans (by decide +kernel)))⟩
  · rintro ⟨rfl, rfl⟩
    refine ⟨List.cons_ne_nil _ _, fun above within other => ?_, by decide +kernel, by simp⟩
    obtain rfl | inside :=
      List.prefix_concat_iff.mp (show above <+: [] ++ ["a.txt".toList] from within)
    · exact absurd rfl other
    · rw [List.prefix_nil.mp inside]
      decide +kernel

theorem oneFile_listed {d : Disk} (same : ∀ names node, Walked d ["w".toList] names node ↔
    Walked oneFile ["w".toList] names node) :
    Listed fileStore d ⟨"/w".toList⟩ ["w".toList] := by
  refine ⟨fun names => ?_, ?_⟩
  · show names ∈ [["a.txt".toList]] ↔ _
    simp only [same, oneFile_walked, List.mem_singleton, exists_and_left, exists_eq, and_true]
  · rintro names member name inside
    obtain rfl := List.mem_singleton.mp member
    obtain rfl := List.mem_singleton.mp inside
    exact of_decide_eq_true (by decide +kernel)

theorem oneFile_workspace :
    Workspace fileStore (store 0) oneFile ⟨"/w".toList⟩ ["w".toList] storeTop [] := by
  have sound : oneFile.Sound := Files.grounded_root _
  have entries : ∀ name, entry oneFile.tree (storeTop ++ [name]) = none := fun name => by
    simp [oneFile, emptyStore, storeTop, Files.Disk.put, entry, Files.put]
  have opens : Opens oneFile (store 0).snapshotDir storeTop := by
    rw [store_dir]
    exact (opens_iff sound (by decide)).mpr ⟨by decide +kernel, by decide +kernel⟩
  refine ⟨by decide, (opens_iff sound (by decide)).mpr ⟨by decide +kernel, by decide +kernel⟩,
    ⟨⟨sound, ?_, opens, fun name => .inr (entries name)⟩, by simp, by simp,
      List.nodup_nil⟩, ?_⟩
  · rw [store_dir]
    decide
  · intro names target loc walked
    cases (oneFile_walked.mp walked).2

theorem fileStore_serialized {snapshot : DatedSnapshot}
    (serialized : fileStore.serialize snapshot = .ok content) :
    snapshot = fileShot ∧ content = storedShot fileShot := by
  unfold fileStore fileCrates at serialized
  dsimp only at serialized
  split at serialized
  · rename_i member
    obtain rfl := List.mem_singleton.mp member
    exact ⟨rfl, (Except.ok.inj serialized).symm⟩
  · cases serialized

theorem fileStore_reads : ReadsBack fileStore := by
  intro snapshot content serialized
  obtain ⟨rfl, rfl⟩ := fileStore_serialized serialized
  have found : [fileShot].find? (fun other => storedShot other = storedShot fileShot) =
      some fileShot := by simp
  refine ⟨?_, fileShot.toSnapshot, ?_, ⟨rfl, rfl, rfl, .refl _, rfl, rfl⟩⟩
  · simp only [fileStore, fileCrates, found, Option.map_some, Option.getD_some]
  · simp only [fileStore, fileCrates, found]

theorem fileStore_longer : Longer fileStore := by
  intro snapshot content serialized e member old isInline
  obtain ⟨rfl, rfl⟩ := fileStore_serialized serialized
  obtain rfl : e = (⟨"a.txt".toList⟩, snapshotFile fileStore.toSnapshotCrates .standard
    ⟨"a.txt".toList⟩ (.utf8 "one".toList)) := List.mem_singleton.mp member
  cases isInline
  decide +kernel

theorem mem_withFile (kept : List Filed) (e : Filed) : e ∈ withFile kept e :=
  List.mem_append_right _ (List.mem_singleton_self e)

/-- The workspace after the call. -/
def shotDisk : Disk :=
  (writeSnapshotFile (store 0) fileShot.id (storedShot fileShot) oneFile).2

theorem oneFile_created (listing : Listing) : snapshotCreate fileStore listing (store 0)
    ⟨"/w".toList⟩ none 5 (5 * 10 ^ 9) oneFile = (.ok fileShot.id, shotDisk) := by
  have holding := oneFile_workspace.holding
  have serialized : fileStore.serialize fileShot = .ok (storedShot fileShot) := by
    unfold fileStore fileCrates
    dsimp only
    rw [if_pos (List.mem_singleton_self fileShot)]
  have wrote : writeSnapshotFile (store 0) fileShot.id (storedShot fileShot) oneFile =
      (.ok (), shotDisk) := Prod.ext (by decide +kernel) (by rw [shotDisk])
  have made : createSnapshot fileStore listing (store 0) oneCall oneFile =
      (.ok fileShot.id, shotDisk) := createSnapshot_eq_ok.mpr
    ⟨oneFile, fileShot, _, _, holding.there, captured_oneFile, serialized, rfl, wrote,
      .inl ⟨rfl, rfl⟩⟩
  have dotless : Dotless fileShot.id :=
    generateSnapshotId_dotless oneCall.timestamp (some oneCall.description)
  have stored := @Holding.write _ _ _ _ _ _ ⟨fileShot, storedShot fileShot⟩ holding dotless
    serialized wrote
  obtain ⟨read, got, -⟩ := stored.get fileStore_reads (mem_withFile _ _)
  have asked : getSnapshot fileStore.toSnapshotCrates shotDisk (store 0) fileShot.id = .ok read :=
    got
  refine (Action.bind_of_ok made).trans (@Action.bind_of_ok _ _ _ _ _ _ _ shotDisk read ?_)
  rw [asked]

/-- A snapshot of the workspace is valid. -/
theorem oneFile_valid :
    snapshotValidate fileStore (store 0) fileShot.id [] shotDisk = .ok true := by
  have workspace := oneFile_workspace
  have there := workspace.holding.there
  have created := oneFile_created fun _ => .error .notFound
  obtain ⟨snapshot, content, -, made⟩ :=
    snapshotCreate_made workspace.holding fileStore_reads there created
  have listed' : Listed fileStore shotDisk ⟨"/w".toList⟩ ["w".toList] :=
    oneFile_listed fun names node => made.beside.walked_iff workspace.opens (by decide)
  have whole : Whole oneFile ⟨"/w".toList⟩ ["w".toList] storeTop := by
    refine ⟨fun names content walked => ?_, by decide⟩
    obtain ⟨rfl, same⟩ := oneFile_walked.mp walked
    cases same
    decide +kernel
  exact (fresh_valid_iff fileStore_reads fileStore_longer List.reverse_injective there workspace
    (oneFile_listed fun _ _ => .rfl) listed' created).mpr whole

end FreshSnapshots

end Devit
