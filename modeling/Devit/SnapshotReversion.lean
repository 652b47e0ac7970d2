import Devit.SnapshotRestore

/-! Whether restoring a snapshot takes back all that was done since. Only the files of the
snapshot are written, and none is deleted, so a file that was added since is still there
afterwards unless it was deleted before. -/
namespace Devit
open Text Path FileSystem
open Files (Loc Later entry)

namespace SnapshotReversion
open SnapshotRestore

/-- Names that lead below a directory. -/
def Named (names : List Text) : Prop := names ≠ [] ∧ ∀ name ∈ names, PlainName name

/-- A filter of the snapshot passes over the file. -/
def skipped (options : SnapshotOptions) (root : PathBuf) (names : List Text) (content : Content) :
    Bool :=
  excluded options root names || tooLarge options content ||
    (isBinary content && !options.includeBinaryFiles)

/-- The files below the root that no filter passes over. -/
def includedFiles (options : SnapshotOptions) (root : PathBuf) (top : Loc Text) (d : Disk) :
    Set (List Text) :=
  {names | Named names ∧ ∃ content, entry d.tree (top ++ names) = some (.file content) ∧
    skipped options root names content = false}

/-- The files that the snapshot has. -/
def capturedFiles (snapshot : Snapshot) : Set (List Text) :=
  {names | Named names ∧ (snapshot.files.get (pathOf names)).isSome}

/-- What is done below the root. A file is edited and added by writing it. -/
inductive Change where
  | write (names : List Text) (content : Content)
  | delete (names : List Text)
  | makeDir (names : List Text)
  deriving DecidableEq, Repr

namespace Change

def names : Change → List Text
  | write names _ => names
  | delete names => names
  | makeDir names => names

/-- The content of the file that the change leaves, if it leaves one. -/
def content : Change → Option Content
  | write _ content => some content
  | _ => none

def node : Change → Option (Files.Node Text Content)
  | write _ content => some (.file content)
  | delete _ => none
  | makeDir _ => some .dir

def perform (top : Loc Text) (d : Disk) (change : Change) : Disk :=
  d.put (top ++ change.names) change.node

end Change

/-- Below the root the later disk is what the changes make of the earlier one. -/
def Changed (top : Loc Text) (d : Disk) (changes : List Change) (d' : Disk) : Prop :=
  ∀ names, entry d'.tree (top ++ names) =
    entry (changes.foldl (Change.perform top) d).tree (top ++ names)

/-- The last of the changes to the entry with these names. -/
def lastChange (changes : List Change) (names : List Text) : Option Change :=
  changes.reverse.find? fun change => change.names = names

/-- The file was written and not deleted since, no filter passes over it, and the snapshot does
not have it. -/
def Lingers (options : SnapshotOptions) (snapshot : Snapshot) (changes : List Change)
    (names : List Text) : Prop :=
  names ∉ capturedFiles snapshot ∧ Named names ∧
    ∃ content, lastChange changes names = some (.write names content) ∧
      skipped options snapshot.rootPath names content = false

/-- A walk lists the files below the root. -/
def Lists (crates : SnapshotCrates) (d : Disk) (options : SnapshotOptions) (root : PathBuf)
    (top : Loc Text) : Prop :=
  ∀ names, names ∈ crates.walkDir d options.followSymlinks root ↔
    Named names ∧ ∃ content, entry d.tree (top ++ names) = some (.file content)

variable {crates : SnapshotCrates} {options : SnapshotOptions} {root : PathBuf} {top : Loc Text}
  {d d' : Disk} {names : List Text}

/-! ## Changes -/

/-- What the changes leave of a file is what the last one to it leaves. -/
theorem fileAt_perform (changes : List Change) (named : names ≠ []) :
    fileAt (changes.foldl (Change.perform top) d).tree (top ++ names) =
      match lastChange changes names with
      | some change => change.content
      | none => fileAt d.tree (top ++ names) := by
  induction changes using List.reverseRecOn with
  | nil => rfl
  | append_singleton changes change ih =>
    rw [List.foldl_append, List.foldl_cons, List.foldl_nil, lastChange, List.reverse_append,
      List.reverse_singleton, List.singleton_append, List.find?_cons]
    by_cases here : change.names = names
    · subst here
      have made := Files.entry_put_self (t := (changes.foldl (Change.perform top) d).tree)
        change.node (List.append_ne_nil_of_right_ne_nil top named)
      simp only [decide_true, Change.perform, Files.Disk.put, fileAt, made]
      cases change <;> rfl
    · have apart : top ++ names ≠ top ++ change.names := fun same =>
        here (List.append_cancel_left same).symm
      simp only [decide_eq_false here]
      rw [← lastChange, ← ih, Change.perform]
      exact fileAt_congr (Files.entry_put_other _ apart)

/-! ## Capturing -/

theorem get_isSome {files : FileMap} {path : PathBuf} :
    (files.get path).isSome ↔ ∃ e ∈ files.entries, same e.1 path = true := by
  rw [FileMap.get, Option.isSome_map, List.find?_isSome]

theorem get_insert (files : FileMap) (path other : PathBuf) (file : SnapshotFile) :
    ((files.insert path file).get other).isSome ↔
      (files.get other).isSome ∨ same path other = true := by
  rw [get_isSome, get_isSome]
  unfold FileMap.insert
  split
  · rename_i there
    obtain ⟨e, inside, equal⟩ := there
    have own : ∀ e : PathBuf × SnapshotFile,
        (if same e.1 path then (e.1, file) else e).1 = e.1 := fun e => by split <;> rfl
    simp only [List.mem_map, exists_exists_and_eq_and, own]
    refine (or_iff_left_of_imp fun reaches => ⟨e, inside, ?_⟩).symm
    rwa [same, equal]
  · simp only [List.mem_append, List.mem_singleton, or_and_right, exists_or, exists_eq_left]

/-- What one entry of the walk adds to the captured files. -/
theorem captureEntry_get {acc next : FileMap × Nat} {content : Content} (rooted : Rooted d root top)
    (filled : root.text ≠ []) (named : Named names)
    (there : entry d.tree (top ++ names) = some (.file content))
    (ran : captureEntry crates d options root acc names = .ok next) (path : PathBuf) :
    (next.1.get path).isSome ↔ (acc.1.get path).isSome ∨
      skipped options root names content = false ∧ same (pathOf names) path = true := by
  obtain ⟨some_name, plain⟩ := named
  obtain ⟨init, name, rfl⟩ := List.eq_nil_or_concat names |>.resolve_left some_name
  rw [List.concat_eq_append] at *
  have below := below_entryPath filled plain
  have found : stat d true (entryPath root (init ++ [name])) = .ok (.file content) := by
    rw [stat_below rooted.tidy.1 rooted.tidy.2 rooted.opens below, List.append_assoc]
    exact there
  unfold captureEntry at ran
  simp only [found, strip_below below, Option.getD_some] at ran
  unfold skipped
  split at ran
  · rename_i out
    cases ran
    simp [out]
  · rename_i passed
    split at ran
    · rename_i large
      cases ran
      simp [large]
    · rename_i small
      split at ran
      · rename_i binary
        cases ran
        simp [binary]
      · rename_i kept
        cases ran
        rw [get_insert]
        simp [passed, small, kept]

/-- What the walk adds to the captured files. -/
theorem listing_get {listing : List (List Text)} {acc next : FileMap × Nat}
    (rooted : Rooted d root top) (filled : root.text ≠ [])
    (listed : ∀ names ∈ listing,
      Named names ∧ ∃ content, entry d.tree (top ++ names) = some (.file content))
    (ran : listing.foldlM (captureEntry crates d options root) acc = .ok next) (path : PathBuf) :
    (next.1.get path).isSome ↔ (acc.1.get path).isSome ∨ ∃ names ∈ listing,
      names ∈ includedFiles options root top d ∧ same (pathOf names) path = true := by
  induction listing generalizing acc with
  | nil =>
    cases ran
    simp
  | cons names listing ih =>
    rw [List.foldlM_cons] at ran
    obtain ⟨mid, first, rest⟩ := Except.bind_eq_ok ran
    obtain ⟨named, content, there⟩ := listed names List.mem_cons_self
    have own := captureEntry_get rooted filled named there first path
    have later := ih (fun other member => listed other (List.mem_cons_of_mem _ member)) rest
    have included : names ∈ includedFiles options root top d ↔
        skipped options root names content = false := by
      simp [includedFiles, named, there]
    simp only [later, own, or_assoc, List.mem_cons, or_and_right, exists_or, exists_eq_left,
      included]

/-- **Capturing.** A snapshot has the files that no filter passes over. -/
theorem create_get {id description : Text} {snapshot : Snapshot} (rooted : Rooted d root top)
    (filled : root.text ≠ []) (lists : Lists crates d options root top)
    (created : Snapshot.create crates d id root description options = .ok snapshot) :
    snapshot.rootPath = root ∧ capturedFiles snapshot = includedFiles options root top d := by
  unfold Snapshot.create at created
  cases there : stat d true root with
  | error e => simp [there] at created
  | ok node =>
    simp only [there] at created
    obtain ⟨captured, ran, created⟩ := Except.bind_eq_ok created
    cases created
    refine ⟨rfl, Set.ext fun names => ?_⟩
    have reads := listing_get rooted filled (fun names inside => (lists names).mp inside) ran
      (pathOf names)
    constructor
    · rintro ⟨named, held⟩
      rcases reads.mp held with nothing | ⟨other, -, included, equal⟩
      · cases nothing
      · rwa [(same_pathOf included.1.2 named.2).mp equal] at included
    · intro included
      have ⟨named, content, there, _⟩ := included
      have walked := (lists names).mpr ⟨named, content, there⟩
      exact ⟨named, reads.mpr (.inr ⟨names, walked, included,
        (same_pathOf named.2 named.2).mpr rfl⟩)⟩

theorem capturedFiles_perm {made stored : Snapshot} (readBack : ReadBack made stored) :
    capturedFiles stored = capturedFiles made := by
  ext names
  simp only [capturedFiles, Set.mem_ofPred_eq, get_isSome, readBack.files.mem_iff]

/-! ## Restoring -/

variable {denied : Loc Text → Bool} {snapshot : Snapshot} {items : List Item} {d'' : Disk}

theorem mem_capturedFiles (stored : Stored crates options d top snapshot items) :
    names ∈ capturedFiles snapshot ↔ ∃ item ∈ items, item.1 = names := by
  rw [capturedFiles, Set.mem_ofPred_eq, get_isSome, stored.entries]
  simp only [List.mem_map, exists_exists_and_eq_and, captured]
  constructor
  · rintro ⟨named, item, inside, equal⟩
    exact ⟨item, inside, (same_pathOf (stored.found item inside).plain named.2).mp equal⟩
  · rintro ⟨item, inside, rfl⟩
    obtain ⟨named, plain, -⟩ := stored.found item inside
    exact ⟨⟨named, plain⟩, item, inside, (same_pathOf plain plain).mpr rfl⟩

/-- A file of the snapshot is put back, every other one stays. -/
theorem restored_fileAt {restored : List PathBuf}
    (lossless : ∀ content, crates.inflate (crates.deflate content) = some content)
    (stored : Stored crates options d top snapshot items) (now : Rooted d' root top)
    (filled : root.text ≠ []) (at_root : snapshot.rootPath = root)
    (ran : snapshot.restore crates denied ⟨true, true, false, false⟩ none d' =
      (.ok restored, d'')) :
    (∀ item ∈ items, fileAt d''.tree (top ++ item.1) = some item.2) ∧
      ∀ names, names ∉ capturedFiles snapshot →
        fileAt d''.tree (top ++ names) = fileAt d'.tree (top ++ names) := by
  unfold Snapshot.restore at ran
  rw [Option.getD_none, stored.keys] at ran
  obtain ⟨-, puts⟩ := restore_puts ⟨rfl, rfl⟩ now filled at_root
    (fun item inside => ⟨(stored.found item inside).named, (stored.found item inside).plain⟩)
    (stored.holds lossless) ran
  have distinct := stored.distinct
  rw [puts]
  refine ⟨fun item inside => ?_, fun names other => ?_⟩
  · obtain ⟨earlier, after, rfl⟩ := List.append_of_mem inside
    rw [List.map_append, List.map_cons] at distinct ⊢
    exact PutBack.putAll_own distinct
  · refine PutBack.putAll_without fun e member same => ?_
    obtain ⟨item, inside, rfl⟩ := List.mem_map.mp member
    exact other ((mem_capturedFiles stored).mpr ⟨item, inside, List.append_cancel_left same⟩)

theorem mem_includedFiles : names ∈ includedFiles options root top d ↔
    Named names ∧ ∃ content, fileAt d.tree (top ++ names) = some content ∧
      skipped options root names content = false := by
  simp only [includedFiles, Set.mem_ofPred_eq, fileAt_eq_some]

/-- **Restoring.** The tree has the files of the snapshot again exactly if it had no others
when they were restored. -/
theorem restored_iff {restored : List PathBuf}
    (lossless : ∀ content, crates.inflate (crates.deflate content) = some content)
    (stored : Stored crates options d top snapshot items) (now : Rooted d' root top)
    (filled : root.text ≠ []) (at_root : snapshot.rootPath = root)
    (kept : capturedFiles snapshot = includedFiles options root top d)
    (ran : snapshot.restore crates denied ⟨true, true, false, false⟩ none d' =
      (.ok restored, d'')) :
    includedFiles options root top d'' = capturedFiles snapshot ↔
      ∀ names, names ∉ capturedFiles snapshot → names ∉ includedFiles options root top d' := by
  obtain ⟨own, others⟩ := restored_fileAt lossless stored now filled at_root ran
  have back : ∀ names ∈ capturedFiles snapshot, names ∈ includedFiles options root top d'' := by
    intro names inside
    obtain ⟨item, member, rfl⟩ := (mem_capturedFiles stored).mp inside
    rw [kept] at inside
    obtain ⟨named, content, there, passed⟩ := inside
    rw [(stored.found item member).there] at there
    cases there
    exact mem_includedFiles.mpr ⟨named, _, own item member, passed⟩
  have same : ∀ names, names ∉ capturedFiles snapshot →
      (names ∈ includedFiles options root top d'' ↔ names ∈ includedFiles options root top d') := by
    intro names other
    rw [mem_includedFiles, mem_includedFiles, others names other]
  constructor
  · intro equal names other
    rw [← same names other, equal]
    exact other
  · intro none
    refine Set.Subset.antisymm (fun names inside => ?_) back
    by_contra other
    exact none names other ((same names other).mp inside)

/-! ## Changes and restoring -/

theorem root_filled {id description : Text} {made : Snapshot}
    (created : Snapshot.create crates d id root description options = .ok made) :
    root.text ≠ [] := by
  intro empty
  unfold Snapshot.create at created
  rw [stat_eq, lookup, route, if_pos empty] at created
  cases created

/-- A file that the snapshot does not have is there exactly if it lingers. -/
theorem included_iff_lingers {changes : List Change} (changed : Changed top d changes d')
    (at_root : snapshot.rootPath = root)
    (kept : capturedFiles snapshot = includedFiles options root top d)
    (other : names ∉ capturedFiles snapshot) :
    names ∈ includedFiles options root top d' ↔ Lingers options snapshot changes names := by
  rw [mem_includedFiles, Lingers, at_root, fileAt_congr (changed names)]
  by_cases named : Named names
  · rw [fileAt_perform changes named.1]
    cases last : lastChange changes names with
    | none =>
      rw [kept, mem_includedFiles] at other
      simp [other]
    | some change =>
      have same : change.names = names := by simpa using List.find?_some last
      cases change with
      | write at_names content =>
        obtain rfl : at_names = names := same
        simp [named, other, Change.content]
      | delete at_names => simp [Change.content]
      | makeDir at_names => simp [Change.content]
  · simp [named]

/-- **Reversion.** After a snapshot was made, files were written and deleted, and the snapshot
was restored, the files that no filter passes over are those of the snapshot exactly if none
lingers that was added. -/
theorem snapshot_reverts_iff {manager : SnapshotManager} {id description snapshotId : Text}
    {made stored : Snapshot} {changes : List Change}
    (lossless : ∀ content, crates.inflate (crates.deflate content) = some content)
    (lists : Lists crates d options root top) (before : Rooted d root top)
    (created : Snapshot.create crates d id root description options = .ok made)
    (changed : Changed top d changes d') (now : Rooted d' root top)
    (read : SnapshotManager.getSnapshot crates d' manager snapshotId = .ok stored)
    (readBack : ReadBack made stored)
    (ran : SnapshotManager.restoreSnapshot crates denied manager snapshotId d' = (.ok (), d'')) :
    includedFiles options root top d'' = capturedFiles stored ↔
      ∀ names, ¬ Lingers options stored changes names := by
  have filled := root_filled created
  obtain ⟨at_root, files⟩ := create_get before filled lists created
  have walks : Walks crates d options root := fun names listed => ((lists names).mp listed).1
  obtain ⟨-, all⟩ := create_captured before.tidy.1 before.tidy.2 filled before.opens walks created
  obtain ⟨items, shape, found⟩ := captured_items fun e member =>
    all e ((readBack.files.mem_iff).mp member)
  have holds : Stored crates options d top stored items := ⟨shape, found⟩
  have same_root := readBack.root.trans at_root
  have kept := (capturedFiles_perm readBack).trans files
  unfold SnapshotManager.restoreSnapshot at ran
  rw [read] at ran
  obtain ⟨restored, after, restoring, ended⟩ := Action.bind_eq_ok ran
  cases ended
  rw [restored_iff lossless holds now filled same_root kept restoring]
  refine forall_congr' fun names => ⟨fun gone lingers => ?_, fun none other included => ?_⟩
  · exact gone lingers.1 ((included_iff_lingers changed same_root kept lingers.1).mpr lingers)
  · exact none ((included_iff_lingers changed same_root kept other).mp included)

/-! ## A file that was added -/

/-- A stored snapshot in `/s`, and these files in `/w`. -/
def workspace (files : List (String × String)) : Disk :=
  files.foldl (fun d file =>
      d.put ["w".toList, file.1.toList] (some (.file (.utf8 file.2.toList))))
    ((((⟨fun _ => none, [], []⟩ : Disk).put ["s".toList] (some .dir)).put
      ["s".toList, "snap-1.json".toList] (some (.file (.utf8 [])))).put ["w".toList] (some .dir))

/-- One note. -/
def oneNote : Disk := workspace [("a.txt", "one")]

/-- Crates that list the note. -/
def noteCrates : SnapshotCrates :=
  ⟨id, id, some, fun _ _ _ => [["a.txt".toList]], fun _ => .error []⟩

def defaultOptions : SnapshotOptions :=
  ⟨false, none, [".git".toList, "target".toList], false, false⟩

/-- The note is captured. -/
def captureNote : Except SnapshotError Snapshot :=
  Snapshot.create noteCrates oneNote [] ⟨"/w".toList⟩ [] defaultOptions

/-- Crates that list the note and read its snapshot from every file. -/
def storeCrates : SnapshotCrates :=
  { noteCrates with parse := fun _ => captureNote.mapError fun _ => [] }

/-- `restore_snapshot` of the note with other files in `/w`. -/
def restoreNote (files : List (String × String)) : Except SnapshotError Unit × Disk :=
  SnapshotManager.restoreSnapshot storeCrates (fun _ => false) ⟨⟨"/s".toList⟩, 10⟩
    "snap-1".toList (workspace files)

theorem workspace_regular (files : List (String × String)) :
    Tidy (workspace files) ∧ entry (workspace files).tree ["w".toList] = some .dir ∧
      ∀ name, entry (workspace files).tree ["w".toList, name] ≠ some .dir := by
  induction files using List.reverseRecOn with
  | nil =>
    refine ⟨⟨Files.grounded_root _, ?_⟩, Files.entry_put_self _ (by simp), fun name => ?_⟩
    · refine regular_put (regular_put (regular_put regular_bare ?_ (Files.grounded_root _) ?_)
        ?_ (grounded_one (Files.entry_put_self _ (by simp))) ?_) ?_ (Files.grounded_root _) ?_
      · rintro target ⟨⟩
      · rintro ⟨⟩
      · rintro target ⟨⟩
      · decide +kernel
      · rintro target ⟨⟩
      · decide +kernel
    · simp [workspace, Files.Disk.put, Files.entry, Files.put]
  | append_singleton files file ih =>
    obtain ⟨⟨sound, regular⟩, top, flat⟩ := ih
    have more : workspace (files ++ [file]) = (workspace files).put ["w".toList, file.1.toList]
        (some (.file (.utf8 file.2.toList))) := by
      rw [workspace, List.foldl_append]
      rfl
    rw [more]
    refine ⟨⟨(Later.put _ (flat _)).sound sound, ?_⟩, ?_, fun name => ?_⟩
    · refine regular_put regular ?_ (grounded_one top) (flat _)
      rintro target ⟨⟩
    · rw [Files.Disk.put, Files.entry_put_other _ (by simp)]
      exact top
    · rw [Files.Disk.put, Files.entry_put, if_neg (by simp)]
      split
      · simp
      · exact flat name

/-- The files in `/w` are on a regular disk. -/
theorem workspace_rooted {files : List (String × String)}
    (opens : Opens (workspace files) ⟨"/w".toList⟩ ["w".toList]) :
    Rooted (workspace files) ⟨"/w".toList⟩ ["w".toList] :=
  ⟨(workspace_regular files).1, opens⟩

theorem note_listed :
    Lists storeCrates oneNote defaultOptions ⟨"/w".toList⟩ ["w".toList] := by
  intro names
  have walked : names ∈ storeCrates.walkDir oneNote false ⟨"/w".toList⟩ ↔
      names = ["a.txt".toList] := List.mem_singleton
  rw [defaultOptions, walked]
  constructor
  · rintro rfl
    exact ⟨by unfold Named; decide +kernel, _, rfl⟩
  · rintro ⟨⟨filled, -⟩, content, there⟩
    simp [oneNote, workspace, Files.Disk.put, Files.entry, Files.put, Function.update_apply,
      filled] at there
    exact there.1

theorem note_captured {check : Snapshot → Bool}
    (passes : captureNote.toOption.any check = true) :
    ∃ made, captureNote = .ok made ∧ check made = true := by
  cases created : captureNote with
  | error e =>
    rw [created] at passes
    cases passes
  | ok made =>
    rw [created] at passes
    exact ⟨made, rfl, passes⟩

/-- The note is edited and gets its content back, and no other file is there. -/
theorem edited_note_reverts : ∃ made, captureNote = .ok made ∧
    includedFiles defaultOptions ⟨"/w".toList⟩ ["w".toList]
      (restoreNote [("a.txt", "one"), ("a.txt", "two")]).2 = capturedFiles made := by
  obtain ⟨made, created, held⟩ := @note_captured (fun made =>
    (made.files.get (pathOf ["a.txt".toList])).isSome) (by decide +kernel)
  have now := @workspace_rooted [("a.txt", "one"), ("a.txt", "two")]
    ⟨by decide +kernel, by decide +kernel⟩
  have before := @workspace_rooted [("a.txt", "one")] ⟨by decide +kernel, by decide +kernel⟩
  have changed : Changed ["w".toList] oneNote [.write ["a.txt".toList] (.utf8 "two".toList)]
      (workspace [("a.txt", "one"), ("a.txt", "two")]) := fun _ => rfl
  have ran : (restoreNote [("a.txt", "one"), ("a.txt", "two")]).1 = .ok () := by
    have passed : (restoreNote [("a.txt", "one"), ("a.txt", "two")]).1.toOption.isSome = true := by
      decide +kernel
    cases result : (restoreNote [("a.txt", "one"), ("a.txt", "two")]).1 with
    | ok _ => rfl
    | error e =>
      rw [result] at passed
      cases passed
  have read : SnapshotManager.getSnapshot storeCrates
      (workspace [("a.txt", "one"), ("a.txt", "two")]) ⟨⟨"/s".toList⟩, 10⟩ "snap-1".toList =
        .ok made := by
    have there : pathExists (workspace [("a.txt", "one"), ("a.txt", "two")])
        (SnapshotManager.snapshotFilePath ⟨⟨"/s".toList⟩, 10⟩ "snap-1".toList) = true := by
      decide +kernel
    have stats : stat (workspace [("a.txt", "one"), ("a.txt", "two")]) true
        (SnapshotManager.snapshotFilePath ⟨⟨"/s".toList⟩, 10⟩ "snap-1".toList) =
          .ok (.file (.utf8 [])) := by
      decide +kernel
    unfold SnapshotManager.getSnapshot
    simp only [there, stats, Bool.true_eq_false, ↓reduceIte, storeCrates, created]
    rfl
  refine ⟨made, created, (snapshot_reverts_iff (fun _ => rfl) note_listed before created changed now
    read ⟨rfl, .refl _⟩ (Prod.ext ran rfl)).mpr ?_⟩
  rintro names ⟨other, named, content, last, -⟩
  cases List.mem_singleton.mp (List.mem_of_find?_eq_some last)
  exact other ⟨named, held⟩

/-- A file that is added stays, although the snapshot does not have it. -/
theorem added_file_stays : ∃ made, captureNote = .ok made ∧
    (restoreNote [("a.txt", "one"), ("b.txt", "new")]).1.toOption = some () ∧
    includedFiles defaultOptions ⟨"/w".toList⟩ ["w".toList]
      (restoreNote [("a.txt", "one"), ("b.txt", "new")]).2 ≠ capturedFiles made := by
  obtain ⟨made, created, missing⟩ := @note_captured (fun made =>
    (made.files.get (pathOf ["b.txt".toList])).isNone) (by decide +kernel)
  refine ⟨made, created, by decide +kernel, fun equal => ?_⟩
  have added : ["b.txt".toList] ∈ includedFiles defaultOptions ⟨"/w".toList⟩ ["w".toList]
      (restoreNote [("a.txt", "one"), ("b.txt", "new")]).2 :=
    ⟨by unfold Named; decide +kernel, .utf8 "new".toList, by decide +kernel, by decide +kernel⟩
  rw [equal] at added
  have held := added.2
  rw [Option.isNone_iff_eq_none.mp missing] at held
  cases held

end SnapshotReversion

end Devit
