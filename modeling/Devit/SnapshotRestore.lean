import Devit.Snapshot
import Devit.Library.PutBack
import Devit.Library.Reaching
import Devit.Library.Regular
import Devit.AtomicWrite

/-! Whether restoring a snapshot gives its files back. Files are written back one
after the other, and each may be copied first to a name made of its own; where that
is the name of a captured file that was written back before, it is overwritten with
what the copied file holds now. Otherwise every captured file ends up as it was. -/
namespace Devit
open Text Path FileSystem
open Files (Loc Later entry placeAt placeAt_loc)

namespace SnapshotRestore

/-! ## Names and paths -/

/-- The name of a file's backup. -/
def backupName (name : Text) : Text := stem name ++ '.' :: "backup".toList

/-- Where the backup of the file at a location goes. -/
def backupPlace (loc : Loc Text) : Loc Text :=
  match loc.getLast? with
  | none => loc
  | some name => loc.dropLast ++ [backupName name]

theorem backupPlace_concat (dir : Loc Text) (name : Text) :
    backupPlace (dir ++ [name]) = dir ++ [backupName name] := by
  simp [backupPlace]

theorem stem_backupName {name : Text} (filled : name ≠ []) : stem (backupName name) = stem name := by
  have found : ∀ s : Text, beforeLast ['.'] (s ++ '.' :: "backup".toList) = some s := by
    intro s
    induction s with
    | nil => decide
    | cons c cs ih => simp only [List.cons_append, beforeLast, ih]
  have some_stem : stem name ≠ [] := by
    unfold stem
    split
    · exact filled
    · exact filled
    · rename_i before other _
      rintro rfl
      exact other rfl
  have cut := found (stem name)
  rw [stem, backupName, cut]
  cases shape : stem name with
  | nil => exact absurd shape some_stem
  | cons c cs => rfl

theorem backupPlace_settled {dir : Loc Text} {name : Text} (filled : name ≠ []) :
    backupPlace (backupPlace (dir ++ [name])) = backupPlace (dir ++ [name]) := by
  rw [backupPlace_concat, backupPlace_concat, backupName, stem_backupName filled, backupName]

theorem backupName_plain {name : Text} (plain : PlainName name) : PlainName (backupName name) := by
  have length : 7 ≤ (backupName name).length := by simp [backupName]
  have start : stem name <+: name := AtomicWrite.stem_start name
  refine ⟨?_, ?_, ?_, ?_⟩
  · intro empty
    rw [empty] at length
    cases length
  · intro slash
    rcases List.mem_append.mp slash with inStem | inEnd
    · exact plain.2.1 (start.subset inStem)
    · exact absurd inEnd (by decide)
  · intro dot
    rw [dot] at length
    exact absurd length (by decide)
  · intro dots
    rw [dots] at length
    exact absurd length (by decide)

/-- The relative path of some names. -/
def pathOf (names : List Text) : PathBuf := ⟨join ['/'] names⟩

variable {root : PathBuf} {top : Loc Text} {names : List Text} {name : Text}

theorem pathOf_spec (plain : ∀ name ∈ names, PlainName name) :
    components (pathOf names) = names.map .normal ∧ isAbsolute (pathOf names) = false := by
  have clean : ∀ c ∈ names.map Component.normal, c.Plain := by
    intro c member
    obtain ⟨name, listed, rfl⟩ := List.mem_map.mp member
    exact plain name listed
  have spelled := @components_ofComponents [] _ clean (by simp)
  rw [List.nil_append, ofComponents_names] at spelled
  exact ⟨spelled.1, spelled.2.trans (by simp)⟩

theorem same_pathOf {names' : List Text} (plain : ∀ name ∈ names, PlainName name)
    (plain' : ∀ name ∈ names', PlainName name) :
    same (pathOf names) (pathOf names') = true ↔ names = names' := by
  rw [same, beq_iff_eq, (pathOf_spec plain).1, (pathOf_spec plain').1]
  exact ⟨fun equal => normal_injective.list_map equal, fun equal => by rw [equal]⟩

theorem pathOf_named {init : List Text} (plain : ∀ other ∈ init ++ [name], PlainName other) :
    asksDir (pathOf (init ++ [name])) = false := by
  have clean : ∀ c ∈ init.map Component.normal ++ [.normal name], c.Plain := by
    intro c member
    obtain ⟨other, listed, rfl⟩ : ∃ other ∈ init ++ [name], Component.normal other = c := by
      simpa [or_comm, eq_comm] using member
    exact plain other listed
  have ends := @asksDir_ofComponents [] _ _ clean (by simp)
  have spelled : init.map Component.normal ++ [.normal name] = (init ++ [name]).map .normal := by simp
  rw [List.nil_append, spelled, ofComponents_names] at ends
  exact ends

theorem below_join {init : List Text} (filled : root.text ≠ [])
    (plain : ∀ other ∈ init ++ [name], PlainName other) :
    Below root (pathJoin root (pathOf (init ++ [name]))) (init ++ [name]) := by
  obtain ⟨spelled, relative⟩ := pathOf_spec plain
  have listed : pieces (pathOf (init ++ [name])) ≠ [] := by
    intro none
    have bare : components (pathOf (init ++ [name])) = [] := by
      rw [components, relative, if_neg Bool.false_ne_true, none]
    rw [spelled] at bare
    simp at bare
  refine ⟨?_, (pieces_pathJoin filled relative).2, ?_⟩
  · rw [components_pathJoin filled relative, spelled]
    congr 1
    exact List.filter_eq_self.mpr fun c member => by
      obtain ⟨other, -, rfl⟩ := List.mem_map.mp member
      rfl
  · rw [asksDir_pathJoin filled relative listed]
    exact pathOf_named plain

/-- The path a walk gives an entry spells the names to it. -/
theorem below_entryPath {init : List Text} (filled : root.text ≠ [])
    (plain : ∀ other ∈ init ++ [name], PlainName other) :
    Below root (entryPath root (init ++ [name])) (init ++ [name]) := by
  have step : ∀ base : PathBuf, base.text ≠ [] → ∀ name, PlainName name →
      components (pathJoin base ⟨name⟩) = components base ++ [.normal name] ∧
      isAbsolute (pathJoin base ⟨name⟩) = isAbsolute base ∧
      asksDir (pathJoin base ⟨name⟩) = false := by
    intro base some_text name clean
    have one := @below_join base name [] some_text (by simpa using clean)
    exact ⟨one.comps, one.absolute, one.named⟩
  have walked : ∀ names : List Text, (∀ name ∈ names, PlainName name) →
      components (entryPath root names) = components root ++ names.map .normal ∧
      isAbsolute (entryPath root names) = isAbsolute root ∧ (entryPath root names).text ≠ [] := by
    intro names
    induction names using List.reverseRecOn with
    | nil => exact fun _ => ⟨by simp [entryPath], rfl, filled⟩
    | append_singleton names name ih =>
      intro clean
      obtain ⟨comps, absolute, some_text⟩ :=
        ih fun other member => clean other (List.mem_append_left _ member)
      obtain ⟨comps', absolute', -⟩ := step _ some_text name (clean name (by simp))
      have last : entryPath root (names ++ [name]) = pathJoin (entryPath root names) ⟨name⟩ := by
        rw [entryPath, List.foldl_append]
        rfl
      rw [last]
      refine ⟨by rw [comps', comps]; simp, absolute'.trans absolute, ?_⟩
      exact text_ne_nil comps'
  obtain ⟨comps, absolute, some_text⟩ :=
    walked init fun other member => plain other (List.mem_append_left _ member)
  obtain ⟨comps', absolute', named⟩ := step _ some_text name (plain name (by simp))
  have last : entryPath root (init ++ [name]) = pathJoin (entryPath root init) ⟨name⟩ := by
    rw [entryPath, List.foldl_append]
    rfl
  rw [last]
  exact ⟨by rw [comps', comps]; simp, absolute'.trans absolute, named⟩

/-- What a walked path is below its root. -/
theorem strip_below {p : PathBuf} (below : Below root p names) : pathStripPrefix p root = some (pathOf names) := by
  rw [pathStripPrefix, pathStartsWith, below.comps, if_pos, List.drop_left, ofComponents_names, pathOf]
  exact List.isPrefixOf_iff_prefix.mpr (List.prefix_append _ _)

theorem below_backup {p : PathBuf} {init : List Text} (plain : PlainName name)
    (below : Below root p (init ++ [name])) :
    Below root (withExtension p "backup".toList) (init ++ [backupName name]) := by
  have shape : components p = (components root ++ init.map .normal) ++ [.normal name] := by
    rw [below.comps]
    simp
  have named : fileName p = some name := by simp [fileName, shape]
  have spelled : withExtension p "backup".toList =
      ofComponents ((components root ++ init.map .normal) ++ [.normal (backupName name)]) := by
    simp only [withExtension, named, shape, List.dropLast_concat]
    rfl
  obtain ⟨same, absolute, asks, -⟩ := components_sibling shape (backupName_plain plain)
  rw [spelled]
  exact ⟨by rw [same]; simp, absolute.trans below.absolute, asks⟩

/-! ## What is captured -/

variable {crates : SnapshotCrates} {d d' : Disk} {options : SnapshotOptions}

/-- The entry of a snapshot is a file that was there when it was made. -/
def Captured (crates : SnapshotCrates) (d : Disk) (options : SnapshotOptions) (top : Loc Text)
    (e : PathBuf × SnapshotFile) : Prop :=
  ∃ names content, names ≠ [] ∧ (∀ name ∈ names, PlainName name) ∧
    entry d.tree (top ++ names) = some (.file content) ∧
    e = (pathOf names, snapshotFile crates options (pathOf names) content)

theorem captureEntry_captured {acc next : FileMap × Nat} (sound : d.Sound)
    (regular : Regular d.tree) (filled : root.text ≠ []) (opens : Opens d root top)
    (listed : names ≠ [] ∧ ∀ name ∈ names, PlainName name)
    (before : ∀ e ∈ acc.1.entries, Captured crates d options top e)
    (ran : captureEntry crates d options root acc names = .ok next) :
    ∀ e ∈ next.1.entries, Captured crates d options top e := by
  unfold captureEntry at ran
  split at ran
  · cases ran
    exact before
  · cases there : stat d true (entryPath root names) with
    | error e => simp [there] at ran
    | ok node =>
      cases node with
      | dir => simp [there] at ran
      | link target => simp [there] at ran
      | file content =>
        simp only [there] at ran
        split at ran
        · cases ran
          exact before
        · split at ran
          · cases ran
            exact before
          · cases ran
            obtain ⟨some_name, plain⟩ := listed
            obtain ⟨init, name, rfl⟩ := List.eq_nil_or_concat names |>.resolve_left some_name
            rw [List.concat_eq_append] at *
            have below := below_entryPath filled plain
            have found := (stat_below sound regular opens below).mp there
            rw [List.append_assoc] at found
            have own : Captured crates d options top (pathOf (init ++ [name]),
                snapshotFile crates options (pathOf (init ++ [name])) content) :=
              ⟨_, content, by simp, plain, found, rfl⟩
            rw [strip_below below, Option.getD_some]
            intro e member
            unfold FileMap.insert at member
            split at member
            · obtain ⟨old, inside, rfl⟩ := List.mem_map.mp member
              split
              · rename_i equal
                obtain ⟨names', content', -, plain', -, rfl⟩ := before old inside
                rw [same_pathOf plain' plain] at equal
                rw [equal]
                exact own
              · exact before old inside
            · rcases List.mem_append.mp member with inside | last
              · exact before e inside
              · rw [List.mem_singleton.mp last]
                exact own

/-- A walk lists names as directories hold them. -/
def Walks (crates : SnapshotCrates) (d : Disk) (options : SnapshotOptions) (root : PathBuf) : Prop :=
  ∀ names ∈ crates.walkDir d options.followSymlinks root,
    names ≠ [] ∧ ∀ name ∈ names, PlainName name

theorem create_captured {id description : Text} {snapshot : Snapshot} (sound : d.Sound)
    (regular : Regular d.tree) (filled : root.text ≠ []) (opens : Opens d root top)
    (walks : Walks crates d options root)
    (created : Snapshot.create crates d id root description options = .ok snapshot) :
    snapshot.rootPath = root ∧ ∀ e ∈ snapshot.files.entries, Captured crates d options top e := by
  have fold : ∀ (listing : List (List Text)) (acc next : FileMap × Nat),
      (∀ names ∈ listing, names ≠ [] ∧ ∀ name ∈ names, PlainName name) →
      (∀ e ∈ acc.1.entries, Captured crates d options top e) →
      listing.foldlM (captureEntry crates d options root) acc = .ok next →
      ∀ e ∈ next.1.entries, Captured crates d options top e := by
    intro listing
    induction listing with
    | nil =>
      intro acc next _ before ran
      cases ran
      exact before
    | cons names listing ih =>
      intro acc next listed before ran
      rw [List.foldlM_cons] at ran
      obtain ⟨mid, first, rest⟩ := Except.bind_eq_ok ran
      have own := captureEntry_captured sound regular filled opens
        (listed names List.mem_cons_self) before first
      exact ih mid next (fun other member => listed other (List.mem_cons_of_mem _ member)) own rest
  unfold Snapshot.create at created
  cases there : stat d true root with
  | error e => simp [there] at created
  | ok node =>
    simp only [there] at created
    obtain ⟨captured, ran, created⟩ := Except.bind_eq_ok created
    cases created
    exact ⟨rfl, fold _ _ captured walks (by simp [FileMap.empty]) ran⟩

/-! ## What each call does -/

variable {denied : Loc Text → Bool} {p : PathBuf} {init : List Text} {content : Content}

theorem writeFile_cases (denied : Loc Text → Bool) (p : PathBuf) (content : Content) (d : Disk) :
    (∃ e, writeFile denied p content d = (.error e, d)) ∨
      ∃ place, lookup d true p = .ok place ∧ entry d.tree place.loc ≠ some .dir ∧
        denied place.loc = false ∧
        writeFile denied p content d = (.ok (), d.put place.loc (some (.file content))) := by
  unfold writeFile
  cases lookup d true p with
  | error e => exact .inl ⟨_, rfl⟩
  | ok place =>
    dsimp only
    split
    · exact .inl ⟨_, rfl⟩
    · rename_i notDir
      split
      · exact .inl ⟨_, rfl⟩
      · rename_i permitted
        exact .inr ⟨place, rfl, notDir, by simpa using permitted, rfl⟩

theorem ioAt_ok {α : Type} {operation : String} {call : Action IoFailure Disk α} {a : α}
    (ran : ioAt operation p call d = (.ok a, d')) : call d = (.ok a, d') := by
  unfold ioAt at ran
  split at ran
  · rename_i inner
    cases ran
    exact inner
  · cases ran

/-- The disk is regular, and the root of the snapshot is where it was. -/
structure Rooted (d : Disk) (root : PathBuf) (top : Loc Text) : Prop where
  tidy : Tidy d
  opens : Opens d root top

/-- A file written below the root. -/
theorem writeFile_below (rooted : Rooted d root top) (below : Below root p (init ++ [name]))
    (ran : writeFile denied p content d = (.ok (), d')) : Rooted d' root top ∧
      fileAt d'.tree = Function.update (fileAt d.tree) (top ++ init ++ [name]) (some content) := by
  obtain ⟨⟨sound, regular⟩, opens⟩ := rooted
  rcases writeFile_cases denied p content d with ⟨e, failed⟩ | ⟨place, leads, notDir, -, wrote⟩
  · rw [failed] at ran
    cases ran
  · rw [wrote] at ran
    cases ran
    obtain ⟨held, rfl⟩ := (lookup_below sound regular opens below).mp leads
    rw [placeAt_loc] at notDir ⊢
    have dropped : (top ++ init ++ [name]).dropLast = top ++ init := List.dropLast_concat
    refine ⟨⟨⟨(Later.put _ notDir).sound sound, ?_⟩, opens_put ?_ opens⟩, ?_⟩
    · refine regular_put regular nofun ?_ notDir
      rw [dropped]
      exact held
    · rintro (isDir | ⟨target, isLink⟩)
      · exact notDir isDir
      · exact (regular _ _ isLink).1 target rfl
    · funext other
      rw [Files.Disk.put, fileAt_put (by simp), Function.update_apply]

theorem createParents_widens (sound : d.Sound) (options : RestoreOptions) (target : PathBuf) :
    Widened d (createParents options target d).2 := by
  unfold createParents
  split
  · cases parent target with
    | none => exact .refl d
    | some above =>
      have widened : Widened d (createDirAll above d).2 := createDirAllWithin_widens sound
      dsimp only
      split <;> rename_i ran <;> rw [ran] at widened <;> exact widened
  · exact .refl d

theorem createParents_tidy (options : RestoreOptions) (target : PathBuf) :
    Action.Keeps Tidy (createParents options target) := by
  unfold createParents
  split
  · cases parent target with
    | none => exact Action.keeps_pure ()
    | some above =>
      intro d tidy
      have kept := keeps_createDirAll above d tidy
      dsimp only
      split <;> rename_i ran <;> rw [ran] at kept <;> exact kept
  · exact Action.keeps_pure ()

theorem createParents_rooted {options : RestoreOptions} {target : PathBuf}
    (rooted : Rooted d root top) (ran : createParents options target d = (.ok (), d')) :
    Rooted d' root top ∧ fileAt d'.tree = fileAt d.tree := by
  have widened := createParents_widens rooted.tidy.1 options target
  have tidy := createParents_tidy options target d rooted.tidy
  rw [ran] at widened tidy
  exact ⟨⟨tidy, widened.opens rooted.opens⟩, funext widened.fileAt⟩

/-- Whether a path below the root is one of a file, when it may be copied. -/
theorem fileAt_of_exists (rooted : Rooted d root top) (below : Below root p (init ++ [name]))
    (missing : pathExists d p = false) : fileAt d.tree (top ++ init ++ [name]) = none := by
  have free : entry d.tree (top ++ init ++ [name]) = none := by
    by_contra there
    rw [(exists_below rooted.tidy.1 rooted.tidy.2 rooted.opens below).mpr there] at missing
    cases missing
  rw [fileAt, free]

/-- **Backups.** What copying a file to its backup does to the contents. -/
theorem backupTarget_below {options : RestoreOptions} (rooted : Rooted d root top)
    (plain : PlainName name) (below : Below root p (init ++ [name]))
    (ran : backupTarget denied options p d = (.ok (), d')) : Rooted d' root top ∧
      fileAt d'.tree = match options.backupExisting, fileAt d.tree (top ++ init ++ [name]) with
        | true, some old => Function.update (fileAt d.tree) (top ++ init ++ [backupName name])
            (some (if top ++ init ++ [backupName name] = top ++ init ++ [name] then .utf8 []
              else old))
        | _, _ => fileAt d.tree := by
  unfold backupTarget at ran
  cases wanted : options.backupExisting with
  | false =>
    rw [wanted, Bool.and_false, if_neg Bool.false_ne_true] at ran
    cases ran
    exact ⟨rooted, rfl⟩
  | true =>
    rw [wanted, Bool.and_true] at ran
    split at ran
    · have copied := ioAt_ok ran
      unfold copyFile at copied
      cases there : stat d true p with
      | error e => simp [there] at copied
      | ok node =>
        cases node with
        | dir => simp [there] at copied
        | link target => simp [there] at copied
        | file old =>
          simp only [there] at copied
          have found := (stat_below rooted.tidy.1 rooted.tidy.2 rooted.opens below).mp there
          obtain ⟨rooted', wrote⟩ := writeFile_below rooted (below_backup plain below) copied
          refine ⟨rooted', ?_⟩
          have held := (rooted.tidy.2 _ _ found).2
          rw [List.dropLast_concat] at held
          have reach : ∀ {q : PathBuf} {last : Text}, Below root q (init ++ [last]) →
              lookup d true q = .ok (placeAt d.tree (top ++ init ++ [last])) := fun spelled =>
            (lookup_below rooted.tidy.1 rooted.tidy.2 rooted.opens spelled).mpr ⟨held, rfl⟩
          have itself : lookup d true p = lookup d true (withExtension p "backup".toList) ↔
              top ++ init ++ [backupName name] = top ++ init ++ [name] := by
            rw [reach below, reach (below_backup plain below), Except.ok.injEq]
            refine ⟨fun equal => ?_, fun equal => by rw [equal]⟩
            have locs := congrArg Files.Place.loc equal
            rw [placeAt_loc, placeAt_loc] at locs
            exact locs.symm
          rw [wrote, fileAt_eq_some.mpr found]
          simp only [itself]
    · rename_i absent
      cases ran
      refine ⟨rooted, ?_⟩
      rw [fileAt_of_exists rooted below (by simpa using absent)]

/-! ## Putting the files back -/

/-- Where copies go, if any are made. -/
def copies (options : RestoreOptions) : Option (Loc Text → Loc Text) :=
  if options.backupExisting then some backupPlace else none

/-- Files are written over what is there. -/
def Writes (options : RestoreOptions) : Prop :=
  options.overwriteExisting = true ∧ options.dryRun = false

/-- One captured file, by its names and its content. -/
abbrev Item := List Text × Content

/-- Where an item goes. -/
def placed (top : Loc Text) (item : Item) : Loc Text × Content := (top ++ item.1, item.2)

variable {snapshot : Snapshot} {file : SnapshotFile} {restoring : RestoreOptions}

/-- **One file.** Restoring a file puts its content back. -/
theorem restoreEntry_puts {acc acc' : List PathBuf} (writes : Writes restoring)
    (rooted : Rooted d root top) (filled : root.text ≠ []) (at_root : snapshot.rootPath = root)
    (plain : ∀ other ∈ init ++ [name], PlainName other)
    (got : snapshot.files.get (pathOf (init ++ [name])) = some file)
    (decoded : ∀ s target, decode crates snapshot s target file = .ok content)
    (ran : restoreEntry crates denied restoring snapshot acc (pathOf (init ++ [name])) d =
      (.ok acc', d')) :
    Rooted d' root top ∧ fileAt d'.tree = PutBack.putBack (copies restoring) (.utf8 [])
      (fileAt d.tree) (placed top (init ++ [name], content)) := by
  have below := below_join filled plain
  unfold restoreEntry at ran
  simp only [got, at_root, writes.1, Bool.not_true, Bool.and_false, Bool.false_eq_true, ↓reduceIte,
    writes.2] at ran
  obtain ⟨_, first, backed, ran⟩ := Action.bind_eq_ok ran
  obtain ⟨_, last, restored, ran⟩ := Action.bind_eq_ok ran
  cases ran
  obtain ⟨rooted, kept⟩ := backupTarget_below rooted (plain name (by simp)) below backed
  unfold restoreFile at restored
  obtain ⟨_, parents, made, restored⟩ := Action.bind_eq_ok restored
  obtain ⟨rooted, same⟩ := createParents_rooted rooted made
  obtain ⟨found, after, read, wrote⟩ := Action.bind_eq_ok restored
  rw [decoded] at read
  cases read
  obtain ⟨rooted, now⟩ := writeFile_below rooted below (ioAt_ok wrote)
  refine ⟨rooted, ?_⟩
  have whole : top ++ (init ++ [name]) = top ++ init ++ [name] := (List.append_assoc ..).symm
  rw [now, same, kept, placed, whole]
  unfold PutBack.putBack copies
  cases restoring.backupExisting with
  | false => rfl
  | true =>
    cases fileAt d.tree (top ++ init ++ [name]) with
    | none => rfl
    | some old => simp only [↓reduceIte, backupPlace_concat]

/-- The file of the snapshot for an item. -/
def Holds (crates : SnapshotCrates) (snapshot : Snapshot) (item : Item) : Prop :=
  ∃ file, snapshot.files.get (pathOf item.1) = some file ∧
    ∀ s target, decode crates snapshot s target file = .ok item.2

/-- **All files.** Restoring puts the contents back in the order of the keys. -/
theorem restore_puts {acc restored : List PathBuf} (writes : Writes restoring)
    (rooted : Rooted d root top) (filled : root.text ≠ []) (at_root : snapshot.rootPath = root)
    {items : List Item} (named : ∀ item ∈ items, item.1 ≠ [] ∧ ∀ name ∈ item.1, PlainName name)
    (held : ∀ item ∈ items, Holds crates snapshot item)
    (ran : Action.forEach (restoreEntry crates denied restoring snapshot) acc
      (items.map fun item => pathOf item.1) d = (.ok restored, d')) :
    Rooted d' root top ∧ fileAt d'.tree =
      PutBack.putAll (copies restoring) (.utf8 []) (fileAt d.tree) (items.map (placed top)) := by
  induction items generalizing d acc with
  | nil =>
    cases ran
    exact ⟨rooted, rfl⟩
  | cons item items ih =>
    rw [List.map_cons, Action.forEach_cons] at ran
    obtain ⟨next, mid, first, rest⟩ := Action.bind_eq_ok ran
    obtain ⟨some_name, plain⟩ := named item List.mem_cons_self
    obtain ⟨file, got, decoded⟩ := held item List.mem_cons_self
    obtain ⟨names, content⟩ := item
    obtain ⟨init, name, rfl⟩ := List.eq_nil_or_concat names |>.resolve_left some_name
    rw [List.concat_eq_append] at *
    obtain ⟨rooted, now⟩ := restoreEntry_puts writes rooted filled at_root plain got decoded first
    obtain ⟨rooted, final⟩ := ih rooted (fun other member => named other (List.mem_cons_of_mem _ member))
      (fun other member => held other (List.mem_cons_of_mem _ member)) rest
    refine ⟨rooted, ?_⟩
    rw [final, now, List.map_cons]
    rfl

/-! ## Capturing and restoring -/

/-- A snapshot that was stored and read back: its files may be in another order. -/
structure ReadBack (created stored : Snapshot) : Prop where
  root : stored.rootPath = created.rootPath
  files : stored.files.entries.Perm created.files.entries

/-- The captured files are what they were, and a comparison finds them so. -/
structure Recovered (crates : SnapshotCrates) (before after : Disk) (snapshot : Snapshot) : Prop where
  contents : ∀ path ∈ snapshot.files.keys, ∃ content,
    readFile before (pathJoin snapshot.rootPath path) = .ok content ∧
      readFile after (pathJoin snapshot.rootPath path) = .ok content
  unchanged : ∃ differences, snapshot.compareWithCurrent crates after none = .ok differences ∧
    ∀ path ∈ snapshot.files.keys, .missing path ∉ differences ∧
      ∀ old new, .modified path old new ∉ differences

/-- The backup of one file of the snapshot has the name of another. -/
def BacksUpOver (snapshot : Snapshot) (other path : PathBuf) : Prop :=
  same (withExtension (pathJoin snapshot.rootPath other) "backup".toList)
    (pathJoin snapshot.rootPath path) = true

/-- Of the files restored after a file, the last one whose backup has its name, and
that there is to back up, holds what was captured for it. -/
def NoLateBackup (before now : Disk) (snapshot : Snapshot) : Prop :=
  ∀ earlier path between other rest,
    snapshot.files.keys = earlier ++ path :: (between ++ other :: rest) →
    BacksUpOver snapshot other path →
    ∀ old, readFile now (pathJoin snapshot.rootPath other) = .ok old →
      (∀ later ∈ rest, BacksUpOver snapshot later path →
        ∀ content, readFile now (pathJoin snapshot.rootPath later) ≠ .ok content) →
      readFile before (pathJoin snapshot.rootPath path) = .ok old

theorem readFile_below (rooted : Rooted d root top) (filled : root.text ≠ []) {item : Item}
    (some_name : item.1 ≠ []) (plain : ∀ name ∈ item.1, PlainName name) :
    readFile d (pathJoin root (pathOf item.1)) = .ok content ↔
      fileAt d.tree (placed top item).1 = some content := by
  obtain ⟨names, other⟩ := item
  obtain ⟨init, name, rfl⟩ := List.eq_nil_or_concat names |>.resolve_left some_name
  rw [List.concat_eq_append] at *
  have stats := fun node => @stat_below _ _ _ _ _ _ true node rooted.tidy.1 rooted.tidy.2
    rooted.opens (below_join filled plain)
  rw [fileAt_eq_some, placed, ← List.append_assoc, ← stats, readFile]
  cases stat d true (pathJoin root (pathOf (init ++ [name]))) with
  | error e => simp
  | ok node => cases node <;> simp

theorem backsUpOver_iff (filled : root.text ≠ []) (at_root : snapshot.rootPath = root)
    {other item : Item} (some_name : other.1 ≠ [] ∧ item.1 ≠ [])
    (plain : (∀ name ∈ other.1, PlainName name) ∧ ∀ name ∈ item.1, PlainName name) :
    BacksUpOver snapshot (pathOf other.1) (pathOf item.1) ↔
      backupPlace (placed top other).1 = (placed top item).1 := by
  obtain ⟨names, _⟩ := other
  obtain ⟨names', _⟩ := item
  obtain ⟨init, name, rfl⟩ := List.eq_nil_or_concat names |>.resolve_left some_name.1
  obtain ⟨init', name', rfl⟩ := List.eq_nil_or_concat names' |>.resolve_left some_name.2
  rw [List.concat_eq_append] at *
  rw [List.concat_eq_append] at *
  have left := below_backup (plain.1 name (by simp)) (below_join filled plain.1)
  have right := below_join filled plain.2
  rw [BacksUpOver, at_root, same, beq_iff_eq, left.comps, right.comps, List.append_cancel_left_eq,
    placed, ← List.append_assoc, backupPlace_concat, List.append_assoc, placed,
    List.append_cancel_left_eq]
  exact ⟨fun equal => normal_injective.list_map equal, fun equal => by rw [equal]⟩

/-- The entry of a snapshot for an item. -/
def captured (crates : SnapshotCrates) (options : SnapshotOptions) (item : Item) :
    PathBuf × SnapshotFile :=
  (pathOf item.1, snapshotFile crates options (pathOf item.1) item.2)

/-- An item as it was found when the snapshot was made. -/
structure Found (d : Disk) (top : Loc Text) (item : Item) : Prop where
  named : item.1 ≠ []
  plain : ∀ name ∈ item.1, PlainName name
  there : entry d.tree (top ++ item.1) = some (.file item.2)

/-- The snapshot has exactly these items, as they were found. -/
structure Stored (crates : SnapshotCrates) (options : SnapshotOptions) (d : Disk) (top : Loc Text)
    (snapshot : Snapshot) (items : List Item) : Prop where
  entries : snapshot.files.entries = items.map (captured crates options)
  found : ∀ item ∈ items, Found d top item

theorem captured_items {entries : List (PathBuf × SnapshotFile)}
    (all : ∀ e ∈ entries, Captured crates d options top e) :
    ∃ items : List Item, entries = items.map (captured crates options) ∧
      ∀ item ∈ items, Found d top item := by
  induction entries with
  | nil => exact ⟨[], rfl, nofun⟩
  | cons e entries ih =>
    obtain ⟨items, shape, found⟩ := ih fun other member => all other (List.mem_cons_of_mem _ member)
    obtain ⟨names, content, named, plain, there, rfl⟩ := all e List.mem_cons_self
    refine ⟨(names, content) :: items, by rw [shape]; rfl, ?_⟩
    intro item member
    rcases List.mem_cons.mp member with rfl | later
    · exact ⟨named, plain, there⟩
    · exact found item later

variable {items : List Item}

theorem Stored.keys (stored : Stored crates options d top snapshot items) :
    snapshot.files.keys = items.map fun item => pathOf item.1 := by
  rw [FileMap.keys, stored.entries, List.map_map]
  rfl

/-- No two items go to the same place. -/
theorem Stored.distinct (stored : Stored crates options d top snapshot items) :
    ((items.map (placed top)).map (·.1)).Nodup := by
  have apart := snapshot.files.distinct
  rw [stored.entries, List.map_map] at apart
  have names : (items.map (·.1)).Nodup := by
    refine List.Nodup.of_map (fun names => components (pathOf names)) ?_
    rw [List.map_map]
    exact apart
  have places : (items.map (placed top)).map (·.1) = (items.map (·.1)).map (top ++ ·) := by
    rw [List.map_map, List.map_map]
    rfl
  rw [places]
  exact names.map (List.append_right_injective top)

theorem Stored.settled (stored : Stored crates options d top snapshot items) :
    ∀ e ∈ items.map (placed top), backupPlace (backupPlace e.1) = backupPlace e.1 := by
  intro e member
  obtain ⟨⟨names, content⟩, inside, rfl⟩ := List.mem_map.mp member
  obtain ⟨named, plain, -⟩ := stored.found _ inside
  obtain ⟨init, name, rfl⟩ := List.eq_nil_or_concat names |>.resolve_left named
  rw [List.concat_eq_append] at *
  rw [placed, ← List.append_assoc]
  exact backupPlace_settled (plain name (by simp)).1

/-- What was captured can be read from the snapshot. -/
theorem Stored.holds (lossless : ∀ content, crates.inflate (crates.deflate content) = some content)
    (stored : Stored crates options d top snapshot items) :
    ∀ item ∈ items, Holds crates snapshot item := by
  intro item member
  have listed : captured crates options item ∈ snapshot.files.entries := by
    rw [stored.entries]
    exact List.mem_map_of_mem member
  refine ⟨_, FileMap.get_of_mem listed, fun s target => ?_⟩
  unfold captured snapshotFile decode
  dsimp only
  by_cases packed : options.compressContents && !isBinary item.2
  · simp only [packed, ↓reduceIte, lossless]
  · simp only [packed, Bool.false_eq_true, ↓reduceIte]

/-- At the level of places: the last copy made at an item's place holds its content. -/
theorem Stored.noLateBackup_iff (stored : Stored crates options d top snapshot items)
    (before : Rooted d root top) (now : Rooted d' root top) (filled : root.text ≠ [])
    (at_root : snapshot.rootPath = root) :
    NoLateBackup d d' snapshot ↔ ∀ earlier item after, items = earlier ++ item :: after →
      PutBack.LastCopy backupPlace (fileAt d'.tree) (placed top item).1 item.2
        (after.map (placed top)) := by
  have backs : ∀ {other item : Item}, other ∈ items → item ∈ items →
      (BacksUpOver snapshot (pathOf other.1) (pathOf item.1) ↔
        backupPlace (placed top other).1 = (placed top item).1) := fun inside inside' =>
    backsUpOver_iff filled at_root ⟨(stored.found _ inside).named, (stored.found _ inside').named⟩
      ⟨(stored.found _ inside).plain, (stored.found _ inside').plain⟩
  have reads : ∀ {item : Item} {content : Content}, item ∈ items →
      (readFile d' (pathJoin snapshot.rootPath (pathOf item.1)) = .ok content ↔
        fileAt d'.tree (placed top item).1 = some content) := by
    intro item content inside
    rw [at_root]
    exact readFile_below now filled (stored.found _ inside).named (stored.found _ inside).plain
  have was : ∀ {item : Item} {content : Content}, item ∈ items →
      (readFile d (pathJoin snapshot.rootPath (pathOf item.1)) = .ok content ↔ item.2 = content) := by
    intro item content inside
    rw [at_root, readFile_below before filled (stored.found _ inside).named
      (stored.found _ inside).plain, fileAt_eq_some, placed, (stored.found _ inside).there]
    simp
  constructor
  · intro late earlier item after shape between entry rest split copies old there free
    obtain ⟨mid, others, rfl, rfl, last⟩ := List.map_eq_append_iff.mp split
    obtain ⟨other, more, rfl, rfl, rfl⟩ := List.map_eq_cons_iff.mp last
    have inside : ∀ one ∈ item :: (mid ++ other :: more), one ∈ items := fun one member => by
      rw [shape]
      exact List.mem_append_right _ member
    have mine := inside item List.mem_cons_self
    have its := inside other (by simp)
    refine ((was mine).mp (late (earlier.map fun i => pathOf i.1) (pathOf item.1)
      (mid.map fun i => pathOf i.1) (pathOf other.1) (more.map fun i => pathOf i.1) ?_
      ((backs its mine).mpr copies) old ((reads its).mpr there) ?_)).symm
    · rw [stored.keys, shape]
      simp
    · intro later member over_it content reads_it
      obtain ⟨one, listed, rfl⟩ := List.mem_map.mp member
      have one_inside := inside one (by simp [listed])
      have gone := free (placed top one) (List.mem_map_of_mem listed)
        ((backs one_inside mine).mp over_it)
      rw [(reads one_inside).mp reads_it] at gone
      cases gone
  · intro copied earlier path between other rest split over_it old there free
    rw [stored.keys] at split
    obtain ⟨first, others, rfl, rfl, own⟩ := List.map_eq_append_iff.mp split
    obtain ⟨item, others, rfl, rfl, later⟩ := List.map_eq_cons_iff.mp own
    obtain ⟨mid, others, rfl, rfl, last⟩ := List.map_eq_append_iff.mp later
    obtain ⟨source, more, rfl, rfl, rfl⟩ := List.map_eq_cons_iff.mp last
    have mine : item ∈ first ++ item :: (mid ++ source :: more) := by simp
    have its : source ∈ first ++ item :: (mid ++ source :: more) := by simp
    rw [was mine]
    refine (copied first item (mid ++ source :: more) rfl (mid.map (placed top)) (placed top source)
      (more.map (placed top)) (by simp) ((backs its mine).mp over_it) old ((reads its).mp there)
      ?_).symm
    rintro e member same
    obtain ⟨one, listed, rfl⟩ := List.mem_map.mp member
    have one_inside : one ∈ first ++ item :: (mid ++ source :: more) := by simp [listed]
    by_contra some_copy
    obtain ⟨content, holds⟩ := Option.ne_none_iff_exists'.mp some_copy
    exact free (pathOf one.1) (List.mem_map_of_mem listed) ((backs one_inside mine).mpr same) content
      ((reads one_inside).mpr holds)

/-- **Comparing.** A captured file that is what it was is not reported. -/
theorem Stored.comparePath_same (stored : Stored crates options d top snapshot items)
    (now : Rooted d' root top) (filled : root.text ≠ []) (at_root : snapshot.rootPath = root)
    {item : Item} (inside : item ∈ items)
    (there : fileAt d'.tree (placed top item).1 = some item.2) :
    comparePath crates snapshot d' (pathOf item.1) = .ok [] := by
  have listed : captured crates options item ∈ snapshot.files.entries := by
    rw [stored.entries]
    exact List.mem_map_of_mem inside
  obtain ⟨named, plain, -⟩ := stored.found item inside
  have reads := (readFile_below now filled named plain).mpr there
  unfold readFile at reads
  have got : snapshot.files.get (pathOf item.1) = some (captured crates options item).2 :=
    FileMap.get_of_mem listed
  cases stats : stat d' true (pathJoin root (pathOf item.1)) with
  | error e => simp [stats] at reads
  | ok node =>
    cases node with
    | dir => simp [stats] at reads
    | link target => simp [stats] at reads
    | file content =>
      rw [stats] at reads
      cases reads
      have exist : pathExists d' (pathJoin root (pathOf item.1)) = true := by
        rw [pathExists, stats]
        rfl
      simp [comparePath, got, at_root, exist, stats, captured, snapshotFile]

theorem Stored.compare (stored : Stored crates options d top snapshot items)
    (now : Rooted d' root top) (filled : root.text ≠ []) (at_root : snapshot.rootPath = root)
    (there : ∀ item ∈ items, fileAt d'.tree (placed top item).1 = some item.2) :
    ∃ differences, snapshot.compareWithCurrent crates d' none = .ok differences ∧
      ∀ path ∈ snapshot.files.keys, .missing path ∉ differences ∧
        ∀ old new, .modified path old new ∉ differences := by
  have each : ∀ listed : List Item, (∀ item ∈ listed, item ∈ items) →
      (listed.map fun item => pathOf item.1).mapM (comparePath crates snapshot d') =
        .ok (listed.map fun _ => []) := by
    intro listed
    induction listed with
    | nil => exact fun _ => rfl
    | cons item listed ih =>
      intro inside
      have mine := inside item List.mem_cons_self
      rw [List.map_cons, List.mapM_cons,
        stored.comparePath_same now filled at_root mine (there item mine),
        ih fun other member => inside other (List.mem_cons_of_mem _ member)]
      rfl
  have ran : snapshot.compareWithCurrent crates d' none =
      .ok (addedFiles crates snapshot d') := by
    unfold Snapshot.compareWithCurrent
    rw [Option.getD_none, stored.keys, each items fun _ member => member]
    simp [Bind.bind, Except.bind]
  have only_added : ∀ difference ∈ addedFiles crates snapshot d', ∃ path, difference = .added path := by
    intro difference member
    obtain ⟨names, -, added⟩ := List.mem_filterMap.mp member
    dsimp only at added
    split at added
    · split at added
      · cases added
        exact ⟨_, rfl⟩
      · cases added
    · cases added
  refine ⟨_, ran, fun path _ => ⟨fun member => ?_, fun old new member => ?_⟩⟩
  · obtain ⟨other, same⟩ := only_added _ member
    cases same
  · obtain ⟨other, same⟩ := only_added _ member
    cases same

/-- The items end up where they were exactly if no late backup is made. -/
theorem Stored.restored_iff (lossless : ∀ content, crates.inflate (crates.deflate content) = some content)
    (stored : Stored crates options d top snapshot items) (before : Rooted d root top)
    (now : Rooted d' root top) (filled : root.text ≠ []) (at_root : snapshot.rootPath = root)
    {restored : List PathBuf} {d'' : Disk} (writes : Writes restoring)
    (ran : snapshot.restore crates denied restoring none d' = (.ok restored, d'')) :
    Rooted d'' root top ∧
      ((∀ item ∈ items, fileAt d''.tree (placed top item).1 = some item.2) ↔
        (restoring.backupExisting = true → NoLateBackup d d' snapshot)) := by
  unfold Snapshot.restore at ran
  rw [Option.getD_none, stored.keys] at ran
  obtain ⟨rooted, puts⟩ := restore_puts writes now filled at_root
    (fun item inside => ⟨(stored.found item inside).named, (stored.found item inside).plain⟩)
    (stored.holds lossless) ran
  refine ⟨rooted, ?_⟩
  have distinct := stored.distinct
  rw [stored.noLateBackup_iff before now filled at_root, puts]
  cases wanted : restoring.backupExisting with
  | false =>
    refine iff_of_true (fun item inside => ?_) nofun
    obtain ⟨earlier, after, rfl⟩ := List.append_of_mem inside
    rw [copies, wanted, if_neg Bool.false_ne_true]
    rw [List.map_append, List.map_cons] at distinct ⊢
    exact PutBack.putAll_own distinct
  | true =>
    have settled := stored.settled
    rw [copies, wanted, if_pos rfl]
    constructor
    · rintro all - earlier item after rfl
      have own := all item (by simp)
      rw [List.map_append, List.map_cons] at distinct settled own
      exact (PutBack.putAll_eq_iff settled distinct).mp own
    · intro late item inside
      obtain ⟨earlier, after, rfl⟩ := List.append_of_mem inside
      rw [List.map_append, List.map_cons] at distinct settled ⊢
      exact (PutBack.putAll_eq_iff settled distinct).mpr (late rfl earlier item after rfl)

/-- **Restoring inverts capturing.** After files were captured, the disk changed and
they were restored, every captured file is what it was exactly if backups are off
or none of them overwrites a file that was restored before. -/
theorem restore_inverts_capture_iff {id description : Text} {made stored : Snapshot}
    {restored : List PathBuf} {d'' : Disk}
    (lossless : ∀ content, crates.inflate (crates.deflate content) = some content)
    (walks : Walks crates d options root) (before : Rooted d root top)
    (created : Snapshot.create crates d id root description options = .ok made)
    (readBack : ReadBack made stored) (now : Rooted d' root top) (writes : Writes restoring)
    (ran : stored.restore crates denied restoring none d' = (.ok restored, d'')) :
    Recovered crates d d'' stored ↔
      (restoring.backupExisting = true → NoLateBackup d d' stored) := by
  have filled : root.text ≠ [] := by
    intro empty
    unfold Snapshot.create at created
    rw [stat_eq, lookup, route, if_pos empty] at created
    cases created
  obtain ⟨at_root, all⟩ := create_captured before.tidy.1 before.tidy.2 filled before.opens walks created
  obtain ⟨items, shape, found⟩ := captured_items fun e member =>
    all e ((readBack.files.mem_iff).mp member)
  have kept : Stored crates options d top stored items := ⟨shape, found⟩
  have same_root := readBack.root.trans at_root
  obtain ⟨rooted, same⟩ := kept.restored_iff lossless before now filled same_root writes ran
  rw [← same]
  have reads : ∀ item ∈ items, readFile d (pathJoin stored.rootPath (pathOf item.1)) = .ok item.2 := by
    intro item inside
    have one := found item inside
    rw [same_root, readFile_below before filled one.named one.plain, fileAt_eq_some]
    exact one.there
  have reads_later : ∀ item ∈ items, ∀ content,
      readFile d'' (pathJoin stored.rootPath (pathOf item.1)) = .ok content ↔
        fileAt d''.tree (placed top item).1 = some content := by
    intro item inside content
    rw [same_root]
    exact readFile_below rooted filled (found item inside).named (found item inside).plain
  constructor
  · rintro ⟨contents, -⟩ item inside
    obtain ⟨content, was, is⟩ := contents (pathOf item.1) (by
      rw [kept.keys]
      exact List.mem_map_of_mem inside)
    rw [reads item inside] at was
    cases was
    exact (reads_later item inside _).mp is
  · intro there
    refine ⟨fun path listed => ?_, kept.compare rooted filled same_root there⟩
    rw [kept.keys] at listed
    obtain ⟨item, inside, rfl⟩ := List.mem_map.mp listed
    exact ⟨item.2, reads item inside, (reads_later item inside _).mpr (there item inside)⟩

/-! ## A file with the name of a backup -/

/-- A directory `/w` with a note and a file that has the name of its backup. -/
def notes (note : String) : Disk :=
  (((⟨fun _ => none, [], []⟩ : Disk).put ["w".toList] (some .dir)).put
    ["w".toList, "a.backup".toList] (some (.file (.utf8 "old".toList)))).put
    ["w".toList, "a.txt".toList] (some (.file (.utf8 note.toList)))

/-- Crates that list the files in this order. -/
def listing (names : List String) : SnapshotCrates where
  blake3 := id
  deflate := id
  inflate := some
  walkDir := fun _ _ _ => names.map fun name => [name.toList]
  parse := fun _ => .error []

/-- Everything is captured. -/
def wholeTree : SnapshotOptions := ⟨true, none, [], true, false⟩

theorem grounded_one {name : Text} (isDir : entry d.tree [name] = some .dir) :
    Files.Grounded d.tree [name] := by
  intro above within
  rcases List.prefix_concat_iff.mp (show above <+: [] ++ [name] from within) with rfl | top
  · exact isDir
  · rw [List.prefix_nil.mp top]
    rfl

/-- Nothing but the root. -/
theorem regular_bare : Regular (⟨fun _ => none, [], []⟩ : Disk).tree := by
  rintro (_ | ⟨name, loc⟩) node there
  · cases there
    exact ⟨nofun, Files.grounded_root _⟩
  · cases there

theorem notes_rooted {note : String} (opens : Opens (notes note) ⟨"/w".toList⟩ ["w".toList]) :
    Rooted (notes note) ⟨"/w".toList⟩ ["w".toList] := by
  refine ⟨⟨Files.grounded_root _, ?_⟩, opens⟩
  refine regular_put (regular_put (regular_put regular_bare nofun (Files.grounded_root _) ?_) nofun ?_ ?_)
    nofun ?_ ?_
  · exact nofun
  · exact grounded_one (Files.entry_put_self _ (by simp))
  · decide +kernel
  · refine grounded_one ?_
    rw [Files.Disk.put, Files.entry_put_other _ (by simp)]
    exact Files.entry_put_self _ (by simp)
  · decide +kernel

/-- The note and the other file are captured as they are found. -/
def captureNotes (names : List String) : Except SnapshotError Snapshot :=
  Snapshot.create (listing names) (notes "one") [] ⟨"/w".toList⟩ [] wholeTree

/-- They are restored with backups after the note was edited. -/
def restoreNotes (names : List String) (made : Snapshot) : Except SnapshotError (List PathBuf) × Disk :=
  made.restore (listing names) (fun _ => false) ⟨true, true, false, true⟩ none (notes "two")

theorem notes_captured {names : List String} {check : Snapshot → Bool}
    (passes : (captureNotes names).toOption.any check = true) :
    ∃ made, captureNotes names = .ok made ∧ check made = true := by
  cases created : captureNotes names with
  | error e =>
    rw [created] at passes
    cases passes
  | ok made =>
    rw [created] at passes
    exact ⟨made, rfl, passes⟩

theorem notes_restored {names : List String} {made : Snapshot}
    (ran : (restoreNotes names made).1.toOption.isSome = true) :
    ∃ restored, restoreNotes names made = (.ok restored, (restoreNotes names made).2) := by
  cases shape : restoreNotes names made with
  | mk result after =>
    rw [shape] at ran
    cases result with
    | error e => cases ran
    | ok restored => exact ⟨restored, rfl⟩

/-- Where the other file is restored last, it does not keep the note's backup. -/
theorem backup_restored_last : ∃ made, captureNotes ["a.txt", "a.backup"] = .ok made ∧
    Recovered (listing ["a.txt", "a.backup"]) (notes "one")
      (restoreNotes ["a.txt", "a.backup"] made).2 made := by
  obtain ⟨made, created, facts⟩ := @notes_captured ["a.txt", "a.backup"] (fun made =>
    made.rootPath == ⟨"/w".toList⟩ &&
    made.files.keys == [⟨"a.txt".toList⟩, ⟨"a.backup".toList⟩] &&
    (restoreNotes ["a.txt", "a.backup"] made).1.toOption.isSome) (by decide +kernel)
  simp only [Bool.and_eq_true, beq_iff_eq] at facts
  obtain ⟨⟨at_root, listed⟩, ran⟩ := facts
  obtain ⟨restored, done⟩ := notes_restored ran
  have walks : Walks (listing ["a.txt", "a.backup"]) (notes "one") wholeTree ⟨"/w".toList⟩ := by
    unfold Walks
    decide +kernel
  have before := @notes_rooted "one" ⟨by decide +kernel, by decide +kernel⟩
  have now := @notes_rooted "two" ⟨by decide +kernel, by decide +kernel⟩
  refine ⟨made, created, (restore_inverts_capture_iff (fun _ => rfl) walks before created
    ⟨rfl, .refl _⟩ now ⟨rfl, rfl⟩ done).mpr ?_⟩
  rintro - earlier path between other rest shape copies
  rw [listed] at shape
  have long := congrArg List.length shape
  simp only [List.length_cons, List.length_append, List.length_nil] at long
  obtain rfl : earlier = [] := List.length_eq_zero_iff.mp (by omega)
  obtain rfl : between = [] := List.length_eq_zero_iff.mp (by omega)
  cases shape
  rw [BacksUpOver, at_root] at copies
  exact absurd copies (by decide +kernel)

/-- Where it is restored first, the note's backup overwrites it. -/
theorem backup_overwrites_restored : ∃ made, captureNotes ["a.backup", "a.txt"] = .ok made ∧
    (restoreNotes ["a.backup", "a.txt"] made).1.toOption.isSome = true ∧
    readFile (notes "one") ⟨"/w/a.backup".toList⟩ = .ok (.utf8 "old".toList) ∧
    readFile (restoreNotes ["a.backup", "a.txt"] made).2 ⟨"/w/a.backup".toList⟩ =
      .ok (.utf8 "two".toList) ∧
    ¬ Recovered (listing ["a.backup", "a.txt"]) (notes "one")
      (restoreNotes ["a.backup", "a.txt"] made).2 made := by
  have was : readFile (notes "one") ⟨"/w/a.backup".toList⟩ = .ok (.utf8 "old".toList) := by
    decide +kernel
  obtain ⟨made, created, facts⟩ := @notes_captured ["a.backup", "a.txt"] (fun made =>
    made.rootPath == ⟨"/w".toList⟩ && made.files.keys.contains ⟨"a.backup".toList⟩ &&
    (restoreNotes ["a.backup", "a.txt"] made).1.toOption.isSome &&
    decide (readFile (restoreNotes ["a.backup", "a.txt"] made).2 ⟨"/w/a.backup".toList⟩ =
      .ok (.utf8 "two".toList))) (by decide +kernel)
  simp only [Bool.and_eq_true, beq_iff_eq, decide_eq_true_eq, List.contains_iff_mem] at facts
  obtain ⟨⟨⟨at_root, listed⟩, ran⟩, now⟩ := facts
  refine ⟨made, created, ran, was, now, fun recovered => ?_⟩
  obtain ⟨content, before, after⟩ := recovered.contents _ listed
  rw [at_root, show pathJoin ⟨"/w".toList⟩ ⟨"a.backup".toList⟩ = ⟨"/w/a.backup".toList⟩ from rfl]
    at before after
  rw [was] at before
  rw [now] at after
  cases before.trans after.symm

end SnapshotRestore

end Devit
