import Devit.Library.Reaching
import Devit.Library.Search
import Devit.SnapshotStore

/-! The store as its snapshots: each is a file under its own identifier. What writing,
reading, listing, deleting and cleaning up do to them, and so what one call does. -/
namespace Devit
open Text Path FileSystem
open Files (Errno Loc entry openTruncate writeAll placeAt placeAt_loc)

namespace SnapshotFiles
open SnapshotManager

/-! ## Identifiers and file names -/

/-- An identifier that names a file as it is. -/
structure Dotless (id : Text) : Prop where
  filled : id ≠ []
  noSlash : '/' ∉ id
  noDot : '.' ∉ id

def fileOf (id : Text) : Text := id ++ ".json".toList

def tempOf (id : Text) : Text := id ++ ".json.tmp".toList

variable {manager : SnapshotManager} {blake3 : List UInt8 → List UInt8}

section
variable {id : Text}

theorem hexEncode_hex (bytes : List UInt8) : ∀ c ∈ hexEncode bytes, c ∉ ['/', '.', '-'] := by
  have digit : ∀ n < 16, Json.hexDigit n ∉ ['/', '.', '-'] := by decide
  intro c inside
  obtain ⟨b, -, shown⟩ := List.mem_flatMap.mp inside
  have small : b.toNat / 16 < 16 := by have := b.toNat_lt; omega
  have rest : b.toNat % 16 < 16 := Nat.mod_lt _ (by decide)
  rcases List.mem_cons.mp shown with rfl | second
  · exact digit _ small
  · rw [List.mem_singleton.mp second]
    exact digit _ rest

theorem generateSnapshotId_dotless (timestamp : Nat) (suffix : Option Text) :
    Dotless (generateSnapshotId blake3 timestamp suffix) := by
  have clean : ∀ c ∈ generateSnapshotId blake3 timestamp suffix, c ≠ '/' ∧ c ≠ '.' := by
    intro c member
    rcases List.mem_append.mp member with front | hash
    · rcases List.mem_append.mp front with snap | digit
      · have literal : "snap-".toList.all (fun c => c ≠ '/' ∧ c ≠ '.') = true := by decide
        exact of_decide_eq_true (List.all_eq_true.mp literal c snap)
      · have shown := printNat_isDigit digit
        refine ⟨?_, ?_⟩ <;> rintro rfl <;> exact absurd shown (by decide)
    · rcases List.mem_cons.mp hash with rfl | digit
      · decide
      · have shown := hexEncode_hex _ c digit
        simp only [List.mem_cons, List.not_mem_nil, or_false, not_or] at shown
        exact ⟨shown.1, shown.2.1⟩
  have filled : generateSnapshotId blake3 timestamp suffix ≠ [] :=
    List.append_ne_nil_of_right_ne_nil _ (List.cons_ne_nil _ _)
  exact ⟨filled, fun slash => (clean _ slash).1 rfl,
    fun dot => (clean _ dot).2 rfl⟩

theorem Dotless.plain (dotless : Dotless id) {ending : Text} (noSlash : '/' ∉ ending)
    (long : 2 ≤ ending.length) : PlainName (id ++ ending) := by
  have some_char := List.length_pos_iff.mpr dotless.filled
  have length : 3 ≤ (id ++ ending).length := by
    rw [List.length_append]
    omega
  refine ⟨?_, ?_, ?_, ?_⟩
  · intro empty
    rw [empty] at length
    cases length
  · exact fun slash => (List.mem_append.mp slash).elim dotless.noSlash noSlash
  · intro dot
    rw [dot] at length
    exact absurd length (by decide)
  · intro dots
    rw [dots] at length
    exact absurd length (by decide)

theorem fileOf_plain (dotless : Dotless id) : PlainName (fileOf id) :=
  dotless.plain (by decide) (by decide)

theorem snapshotFilePath_eq (dotless : Dotless id) :
    snapshotFilePath manager id = pathJoin manager.snapshotDir ⟨fileOf id⟩ := by
  have unended : stripSuffix ".json".toList id = none := by
    rw [stripSuffix, Option.map_eq_none_iff]
    cases found : stripPrefix ".json".toList.reverse id.reverse with
    | none => rfl
    | some rest =>
      have shape := stripPrefix_eq_some found
      have dot : '.' ∈ id.reverse := by
        rw [shape]
        exact List.mem_append_left _ (by decide)
      exact absurd (List.mem_reverse.mp dot) dotless.noDot
  rw [snapshotFilePath, unended]
  rfl

theorem beforeLast_fileOf (id : Text) : beforeLast ['.'] (fileOf id) = some id := by
  induction id with
  | nil => decide
  | cons c id ih =>
    rw [fileOf] at ih
    simp only [fileOf, List.cons_append, beforeLast, ih]

theorem fileOf_injective : Function.Injective fileOf := fun _ _ same =>
  List.append_cancel_right same

theorem fileOf_ne_tempOf (id other : Text) : fileOf id ≠ tempOf other := by
  intro same
  have ends := congrArg List.getLast? same
  rw [fileOf, tempOf, List.getLast?_append_of_ne_nil _ (by decide),
    List.getLast?_append_of_ne_nil _ (by decide)] at ends
  exact absurd ends (by decide)

/-- The file of an identifier stands in the store under its name. -/
theorem below_file (filled : manager.snapshotDir.text ≠ []) (dotless : Dotless id) :
    Below manager.snapshotDir (snapshotFilePath manager id) [fileOf id] := by
  rw [snapshotFilePath_eq dotless]
  exact below_child filled (fileOf_plain dotless)

/-- The temporary file stands beside it. -/
theorem below_temp (filled : manager.snapshotDir.text ≠ []) (dotless : Dotless id) :
    Below manager.snapshotDir (withExtension (snapshotFilePath manager id) "json.tmp".toList)
      [tempOf id] := by
  have below := below_file filled dotless
  have shape : components (snapshotFilePath manager id) =
      components manager.snapshotDir ++ [.normal (fileOf id)] := below.comps
  have named : fileName (snapshotFilePath manager id) = some (fileOf id) := by
    simp [fileName, shape]
  have stemmed : stem (fileOf id) = id := by
    obtain ⟨c, cs, rfl⟩ := List.exists_cons_of_ne_nil dotless.filled
    rw [stem, beforeLast_fileOf]
  have spelled : withExtension (snapshotFilePath manager id) "json.tmp".toList =
      ofComponents (components manager.snapshotDir ++ [.normal (tempOf id)]) := by
    simp only [withExtension, named, shape, List.dropLast_concat, stemmed]
    rfl
  obtain ⟨comps, absolute, named, -⟩ :=
    components_sibling shape (@Dotless.plain id dotless ".json.tmp".toList (by decide) (by decide))
  rw [spelled]
  exact ⟨comps, absolute.trans below.absolute, named⟩

theorem extension_file (filled : manager.snapshotDir.text ≠ []) (dotless : Dotless id) :
    extension (pathJoin manager.snapshotDir ⟨fileOf id⟩) = some "json".toList := by
  have shape : components (pathJoin manager.snapshotDir ⟨fileOf id⟩) =
      components manager.snapshotDir ++ [.normal (fileOf id)] :=
    (below_child filled (fileOf_plain dotless)).comps
  have named : fileName (pathJoin manager.snapshotDir ⟨fileOf id⟩) = some (fileOf id) := by
    simp [fileName, shape]
  obtain ⟨c, cs, rfl⟩ := List.exists_cons_of_ne_nil dotless.filled
  rw [extension, named, Option.bind_some, beforeLast_fileOf]
  simp [fileOf]

end

/-- The storage directory of a manager has a name. -/
theorem snapshotDir_filled (path : PathBuf) (max : Nat) :
    (SnapshotManager.create path max).snapshotDir.text ≠ [] := by
  have joined : ∀ base : PathBuf, (pathJoin base ⟨"snapshots".toList⟩).text ≠ [] := by
    intro base
    rw [pathJoin, if_neg (by decide)]
    split <;> simp
  rw [SnapshotManager.create]
  unfold normalizeSnapshotDir
  split
  · rename_i named
    intro empty
    obtain ⟨comps, name, shape⟩ := (fileName_cases path).resolve_left fun none => by
      rw [none] at named
      cases named
    exact text_ne_nil shape empty
  · split <;> exact joined _

/-! ## When identifiers are alike -/

theorem textBytes_injective : Function.Injective textBytes := by
  intro s t same
  have encoded : s.utf8Encode = t.utf8Encode := congrArg List.toByteArray same
  have decoded := congrArg ByteArray.utf8Decode? encoded
  rw [List.utf8Decode?_utf8Encode, List.utf8Decode?_utf8Encode] at decoded
  exact Array.toList_inj.mpr (Option.some.inj decoded)

theorem hexDigit_injective {n m : Nat} (small : n < 16) (small' : m < 16)
    (same : Json.hexDigit n = Json.hexDigit m) : n = m := by
  rw [← Json.hexValue_hexDigit small, same, Json.hexValue_hexDigit small']

theorem hexEncode_injective : Function.Injective hexEncode := by
  intro bytes
  induction bytes with
  | nil =>
    intro bytes' same
    cases bytes' with
    | nil => rfl
    | cons b bytes' => cases same
  | cons b bytes ih =>
    intro bytes' same
    cases bytes' with
    | nil => cases same
    | cons b' bytes' =>
      simp only [hexEncode, List.flatMap_cons, List.cons_append, List.nil_append,
        List.cons.injEq] at same
      obtain ⟨high, low, rest⟩ := same
      have first := hexDigit_injective (by have := b.toNat_lt; omega)
        (by have := b'.toNat_lt; omega) high
      have second := hexDigit_injective (Nat.mod_lt _ (by decide)) (Nat.mod_lt _ (by decide)) low
      have byte : b = b' := UInt8.toNat_inj.mp (by omega)
      rw [byte, ih rest]

/-- What is hashed for an identifier. -/
def hashed (creation : Creation) : List UInt8 :=
  textBytes (printNat creation.timestamp) ++ textBytes creation.description

def idOf (blake3 : List UInt8 → List UInt8) (creation : Creation) : Text :=
  generateSnapshotId blake3 creation.timestamp (some creation.description)

/-- The hashes that these calls make have no collision. -/
def CollisionFree (blake3 : List UInt8 → List UInt8) (creations : List Creation) : Prop :=
  ∀ a ∈ creations, ∀ b ∈ creations,
    (blake3 (hashed a)).take 8 = (blake3 (hashed b)).take 8 → hashed a = hashed b

/-- Two calls give one identifier if they come in one second with one description. -/
theorem idOf_eq_iff {a b : Creation}
    (free : (blake3 (hashed a)).take 8 = (blake3 (hashed b)).take 8 → hashed a = hashed b) :
    idOf blake3 a = idOf blake3 b ↔
      a.timestamp = b.timestamp ∧ a.description = b.description := by
  constructor
  · intro same
    have dashless : ∀ n : Nat, '-' ∉ printNat n := fun n member =>
      absurd (printNat_isDigit member) (by decide)
    have cut : printNat a.timestamp ++ '-' :: hexEncode ((blake3 (hashed a)).take 8) =
        printNat b.timestamp ++ '-' :: hexEncode ((blake3 (hashed b)).take 8) := by
      refine @List.append_cancel_left _ "snap-".toList _ _ ?_
      rw [← List.append_assoc, ← List.append_assoc]
      exact same
    have parts := congrArg (splitFirst '-') cut
    rw [splitFirst_append _ (dashless _), splitFirst_append _ (dashless _)] at parts
    simp only [Option.some.injEq, Prod.mk.injEq] at parts
    have times := printNat_injective parts.1
    have bytes := free (hexEncode_injective parts.2)
    rw [hashed, hashed, times, List.append_cancel_left_eq] at bytes
    exact ⟨times, textBytes_injective bytes⟩
  · rintro ⟨times, descriptions⟩
    rw [idOf, idOf, times, descriptions]

/-! ## What the store holds -/

/-- A snapshot and what its file has. -/
structure Filed where
  snapshot : DatedSnapshot
  content : Content

def Filed.id (e : Filed) : Text := e.snapshot.id

/-- What a list shows of a snapshot. -/
def info (snapshot : DatedSnapshot) : SnapshotInfo :=
  ⟨snapshot.id, snapshot.createdAt, snapshot.description, snapshot.files.entries.length,
    snapshot.totalSize, snapshot.rootPath⟩

/-- The captured snapshot, as it is read back: only its files may come in another order. -/
structure Alike (captured read : Snapshot) : Prop where
  id : read.id = captured.id
  description : read.description = captured.description
  rootPath : read.rootPath = captured.rootPath
  files : read.files.entries.Perm captured.files.entries
  integrityHash : read.integrityHash = captured.integrityHash
  totalSize : read.totalSize = captured.totalSize

/-- serde reads back what it writes. -/
def ReadsBack (crates : StoreCrates) : Prop :=
  ∀ snapshot content, crates.serialize snapshot = .ok content →
    crates.readCreatedAt content = snapshot.createdAt ∧
      ∃ read, crates.parse content = .ok read ∧ Alike snapshot.toSnapshot read

/-- The files of some snapshots, by their names. -/
def table (kept : List Filed) (name : Text) : Option Content :=
  (kept.find? fun e => fileOf e.id = name).map Filed.content

/-- The store holds these snapshots, and no other files. -/
structure Holding (crates : StoreCrates) (manager : SnapshotManager) (d : Disk) (top : Loc Text)
    (kept : List Filed) : Prop where
  shelf : Shelf d manager.snapshotDir top (table kept)
  dotless : ∀ e ∈ kept, Dotless e.id
  written : ∀ e ∈ kept, crates.serialize e.snapshot = .ok e.content
  distinct : (kept.map Filed.id).Nodup

variable {crates : StoreCrates} {listing : Listing} {d d' : Disk} {top : Loc Text}
  {kept : List Filed} {e : Filed}

/-- The snapshots after one more is written: one with the same identifier is replaced. -/
def withFile (kept : List Filed) (e : Filed) : List Filed :=
  kept.filter (fun other => other.id ≠ e.id) ++ [e]

theorem table_withFile (kept : List Filed) (e : Filed) : table (withFile kept e) =
    Function.update (Function.update (table kept) (tempOf e.id) none) (fileOf e.id)
      (some e.content) := by
  funext name
  rw [table, withFile, List.find?_append]
  by_cases own : name = fileOf e.id
  · subst own
    have none_other : (kept.filter fun other => other.id ≠ e.id).find?
        (fun other => fileOf other.id = fileOf e.id) = none := by
      refine List.find?_eq_none.mpr fun other member => ?_
      have apart := List.of_mem_filter member
      simp only [decide_eq_true_eq] at apart ⊢
      exact fun same => apart (fileOf_injective same)
    rw [none_other, Function.update_self]
    simp
  · have later : ([e].find? fun other => decide (fileOf other.id = name)) = none := by
      simp [Ne.symm own]
    rw [later, Option.or_none, Function.update_of_ne own]
    have others : (kept.filter fun other => other.id ≠ e.id).find?
        (fun other => fileOf other.id = name) = kept.find? fun other => fileOf other.id = name := by
      rw [List.find?_filter]
      congr 1
      funext other
      have apart : fileOf other.id = name → other.id ≠ e.id := by
        rintro rfl same
        exact own (congrArg fileOf same)
      simpa using apart
    rw [others]
    by_cases temporary : name = tempOf e.id
    · subst temporary
      rw [Function.update_self, Option.map_eq_none_iff]
      refine List.find?_eq_none.mpr fun other _ => ?_
      simp [fileOf_ne_tempOf]
    · rw [Function.update_of_ne temporary, table]

theorem withFile_distinct {kept : List Filed} (distinct : (kept.map Filed.id).Nodup) (e : Filed) :
    ((withFile kept e).map Filed.id).Nodup := by
  rw [withFile, List.map_append, List.nodup_append]
  refine ⟨distinct.sublist (List.filter_sublist.map _), List.nodup_singleton _, ?_⟩
  rintro id inside other last rfl
  obtain ⟨before, member, same⟩ := List.mem_map.mp inside
  have apart := List.of_mem_filter member
  simp only [decide_eq_true_eq] at apart
  exact apart (same.trans (List.mem_singleton.mp last))

theorem table_tail {kept : List Filed} (distinct : ((e :: kept).map Filed.id).Nodup) :
    table kept = Function.update (table (e :: kept)) (fileOf e.id) none := by
  have absent := (List.nodup_cons.mp distinct).1
  funext name
  by_cases own : name = fileOf e.id
  · subst own
    rw [Function.update_self, table, Option.map_eq_none_iff]
    refine List.find?_eq_none.mpr fun other member => ?_
    simp only [decide_eq_true_eq]
    intro same
    exact absent (List.mem_map.mpr ⟨other, member, fileOf_injective same⟩)
  · rw [Function.update_of_ne own, table, table,
      List.find?_cons_of_neg (by simpa using Ne.symm own)]

theorem table_eq_some {kept : List Filed} (distinct : (kept.map Filed.id).Nodup)
    {name : Text} {content : Content} : table kept name = some content ↔
      ∃ e ∈ kept, fileOf e.id = name ∧ e.content = content := by
  rw [table, Option.map_eq_some_iff]
  constructor
  · rintro ⟨e, found, same⟩
    exact ⟨e, List.mem_of_find?_eq_some found, by simpa using List.find?_some found, same⟩
  · rintro ⟨e, member, rfl, same⟩
    refine ⟨e, ?_, same⟩
    induction kept with
    | nil => cases member
    | cons first kept ih =>
      rw [List.map_cons, List.nodup_cons] at distinct
      rcases List.mem_cons.mp member with rfl | later
      · exact List.find?_cons_of_pos (by simp)
      · have apart : fileOf first.id ≠ fileOf e.id := fun equal =>
          distinct.1 (List.mem_map.mpr ⟨e, later, (fileOf_injective equal).symm⟩)
        rw [List.find?_cons_of_neg (by simpa using apart)]
        exact ih distinct.2 later

/-! ## Writing -/

theorem osAt_eq_ok {α : Type} {operation : String} {path : PathBuf} {call : Action Errno Disk α}
    {a : α} (ran : osAt operation path call d = (.ok a, d')) : call d = (.ok a, d') := by
  unfold osAt at ran
  split at ran
  · rename_i own
    cases ran
    exact own
  · cases ran

/-- The directory of the file is there already. -/
theorem ensureParent_there (sound : d.Sound) {path : PathBuf} {name : Text}
    (opens : Opens d manager.snapshotDir top) (below : Below manager.snapshotDir path [name])
    (ran : ensureParent path d = (.ok (), d')) : d' = d := by
  have shape : components path = components manager.snapshotDir ++ [.normal name] := below.comps
  have higher : parent path = some (ofComponents (components manager.snapshotDir)) := by
    rw [parent, shape, List.getLast?_concat, List.dropLast_concat]
  have plain : PlainName name := by
    obtain ⟨front, rest, whole, clean, first⟩ := components_shape path
    have member : Component.normal name ∈ front ++ rest := by rw [← whole, shape]; simp
    rcases List.mem_append.mp member with bad | inside
    · rcases first with ⟨rfl, -⟩ | ⟨rfl | rfl, -⟩ <;> simp at bad
    · exact clean _ inside
  obtain ⟨-, -, -, comps, absolute⟩ := components_sibling shape plain
  rw [ensureParent, higher] at ran
  dsimp only at ran
  by_cases bare : (ofComponents (components manager.snapshotDir)).text = []
  · split at ran
    · cases ran
      rfl
    · have made := osAt_eq_ok ran
      rw [createDirAll, createDirAllWithin] at made
      simp only [bare, if_true] at made
      cases made
      rfl
  · have above : Opens d (ofComponents (components manager.snapshotDir)) top := by
      rw [Opens, base, comps, absolute, below.absolute]
      exact opens
    rw [if_pos (exists_of_opens sound bare above)] at ran
    cases ran
    rfl

/-- What writing does to the disk, where it succeeds. -/
theorem writeSnapshotFile_eq {files : Text → Option Content} {id : Text} {content : Content}
    (shelf : Shelf d manager.snapshotDir top files) (dotless : Dotless id)
    (ran : writeSnapshotFile manager id content d = (.ok (), d')) :
    entry d.tree (top ++ [tempOf id]) ≠ some .dir ∧ entry d.tree (top ++ [fileOf id]) ≠ some .dir ∧
      d' = replaced d (top ++ [tempOf id]) (top ++ [fileOf id]) (.utf8 []) content := by
  have below := below_file shelf.filled dotless
  obtain ⟨_, mid, parents, rest⟩ := Action.bind_eq_ok ran
  obtain rfl := ensureParent_there shelf.sound shelf.opens below parents
  obtain ⟨loc, opened, opening, rest⟩ := Action.bind_eq_ok rest
  obtain ⟨_, full, writing, moving⟩ := Action.bind_eq_ok rest
  have wrote := osAt_eq_ok writing
  cases wrote
  exact shelf.replaces below (below_temp shelf.filled dotless) (fileOf_ne_tempOf id id)
    (osAt_eq_ok opening) (osAt_eq_ok moving)

/-- **Writing** changes the store at the name of the identifier. -/
theorem writeSnapshotFile_shelf {files : Text → Option Content} {id : Text} {content : Content}
    (shelf : Shelf d manager.snapshotDir top files) (dotless : Dotless id)
    (ran : writeSnapshotFile manager id content d = (.ok (), d')) :
    Shelf d' manager.snapshotDir top (Function.update (Function.update files (tempOf id) none)
      (fileOf id) (some content)) := by
  obtain ⟨tempFree, free, rfl⟩ := writeSnapshotFile_eq shelf dotless ran
  exact shelf.replace (fileOf_ne_tempOf id id) tempFree free

/-- The store after one more snapshot is written. -/
theorem Holding.write (holding : Holding crates manager d top kept) (dotless : Dotless e.id)
    (written : crates.serialize e.snapshot = .ok e.content)
    (ran : writeSnapshotFile manager e.id e.content d = (.ok (), d')) :
    Holding crates manager d' top (withFile kept e) := by
  have cases_of : ∀ other ∈ withFile kept e, other ∈ kept ∨ other = e := by
    intro other member
    rcases List.mem_append.mp member with before | last
    · exact .inl (List.mem_of_mem_filter before)
    · exact .inr (List.mem_singleton.mp last)
  refine ⟨?_, fun other member => ?_, fun other member => ?_, ?_⟩
  · rw [table_withFile]
    exact writeSnapshotFile_shelf holding.shelf dotless ran
  · rcases cases_of other member with before | rfl
    · exact holding.dotless other before
    · exact dotless
  · rcases cases_of other member with before | rfl
    · exact holding.written other before
    · exact written
  · exact withFile_distinct holding.distinct e

/-! ## Reading -/

/-- What is read under an identifier. -/
theorem Holding.get (holding : Holding crates manager d top kept) (reads : ReadsBack crates)
    (member : e ∈ kept) : ∃ read, getSnapshot crates.toSnapshotCrates d manager e.id = .ok read ∧
      Alike e.snapshot.toSnapshot read := by
  have below := below_file holding.shelf.filled (holding.dotless e member)
  have held : table kept (fileOf e.id) = some e.content :=
    (table_eq_some holding.distinct).mpr ⟨e, member, rfl, rfl⟩
  have isFile := (holding.shelf.stat_file true below).mpr held
  obtain ⟨-, read, parsed, alike⟩ := reads e.snapshot e.content (holding.written e member)
  refine ⟨read, ?_, alike⟩
  have there : pathExists d (snapshotFilePath manager e.id) = true := by
    rw [pathExists, isFile]
    rfl
  rw [getSnapshot]
  simp only [there, Bool.true_eq_false, if_false, isFile, parsed]

/-- What is shown of an entry of the store. -/
theorem Holding.storedInfo (holding : Holding crates manager d top kept)
    (reads : ReadsBack crates) {name : Text} (plain : PlainName name) :
    storedInfo crates manager d name =
      .ok ((kept.find? fun e => fileOf e.id = name).map fun e => info e.snapshot) := by
  have below := below_child holding.shelf.filled plain
  rw [SnapshotManager.storedInfo]
  cases held : table kept name with
  | none =>
    have absent : kept.find? (fun e => fileOf e.id = name) = none := by
      rw [table, Option.map_eq_none_iff] at held
      exact held
    rw [absent]
    split
    · rename_i content isFile
      rw [(holding.shelf.stat_file true below).mp isFile] at held
      cases held
    · rfl
  | some content =>
    have isFile := (holding.shelf.stat_file true below).mpr held
    rw [table, Option.map_eq_some_iff] at held
    obtain ⟨e, found, rfl⟩ := held
    have member := List.mem_of_find?_eq_some found
    have named : fileOf e.id = name := by simpa using List.find?_some found
    subst named
    obtain ⟨dated, read, parsed, alike⟩ := reads e.snapshot e.content (holding.written e member)
    have ending := extension_file holding.shelf.filled (holding.dotless e member)
    simp only [found, isFile, ending, ne_eq, not_true_eq_false, if_false, parsed, alike.id, dated,
      alike.description, alike.files.length_eq, alike.totalSize, alike.rootPath]
    rfl

/-! ## Listing -/

/-- What the names of the store show is what it holds, in some order. -/
theorem shown_perm {names : List Text} (distinct : (kept.map Filed.id).Nodup) (nodup : names.Nodup)
    (all : ∀ e ∈ kept, fileOf e.id ∈ names) :
    (names.filterMap fun name => kept.find? fun e => fileOf e.id = name).Perm kept := by
  have named : ∀ name e, kept.find? (fun e => fileOf e.id = name) = some e →
      e ∈ kept ∧ fileOf e.id = name := fun name e found =>
    ⟨List.mem_of_find?_eq_some found, by simpa using List.find?_some found⟩
  have once : kept.Nodup := List.Nodup.of_map _ distinct
  refine (List.perm_ext_iff_of_nodup ?_ once).mpr fun e => ?_
  · refine List.Nodup.filterMap ?_ nodup
    intro name name' e first second
    rw [← (named name e first).2, ← (named name' e second).2]
  · rw [List.mem_filterMap]
    constructor
    · rintro ⟨name, -, found⟩
      exact (named name e found).1
    · intro member
      refine ⟨fileOf e.id, all e member, ?_⟩
      have held := (table_eq_some distinct).mpr ⟨e, member, rfl, rfl⟩
      rw [table, Option.map_eq_some_iff] at held
      obtain ⟨other, found, -⟩ := held
      obtain ⟨member', same⟩ := named _ _ found
      rw [found, List.inj_on_of_nodup_map distinct member' member (fileOf_injective same)]

/-- **Listing** shows every snapshot of the store once. -/
theorem Holding.list (holding : Holding crates manager d top kept) (reads : ReadsBack crates)
    {catalog : Catalog d} (listed : listing d = .ok catalog) :
    ∃ infos, listSnapshots crates listing manager d = .ok (byCreation infos) ∧
      infos.Perm (kept.map fun e => info e.snapshot) := by
  obtain ⟨leads, isDir⟩ := (opens_iff holding.shelf.sound holding.shelf.filled).mp
    holding.shelf.opens
  have there := exists_of_opens holding.shelf.sound holding.shelf.filled holding.shelf.opens
  have names : readEntries listing manager d = .ok (catalog.names top) := by
    rw [readEntries, listed, leads]
    simp only [Files.Place.loc, isDir]
  have each : (catalog.names top).mapM (SnapshotManager.storedInfo crates manager d) =
      .ok ((catalog.names top).map fun name =>
        (kept.find? fun e => fileOf e.id = name).map fun e => info e.snapshot) :=
    mapM_each fun name member => holding.storedInfo reads (catalog.plain top name member)
  refine ⟨((catalog.names top).filterMap fun name => kept.find? fun e => fileOf e.id = name).map
    fun e => info e.snapshot, ?_, (shown_perm holding.distinct (catalog.nodup top) ?_).map _⟩
  · have shown : ((catalog.names top).map fun name =>
        (kept.find? fun e => fileOf e.id = name).map fun e => info e.snapshot).filterMap id =
        ((catalog.names top).filterMap fun name => kept.find? fun e => fileOf e.id = name).map
          fun e => info e.snapshot := by
      rw [List.filterMap_map, List.map_filterMap]
      rfl
    simp only [listSnapshots, there, Bool.true_eq_false, if_false, names, each, shown]
  · intro e member
    have held : table kept (fileOf e.id) = some e.content :=
      (table_eq_some holding.distinct).mpr ⟨e, member, rfl, rfl⟩
    have below := below_file holding.shelf.filled (holding.dotless e member)
    have isFile := (holding.shelf.stat true below).mp
      ((holding.shelf.stat_file true below).mpr held)
    refine (catalog.complete top _ isDir).mpr ?_
    rw [entry, if_neg (by simp)] at isFile
    rw [isFile]
    exact Option.some_ne_none _

/-! ## Sorting by the time -/

/-- The snapshots stand in the order of their times. -/
def InOrder (kept : List Filed) : Prop :=
  kept.Pairwise fun a b => a.snapshot.createdAt < b.snapshot.createdAt

theorem byCreation_perm (infos : List SnapshotInfo) : (byCreation infos).Perm infos :=
  List.mergeSort_perm ..

/-- What is sorted stands in the order of creation. -/
theorem byCreation_inOrder (ordered : InOrder kept) {infos : List SnapshotInfo}
    (perm : infos.Perm (kept.map fun e => info e.snapshot)) :
    byCreation infos = kept.map fun e => info e.snapshot := by
  have sorted : (byCreation infos).Pairwise fun a b => a.createdAt ≤ b.createdAt := by
    have pairs := @List.pairwise_mergeSort _ (fun a b : SnapshotInfo => a.createdAt ≤ b.createdAt)
      (by simpa using fun a b c => Nat.le_trans) (by simpa using fun a b => Nat.le_total _ _) infos
    rw [byCreation]
    simpa using pairs
  have same := (byCreation_perm infos).trans perm
  have once : (kept.map fun e => e.snapshot.createdAt).Nodup := by
    rw [List.Nodup, List.pairwise_map]
    exact ordered.imp Nat.ne_of_lt
  refine same.eq_of_pairwise (fun a b member member' le le' => ?_) sorted ?_
  · obtain ⟨e, inside, rfl⟩ := List.mem_map.mp (same.subset member)
    obtain ⟨f, inside', rfl⟩ := List.mem_map.mp member'
    rw [List.inj_on_of_nodup_map once inside inside' (Nat.le_antisymm le le')]
  · rw [List.pairwise_map]
    exact ordered.imp Nat.le_of_lt

/-! ## Deleting -/

/-- The disk without the files of these snapshots. -/
def without (d : Disk) (top : Loc Text) (old : List Filed) : Disk :=
  old.foldl (fun d e => d.put (top ++ [fileOf e.id]) none) d

theorem Holding.delete (holding : Holding crates manager d top (e :: kept)) :
    deleteSnapshot manager e.id d = (.ok (), without d top [e]) ∧
      Holding crates manager (without d top [e]) top kept := by
  have below := below_file holding.shelf.filled (holding.dotless e List.mem_cons_self)
  have held : table (e :: kept) (fileOf e.id) = some e.content :=
    (table_eq_some holding.distinct).mpr ⟨e, List.mem_cons_self, rfl, rfl⟩
  obtain ⟨removed, shelf⟩ := holding.shelf.remove below held
  have there : pathExists d (snapshotFilePath manager e.id) = true := by
    rw [pathExists, (holding.shelf.stat_file true below).mpr held]
    rfl
  refine ⟨?_, ?_, fun other member => ?_, fun other member => ?_, ?_⟩
  · simp only [deleteSnapshot, there, Bool.true_eq_false, if_false, osAt, removed]
    rfl
  · rw [table_tail holding.distinct]
    exact shelf
  · exact holding.dotless other (List.mem_cons_of_mem _ member)
  · exact holding.written other (List.mem_cons_of_mem _ member)
  · exact (List.nodup_cons.mp holding.distinct).2

/-- Deleting the first ones, one after the other. -/
theorem Holding.deleteEach (holding : Holding crates manager d top kept) (count deleted : Nat) :
    Action.forEach (fun deleted info => do
        deleteSnapshot manager info.id
        pure (deleted + 1)) deleted ((kept.map fun e => info e.snapshot).take count) d =
        (.ok (deleted + min count kept.length), without d top (kept.take count)) ∧
      Holding crates manager (without d top (kept.take count)) top (kept.drop count) := by
  induction kept generalizing d count deleted with
  | nil =>
    rw [List.take_nil, List.drop_nil]
    exact ⟨by simp [without], holding⟩
  | cons e kept ih =>
    cases count with
    | zero => exact ⟨by simp [without], holding⟩
    | succ count =>
      obtain ⟨first, rest⟩ := holding.delete
      obtain ⟨ran, final⟩ := ih rest count (deleted + 1)
      refine ⟨?_, final⟩
      have own : (deleteSnapshot manager (info e.snapshot).id >>= fun _ => pure (deleted + 1) :
          Action SnapshotError Disk Nat) d = (.ok (deleted + 1), without d top [e]) :=
        Action.bind_of_ok first
      rw [List.map_cons, List.take_succ_cons, Action.forEach_cons, Action.bind_of_ok own, ran,
        List.length_cons]
      refine Prod.ext (congrArg Except.ok ?_) rfl
      omega

/-- **Cleaning up** leaves the last snapshots, as many as are to be kept; where no more are
held the order of their times does not matter. -/
theorem Holding.cleanup (holding : Holding crates manager d top kept) (reads : ReadsBack crates)
    (some_kept : manager.maxSnapshots ≠ 0)
    (ordered : kept.length ≤ manager.maxSnapshots ∨ InOrder kept) {catalog : Catalog d}
    (listed : listing d = .ok catalog) :
    cleanupOldSnapshots crates listing manager d = (.ok (kept.length - manager.maxSnapshots),
      without d top (kept.take (kept.length - manager.maxSnapshots))) := by
  obtain ⟨infos, shown, perm⟩ := holding.list reads listed
  have length : (byCreation infos).length = kept.length := by
    rw [(byCreation_perm infos).length_eq, perm.length_eq, List.length_map]
  rw [cleanupOldSnapshots, if_neg some_kept, shown]
  dsimp only
  rw [length]
  split
  · rename_i few
    rw [Nat.sub_eq_zero_of_le few]
    rfl
  · rename_i many
    have ordered := ordered.resolve_left many
    rw [byCreation_inOrder ordered perm, byCreation_inOrder ordered (List.Perm.refl _),
      (holding.deleteEach (kept.length - manager.maxSnapshots) 0).1]
    refine Prod.ext (congrArg Except.ok ?_) rfl
    omega

/-- A store that was cleaned up. -/
theorem Holding.cleaned (holding : Holding crates manager d top kept) (reads : ReadsBack crates)
    (some_kept : manager.maxSnapshots ≠ 0)
    (ordered : kept.length ≤ manager.maxSnapshots ∨ InOrder kept) {count : Nat}
    (ran : cleanupOldSnapshots crates listing manager d = (.ok count, d')) :
    Holding crates manager d' top (kept.drop (kept.length - manager.maxSnapshots)) := by
  cases listed : listing d with
  | ok catalog =>
    rw [holding.cleanup reads some_kept ordered listed] at ran
    cases ran
    exact (holding.deleteEach (kept.length - manager.maxSnapshots) 0).2
  | error e =>
    have there := exists_of_opens holding.shelf.sound holding.shelf.filled holding.shelf.opens
    simp only [cleanupOldSnapshots, some_kept, if_false, listSnapshots, there, Bool.true_eq_false,
      readEntries, listed] at ran
    cases ran

/-! ## One call -/

/-- What a call captures. -/
theorem capture_ok {creation : Creation} {snapshot : DatedSnapshot}
    (captured : capture crates creation d = .ok snapshot) :
    snapshot.id = idOf crates.blake3 creation ∧ snapshot.createdAt = creation.createdAt := by
  unfold capture at captured
  split at captured
  · cases captured
  · rename_i own made
    cases captured
    refine ⟨?_, rfl⟩
    unfold Snapshot.create at made
    split at made
    · cases made
    · obtain ⟨files, -, made⟩ := Except.bind_eq_ok made
      cases made
      rfl

/-- The steps of a call that succeeds. -/
theorem createSnapshot_eq_ok {creation : Creation} {id : Text} :
    createSnapshot crates listing manager creation d = (.ok id, d') ↔
      ∃ ready snapshot content written, ensureStorageDir manager d = (.ok (), ready) ∧
        capture crates creation ready = .ok snapshot ∧ crates.serialize snapshot = .ok content ∧
        id = snapshot.id ∧ writeSnapshotFile manager snapshot.id content ready = (.ok (), written) ∧
        ((manager.maxSnapshots = 0 ∧ d' = written) ∨ (manager.maxSnapshots ≠ 0 ∧
          ∃ count, cleanupOldSnapshots crates listing manager written = (.ok count, d'))) := by
  constructor
  · intro ran
    obtain ⟨_, ready, ensured, rest⟩ := Action.bind_eq_ok ran
    obtain ⟨snapshot, same, captured, rest⟩ := Action.bind_eq_ok rest
    obtain ⟨own, rfl⟩ := Prod.mk.inj captured
    obtain ⟨content, same, lifted, rest⟩ := Action.bind_eq_ok rest
    obtain ⟨encoded, rfl⟩ := Prod.mk.inj lifted
    obtain ⟨_, written, wrote, rest⟩ := Action.bind_eq_ok rest
    have serialized : crates.serialize snapshot = .ok content := by
      unfold serialized at encoded
      split at encoded
      · rename_i own
        cases encoded
        exact own
      · cases encoded
    refine ⟨ready, snapshot, content, written, ensured, own, serialized, ?_⟩
    by_cases none_dropped : manager.maxSnapshots = 0
    · rw [if_neg (by omega)] at rest
      cases rest
      exact ⟨rfl, wrote, .inl ⟨none_dropped, rfl⟩⟩
    · rw [if_pos (by omega)] at rest
      obtain ⟨count, after, cleaned, last⟩ := Action.bind_eq_ok rest
      cases last
      exact ⟨rfl, wrote, .inr ⟨none_dropped, count, cleaned⟩⟩
  · rintro ⟨ready, snapshot, content, written, ensured, captured, written_as, rfl, wrote, ends⟩
    have lifted : (Action.lift (serialized crates snapshot) : Action SnapshotError Disk Content)
        ready = (.ok content, ready) := by
      rw [Action.lift, serialized, written_as]
    have own : (fun d => (capture crates creation d, d) : Action SnapshotError Disk DatedSnapshot)
        ready = (.ok snapshot, ready) := congrArg (·, ready) captured
    rw [createSnapshot, Action.bind_of_ok ensured]
    refine (Action.bind_of_ok own).trans ?_
    rw [Action.bind_of_ok lifted, Action.bind_of_ok wrote]
    rcases ends with ⟨all, rfl⟩ | ⟨some_kept, count, cleaned⟩
    · rw [if_neg (by omega)]
      rfl
    · rw [if_pos (by omega), Action.bind_of_ok cleaned]
      rfl

/-- The storage directory is there. -/
theorem Holding.there (holding : Holding crates manager d top kept) :
    ensureStorageDir manager d = (.ok (), d) := by
  rw [ensureStorageDir,
    if_pos (exists_of_opens holding.shelf.sound holding.shelf.filled holding.shelf.opens)]

end SnapshotFiles

end Devit
