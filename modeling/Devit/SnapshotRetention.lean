import Devit.ExplorationSafety
import Devit.SnapshotFiles

/-! Which snapshots the store holds after any number of calls. An identifier is made of the
second and of the description: two calls with both alike overwrite each other. Otherwise all
are kept, or as many of the last ones as are to be. -/
namespace Devit
open Text Path FileSystem
open Files (Loc entry)

namespace SnapshotRetention
open SnapshotManager SnapshotFiles

variable {crates : StoreCrates} {manager : SnapshotManager} {listing : Listing} {d d' : Disk}
  {top : Loc Text} {kept : List Filed}

/-! ## Any number of calls -/

theorem create_maxSnapshots (path : PathBuf) (max : Nat) :
    (SnapshotManager.create path max).maxSnapshots = max := rfl

/-- The store is not there, or has no files; nor has it any once it is there. -/
structure Unused (manager : SnapshotManager) (d : Disk) : Prop where
  sound : d.Sound
  free : pathExists d manager.snapshotDir = false ∨ isDir d manager.snapshotDir = true
  empty : ∀ ready top, ensureStorageDir manager d = (.ok (), ready) →
    Opens ready manager.snapshotDir top →
    ∀ name, entry ready.tree (top ++ [name]) = some .dir ∨ entry ready.tree (top ++ [name]) = none

/-- What happens between two calls leaves the store as it is. -/
structure Leaves (manager : SnapshotManager) (d mid : Disk) : Prop where
  sound : d.Sound → mid.Sound
  unused : Unused manager d → Unused manager mid
  opens : ∀ top, Opens d manager.snapshotDir top → Opens mid manager.snapshotDir top
  entries : ∀ top, Opens d manager.snapshotDir top →
    ∀ name, entry mid.tree (top ++ [name]) = entry d.tree (top ++ [name])

theorem Leaves.refl (manager : SnapshotManager) (d : Disk) : Leaves manager d d :=
  ⟨id, id, fun _ opens => opens, fun _ _ _ => rfl⟩

/-- A call that succeeded, with what it captured. -/
structure Made where
  creation : Creation
  snapshot : DatedSnapshot

/-- Calls that succeed, from a store that is not in use. Between them the rest of the disk
may change, and the system may list the store in any order. -/
inductive Run (crates : StoreCrates) (manager : SnapshotManager) : List Made → Disk → Prop
  | start {d : Disk} (unused : Unused manager d) : Run crates manager [] d
  | create {made : List Made} {d mid after : Disk} {listing : Listing} {creation : Creation}
      {snapshot : DatedSnapshot} (before : Run crates manager made d)
      (leaves : Leaves manager d mid)
      (captured : capture crates creation (ensureStorageDir manager mid).2 = .ok snapshot)
      (ran : createSnapshot crates listing manager creation mid = (.ok snapshot.id, after)) :
      Run crates manager (made ++ [⟨creation, snapshot⟩]) after

/-- What is left of the snapshots after one more call. -/
def keep (max : Nat) (kept : List Filed) (e : Filed) : List Filed :=
  if max = 0 then withFile kept e
  else (withFile kept e).drop ((withFile kept e).length - max)

theorem withFile_sublist (kept : List Filed) (e : Filed) :
    (withFile kept e).Sublist (kept ++ [e]) :=
  List.filter_sublist.append_right _

theorem keep_sublist (max : Nat) (kept : List Filed) (e : Filed) :
    (keep max kept e).Sublist (kept ++ [e]) := by
  unfold keep
  split
  · exact withFile_sublist kept e
  · exact (List.drop_sublist _ _).trans (withFile_sublist kept e)

/-- What is left of the snapshots after any number of calls. -/
def left (max : Nat) (filed : List Filed) : List Filed := filed.foldl (keep max) []

theorem left_concat (max : Nat) (filed : List Filed) (e : Filed) :
    left max (filed ++ [e]) = keep max (left max filed) e := by
  rw [left, List.foldl_concat]
  rfl

theorem left_sublist (max : Nat) (filed : List Filed) : (left max filed).Sublist filed := by
  induction filed using List.reverseRecOn with
  | nil => exact .slnil
  | append_singleton filed e ih =>
    rw [left_concat]
    exact (keep_sublist max _ e).trans (ih.append_right [e])

theorem left_distinct (max : Nat) (filed : List Filed) : ((left max filed).map Filed.id).Nodup := by
  induction filed using List.reverseRecOn with
  | nil => exact List.nodup_nil
  | append_singleton filed e ih =>
    rw [left_concat, keep]
    split
    · exact withFile_distinct ih e
    · exact (withFile_distinct ih e).sublist ((List.drop_sublist _ _).map _)

/-- Snapshots with identifiers of their own stay, as many of the last as are to be kept. -/
theorem left_of_distinct {max : Nat} {filed : List Filed}
    (distinct : (filed.map Filed.id).Nodup) :
    left max filed = if max = 0 then filed else filed.drop (filed.length - max) := by
  induction filed using List.reverseRecOn with
  | nil => simp [left]
  | append_singleton filed e ih =>
    rw [List.map_append, List.nodup_append] at distinct
    have apart : ∀ other ∈ left max filed, other.id ≠ e.id := fun other member =>
      distinct.2.2 _ (List.mem_map_of_mem ((left_sublist max filed).subset member)) _ (by simp)
    have whole : withFile (left max filed) e = left max filed ++ [e] := by
      rw [withFile, List.filter_eq_self.mpr fun other member => by simpa using apart other member]
    rw [left_concat, keep, whole, ih distinct.1]
    split
    · rfl
    · rename_i some_kept
      rw [List.length_append, List.length_drop, List.length_append, List.length_singleton,
        ← List.drop_append_of_le_length (by omega), List.drop_drop]
      congr 1
      omega

/-- The store with nothing in it, once it is there. -/
theorem Unused.holding (unused : Unused manager d) (filled : manager.snapshotDir.text ≠ [])
    (ensured : ensureStorageDir manager d = (.ok (), d')) :
    ∃ top, Holding crates manager d' top [] := by
  have made : d'.Sound ∧ isDir d' manager.snapshotDir = true := by
    have ran := ensured
    unfold ensureStorageDir at ran
    split at ran
    · rename_i there
      cases ran
      exact ⟨unused.sound, unused.free.resolve_left (by rw [there]; decide)⟩
    · have made := osAt_eq_ok ran
      have widened : Widened d (createDirAll manager.snapshotDir d).2 :=
        createDirAllWithin_widens unused.sound
      rw [made] at widened
      exact ⟨widened.later.sound unused.sound, isDir_createDirAll unused.sound filled made⟩
  obtain ⟨top, opens⟩ := (isDir_iff made.1 filled).mp made.2
  refine ⟨top, ⟨made.1, filled, opens, fun name => ?_⟩, nofun, nofun, List.nodup_nil⟩
  exact (unused.empty d' top ensured opens name).imp (⟨·, rfl⟩) id

/-- What other calls leave as it is holds the same snapshots. -/
theorem Leaves.holding (leaves : Leaves manager d d')
    (holding : Holding crates manager d top kept) : Holding crates manager d' top kept := by
  obtain ⟨⟨sound, filled, opens, entries⟩, dotless, written, distinct⟩ := holding
  refine ⟨⟨leaves.sound sound, filled, leaves.opens top opens, fun name => ?_⟩, dotless, written,
    distinct⟩
  rw [leaves.entries top opens name]
  exact entries name

/-- **One call** adds its snapshot, and drops what is not kept. -/
theorem createSnapshot_holds {creation : Creation} {snapshot : DatedSnapshot} {mid : Disk}
    (reads : ReadsBack crates)
    (ready : ∀ d', ensureStorageDir manager d = (.ok (), d') →
      Holding crates manager d' top kept)
    (captured : capture crates creation (ensureStorageDir manager d).2 = .ok snapshot)
    (ordered : manager.maxSnapshots = 0 ∨ kept.length < manager.maxSnapshots ∨
      (kept.map (·.snapshot.createdAt) ++ [snapshot.createdAt]).Pairwise (· < ·))
    (ran : createSnapshot crates listing manager creation d = (.ok snapshot.id, mid)) :
    ∃ content,
      Holding crates manager mid top (keep manager.maxSnapshots kept ⟨snapshot, content⟩) := by
  obtain ⟨after, snapshot', content, written, ensured, captured', serialized, -, wrote, ends⟩ :=
    createSnapshot_eq_ok.mp ran
  rw [ensured, captured'] at captured
  cases captured
  have dotless : Dotless snapshot.id := by
    rw [(capture_ok captured').1]
    exact generateSnapshotId_dotless _ _
  have holding : Holding crates manager written top (withFile kept ⟨snapshot, content⟩) :=
    (ready after ensured).write (e := ⟨snapshot, content⟩) dotless serialized wrote
  refine ⟨content, ?_⟩
  rcases ends with ⟨all, rfl⟩ | ⟨some_kept, count, cleaned⟩
  · rw [keep, if_pos all]
    exact holding
  · rw [keep, if_neg some_kept]
    have sublist := withFile_sublist kept ⟨snapshot, content⟩
    refine holding.cleaned reads some_kept ((ordered.resolve_left some_kept).imp ?_ ?_) cleaned
    · intro few
      have shorter := sublist.length_le
      rw [List.length_append, List.length_singleton] at shorter
      omega
    · intro increasing
      have whole : InOrder (kept ++ [⟨snapshot, content⟩]) := by
        have joined : ((kept ++ [(⟨snapshot, content⟩ : Filed)]).map
            (·.snapshot.createdAt)).Pairwise (· < ·) := by
          rw [List.map_append]
          exact increasing
        exact List.pairwise_map.mp joined
      exact whole.sublist sublist

/-- What a call made is what it captured. -/
theorem Run.captured {made : List Made} (run : Run crates manager made d) :
    ∀ m ∈ made, m.snapshot.id = idOf crates.blake3 m.creation ∧
      m.snapshot.createdAt = m.creation.createdAt := by
  induction run with
  | start _ => exact nofun
  | create _ _ captured _ ih =>
    intro m member
    rcases List.mem_append.mp member with before | last
    · exact ih m before
    · rw [List.mem_singleton.mp last]
      exact capture_ok captured

/-- **Any number of calls** leave the snapshots that are kept. -/
theorem Run.held {made : List Made} (run : Run crates manager made d)
    (filled : manager.snapshotDir.text ≠ []) (reads : ReadsBack crates)
    (ordered : manager.maxSnapshots = 0 ∨ made.length ≤ manager.maxSnapshots ∨
      (made.map (·.creation.createdAt)).Pairwise (· < ·)) :
    ∃ filed : List Filed, filed.map Filed.snapshot = made.map Made.snapshot ∧
      ((made = [] ∧ Unused manager d) ∨
        ∃ top, Holding crates manager d top (left manager.maxSnapshots filed)) := by
  induction run with
  | start unused => exact ⟨[], rfl, .inl ⟨rfl, unused⟩⟩
  | @create made d mid after listing creation snapshot before leaves captured ran ih =>
    have earlier : manager.maxSnapshots = 0 ∨ made.length < manager.maxSnapshots ∨
        (made.map (·.creation.createdAt) ++ [creation.createdAt]).Pairwise (· < ·) := by
      rwa [List.length_append, List.map_append, List.length_singleton, Nat.succ_le_iff] at ordered
    obtain ⟨filed, same, held⟩ := ih
      (earlier.imp_right (Or.imp Nat.le_of_lt fun all => (List.pairwise_append.mp all).1))
    have times : filed.map (·.snapshot.createdAt) = made.map (·.creation.createdAt) := by
      have own : filed.map (·.snapshot.createdAt) = made.map (·.snapshot.createdAt) := by
        have mapped := congrArg (List.map (·.createdAt)) same
        rwa [List.map_map, List.map_map] at mapped
      rw [own]
      exact List.map_congr_left fun m member => (before.captured m member).2
    have length : filed.length = made.length := by simpa using congrArg List.length same
    have sublist := left_sublist manager.maxSnapshots filed
    have ordered' : manager.maxSnapshots = 0 ∨
        (left manager.maxSnapshots filed).length < manager.maxSnapshots ∨
        ((left manager.maxSnapshots filed).map (·.snapshot.createdAt) ++
          [snapshot.createdAt]).Pairwise (· < ·) := by
      refine earlier.imp_right (Or.imp (fun few => ?_) fun all => ?_)
      · have shorter := sublist.length_le
        omega
      · rw [← times, ← (capture_ok captured).2] at all
        exact all.sublist ((sublist.map _).append_right _)
    have ready : ∃ top, ∀ ready, ensureStorageDir manager mid = (.ok (), ready) →
        Holding crates manager ready top (left manager.maxSnapshots filed) := by
      rcases held with ⟨rfl, unused⟩ | ⟨top, holding⟩
      · obtain rfl : filed = [] := List.length_eq_zero_iff.mp length
        obtain ⟨_, ready, ensured, -⟩ := Action.bind_eq_ok ran
        obtain ⟨top, holding⟩ := @Unused.holding crates _ _ _ (leaves.unused unused) filled ensured
        refine ⟨top, fun other again => ?_⟩
        rw [ensured] at again
        cases again
        exact holding
      · have kept := leaves.holding holding
        refine ⟨top, fun other again => ?_⟩
        rw [kept.there] at again
        cases again
        exact kept
    obtain ⟨top, ready⟩ := ready
    obtain ⟨content, final⟩ := createSnapshot_holds reads ready captured ordered' ran
    refine ⟨filed ++ [⟨snapshot, content⟩], ?_, .inr ⟨top, ?_⟩⟩
    · rw [List.map_append, List.map_append, same]
      rfl
    · rw [left_concat]
      exact final

/-! ## What the store shows after any number of calls -/

/-- An unused store lists nothing. -/
theorem Unused.list (unused : Unused manager d) (filled : manager.snapshotDir.text ≠ [])
    (reads : ReadsBack crates) {catalog : Catalog d} (listed : listing d = .ok catalog) :
    listSnapshots crates listing manager d = .ok [] := by
  rcases unused.free with missing | isDir
  · rw [listSnapshots, if_pos missing]
  · obtain ⟨top, opens⟩ := (isDir_iff unused.sound filled).mp isDir
    have there : ensureStorageDir manager d = (.ok (), d) := by
      rw [ensureStorageDir, if_pos (exists_of_opens unused.sound filled opens)]
    obtain ⟨top, holding⟩ := @Unused.holding crates _ _ _ unused filled there
    obtain ⟨infos, ran, perm⟩ := holding.list reads listed
    rw [ran, List.perm_nil.mp perm, byCreation, List.mergeSort_nil]

/-- The snapshots that the calls made are listed, as many as are kept. -/
theorem Run.list {made : List Made} (run : Run crates manager made d)
    (filled : manager.snapshotDir.text ≠ []) (reads : ReadsBack crates)
    (ordered : manager.maxSnapshots = 0 ∨ made.length ≤ manager.maxSnapshots ∨
      (made.map (·.creation.createdAt)).Pairwise (· < ·))
    {catalog : Catalog d} (listed : listing d = .ok catalog) :
    ∃ filed : List Filed, filed.map Filed.snapshot = made.map Made.snapshot ∧
      (∃ infos, listSnapshots crates listing manager d = .ok (byCreation infos) ∧
        infos.Perm ((left manager.maxSnapshots filed).map fun e => info e.snapshot)) ∧
      (∀ e ∈ left manager.maxSnapshots filed, ∃ read,
        getSnapshot crates.toSnapshotCrates d manager e.id = .ok read ∧
          Alike e.snapshot.toSnapshot read) ∧
      ∀ top, Opens d manager.snapshotDir top → ∀ name content,
        entry d.tree (top ++ [name]) = some (.file content) →
          ∃ e ∈ left manager.maxSnapshots filed, fileOf e.id = name := by
  obtain ⟨filed, same, held⟩ := run.held filled reads ordered
  refine ⟨filed, same, ?_⟩
  rcases held with ⟨rfl, unused⟩ | ⟨top, holding⟩
  · obtain rfl : filed = [] := List.map_eq_nil_iff.mp same
    have shown := unused.list filled reads listed
    refine ⟨⟨[], by rw [shown, byCreation, List.mergeSort_nil], .refl _⟩, nofun, ?_⟩
    intro top opens name content held
    have there : ensureStorageDir manager d = (.ok (), d) := by
      rw [ensureStorageDir, if_pos (exists_of_opens unused.sound filled opens)]
    rcases unused.empty d top there opens name with isDir | free
    · rw [isDir] at held
      cases held
    · rw [free] at held
      cases held
  · refine ⟨holding.list reads listed, fun e member => holding.get reads member, ?_⟩
    intro other opens name content held
    rw [opens.unique holding.shelf.opens] at held
    rcases holding.shelf.entries name with ⟨isDir, -⟩ | isFile
    · rw [isDir] at held
      cases held
    · rw [isFile] at held
      cases there : table (left manager.maxSnapshots filed) name with
      | none =>
        rw [there] at held
        cases held
      | some content' =>
        obtain ⟨e, member, named, -⟩ := (table_eq_some holding.distinct).mp there
        exact ⟨e, member, named⟩

/-! ## Nothing is overwritten -/

/-- All snapshots are listed, and each is read as its call captured it. -/
def AllKept (crates : StoreCrates) (listing : Listing) (manager : SnapshotManager)
    (made : List Made) (d : Disk) : Prop :=
  (∃ infos, listSnapshots crates listing manager d = .ok infos ∧ infos.length = made.length) ∧
    ∀ m ∈ made, ∃ read, getSnapshot crates.toSnapshotCrates d manager m.snapshot.id = .ok read ∧
      Alike m.snapshot.toSnapshot read

theorem nodup_ids_iff {made : List Made} (run : Run crates manager made d)
    (free : CollisionFree crates.blake3 (made.map Made.creation)) :
    (made.map (·.snapshot.id)).Nodup ↔
      (made.map fun m => (m.creation.timestamp, m.creation.description)).Nodup := by
  rw [List.Nodup, List.Nodup, List.pairwise_map, List.pairwise_map]
  refine List.Pairwise.iff_of_mem fun {a b} inside inside' => ?_
  rw [(run.captured a inside).1, (run.captured b inside').1, not_iff_not,
    idOf_eq_iff (free _ (List.mem_map_of_mem inside) _ (List.mem_map_of_mem inside')),
    Prod.mk.injEq]

/-- **Nothing is overwritten**, where there is room for all, if and only if no two calls come
in one second with one description. -/
theorem all_kept_iff {path : PathBuf} {max : Nat} {made : List Made}
    (run : Run crates (SnapshotManager.create path max) made d)
    (room : max = 0 ∨ made.length ≤ max) (reads : ReadsBack crates)
    (free : CollisionFree crates.blake3 (made.map Made.creation)) {catalog : Catalog d}
    (listed : listing d = .ok catalog) :
    AllKept crates listing (SnapshotManager.create path max) made d ↔
      (made.map fun m => (m.creation.timestamp, m.creation.description)).Nodup := by
  obtain ⟨filed, same, ⟨infos, shown, perm⟩, read, -⟩ :=
    run.list (snapshotDir_filled path max) reads (room.imp_right .inl) listed
  have ids : filed.map Filed.id = made.map (·.snapshot.id) := by
    have mapped := congrArg (List.map (·.id)) same
    rwa [List.map_map, List.map_map] at mapped
  have length : filed.length = made.length := by simpa using congrArg List.length same
  rw [create_maxSnapshots] at perm read
  have shownLength : (byCreation infos).length = (left max filed).length := by
    rw [(byCreation_perm infos).length_eq, perm.length_eq, List.length_map]
  rw [← nodup_ids_iff run free, ← ids]
  constructor
  · rintro ⟨⟨infos', shown', count⟩, -⟩
    rw [shown] at shown'
    cases shown'
    have whole := (left_sublist max filed).eq_of_length (by omega)
    rw [← whole]
    exact left_distinct max filed
  · intro distinct
    have whole : left max filed = filed := by
      rw [left_of_distinct distinct]
      split
      · rfl
      · rw [Nat.sub_eq_zero_of_le (by omega), List.drop_zero]
    refine ⟨⟨_, shown, by rw [shownLength, whole, length]⟩, fun m member => ?_⟩
    have inside : m.snapshot ∈ filed.map Filed.snapshot := by
      rw [same]
      exact List.mem_map_of_mem member
    obtain ⟨e, listedIn, own⟩ := List.mem_map.mp inside
    rw [← own]
    rw [whole] at read
    exact read e listedIn

/-! ## The newest are kept -/

/-- **The newest are kept.** Calls with identifiers of their own and later and later times leave
the last ones, as many as are to be kept, in this order, and no other file. -/
theorem newest_kept {path : PathBuf} {max : Nat} {made : List Made}
    (run : Run crates (SnapshotManager.create path max) made d) (some_kept : 0 < max)
    (distinct : (made.map (·.snapshot.id)).Nodup)
    (increasing : (made.map (·.creation.createdAt)).Pairwise (· < ·)) (reads : ReadsBack crates)
    {catalog : Catalog d} (listed : listing d = .ok catalog) :
    listSnapshots crates listing (SnapshotManager.create path max) d =
        .ok ((made.drop (made.length - max)).map fun m => info m.snapshot) ∧
      ∀ top, Opens d (SnapshotManager.create path max).snapshotDir top → ∀ name content,
        entry d.tree (top ++ [name]) = some (.file content) →
          ∃ m ∈ made.drop (made.length - max), fileOf m.snapshot.id = name := by
  obtain ⟨filed, same, ⟨infos, shown, perm⟩, -, files⟩ :=
    run.list (snapshotDir_filled path max) reads (.inr (.inr increasing)) listed
  have length : filed.length = made.length := by simpa using congrArg List.length same
  have ids : filed.map Filed.id = made.map (·.snapshot.id) := by
    have mapped := congrArg (List.map (·.id)) same
    rwa [List.map_map, List.map_map] at mapped
  have times : filed.map (·.snapshot.createdAt) = made.map (·.creation.createdAt) := by
    have mapped := congrArg (List.map (·.createdAt)) same
    rw [List.map_map, List.map_map] at mapped
    exact mapped.trans (List.map_congr_left fun m member => (run.captured m member).2)
  have last : left max filed = filed.drop (made.length - max) := by
    rw [left_of_distinct (by rwa [ids]), if_neg (Nat.pos_iff_ne_zero.mp some_kept), length]
  have kept : (filed.drop (made.length - max)).map Filed.snapshot =
      (made.drop (made.length - max)).map Made.snapshot := by
    rw [List.map_drop, List.map_drop, same]
  have ordered : InOrder filed := by
    refine List.pairwise_map.mp (?_ : (filed.map (·.snapshot.createdAt)).Pairwise (· < ·))
    rw [times]
    exact increasing
  rw [create_maxSnapshots, last] at perm files
  constructor
  · rw [shown, byCreation_inOrder (ordered.sublist (List.drop_sublist _ _)) perm]
    have mapped := congrArg (List.map info) kept
    rw [List.map_map, List.map_map] at mapped
    exact congrArg Except.ok mapped
  · intro top opens name content held
    obtain ⟨e, member, named⟩ := files top opens name content held
    have inside : e.snapshot ∈ (made.drop (made.length - max)).map Made.snapshot := by
      rw [← kept]
      exact List.mem_map_of_mem member
    obtain ⟨m, late, own⟩ := List.mem_map.mp inside
    refine ⟨m, late, ?_⟩
    rw [own]
    exact named

/-! ## Two calls -/

deriving instance DecidableEq for FileMap
deriving instance DecidableEq for Snapshot
deriving instance DecidableEq for DatedSnapshot

/-- A directory `/s` with an empty store, and a workspace `/w` without files. -/
def emptyStore : Disk :=
  ((((⟨fun _ => none, [], []⟩ : Disk).put ["w".toList] (some .dir)).put ["s".toList]
    (some .dir)).put ["s".toList, ".devit".toList] (some .dir)).put
    ["s".toList, ".devit".toList, "snapshots".toList] (some .dir)

def storeTop : Loc Text := ["s".toList, ".devit".toList, "snapshots".toList]

def store (max : Nat) : SnapshotManager := SnapshotManager.create ⟨"/s".toList⟩ max

/-- A call for the workspace. -/
def call (second : Nat) (description : String) : Creation :=
  ⟨⟨"/w".toList⟩, description.toList, none, second, second * 10 ^ 9⟩

/-- What it captures. -/
def shot (creation : Creation) : DatedSnapshot where
  id := idOf List.reverse creation
  description := creation.description
  rootPath := creation.rootPath
  files := .empty
  integrityHash := hexEncode ((textBytes (idOf List.reverse creation) ++
    textBytes creation.description).reverse.take 16)
  totalSize := 0
  createdAt := creation.createdAt

/-- A snapshot without files, as it is stored. -/
def stored (snapshot : DatedSnapshot) : Content :=
  .utf8 (Json.ofFields [("id", .string snapshot.id),
    ("created_at", .ofFields
      [("secs_since_epoch", .unsigned (UInt64.ofNat (snapshot.createdAt / 10 ^ 9))),
        ("nanos_since_epoch", .unsigned (UInt64.ofNat (snapshot.createdAt % 10 ^ 9)))]),
    ("description", .string snapshot.description), ("root_path", .string snapshot.rootPath.text),
    ("files", .object []), ("integrity_hash", .string snapshot.integrityHash),
    ("total_size", .unsigned (UInt64.ofNat snapshot.totalSize))]).render

/-- Crates that store and read these snapshots. -/
def shotCrates (known : List DatedSnapshot) : StoreCrates where
  blake3 := List.reverse
  deflate := id
  inflate := some
  walkDir := fun _ _ _ => []
  parse content := match known.find? fun snapshot => stored snapshot = content with
    | some snapshot => .ok snapshot.toSnapshot
    | none => .error "expected value".toList
  serialize snapshot :=
    if snapshot ∈ known then .ok (stored snapshot) else .error "unsupported".toList
  readCreatedAt content :=
    ((known.find? fun snapshot => stored snapshot = content).map (·.createdAt)).getD 0

theorem shotCrates_read {known : List DatedSnapshot}
    (apart : ∀ s ∈ known, known.find? (fun other => stored other = stored s) = some s) :
    ReadsBack (shotCrates known) := by
  intro snapshot content serialized
  simp only [shotCrates] at serialized ⊢
  split at serialized
  · rename_i member
    cases serialized
    rw [apart snapshot member]
    exact ⟨rfl, snapshot.toSnapshot, rfl, ⟨rfl, rfl, rfl, .refl _, rfl, rfl⟩⟩
  · cases serialized

/-- The disk with one more snapshot in the store. -/
def withShot (d : Disk) (creation : Creation) : Disk :=
  replaced d (storeTop ++ [tempOf (shot creation).id]) (storeTop ++ [fileOf (shot creation).id])
    (.utf8 []) (stored (shot creation))

theorem store_dir (max : Nat) :
    (store max).snapshotDir = ⟨"/s/.devit/snapshots".toList⟩ := by
  show normalizeSnapshotDir ⟨"/s".toList⟩ = _
  decide +kernel

theorem emptyStore_entries (name : Text) : entry emptyStore.tree (storeTop ++ [name]) = none := by
  simp [emptyStore, storeTop, Files.Disk.put, entry, Files.put]

theorem emptyStore_opens (max : Nat) : Opens emptyStore (store max).snapshotDir storeTop := by
  have sound : emptyStore.Sound := Files.grounded_root _
  rw [store_dir]
  exact (opens_iff sound (by decide)).mpr ⟨by decide +kernel, by decide +kernel⟩

theorem emptyStore_holding (known : List DatedSnapshot) (max : Nat) :
    Holding (shotCrates known) (store max) emptyStore storeTop [] := by
  refine ⟨⟨Files.grounded_root _, ?_, emptyStore_opens max, fun name => ?_⟩, nofun, nofun,
    List.nodup_nil⟩
  · rw [store_dir]
    exact nofun
  · exact .inr (emptyStore_entries name)

theorem emptyStore_unused (max : Nat) : Unused (store max) emptyStore := by
  have holding := emptyStore_holding [] max
  refine ⟨holding.shelf.sound, .inr ?_, fun ready top ensured opens name => .inr ?_⟩
  · exact (isDir_iff holding.shelf.sound holding.shelf.filled).mpr ⟨_, holding.shelf.opens⟩
  · rw [holding.there] at ensured
    cases ensured
    rw [opens.unique holding.shelf.opens]
    exact emptyStore_entries name

section
variable {known : List DatedSnapshot} {max : Nat} {creation : Creation}

/-- One call. -/
theorem shot_made (holding : Holding (shotCrates known) (store max) d storeTop kept)
    (member : shot creation ∈ known)
    (captured : capture (shotCrates known) creation d = .ok (shot creation))
    (wrote : (writeSnapshotFile (store max) (shot creation).id (stored (shot creation)) d).1 =
      .ok ()) :
    Holding (shotCrates known) (store max) (withShot d creation) storeTop
        (withFile kept ⟨shot creation, stored (shot creation)⟩) ∧
      ∀ listing after, (max = 0 ∧ after = withShot d creation ∨ max ≠ 0 ∧ ∃ count,
        cleanupOldSnapshots (shotCrates known) listing (store max) (withShot d creation) =
          (.ok count, after)) →
        createSnapshot (shotCrates known) listing (store max) creation d =
          (.ok (shot creation).id, after) := by
  have dotless : Dotless (shot creation).id := generateSnapshotId_dotless _ _
  have serialized : (shotCrates known).serialize (shot creation) = .ok (stored (shot creation)) :=
    if_pos member
  obtain ⟨-, -, disk⟩ := writeSnapshotFile_eq holding.shelf dotless (Prod.ext wrote rfl)
  have written : writeSnapshotFile (store max) (shot creation).id (stored (shot creation)) d =
      (.ok (), withShot d creation) := Prod.ext wrote disk
  refine ⟨@Holding.write _ _ _ _ _ _ ⟨shot creation, stored (shot creation)⟩ holding dotless
    serialized written, fun listing after ends => ?_⟩
  exact createSnapshot_eq_ok.mpr ⟨d, shot creation, _, _, holding.there, captured, serialized, rfl,
    written, ends⟩

end

theorem known_erase {t : Files.Tree Text Content} {locs : List (Loc Text)}
    (known : ∀ loc, t loc ≠ none ↔ loc ∈ locs) (loc : Loc Text) :
    ∀ other, Files.put t loc none other ≠ none ↔ other ∈ locs.filter (· ≠ loc) := by
  intro other
  rw [Files.put, Function.update_apply, List.mem_filter]
  split
  · rename_i same
    simp [same]
  · rename_i apart
    rw [known]
    simp [apart]

theorem emptyStore_known : ∀ loc, emptyStore.tree loc ≠ none ↔
    loc ∈ [storeTop, ["s".toList, ".devit".toList], ["s".toList], ["w".toList]] :=
  FileExploration.known_put (FileExploration.known_put (FileExploration.known_put
    (FileExploration.known_put (by simp) _ _) _ _) _ _) _ _

theorem withShot_known {locs : List (Loc Text)} (known : ∀ loc, d.tree loc ≠ none ↔ loc ∈ locs)
    (creation : Creation) : ∀ loc, (withShot d creation).tree loc ≠ none ↔
      loc ∈ (storeTop ++ [fileOf (shot creation).id]) ::
        ((storeTop ++ [tempOf (shot creation).id]) :: (storeTop ++ [tempOf (shot creation).id]) ::
          locs).filter (· ≠ storeTop ++ [tempOf (shot creation).id]) :=
  FileExploration.known_put (known_erase (FileExploration.known_put
    (FileExploration.known_put known _ _) _ _) _) _ _

theorem listed_as (catalog : Catalog d) : ∃ listing : Listing, listing d = .ok catalog := by
  classical
  exact ⟨fun other => if same : other = d then .ok (same ▸ catalog) else .error .notFound, by simp⟩

/-- A run of two calls with room for all. -/
theorem run_of_two {known : List DatedSnapshot} {a b : Creation} (first : shot a ∈ known)
    (second : shot b ∈ known)
    (capturedFirst : capture (shotCrates known) a emptyStore = .ok (shot a))
    (capturedSecond : capture (shotCrates known) b (withShot emptyStore a) = .ok (shot b))
    (wroteFirst : (writeSnapshotFile (store 0) (shot a).id (stored (shot a)) emptyStore).1 = .ok ())
    (wroteSecond : (writeSnapshotFile (store 0) (shot b).id (stored (shot b))
      (withShot emptyStore a)).1 = .ok ()) :
    Run (shotCrates known) (store 0) [⟨a, shot a⟩, ⟨b, shot b⟩]
      (withShot (withShot emptyStore a) b) := by
  have start := emptyStore_holding known 0
  obtain ⟨holding, ran⟩ := shot_made start first capturedFirst wroteFirst
  obtain ⟨-, ran'⟩ := shot_made holding second capturedSecond wroteSecond
  have one : Run (shotCrates known) (store 0) [⟨a, shot a⟩] (withShot emptyStore a) :=
    .create (.start (emptyStore_unused 0)) (.refl _ _) (by rw [start.there]; exact capturedFirst)
      (ran (fun _ => .error .notFound) _ (.inl ⟨rfl, rfl⟩))
  exact .create one (.refl _ _) (by rw [holding.there]; exact capturedSecond)
    (ran' (fun _ => .error .notFound) _ (.inl ⟨rfl, rfl⟩))

/-- Two calls in one second with different descriptions. -/
theorem two_descriptions_kept : ∃ listing made d,
    Run (shotCrates [shot (call 5 "a"), shot (call 5 "b")]) (store 0) made d ∧
      made.map Made.creation = [call 5 "a", call 5 "b"] ∧
      AllKept (shotCrates [shot (call 5 "a"), shot (call 5 "b")]) listing (store 0) made d := by
  obtain ⟨listing, listed⟩ := listed_as (FileExploration.catalogOf _
    (withShot_known (withShot_known emptyStore_known (call 5 "a")) (call 5 "b"))
    (by decide +kernel))
  have run := @run_of_two [shot (call 5 "a"), shot (call 5 "b")] (call 5 "a") (call 5 "b")
    (by decide +kernel) (by decide +kernel) (by decide +kernel) (by decide +kernel)
    (by decide +kernel) (by decide +kernel)
  refine ⟨listing, _, _, run, rfl, ?_⟩
  exact (all_kept_iff run (.inl rfl) (shotCrates_read (by decide +kernel))
    (by unfold CollisionFree; decide +kernel) listed).mpr (by decide +kernel)

/-- Two calls in one second with one description leave one snapshot. -/
theorem same_second_overwritten : ∃ listing made d,
    Run (shotCrates [shot (call 5 "a")]) (store 0) made d ∧ (∃ catalog, listing d = .ok catalog) ∧
      ReadsBack (shotCrates [shot (call 5 "a")]) ∧
      CollisionFree List.reverse (made.map Made.creation) ∧
      made.map Made.creation = [call 5 "a", call 5 "a"] ∧
      listSnapshots (shotCrates [shot (call 5 "a")]) listing (store 0) d =
        .ok [info (shot (call 5 "a"))] ∧
      ¬ AllKept (shotCrates [shot (call 5 "a")]) listing (store 0) made d := by
  obtain ⟨listing, listed⟩ := listed_as (FileExploration.catalogOf _
    (withShot_known (withShot_known emptyStore_known (call 5 "a")) (call 5 "a"))
    (by decide +kernel))
  have run := @run_of_two [shot (call 5 "a")] (call 5 "a") (call 5 "a")
    (by decide +kernel) (by decide +kernel) (by decide +kernel) (by decide +kernel)
    (by decide +kernel) (by decide +kernel)
  have shown : listSnapshots (shotCrates [shot (call 5 "a")]) listing (store 0)
      (withShot (withShot emptyStore (call 5 "a")) (call 5 "a")) =
        .ok [info (shot (call 5 "a"))] := by
    simp only [listSnapshots, readEntries, listed]
    decide +kernel
  refine ⟨listing, _, _, run, ⟨_, listed⟩, shotCrates_read (by decide +kernel),
    by unfold CollisionFree; decide +kernel, rfl, shown, ?_⟩
  rintro ⟨⟨infos, shown', count⟩, -⟩
  rw [shown] at shown'
  cases shown'
  cases count

/-- Of two calls the second is kept. -/
theorem second_of_two_kept : ∃ listing made d,
    Run (shotCrates [shot (call 5 "a"), shot (call 6 "b")]) (store 1) made d ∧
      made.map Made.creation = [call 5 "a", call 6 "b"] ∧
      listSnapshots (shotCrates [shot (call 5 "a"), shot (call 6 "b")]) listing (store 1) d =
        .ok [info (shot (call 6 "b"))] := by
  have known := withShot_known emptyStore_known (call 5 "a")
  have known' := withShot_known known (call 6 "b")
  obtain ⟨early, listedEarly⟩ := listed_as (FileExploration.catalogOf _ known (by decide +kernel))
  obtain ⟨late, listedLate⟩ := listed_as (FileExploration.catalogOf _ known' (by decide +kernel))
  obtain ⟨listing, listed⟩ := listed_as (@FileExploration.catalogOf
    ((withShot (withShot emptyStore (call 5 "a")) (call 6 "b")).put
      (storeTop ++ [fileOf (shot (call 5 "a")).id]) none) _ (known_erase known' _)
    (by decide +kernel))
  have reads : ReadsBack (shotCrates [shot (call 5 "a"), shot (call 6 "b")]) :=
    shotCrates_read (by decide +kernel)
  have start := emptyStore_holding [shot (call 5 "a"), shot (call 6 "b")] 1
  have captured : capture (shotCrates [shot (call 5 "a"), shot (call 6 "b")]) (call 5 "a")
      emptyStore = .ok (shot (call 5 "a")) := by decide +kernel
  have captured' : capture (shotCrates [shot (call 5 "a"), shot (call 6 "b")]) (call 6 "b")
      (withShot emptyStore (call 5 "a")) = .ok (shot (call 6 "b")) := by decide +kernel
  obtain ⟨holding, ran⟩ := shot_made start (List.mem_cons_self ..) captured (by decide +kernel)
  obtain ⟨holding', ran'⟩ := shot_made holding (by decide +kernel) captured' (by decide +kernel)
  -- the first call finds one snapshot, the second one two
  have both : withFile (withFile [] ⟨shot (call 5 "a"), stored (shot (call 5 "a"))⟩)
      ⟨shot (call 6 "b"), stored (shot (call 6 "b"))⟩ =
        [⟨shot (call 5 "a"), stored (shot (call 5 "a"))⟩,
          ⟨shot (call 6 "b"), stored (shot (call 6 "b"))⟩] := by
    have apart : (shot (call 5 "a")).id ≠ (shot (call 6 "b")).id := by decide +kernel
    simp [withFile, Filed.id, apart]
  rw [both] at holding'
  have first : cleanupOldSnapshots (shotCrates [shot (call 5 "a"), shot (call 6 "b")]) early
      (store 1) (withShot emptyStore (call 5 "a")) = (.ok 0, withShot emptyStore (call 5 "a")) :=
    holding.cleanup reads Nat.one_ne_zero (.inl (Nat.le_refl _)) listedEarly
  have second := holding'.cleanup reads Nat.one_ne_zero
    (.inr (List.pairwise_pair.mpr (by decide +kernel))) listedLate
  have one := Run.create (.start (emptyStore_unused 1)) (.refl _ _)
    (by rw [start.there]; exact captured) (ran early _ (.inr ⟨Nat.one_ne_zero, _, first⟩))
  have run := Run.create one (.refl _ _) (by rw [holding.there]; exact captured')
    (ran' late _ (.inr ⟨Nat.one_ne_zero, _, second⟩))
  refine ⟨listing, _, _, run, rfl, ?_⟩
  exact (newest_kept run Nat.one_pos (by decide +kernel) (by decide +kernel) reads listed).1

end SnapshotRetention

end Devit
