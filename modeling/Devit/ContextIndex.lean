import Devit.Library.Path
import Devit.Library.Runs
import Mathlib.Data.List.Perm.Basic
import Mathlib.Logic.Function.Basic

/-! The index of a workspace's files. An attempt at a file reads it, cuts it into chunks, embeds
them and inserts them into the store one by one under new identifiers. Indexing the workspace
leaves the chunks alone that a file has; indexing one file first deletes them. -/
namespace Devit.ContextIndex
open Text Path

inductive ContextError where
  | chunker (err : Text)
  | embedder (err : Text)
  | store (err : Text)
  | index (err : Text)
  | cancelled

inductive Language where
  | rust
  | python
  | c
  | cpp
  | javaScript
  | typeScript
  | unknown
  deriving DecidableEq

def Language.fromExtension (ext : Text) : Language :=
  let low := ext.map Char.toLower
  let among (names : List String) : Bool := names.any fun name => name.toList = low
  if among ["rs"] then .rust
  else if among ["py"] then .python
  else if among ["c", "h"] then .c
  else if among ["cpp", "cc", "cxx", "hpp", "hh", "hxx"] then .cpp
  else if among ["js", "jsx", "mjs"] then .javaScript
  else if among ["ts", "tsx"] then .typeScript
  else .unknown

inductive ChunkType where
  | function
  | «class»
  | module
  | imports
  | constants
  | typeDef
  | block
  | documentation
  deriving DecidableEq

/-- What the content of a file says of one of its chunks. -/
structure Draft where
  startLine : Nat
  endLine : Nat
  content : Text
  language : Language
  chunkType : ChunkType
  symbolName : Option Text
  tokenCount : Nat
  deriving DecidableEq

/-- A row of the table `chunks`. -/
structure Row (E : Type) where
  id : Nat
  filePath : Text
  draft : Draft
  fileMtime : Nat
  embedding : E

/-- Identifiers are drawn at random, and none comes twice. -/
structure Store (E : Type) where
  rows : List (Row E)
  drawn : Nat

/-- What cuts the content of a file into chunks. -/
abbrev Chunker := PathBuf → Text → Language → Except Text (List Draft)

/-- An attempt at a file, with what it meets: the file as it is then, the embedder's answer, and
the errors of the database. -/
structure Attempt (E : Type) where
  path : PathBuf
  content : Except Text Text
  mtime : Nat
  embedBatch : List Text → Except Text (List E)
  insertFailure : Nat → Option Text
  deleteFailure : Option Text

variable {E : Type}

/-! ## The store -/

/-- `INSERT OR REPLACE`. -/
def insertOrReplace (rows : List (Row E)) (row : Row E) : List (Row E) :=
  rows.filter (·.id ≠ row.id) ++ [row]

/-- Row after row is inserted, up to the first error. -/
def upsertFrom (failure : Nat → Option Text) : Nat → List (Row E) → List (Row E) →
    Except ContextError Unit × List (Row E)
  | _, [], rows => (.ok (), rows)
  | i, row :: rest, rows =>
    match failure i with
    | some err => (.error (.store ("Insert failed: ".toList ++ err)), rows)
    | none => upsertFrom failure (i + 1) rest (insertOrReplace rows row)

def upsert (failure : Nat → Option Text) (chunks : List (Row E)) (s : Store E) :
    Except ContextError Nat × Store E :=
  match upsertFrom failure 0 chunks s.rows with
  | (.ok (), rows) => (.ok chunks.length, { s with rows })
  | (.error err, rows) => (.error err, { s with rows })

def deleteByFile (failure : Option Text) (path : PathBuf) (s : Store E) :
    Except ContextError Unit × Store E :=
  match failure with
  | some err => (.error (.store ("Delete failed: ".toList ++ err)), s)
  | none => (.ok (), { s with rows := s.rows.filter (·.filePath ≠ path.text) })

/-! ## The indexer -/

def languageOf (path : PathBuf) : Language :=
  ((extension path).map Language.fromExtension).getD .unknown

/-- Reading a file and cutting it into chunks. -/
def draftsOf (chunker : Chunker) (a : Attempt E) : Except ContextError (List Draft) :=
  match a.content with
  | .error err => .error (.index ("Failed to read ".toList ++ a.path.text ++ ": ".toList ++ err))
  | .ok content =>
    match chunker a.path content (languageOf a.path) with
    | .error err => .error (.chunker err)
    | .ok drafts => .ok drafts

/-- Chunks with their embeddings: everything up to the store. -/
def embedded (chunker : Chunker) (a : Attempt E) : Except ContextError (List (Draft × E)) :=
  match draftsOf chunker a with
  | .error err => .error err
  | .ok [] => .ok []
  | .ok drafts =>
    match a.embedBatch (drafts.map (·.content)) with
    | .error err => .error (.embedder err)
    | .ok embeddings => .ok (drafts.zip embeddings)

def makeRows (a : Attempt E) (drawn : Nat) (chunks : List (Draft × E)) : List (Row E) :=
  chunks.zipIdx.map fun chunk => ⟨drawn + chunk.2, a.path.text, chunk.1.1, a.mtime, chunk.1.2⟩

/-- `index_file_internal`: the number of chunks, and of their tokens. -/
def indexFileInternal (chunker : Chunker) (a : Attempt E) (s : Store E) :
    Except ContextError (Nat × Nat) × Store E :=
  match embedded chunker a with
  | .error err => (.error err, s)
  | .ok chunks =>
    let tokens := (((draftsOf chunker a).toOption.getD []).map (·.tokenCount)).sum
    let s := { s with drawn := s.drawn + chunks.length }
    match upsert a.insertFailure (makeRows a (s.drawn - chunks.length) chunks) s with
    | (.error err, s) => (.error err, s)
    | (.ok count, s) => (.ok (count, tokens), s)

def indexFile (chunker : Chunker) (a : Attempt E) (s : Store E) :
    Except ContextError Unit × Store E :=
  match deleteByFile a.deleteFailure a.path s with
  | (.error err, s) => (.error err, s)
  | (.ok (), s) =>
    match indexFileInternal chunker a s with
    | (.error err, s) => (.error err, s)
    | (.ok _, s) => (.ok (), s)

structure IndexStats where
  filesIndexed : Nat
  chunksCreated : Nat
  totalTokens : Nat

/-- The files of the workspace one after the other, each with whether the token is cancelled when
its turn comes. Files that fail are passed over. -/
def indexAll (chunker : Chunker) : List (Bool × Attempt E) → IndexStats → Store E →
    Except ContextError IndexStats × Store E
  | [], stats, s => (.ok stats, s)
  | (cancelled, a) :: files, stats, s =>
    if cancelled then (.error .cancelled, s)
    else
      match indexFileInternal chunker a s with
      | (.ok (chunks, tokens), s) =>
        indexAll chunker files ⟨stats.filesIndexed + 1, stats.chunksCreated + chunks,
          stats.totalTokens + tokens⟩ s
      | (.error _, s) => indexAll chunker files stats s

/-! ## Runs -/

inductive Event (E : Type) where
  /-- The turn of a file when the workspace is indexed. -/
  | attempt (a : Attempt E)
  | indexFile (a : Attempt E)
  | delete (failure : Option Text) (path : PathBuf)

/-- The store, and for each file the chunks that it had when it was last indexed. -/
structure System (E : Type) where
  store : Store E
  indexed : Text → List Draft

/-- A success counts as the file's last one. -/
def record (chunker : Chunker) (a : Attempt E) {α : Type} (result : Except ContextError α)
    (indexed : Text → List Draft) : Text → List Draft :=
  match result with
  | .ok _ => Function.update indexed a.path.text ((draftsOf chunker a).toOption.getD [])
  | .error _ => indexed

def step (chunker : Chunker) (s : System E) : Event E → Unit × System E
  | .attempt a =>
    let (result, store) := indexFileInternal chunker a s.store
    ((), ⟨store, record chunker a result s.indexed⟩)
  | .indexFile a =>
    let (result, store) := indexFile chunker a s.store
    ((), ⟨store, record chunker a result s.indexed⟩)
  | .delete failure path =>
    let (result, store) := deleteByFile failure path s.store
    ((), ⟨store, match result with
      | .ok () => Function.update s.indexed path.text []
      | .error _ => s.indexed⟩)

def empty : System E := ⟨⟨[], 0⟩, fun _ => []⟩

/-! ## What is asked for -/

/-- The chunks that the store has for a file. -/
def stored (s : Store E) (path : Text) : List Draft :=
  (s.rows.filter (·.filePath = path)).map (·.draft)

/-- Every file has its chunks of last time, each once. -/
def Consistent (s : System E) : Prop := ∀ path, (stored s.store path).Perm (s.indexed path)

/-- Everything up to the store goes well, and the store takes all rows. -/
def Succeeds (chunker : Chunker) (a : Attempt E) : Prop :=
  ∃ chunks, embedded chunker a = .ok chunks ∧ ∀ i < chunks.length, a.insertFailure i = none

/-- The embedder has answered with an embedding for every chunk. -/
def Complete (chunker : Chunker) (a : Attempt E) : Prop :=
  ∀ drafts chunks, draftsOf chunker a = .ok drafts → embedded chunker a = .ok chunks →
    chunks.length = drafts.length

/-- Nothing goes into the store before the attempt fails. -/
def FailsEarly (chunker : Chunker) (a : Attempt E) : Prop :=
  ∀ chunks, embedded chunker a = .ok chunks → (a.insertFailure 0).isSome = true

/-- A successful turn finds no chunks of its file, a failing call for one file has none to lose, and
no attempt leaves chunks out. -/
def Careful (chunker : Chunker) (s : System E) : Event E → Prop
  | .attempt a =>
    (Succeeds chunker a → stored s.store a.path.text = [] ∧ Complete chunker a) ∧
      (¬ Succeeds chunker a → FailsEarly chunker a)
  | .indexFile a => a.deleteFailure = none →
    (Succeeds chunker a → Complete chunker a) ∧
      (¬ Succeeds chunker a → stored s.store a.path.text = [] ∧ FailsEarly chunker a)
  | .delete _ _ => True

/-! ## Rows -/

theorem makeRows_ids (a : Attempt E) (drawn : Nat) (chunks : List (Draft × E)) :
    (makeRows a drawn chunks).map (·.id) = List.range' drawn chunks.length := by
  have general (start : Nat) : ((chunks.zipIdx start).map fun chunk =>
      (⟨drawn + chunk.2, a.path.text, chunk.1.1, a.mtime, chunk.1.2⟩ : Row E)).map (·.id) =
        List.range' (drawn + start) chunks.length := by
    induction chunks generalizing start with
    | nil => rfl
    | cons chunk chunks ih =>
      rw [List.zipIdx_cons, List.map_cons, List.map_cons, ih, List.length_cons,
        List.range'_succ, Nat.add_assoc]
  exact general 0

theorem makeRows_drafts (a : Attempt E) (drawn : Nat) (chunks : List (Draft × E)) :
    (makeRows a drawn chunks).map (·.draft) = chunks.map Prod.fst := by
  have general (start : Nat) : ((chunks.zipIdx start).map fun chunk =>
      (⟨drawn + chunk.2, a.path.text, chunk.1.1, a.mtime, chunk.1.2⟩ : Row E)).map (·.draft) =
        chunks.map Prod.fst := by
    induction chunks generalizing start with
    | nil => rfl
    | cons chunk chunks ih => rw [List.zipIdx_cons, List.map_cons, List.map_cons, ih, List.map_cons]
  exact general 0

theorem makeRows_path {a : Attempt E} {drawn : Nat} {chunks : List (Draft × E)} {row : Row E}
    (member : row ∈ makeRows a drawn chunks) : row.filePath = a.path.text := by
  obtain ⟨_, _, rfl⟩ := List.mem_map.mp member
  rfl

theorem length_makeRows (a : Attempt E) (drawn : Nat) (chunks : List (Draft × E)) :
    (makeRows a drawn chunks).length = chunks.length := by
  rw [makeRows, List.length_map, List.length_zipIdx]

/-- Rows under new identifiers are put behind the others. -/
theorem upsertFrom_all {failure : Nat → Option Text} {news : List (Row E)} :
    ∀ {i : Nat} {rows : List (Row E)}, (∀ j < news.length, failure (i + j) = none) →
      (∀ row ∈ rows, row.id ∉ news.map (·.id)) → (news.map (·.id)).Nodup →
      upsertFrom failure i news rows = (.ok (), rows ++ news) := by
  induction news with
  | nil =>
    intro i rows _ _ _
    rw [upsertFrom, List.append_nil]
  | cons row rest ih =>
    intro i rows works new apart
    obtain ⟨first, apart⟩ := List.nodup_cons.mp apart
    have kept : insertOrReplace rows row = rows ++ [row] := by
      have all : ∀ other ∈ rows, decide (other.id ≠ row.id) = true := by
        intro other member
        refine decide_eq_true fun same => new other member ?_
        rw [same]
        exact List.mem_cons_self
      rw [insertOrReplace, List.filter_eq_self.mpr all]
    rw [upsertFrom, show failure i = none from works 0 (Nat.succ_pos _)]
    dsimp only
    rw [kept, ih, List.append_assoc, List.singleton_append]
    · intro j small
      rw [Nat.add_assoc, Nat.add_comm 1 j]
      exact works (j + 1) (Nat.succ_lt_succ small)
    · intro other member
      rcases List.mem_append.mp member with old | last
      · exact fun later => new other old (List.mem_cons_of_mem _ later)
      · rw [List.mem_singleton.mp last]
        exact first
    · exact apart

/-- All identifiers in the store were drawn. -/
def Drawn (s : Store E) : Prop := ∀ row ∈ s.rows, row.id < s.drawn

theorem drafts_of_embedded {chunker : Chunker} {a : Attempt E} {chunks : List (Draft × E)}
    (made : embedded chunker a = .ok chunks) (complete : Complete chunker a) :
    ∃ drafts, draftsOf chunker a = .ok drafts ∧ chunks.map Prod.fst = drafts := by
  cases cut : draftsOf chunker a with
  | error err =>
    rw [embedded, cut] at made
    cases made
  | ok drafts =>
    refine ⟨drafts, rfl, ?_⟩
    have whole := complete drafts chunks cut made
    rw [embedded, cut] at made
    cases drafts with
    | nil =>
      cases made
      rfl
    | cons first rest =>
      dsimp only at made
      split at made
      · cases made
      · rename_i embeddings answered
        cases made
        rw [List.length_zip] at whole
        exact List.map_fst_zip (by omega)

/-- What an attempt does that succeeds: the rows of all its chunks come behind the others. -/
theorem internal_succeeds {chunker : Chunker} {a : Attempt E} {s : Store E} (drawn : Drawn s)
    (succeeds : Succeeds chunker a) (complete : Complete chunker a) :
    ∃ count rows drafts, indexFileInternal chunker a s =
        (.ok count, ⟨s.rows ++ rows, s.drawn + rows.length⟩) ∧
      (∀ row ∈ rows, row.filePath = a.path.text) ∧
      (∀ row ∈ rows, row.id < s.drawn + rows.length) ∧
      draftsOf chunker a = .ok drafts ∧ rows.map (·.draft) = drafts := by
  obtain ⟨chunks, made, works⟩ := succeeds
  obtain ⟨drafts, cut, same⟩ := drafts_of_embedded made complete
  have ids := makeRows_ids a s.drawn chunks
  have inserted : upsertFrom a.insertFailure 0 (makeRows a s.drawn chunks) s.rows =
      (.ok (), s.rows ++ makeRows a s.drawn chunks) := by
    apply upsertFrom_all
    · intro j small
      rw [length_makeRows] at small
      rw [Nat.zero_add]
      exact works j small
    · intro row member taken
      rw [ids] at taken
      exact absurd (drawn row member) (Nat.not_lt.mpr (List.mem_range'_1.mp taken).1)
    · rw [ids]
      exact List.nodup_range'
  refine ⟨(chunks.length, (((draftsOf chunker a).toOption.getD []).map (·.tokenCount)).sum),
    makeRows a s.drawn chunks, drafts, ?_, fun row member => makeRows_path member, ?_, cut,
    (makeRows_drafts a s.drawn chunks).trans same⟩
  · rw [indexFileInternal, made]
    simp only [Nat.add_sub_cancel, upsert, inserted, length_makeRows]
  · intro row member
    have listed : row.id ∈ List.range' s.drawn chunks.length := by
      rw [← ids]
      exact List.mem_map_of_mem member
    rw [length_makeRows]
    exact (List.mem_range'_1.mp listed).2

/-- An attempt that fails early leaves the rows as they are. -/
theorem internal_fails {chunker : Chunker} {a : Attempt E} {s : Store E}
    (fails : ¬ Succeeds chunker a) (early : FailsEarly chunker a) :
    ∃ err drawn, indexFileInternal chunker a s = (.error err, ⟨s.rows, drawn⟩) ∧
      s.drawn ≤ drawn := by
  cases made : embedded chunker a with
  | error err =>
    refine ⟨err, s.drawn, ?_, Nat.le_refl _⟩
    rw [indexFileInternal, made]
  | ok chunks =>
    obtain ⟨err, first⟩ := Option.isSome_iff_exists.mp (early chunks made)
    cases chunks with
    | nil => exact absurd ⟨[], made, nofun⟩ fails
    | cons chunk chunks =>
      refine ⟨.store ("Insert failed: ".toList ++ err), s.drawn + (chunk :: chunks).length, ?_,
        Nat.le_add_right _ _⟩
      rw [indexFileInternal, made]
      simp only [Nat.add_sub_cancel, upsert, makeRows, List.zipIdx_cons, List.map_cons, upsertFrom,
        first]

/-! ## Steps -/

theorem stored_append (rows news : List (Row E)) (drawn drawn' : Nat) (path : Text) :
    stored ⟨rows ++ news, drawn⟩ path =
      stored ⟨rows, drawn'⟩ path ++ stored ⟨news, drawn'⟩ path := by
  simp only [stored, List.filter_append, List.map_append]

theorem stored_own {rows : List (Row E)} {path : Text} (own : ∀ row ∈ rows, row.filePath = path)
    (drawn : Nat) : stored ⟨rows, drawn⟩ path = rows.map (·.draft) := by
  rw [stored, List.filter_eq_self.mpr fun row member => decide_eq_true (own row member)]

theorem stored_none {rows : List (Row E)} {path : Text} (none : ∀ row ∈ rows, row.filePath ≠ path)
    (drawn : Nat) : stored ⟨rows, drawn⟩ path = [] := by
  rw [stored, List.filter_eq_nil_iff.mpr fun row member => by simpa using none row member]
  rfl

/-- Every file has its chunks, under identifiers that were drawn. -/
structure Sound (s : System E) : Prop where
  consistent : Consistent s
  drawn : Drawn s.store

/-- A success on a store without chunks of the file. -/
theorem sound_success {chunker : Chunker} {a : Attempt E} {s : Store E}
    {indexed : Text → List Draft} {α : Type} {result : Except ContextError α} {value : α}
    (drawn : Drawn s) (succeeds : Succeeds chunker a) (complete : Complete chunker a)
    (none : stored s a.path.text = []) (ok : result = .ok value)
    (others : ∀ path ≠ a.path.text, (stored s path).Perm (indexed path)) :
    Sound ⟨(indexFileInternal chunker a s).2, record chunker a result indexed⟩ := by
  obtain ⟨count, rows, drafts, ran, own, below, cut, made⟩ :=
    internal_succeeds drawn succeeds complete
  subst ok
  rw [ran]
  refine ⟨fun path => ?_, fun row member => ?_⟩
  · show (stored ⟨s.rows ++ rows, s.drawn + rows.length⟩ path).Perm
      (Function.update indexed a.path.text ((draftsOf chunker a).toOption.getD []) path)
    rw [stored_append _ _ _ s.drawn]
    by_cases same : path = a.path.text
    · subst same
      have before : stored ⟨s.rows, s.drawn⟩ a.path.text = [] := none
      rw [Function.update_self, before, List.nil_append, stored_own own, made, cut]
      exact .refl _
    · have absent : stored ⟨rows, s.drawn⟩ path = [] :=
        stored_none (fun row member => by rw [own row member]; exact Ne.symm same) _
      rw [Function.update_of_ne same, absent, List.append_nil]
      exact others path same
  · rcases List.mem_append.mp member with old | new
    · exact Nat.lt_of_lt_of_le (drawn row old) (Nat.le_add_right _ _)
    · exact below row new

theorem stored_deleted (s : Store E) (path other : Text) :
    stored ⟨s.rows.filter (·.filePath ≠ path), s.drawn⟩ other =
      if other = path then [] else stored s other := by
  unfold stored
  rw [List.filter_filter]
  by_cases same : other = path
  · subst same
    rw [if_pos rfl, List.filter_eq_nil_iff.mpr]
    · rfl
    · intro row _
      simp
  · rw [if_neg same]
    congr 1
    refine List.filter_congr fun row _ => ?_
    by_cases here : row.filePath = other
    · simp [here, same]
    · simp [here]

theorem drawn_filter {s : Store E} (drawn : Drawn s) (keep : Row E → Bool) :
    Drawn ⟨s.rows.filter keep, s.drawn⟩ :=
  fun row member => drawn row (List.mem_of_mem_filter member)

/-- What every careful step keeps. -/
theorem sound_step (chunker : Chunker) (s : System E) (event : Event E) (sound : Sound s)
    (careful : Careful chunker s event) : Sound (step chunker s event).2 := by
  obtain ⟨consistent, drawn⟩ := sound
  cases event with
  | attempt a =>
    by_cases succeeds : Succeeds chunker a
    · obtain ⟨none, complete⟩ := careful.1 succeeds
      obtain ⟨count, _, _, ran, _⟩ := internal_succeeds drawn succeeds complete
      exact sound_success drawn succeeds complete none (congrArg Prod.fst ran)
        fun path _ => consistent path
    · have early := careful.2 succeeds
      obtain ⟨err, drawn', ran, grown⟩ := @internal_fails _ chunker a s.store succeeds early
      rw [step]
      simp only [ran]
      exact ⟨consistent, fun row member => Nat.lt_of_lt_of_le (drawn row member) grown⟩
  | indexFile a =>
    cases deleting : a.deleteFailure with
    | some err =>
      rw [step]
      simp only [indexFile, deleting, deleteByFile]
      exact ⟨consistent, drawn⟩
    | none =>
      obtain ⟨good, bad⟩ := careful deleting
      have left := drawn_filter drawn fun row => decide (row.filePath ≠ a.path.text)
      by_cases succeeds : Succeeds chunker a
      · have complete := good succeeds
        obtain ⟨count, _, _, ran, _⟩ := internal_succeeds left succeeds complete
        have none : stored ⟨s.store.rows.filter (·.filePath ≠ a.path.text), s.store.drawn⟩
            a.path.text = [] := by
          rw [stored_deleted, if_pos rfl]
        have others : ∀ path ≠ a.path.text,
            (stored ⟨s.store.rows.filter (·.filePath ≠ a.path.text), s.store.drawn⟩ path).Perm
              (s.indexed path) := by
          intro path other
          rw [stored_deleted, if_neg other]
          exact consistent path
        have sound := @sound_success _ chunker a _ s.indexed Unit (.ok ()) () left succeeds complete
          none rfl others
        rw [ran] at sound
        rw [step]
        simp only [indexFile, deleting, deleteByFile, ran]
        exact sound
      · obtain ⟨none, early⟩ := bad succeeds
        obtain ⟨err, drawn', ran, grown⟩ := @internal_fails _ chunker a
          ⟨s.store.rows.filter (·.filePath ≠ a.path.text), s.store.drawn⟩ succeeds early
        rw [step]
        simp only [indexFile, deleting, deleteByFile, ran]
        refine ⟨fun path => ?_, fun row member => Nat.lt_of_lt_of_le (left row member) grown⟩
        show (stored ⟨s.store.rows.filter (·.filePath ≠ a.path.text), s.store.drawn⟩ path).Perm _
        rw [stored_deleted]
        split
        · rename_i same
          rw [← none, ← same]
          exact consistent path
        · exact consistent path
  | delete failure path =>
    cases failure with
    | some err => exact ⟨consistent, drawn⟩
    | none =>
      refine ⟨fun other => ?_, drawn_filter drawn _⟩
      show (stored ⟨s.store.rows.filter (·.filePath ≠ path.text), s.store.drawn⟩ other).Perm
        (Function.update s.indexed path.text [] other)
      rw [stored_deleted]
      split
      · rename_i same
        rw [same, Function.update_self]
      · rename_i same
        rw [Function.update_of_ne same]
        exact consistent other

/-- In a careful run the store has for each file exactly the chunks of the content that it had when
it was last indexed successfully, each once: after every step, whatever failed. -/
theorem consistent_along (chunker : Chunker) (events : List (Event E))
    (careful : Runs.Along (Careful chunker) (step chunker) empty events) :
    ∀ done rest, events = done ++ rest →
      Consistent (Runs.final (step chunker) (empty : System E) done) := by
  intro done rest shape
  rw [shape] at careful
  have start : Sound (empty : System E) := ⟨fun _ => .refl _, nofun⟩
  exact (Runs.invariant_along (sound_step chunker) start
    (Runs.along_append.mp careful).1).consistent

/-- Indexing the workspace is a run of turns, up to the cancellation. -/
theorem indexAll_turns (chunker : Chunker) (files : List (Bool × Attempt E)) (stats : IndexStats)
    (s : System E) : (indexAll chunker files stats s.store).2 =
      (Runs.final (step chunker) s
        ((files.takeWhile (!·.1)).map fun file => .attempt file.2)).store := by
  induction files generalizing stats s with
  | nil => rfl
  | cons file files ih =>
    obtain ⟨cancelled, a⟩ := file
    cases cancelled with
    | true => rfl
    | false =>
      rw [indexAll, if_neg (by decide), List.takeWhile_cons_of_pos rfl, List.map_cons, Runs.final]
      have after : ((step chunker s (.attempt a)).2).store =
        (indexFileInternal chunker a s.store).2 := rfl
      rcases ran : indexFileInternal chunker a s.store with ⟨result, store⟩
      rw [ran] at after
      dsimp only at after
      subst after
      cases result with
      | error err => exact ih stats _
      | ok count => exact ih _ _

/-! ## One file -/

/-- Every file is one chunk. -/
def sampleChunker : Chunker := fun _ content language =>
  .ok [⟨1, 1, content, language, .block, none, 10⟩]

def sampleAttempt : Attempt Unit where
  path := ⟨"/w/a.rs".toList⟩
  content := .ok "fn main() {}".toList
  mtime := 0
  embedBatch texts := .ok (texts.map fun _ => ())
  insertFailure _ := none
  deleteFailure := none

/-- A workspace is indexed for the first time. -/
theorem consistent_along_once :
    let events : List (Event Unit) := [.attempt sampleAttempt]
    ∀ done rest, events = done ++ rest →
      Consistent (Runs.final (step sampleChunker) (empty : System Unit) done) := by
  refine consistent_along sampleChunker [.attempt sampleAttempt] ?_
  have succeeds : Succeeds sampleChunker sampleAttempt := ⟨_, rfl, fun _ _ => rfl⟩
  refine Runs.along_cons.mpr ⟨⟨fun _ => ⟨rfl, ?_⟩, fun fails => absurd succeeds fails⟩,
    Runs.along_nil _ _⟩
  intro drafts chunks cut made
  cases cut
  cases made
  rfl

/-- When it is indexed again, the store has every chunk twice. -/
theorem indexed_twice :
    let events : List (Event Unit) := [.attempt sampleAttempt, .attempt sampleAttempt]
    ¬ Consistent (Runs.final (step sampleChunker) (empty : System Unit) events) := by
  intro events consistent
  have twice : (stored (Runs.final (step sampleChunker) (empty : System Unit) events).store
      "/w/a.rs".toList).length = 2 := by
    decide +kernel
  have once : ((Runs.final (step sampleChunker) (empty : System Unit) events).indexed
      "/w/a.rs".toList).length = 1 := by
    decide +kernel
  have same := (consistent "/w/a.rs".toList).length_eq
  omega

end Devit.ContextIndex
