import Devit.ContextIndex
import Devit.Library.StableSort
import Devit.Library.Utf8

/-! Choosing chunks for a query. The chunks that the search finds are taken, the best ones first,
while they fit into the budget; chunks of given files come before them and have half of it. The
first chunk that does not fit ends the choice, also where nothing was chosen yet. -/
namespace Devit.QueryPlanner
open Text Path
open ContextIndex (ContextError Draft Row)
open StableSort (First first_of_mergeSort)

structure ContextChunk (S : Type) where
  id : Nat
  filePath : Text
  draft : Draft
  fileMtime : Nat
  score : S

variable {E S : Type}

/-- The chunk's tokens. -/
def ContextChunk.tokens (chunk : ContextChunk S) : Nat := chunk.draft.tokenCount

/-- Scores, with a total preorder. -/
structure Scores (S : Type) where
  le : S → S → Bool
  trans : ∀ a b c, le a b = true → le b c = true → le a c = true
  total : ∀ a b, (le a b || le b a) = true

/-- The higher score comes first. -/
def Scores.before (scores : Scores S) (a b : ContextChunk S) : Bool := scores.le b.score a.score

/-- No chunk comes twice. -/
def Distinct (chunks : List (ContextChunk S)) : Prop := (chunks.map (·.id)).Nodup

def totalTokens (chunks : List (ContextChunk S)) : Nat := (chunks.map ContextChunk.tokens).sum

/-- A store, in which no chunk is found twice. -/
structure VectorStore (E S : Type) where
  search : E → Nat → S → Except ContextError (List (ContextChunk S))
  getByFiles : List PathBuf → Except ContextError (List (ContextChunk S))
  searchDistinct : ∀ embedding topK threshold found,
    search embedding topK threshold = .ok found → Distinct found
  filesDistinct : ∀ paths chunks, getByFiles paths = .ok chunks → Distinct chunks

/-! ## The planner -/

/-- The beginning of a text for the log; nothing where the slice panics. -/
def truncateStr (s : Text) (maxLen : Nat) : Option Text :=
  if byteLen s ≤ maxLen then some s else (sliceTo maxLen s).map (· ++ "...".toList)

structure QueryPlanner (S : Type) where
  topK : Nat
  similarityThreshold : S

/-- What is called: an embedder, a store, an order of scores, and a log that takes debug messages
or not. -/
structure Services (E S : Type) where
  embed : Text → Except ContextError E
  store : VectorStore E S
  scores : Scores S
  debugging : Bool

/-- The loop that takes chunks while they fit. -/
def selectFrom (maxTokens : Nat) : List (ContextChunk S) → Nat → List (ContextChunk S) →
    List (ContextChunk S)
  | selected, _, [] => selected
  | selected, total, chunk :: rest =>
    if total + chunk.tokens > maxTokens then
      if selected = [] ∧ chunk.tokens ≤ maxTokens then selected ++ [chunk] else selected
    else selectFrom maxTokens (selected ++ [chunk]) (total + chunk.tokens) rest

/-- The loop over the chunks of given files, with the tokens that it takes. -/
def takeFiles (half : Nat) : List (ContextChunk S) → Nat → List (ContextChunk S) →
    List (ContextChunk S) × Nat
  | selected, total, [] => (selected, total)
  | selected, total, chunk :: rest =>
    if total + chunk.tokens > half then (selected, total)
    else takeFiles half (selected ++ [chunk]) (total + chunk.tokens) rest

/-- The loop that adds what was found and is not there yet. -/
def addFound (maxTokens : Nat) (selectedIds : List Nat) : List (ContextChunk S) → Nat →
    List (ContextChunk S) → List (ContextChunk S)
  | selected, _, [] => selected
  | selected, total, chunk :: rest =>
    if chunk.id ∉ selectedIds ∧ total + chunk.tokens ≤ maxTokens then
      addFound maxTokens selectedIds (selected ++ [chunk]) (total + chunk.tokens) rest
    else addFound maxTokens selectedIds selected total rest

namespace QueryPlanner
variable (planner : QueryPlanner S) (services : Services E S)

/-- Nothing where the log message panics. -/
def query (text : Text) (maxTokens : Nat) :
    Option (Except ContextError (List (ContextChunk S))) :=
  match services.embed text with
  | .error e => some (.error e)
  | .ok embedding =>
    match services.store.search embedding (planner.topK * 2) planner.similarityThreshold with
    | .error e => some (.error e)
    | .ok results =>
      let results := results.mergeSort services.scores.before
      let selected := selectFrom maxTokens [] 0 results
      if services.debugging then (truncateStr text 50).map fun _ => .ok selected
      else some (.ok selected)

def queryWithFiles (text : Text) (priorityFiles : List PathBuf) (maxTokens : Nat) :
    Option (Except ContextError (List (ContextChunk S))) :=
  match services.store.getByFiles priorityFiles with
  | .error e => some (.error e)
  | .ok fileChunks =>
    let (selected, total) := takeFiles (maxTokens / 2) [] 0 fileChunks
    let remaining := maxTokens - total
    if remaining > 100 then
      match query planner services text remaining with
      | none => none
      | some (.error e) => some (.error e)
      | some (.ok semantic) =>
        some (.ok (addFound maxTokens (selected.map (·.id)) selected total semantic))
    else some (.ok selected)

end QueryPlanner

/-! ## What is asked -/

/-- What the search finds for the query. -/
def Finds (planner : QueryPlanner S) (services : Services E S) (text : Text)
    (found : List (ContextChunk S)) : Prop :=
  ∃ embedding, services.embed text = .ok embedding ∧
    services.store.search embedding (planner.topK * 2) planner.similarityThreshold = .ok found

structure WithinBudget (maxTokens : Nat) (chunks : List (ContextChunk S)) : Prop where
  distinct : Distinct chunks
  fits : totalTokens chunks ≤ maxTokens

/-- The chunk fits by itself. -/
def Fits (maxTokens : Nat) (chunk : ContextChunk S) : Prop := chunk.tokens ≤ maxTokens

structure Selects (planner : QueryPlanner S) (services : Services E S) (text : Text)
    (maxTokens : Nat) : Prop where
  answers : planner.query services text maxTokens ≠ none
  answersFiles : ∀ files, planner.queryWithFiles services text files maxTokens ≠ none
  within : ∀ chunks, planner.query services text maxTokens = some (.ok chunks) →
    WithinBudget maxTokens chunks
  withinFiles : ∀ files chunks,
    planner.queryWithFiles services text files maxTokens = some (.ok chunks) →
      WithinBudget maxTokens chunks
  some_chunk : ∀ found chunks, Finds planner services text found →
    planner.query services text maxTokens = some (.ok chunks) →
      (∃ chunk ∈ found, Fits maxTokens chunk) → chunks ≠ []

/-- If anything that is found fits, the first chunk of the highest score does; and a character of
the text ends where it is cut for the log. -/
def BestFits (planner : QueryPlanner S) (services : Services E S) (text : Text)
    (maxTokens : Nat) : Prop :=
  ∀ found, Finds planner services text found →
    (services.debugging = true → byteLen text ≤ 50 ∨ IsBoundary 50 text) ∧
      ((∃ chunk ∈ found, Fits maxTokens chunk) →
        ∃ best, First services.scores.before found best ∧ Fits maxTokens best)

variable {planner : QueryPlanner S} {services : Services E S} {text : Text} {maxTokens : Nat}

/-! ## The loops -/

theorem totalTokens_append (a b : List (ContextChunk S)) :
    totalTokens (a ++ b) = totalTokens a + totalTokens b := by
  simp [totalTokens]

/-- **Taking while it fits.** The chunks at the front are taken, up to the first one that does
not fit: that a single one might still be taken then never comes to pass. -/
theorem selectFrom_front {selected : List (ContextChunk S)} {total : Nat}
    (counted : total = totalTokens selected) (fits : total ≤ maxTokens)
    (results : List (ContextChunk S)) :
    ∃ front back, results = front ++ back ∧
      selectFrom maxTokens selected total results = selected ++ front ∧
        totalTokens (selected ++ front) ≤ maxTokens ∧
          ∀ next rest, back = next :: rest →
            maxTokens < totalTokens (selected ++ front) + next.tokens := by
  induction results generalizing selected total with
  | nil => exact ⟨[], [], rfl, (List.append_nil _).symm, by simpa [← counted] using fits,
      fun _ _ bad => nomatch bad⟩
  | cons chunk results ih =>
    rw [selectFrom]
    split
    · rename_i full
      have alone : ¬ (selected = [] ∧ chunk.tokens ≤ maxTokens) := by
        rintro ⟨rfl, small⟩
        have none_yet : total = 0 := counted
        omega
      rw [if_neg alone]
      refine ⟨[], chunk :: results, rfl, (List.append_nil _).symm, ?_, ?_⟩
      · rwa [List.append_nil, ← counted]
      · rintro next rest ⟨⟩
        rwa [List.append_nil, ← counted]
    · rename_i room
      have more : total + chunk.tokens = totalTokens (selected ++ [chunk]) := by
        rw [totalTokens_append, ← counted]
        rfl
      obtain ⟨front, back, rfl, ran, bounded, stops⟩ := ih more (Nat.not_lt.mp room)
      have parts : selected ++ [chunk] ++ front = selected ++ chunk :: front := by simp
      rw [parts] at ran bounded stops
      exact ⟨chunk :: front, back, rfl, ran, bounded, stops⟩

/-- The chunks of given files are taken in the same way. -/
theorem takeFiles_eq {half total : Nat} {selected : List (ContextChunk S)}
    (counted : total = totalTokens selected) (chunks : List (ContextChunk S)) :
    takeFiles half selected total chunks = (selectFrom half selected total chunks,
      totalTokens (selectFrom half selected total chunks)) := by
  induction chunks generalizing selected total with
  | nil => rw [takeFiles, selectFrom, counted]
  | cons chunk chunks ih =>
    rw [takeFiles, selectFrom]
    split
    · rename_i full
      have alone : ¬ (selected = [] ∧ chunk.tokens ≤ half) := by
        rintro ⟨rfl, small⟩
        have none_yet : total = 0 := counted
        omega
      rw [if_neg alone, counted]
    · refine ih ?_
      rw [totalTokens_append, ← counted]
      rfl

theorem addFound_spec {ids : List Nat} {selected : List (ContextChunk S)} {total : Nat}
    (fits : total ≤ maxTokens) (found : List (ContextChunk S)) :
    ∃ kept, addFound maxTokens ids selected total found = selected ++ kept ∧ kept.Sublist found ∧
      (∀ chunk ∈ kept, chunk.id ∉ ids) ∧ total + totalTokens kept ≤ maxTokens := by
  induction found generalizing selected total with
  | nil =>
    exact ⟨[], (List.append_nil _).symm, .slnil, fun _ none => (List.not_mem_nil none).elim, fits⟩
  | cons chunk found ih =>
    rw [addFound]
    split
    · rename_i goes
      obtain ⟨kept, ran, inside, fresh, bounded⟩ := ih goes.2
      refine ⟨chunk :: kept, by rw [ran]; simp, inside.cons_cons chunk, ?_, ?_⟩
      · rintro other (_ | ⟨_, member⟩)
        · exact goes.1
        · exact fresh other member
      · rw [totalTokens, List.map_cons, List.sum_cons, ← totalTokens]
        omega
    · obtain ⟨kept, ran, inside, fresh, bounded⟩ := ih fits
      exact ⟨kept, ran, inside.cons chunk, fresh, bounded⟩

/-! ## Queries -/

theorem Distinct.sublist {a b : List (ContextChunk S)} (distinct : Distinct b)
    (inside : a.Sublist b) : Distinct a := List.Nodup.sublist (inside.map _) distinct

theorem truncateStr_isSome {s : Text} {n : Nat} :
    (truncateStr s n).isSome = true ↔ byteLen s ≤ n ∨ IsBoundary n s := by
  unfold truncateStr
  split
  · exact iff_of_true rfl (.inl ‹_›)
  · rename_i long
    rw [Option.isSome_map, sliceTo_isSome, or_iff_right long]

/-- The chunks that are chosen of what was found. -/
def chosen (scores : Scores S) (maxTokens : Nat) (found : List (ContextChunk S)) :
    List (ContextChunk S) :=
  selectFrom maxTokens [] 0 (found.mergeSort scores.before)

/-- Something is found, and the query says what is chosen unless the log panics; or it fails. -/
theorem query_cases (planner : QueryPlanner S) (services : Services E S) (text : Text) :
    (∃ found, (∀ other, Finds planner services text other ↔ other = found) ∧
      ∀ maxTokens, planner.query services text maxTokens =
        if services.debugging && (truncateStr text 50).isNone then none
        else some (.ok (chosen services.scores maxTokens found))) ∨
      (∀ found, ¬ Finds planner services text found) ∧
        ∃ e, ∀ maxTokens, planner.query services text maxTokens = some (.error e) := by
  cases embedded : services.embed text with
  | error e =>
    refine .inr ⟨?_, e, fun _ => by simp only [QueryPlanner.query, embedded]⟩
    rintro found ⟨embedding, same, -⟩
    cases embedded.symm.trans same
  | ok embedding =>
    cases searched : services.store.search embedding (planner.topK * 2)
        planner.similarityThreshold with
    | error e =>
      refine .inr ⟨?_, e, fun _ => by simp only [QueryPlanner.query, embedded, searched]⟩
      rintro found ⟨embedding', same, other⟩
      cases embedded.symm.trans same
      cases searched.symm.trans other
    | ok found =>
      refine .inl ⟨found, fun other => ⟨?_, ?_⟩, fun maxTokens => ?_⟩
      · rintro ⟨embedding', same, ran⟩
        cases embedded.symm.trans same
        cases searched.symm.trans ran
        rfl
      · rintro rfl
        exact ⟨embedding, embedded, searched⟩
      · simp only [QueryPlanner.query, embedded, searched]
        cases services.debugging with
        | false => simp [chosen]
        | true =>
          cases logged : truncateStr text 50 with
          | none => simp
          | some message => simp [chosen]

theorem Finds.distinct {found : List (ContextChunk S)}
    (finds : Finds planner services text found) : Distinct found := by
  obtain ⟨embedding, -, searched⟩ := finds
  exact services.store.searchDistinct _ _ _ _ searched

/-- **What is chosen** is within the budget, and something is exactly if the best chunk fits. -/
theorem chosen_within (scores : Scores S) (maxTokens : Nat) {found : List (ContextChunk S)}
    (distinct : Distinct found) : WithinBudget maxTokens (chosen scores maxTokens found) ∧
      (chosen scores maxTokens found ≠ [] ↔
        ∃ best, First scores.before found best ∧ Fits maxTokens best) := by
  have none_yet : 0 = totalTokens ([] : List (ContextChunk S)) := rfl
  obtain ⟨front, back, shape, ran, bounded, stops⟩ :=
    selectFrom_front none_yet (Nat.zero_le maxTokens) (found.mergeSort scores.before)
  rw [List.nil_append] at ran bounded stops
  have perm : (found.mergeSort scores.before).Perm found := List.mergeSort_perm _ _
  have sorted_distinct : Distinct (found.mergeSort scores.before) :=
    (perm.map _).nodup_iff.mpr distinct
  have inside : front.Sublist (found.mergeSort scores.before) := by
    rw [shape]
    exact List.sublist_append_left _ _
  have transitive : ∀ a b c : ContextChunk S, scores.before a b = true →
      scores.before b c = true → scores.before a c = true :=
    fun a b c first second => scores.trans _ _ _ second first
  have totality : ∀ a b : ContextChunk S, (scores.before a b || scores.before b a) = true :=
    fun a b => scores.total _ _
  rw [chosen, ran]
  refine ⟨⟨sorted_distinct.sublist inside, bounded⟩, ?_⟩
  cases front with
  | nil =>
    refine iff_of_false (fun other => other rfl) ?_
    rintro ⟨best, first, fits⟩
    cases back with
    | nil =>
      have none_found := perm.symm.subset first.mem
      rw [shape] at none_found
      cases none_found
    | cons next rest =>
      have head := first_of_mergeSort transitive totality shape
      rw [first.unique head] at fits
      have over_full := stops next rest rfl
      unfold Fits at fits
      simp only [totalTokens, List.map_nil, List.sum_nil] at over_full
      omega
  | cons best front =>
    refine iff_of_true (List.cons_ne_nil _ _) ⟨best, ?_, ?_⟩
    · exact first_of_mergeSort transitive totality shape
    · rw [totalTokens, List.map_cons, List.sum_cons] at bounded
      unfold Fits
      omega

theorem query_within {chunks : List (ContextChunk S)}
    (ran : planner.query services text maxTokens = some (.ok chunks)) :
    WithinBudget maxTokens chunks := by
  rcases query_cases planner services text with ⟨found, finds, answer⟩ | ⟨-, e, failed⟩
  · rw [answer] at ran
    split at ran
    · cases ran
    · cases ran
      exact (chosen_within _ _ ((finds found).mpr rfl).distinct).1
  · rw [failed] at ran
    cases ran

/-- The log panics for every budget or for none. -/
theorem query_answers {other : Nat} (answers : planner.query services text maxTokens ≠ none) :
    planner.query services text other ≠ none := by
  rcases query_cases planner services text with ⟨found, -, answer⟩ | ⟨-, e, failed⟩
  · rw [answer] at answers ⊢
    split
    · rename_i panics
      rw [if_pos panics] at answers
      exact (answers rfl).elim
    · exact fun bad => nomatch bad
  · rw [failed]
    exact fun bad => nomatch bad

theorem queryWithFiles_answers (answers : planner.query services text maxTokens ≠ none)
    (files : List PathBuf) : planner.queryWithFiles services text files maxTokens ≠ none := by
  unfold QueryPlanner.queryWithFiles
  cases services.store.getByFiles files with
  | error e => exact fun bad => nomatch bad
  | ok fileChunks =>
    dsimp only
    split
    · have later : planner.query services text
          (maxTokens - (takeFiles (maxTokens / 2) [] 0 fileChunks).2) ≠ none :=
        query_answers answers
      split
      · rename_i panics
        exact (later panics).elim
      · exact fun bad => nomatch bad
      · exact fun bad => nomatch bad
    · exact fun bad => nomatch bad

/-- What is added to chosen chunks is other chunks. -/
theorem Distinct.append {a b : List (ContextChunk S)} (first : Distinct a) (second : Distinct b)
    (apart : ∀ chunk ∈ b, chunk.id ∉ a.map (·.id)) : Distinct (a ++ b) := by
  rw [Distinct, List.map_append, List.nodup_append]
  refine ⟨first, second, ?_⟩
  rintro id inside other later rfl
  obtain ⟨chunk, member, rfl⟩ := List.mem_map.mp later
  exact apart chunk member inside

theorem queryWithFiles_within {files : List PathBuf} {chunks : List (ContextChunk S)}
    (ran : planner.queryWithFiles services text files maxTokens = some (.ok chunks)) :
    WithinBudget maxTokens chunks := by
  unfold QueryPlanner.queryWithFiles at ran
  cases listed : services.store.getByFiles files with
  | error e =>
    rw [listed] at ran
    cases ran
  | ok fileChunks =>
    have distinct := services.store.filesDistinct _ _ listed
    have none_yet : 0 = totalTokens ([] : List (ContextChunk S)) := rfl
    obtain ⟨front, back, rfl, taken, bounded, -⟩ :=
      selectFrom_front none_yet (Nat.zero_le (maxTokens / 2)) fileChunks
    rw [List.nil_append] at taken bounded
    have chosen_files : Distinct front := distinct.sublist (List.sublist_append_left _ _)
    have files_taken : takeFiles (maxTokens / 2) [] 0 (front ++ back) =
        (front, totalTokens front) := by rw [takeFiles_eq none_yet, taken]
    rw [listed] at ran
    dsimp only at ran
    rw [files_taken] at ran
    dsimp only at ran
    split at ran
    · split at ran
      · cases ran
      · cases ran
      · rename_i semantic answered
        cases ran
        have room : totalTokens front ≤ maxTokens := by omega
        obtain ⟨kept, added, inside, fresh, fits⟩ :=
          @addFound_spec S maxTokens (front.map (·.id)) front _ room semantic
        rw [added]
        refine ⟨chosen_files.append ((query_within answered).distinct.sublist inside) fresh, ?_⟩
        rwa [totalTokens_append]
    · cases ran
      exact ⟨chosen_files, by omega⟩

/-- **Selection** is as it should be exactly if the best chunk fits where any does. -/
theorem selects_iff (planner : QueryPlanner S) (services : Services E S) (text : Text)
    (maxTokens : Nat) :
    Selects planner services text maxTokens ↔ BestFits planner services text maxTokens := by
  rcases query_cases planner services text with ⟨found, finds, answer⟩ | ⟨unfound, e, failed⟩
  · have best := chosen_within services.scores maxTokens ((finds found).mpr rfl).distinct
    have logs : (services.debugging && (truncateStr text 50).isNone) = false ↔
        (services.debugging = true → byteLen text ≤ 50 ∨ IsBoundary 50 text) := by
      rw [← truncateStr_isSome]
      cases services.debugging <;> simp
    constructor
    · intro selects other other_finds
      cases (finds other).mp other_finds
      have quiet : ¬ (services.debugging && (truncateStr text 50).isNone) = true := by
        intro panics
        have answers := selects.answers
        rw [answer, if_pos panics] at answers
        exact answers rfl
      refine ⟨logs.mp ((Bool.not_eq_true _).mp quiet), fun fits => best.2.mp ?_⟩
      exact selects.some_chunk _ _ other_finds (by rw [answer, if_neg quiet]) fits
    · intro fits
      obtain ⟨logged, best_fits⟩ := fits found ((finds found).mpr rfl)
      have quiet : ¬ (services.debugging && (truncateStr text 50).isNone) = true := by
        rw [logs.mpr logged]
        exact Bool.false_ne_true
      have answers : planner.query services text maxTokens ≠ none := by
        rw [answer, if_neg quiet]
        exact fun bad => nomatch bad
      refine ⟨answers, queryWithFiles_answers answers, fun _ => query_within,
        fun _ _ => queryWithFiles_within, fun other chunks other_finds ran some_fits => ?_⟩
      cases (finds other).mp other_finds
      rw [answer, if_neg quiet] at ran
      cases ran
      exact best.2.mpr (best_fits some_fits)
  · have answers : planner.query services text maxTokens ≠ none := by
      rw [failed]
      exact fun bad => nomatch bad
    refine iff_of_true ⟨answers, queryWithFiles_answers answers, fun _ => query_within,
      fun _ _ => queryWithFiles_within, fun other _ other_finds => ?_⟩ fun other other_finds => ?_
    · exact absurd other_finds (unfound other)
    · exact absurd other_finds (unfound other)

/-! ## The table of chunks -/

/-- The table `chunks` with its primary key, and what the database says against a call. -/
structure SqliteStore (E : Type) where
  rows : List (Row E)
  keyed : (rows.map (·.id)).Nodup
  failure : Option Text

/-- The row as a chunk with a score. -/
def chunkOf (row : Row E) (score : S) : ContextChunk S :=
  ⟨row.id, row.filePath, row.draft, row.fileMtime, score⟩

namespace SqliteStore

/-- `ORDER BY file_path, start_line`. -/
def byPlace (a b : Row E) : Bool :=
  decide (a.filePath < b.filePath ∨
    a.filePath = b.filePath ∧ a.draft.startLine ≤ b.draft.startLine)

variable (scores : Scores S) (cosineSimilarity : E → E → S) (db : SqliteStore E)

def scored (embedding : E) : List (ContextChunk S) :=
  db.rows.map fun row => chunkOf row (cosineSimilarity embedding row.embedding)

def search (embedding : E) (topK : Nat) (threshold : S) :
    Except ContextError (List (ContextChunk S)) :=
  match db.failure with
  | some err => .error (.store ("Query failed: ".toList ++ err))
  | none => .ok ((((db.scored cosineSimilarity embedding).filter fun chunk =>
      scores.le threshold chunk.score).mergeSort scores.before).take topK)

/-- The chunks of files have one and the same score. -/
def getByFiles (one : S) (paths : List PathBuf) : Except ContextError (List (ContextChunk S)) :=
  if paths = [] then .ok []
  else
    match db.failure with
    | some err => .error (.store ("Query failed: ".toList ++ err))
    | none => .ok (((db.rows.filter fun row => row.filePath ∈ paths.map (·.text)).mergeSort
        byPlace).map fun row => chunkOf row one)

variable {scores cosineSimilarity db}

theorem search_distinct {embedding : E} {topK : Nat} {threshold : S}
    {found : List (ContextChunk S)}
    (ran : db.search scores cosineSimilarity embedding topK threshold = .ok found) :
    Distinct found := by
  unfold search at ran
  split at ran
  · cases ran
  · cases ran
    have all : Distinct (db.scored cosineSimilarity embedding) := by
      rw [Distinct, scored, List.map_map]
      exact db.keyed
    have kept := all.sublist (List.filter_sublist (p := fun chunk =>
      scores.le threshold chunk.score))
    exact Distinct.sublist (((List.mergeSort_perm _ _).map _).nodup_iff.mpr kept)
      (List.take_sublist _ _)

theorem files_distinct {one : S} {paths : List PathBuf} {chunks : List (ContextChunk S)}
    (ran : db.getByFiles one paths = .ok chunks) : Distinct chunks := by
  unfold getByFiles at ran
  split at ran
  · cases ran
    exact List.nodup_nil
  · split at ran
    · cases ran
    · cases ran
      have kept := db.keyed.sublist ((List.filter_sublist
        (p := fun row : Row E => row.filePath ∈ paths.map (·.text))).map (·.id))
      rw [Distinct, List.map_map]
      exact ((List.mergeSort_perm _ _).map _).nodup_iff.mpr kept

variable (scores cosineSimilarity db) in
/-- The store that the planner is used with. -/
def vectorStore (one : S) : VectorStore E S where
  search := db.search scores cosineSimilarity
  getByFiles := db.getByFiles one
  searchDistinct _ _ _ _ := search_distinct
  filesDistinct _ _ := files_distinct

end SqliteStore

/-- Numbers as scores. -/
def numbers : Scores Nat where
  le a b := decide (a ≤ b)
  trans a b c := by simpa using Nat.le_trans
  total a b := by simpa using Nat.le_total a b

/-- A chunk with its tokens, and its similarity as its embedding. -/
def sampleRow (id tokens similarity : Nat) : Row Nat :=
  ⟨id, "/w/a.rs".toList, ⟨1, 1, [], .rust, .block, none, tokens⟩, 0, similarity⟩

/-- A large chunk that is the best one, and a small one. -/
def sampleServices : Services Nat Nat where
  embed _ := .ok 0
  store := SqliteStore.vectorStore numbers (fun _ similarity => similarity)
    ⟨[sampleRow 0 500 9, sampleRow 1 20 8], by decide, none⟩ 10
  scores := numbers
  debugging := false

/-- Nothing is chosen, though the second chunk fits. -/
theorem large_chunk_ends_choice :
    ¬ Selects (⟨5, 1⟩ : QueryPlanner Nat) sampleServices "main".toList 100 := by
  intro selects
  let large := chunkOf (sampleRow 0 500 9) 9
  let small := chunkOf (sampleRow 1 20 8) 8
  have finds : Finds (⟨5, 1⟩ : QueryPlanner Nat) sampleServices "main".toList [large, small] := by
    have sorted : [large, small].mergeSort numbers.before = [large, small] :=
      List.mergeSort_of_pairwise (by decide)
    refine ⟨0, rfl, ?_⟩
    change Except.ok (([large, small].mergeSort numbers.before).take 10) = _
    rw [sorted]
    rfl
  have ran : QueryPlanner.query ⟨5, 1⟩ sampleServices "main".toList 100 =
      some (.ok (chosen numbers 100 [large, small])) := by
    rcases query_cases ⟨5, 1⟩ sampleServices "main".toList with ⟨found, only, answer⟩ | ⟨none, -⟩
    · cases (only _).mp finds
      exact answer 100
    · exact (none _ finds).elim
  have small_fits : Fits 100 small := show 20 ≤ 100 by decide
  have some_chunk := selects.some_chunk _ _ finds ran
    ⟨small, List.mem_cons_of_mem _ (List.mem_singleton_self _), small_fits⟩
  obtain ⟨best, first, fits⟩ := (chosen_within numbers 100 finds.distinct).2.mp some_chunk
  have head : First numbers.before [large, small] large :=
    ⟨[], [small], rfl, fun _ none => (List.not_mem_nil none).elim, by decide⟩
  rw [first.unique head] at fits
  exact absurd (show 500 ≤ 100 from fits) (by decide)

end Devit.QueryPlanner
