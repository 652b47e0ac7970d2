import Devit.ContextIndex
import Devit.Library.Utf8
import Mathlib.Data.List.Chain

/-! Cutting a text into chunks of whole lines. A chunk takes lines until their tokens reach the
limit; the next one should begin a few lines before its end. The guard against standing still
compares a number with itself, so that it begins behind it. -/
namespace Devit.LineChunking
open Text Path
open ContextIndex (Draft Language ChunkType)

/-- A chunk; identifiers are drawn at random and left out. -/
structure CodeChunk where
  filePath : PathBuf
  draft : Draft
  fileMtime : Nat

structure TreeSitterChunker where
  maxChunkTokens : Nat
  chunkOverlap : Nat

def estimateTokens (text : Text) : Nat := (byteLen text + 3) / 4

/-- The lines from the one index up to the other. -/
def linesIn (lines : List Text) (startIdx endIdx : Nat) : List Text :=
  (lines.take endIdx).drop startIdx

namespace TreeSitterChunker
variable (chunker : TreeSitterChunker)

/-- The loop that takes lines until their tokens reach the limit: how many it takes. -/
def accumulate : Nat → List Text → Nat
  | _, [] => 0
  | currentTokens, line :: rest =>
    if currentTokens < chunker.maxChunkTokens then
      accumulate (currentTokens + estimateTokens line) rest + 1
    else 0

/-- The index behind a chunk. -/
def endOf (lines : List Text) (startIdx : Nat) : Nat :=
  let endIdx := startIdx + chunker.accumulate 0 (lines.drop startIdx)
  if endIdx = startIdx then startIdx + 1 else endIdx

/-- Moving the start back by the overlap, and the guard against an infinite loop. -/
def nextStart (endIdx : Nat) : Nat :=
  let startIdx := endIdx - chunker.chunkOverlap / 4
  if startIdx ≤ endIdx - (endIdx - startIdx) then endIdx else startIdx

/-- The loop of both functions; nothing where the fuel runs out. -/
def chunkFrom (make : Nat → Nat → Text → CodeChunk) (lines : List Text) :
    Nat → Nat → Option (List CodeChunk)
  | 0, _ => none
  | fuel + 1, startIdx =>
    if startIdx < lines.length then
      let endIdx := chunker.endOf lines startIdx
      let chunk := make startIdx endIdx (join ['\n'] (linesIn lines startIdx endIdx))
      (chunkFrom make lines fuel (chunker.nextStart endIdx)).map (chunk :: ·)
    else some []

/-- One turn of the loop begins behind the last one, so that the fuel is enough. -/
def chunkLines (make : Nat → Nat → Text → CodeChunk) (lines : List Text) :
    Option (List CodeChunk) :=
  chunker.chunkFrom make lines (lines.length + 1) 0

def splitLargeChunk (chunk : CodeChunk) : Option (List CodeChunk) :=
  chunker.chunkLines (fun startIdx endIdx subContent => {
    filePath := chunk.filePath
    draft := {
      startLine := chunk.draft.startLine + startIdx
      endLine := chunk.draft.startLine + endIdx - 1
      content := subContent
      language := chunk.draft.language
      chunkType := chunk.draft.chunkType
      symbolName := if startIdx = 0 then chunk.draft.symbolName else none
      tokenCount := estimateTokens subContent }
    fileMtime := chunk.fileMtime }) (lines chunk.draft.content)

def fallbackLineChunking (content : Text) (path : PathBuf) (language : Language)
    (fileMtime : Nat) : Option (List CodeChunk) :=
  chunker.chunkLines (fun startIdx endIdx chunkContent => {
    filePath := path
    draft := {
      startLine := startIdx + 1
      endLine := endIdx
      content := chunkContent
      language := language
      chunkType := .block
      symbolName := none
      tokenCount := estimateTokens chunkContent }
    fileMtime := fileMtime }) (lines content)

end TreeSitterChunker

/-! ## What is asked -/

/-- The chunk names the range, of lines that are counted from `first` on, and has its lines. -/
def Holds (first : Nat) (lines : List Text) (range : Nat × Nat) (chunk : CodeChunk) : Prop :=
  chunk.draft.startLine = first + range.1 ∧ chunk.draft.endLine + 1 = first + range.2 ∧
    chunk.draft.content = join ['\n'] (linesIn lines range.1 range.2)

/-- Ranges that go through all lines in order, without gaps. -/
structure Covers (count : Nat) (ranges : List (Nat × Nat)) : Prop where
  proper : ∀ range ∈ ranges, range.1 < range.2 ∧ range.2 ≤ count
  whole : ∀ i < count, ∃ range ∈ ranges, range.1 ≤ i ∧ i < range.2
  ordered : ranges.IsChain fun range next => range.1 < next.1 ∧ next.1 ≤ range.2

/-- The next range starts so many lines before the end of the last one, if that is behind its
start. -/
def StepsBack (overlapLines : Nat) (range next : Nat × Nat) : Prop :=
  next.1 = if range.1 < range.2 - overlapLines then range.2 - overlapLines else range.2

def Exact (first overlapLines : Nat) (lines : List Text) (chunks : List CodeChunk) : Prop :=
  ∃ ranges, List.Forall₂ (Holds first lines) ranges chunks ∧ Covers lines.length ranges ∧
    ranges.IsChain (StepsBack overlapLines)

def tokens (lines : List Text) : Nat := (lines.map estimateTokens).sum

/-- Lines that reach the limit with the last of them, or a single one that does. -/
def Fills (limit : Nat) (run : List Text) : Prop :=
  ∃ init last, run = init ++ [last] ∧ limit ≤ tokens run ∧ (init = [] ∨ tokens init < limit)

/-- Lines that are such runs, one behind the other. -/
inductive Cut (limit : Nat) : List Text → Prop where
  | nil : Cut limit []
  | run {run rest : List Text} : Fills limit run → Cut limit rest → Cut limit (run ++ rest)

/-- No run with a line behind it has more lines than the overlap. -/
def ShortRuns (limit overlapLines : Nat) (lines : List Text) : Prop :=
  ∀ front run back, lines = front ++ (run ++ back) → Cut limit front → Fills limit run →
    back ≠ [] → run.length ≤ overlapLines

/-- There is no overlap, or no chunk that it could reach back into. -/
def Unlapped (chunker : TreeSitterChunker) (lines : List Text) : Prop :=
  chunker.chunkOverlap / 4 = 0 ∨
    ShortRuns chunker.maxChunkTokens (chunker.chunkOverlap / 4) lines

variable {chunker : TreeSitterChunker} {lines : List Text}

/-! ## The loop -/

open TreeSitterChunker

/-- The guard always holds. -/
theorem nextStart_eq (chunker : TreeSitterChunker) (endIdx : Nat) :
    chunker.nextStart endIdx = endIdx := by
  unfold nextStart
  dsimp only
  split
  · rfl
  · omega

theorem tokens_cons (line : Text) (lines : List Text) :
    tokens (line :: lines) = estimateTokens line + tokens lines := rfl

/-- Where the loop stops: at the end, or where the tokens reach the limit for the first time. -/
theorem accumulate_spec (chunker : TreeSitterChunker) (sum : Nat) (lines : List Text) :
    let taken := lines.take (chunker.accumulate sum lines)
    chunker.accumulate sum lines ≤ lines.length ∧
      (chunker.accumulate sum lines < lines.length →
        chunker.maxChunkTokens ≤ sum + tokens taken) ∧
      (taken ≠ [] → sum + tokens taken.dropLast < chunker.maxChunkTokens) := by
  induction lines generalizing sum with
  | nil => simp [accumulate]
  | cons line lines ih =>
    obtain ⟨fits, reached, before⟩ := ih (sum + estimateTokens line)
    rw [accumulate]
    split
    · rename_i low
      refine ⟨by simpa using fits, fun short => ?_, fun _ => ?_⟩
      · rw [List.take_succ_cons, tokens_cons, ← Nat.add_assoc]
        exact reached (by simpa using short)
      · rw [List.take_succ_cons]
        cases taken : lines.take (chunker.accumulate (sum + estimateTokens line) lines) with
        | nil => simpa [tokens] using low
        | cons next rest =>
          rw [taken] at before
          have later := before (List.cons_ne_nil _ _)
          rw [List.dropLast_cons_of_ne_nil (List.cons_ne_nil _ _), tokens_cons, ← Nat.add_assoc]
          exact later
    · rename_i high
      exact ⟨Nat.zero_le _, fun _ => by simpa [tokens] using high, fun filled => absurd rfl filled⟩

theorem accumulate_stops {sum : Nat} (reached : chunker.maxChunkTokens ≤ sum) (lines : List Text) :
    chunker.accumulate sum lines = 0 := by
  cases lines with
  | nil => rfl
  | cons line lines => rw [accumulate, if_neg (Nat.not_lt.mpr reached)]

theorem accumulate_run {sum : Nat} {init back : List Text} {last : Text}
    (before : sum + tokens init < chunker.maxChunkTokens)
    (reached : chunker.maxChunkTokens ≤ sum + tokens (init ++ [last])) :
    chunker.accumulate sum (init ++ last :: back) = init.length + 1 := by
  induction init generalizing sum with
  | nil =>
    have low : sum < chunker.maxChunkTokens := before
    rw [List.nil_append, accumulate, if_pos low, accumulate_stops (by simpa [tokens] using reached)]
    rfl
  | cons line init ih =>
    rw [List.cons_append] at reached
    rw [tokens_cons, ← Nat.add_assoc] at before reached
    rw [List.cons_append, accumulate, if_pos (by omega), ih before reached]
    rfl

theorem linesIn_add (lines : List Text) (start count : Nat) :
    linesIn lines start (start + count) = (lines.drop start).take count := by
  rw [linesIn, List.drop_take, Nat.add_sub_cancel_left]

/-- **One chunk.** It takes a line, and up to the end of the text or until it fills up. -/
theorem endOf_spec (chunker : TreeSitterChunker) {start : Nat} (inside : start < lines.length) :
    start < chunker.endOf lines start ∧ chunker.endOf lines start ≤ lines.length ∧
      (chunker.endOf lines start < lines.length →
        Fills chunker.maxChunkTokens (linesIn lines start (chunker.endOf lines start))) := by
  obtain ⟨fits, reached, before⟩ := accumulate_spec chunker 0 (lines.drop start)
  rw [List.length_drop] at fits reached
  rw [Nat.zero_add] at reached before
  unfold endOf
  dsimp only
  split
  · rename_i stands
    have none_taken : chunker.accumulate 0 (lines.drop start) = 0 := by omega
    rw [none_taken] at reached
    refine ⟨by omega, by omega, fun _ => ?_⟩
    have free : chunker.maxChunkTokens = 0 := Nat.le_zero.mp (reached (by omega))
    obtain ⟨line, rest, shape⟩ := List.exists_cons_of_length_pos
      (show 0 < (lines.drop start).length by rw [List.length_drop]; omega)
    rw [linesIn_add, shape]
    exact ⟨[], line, rfl, by omega, .inl rfl⟩
  · rename_i goes
    have some_line : (lines.drop start).take (chunker.accumulate 0 (lines.drop start)) ≠ [] := by
      rw [← List.length_pos_iff, List.length_take, List.length_drop]
      omega
    refine ⟨by omega, by omega, fun short => ?_⟩
    rw [linesIn_add]
    exact ⟨_, _, (List.dropLast_append_getLast some_line).symm, reached (by omega),
      .inr (before some_line)⟩

/-- A run that fills up is the next chunk. -/
theorem endOf_run {start : Nat} {run back : List Text} (shape : lines.drop start = run ++ back)
    (fills : Fills chunker.maxChunkTokens run) :
    chunker.endOf lines start = start + run.length := by
  obtain ⟨init, last, rfl, reached, before⟩ := fills
  rw [List.append_assoc, List.singleton_append] at shape
  unfold endOf
  dsimp only
  rw [shape, List.length_append, List.length_singleton]
  by_cases low : tokens init < chunker.maxChunkTokens
  · rw [accumulate_run (by omega) (by omega), if_neg (by omega)]
  · obtain rfl := before.resolve_right low
    have free : chunker.maxChunkTokens ≤ 0 := Nat.not_lt.mp low
    rw [List.nil_append, accumulate_stops free, if_pos (Nat.add_zero start)]
    rfl

/-- Ranges that the loop goes through from the start on. -/
inductive Goes (chunker : TreeSitterChunker) (lines : List Text) :
    Nat → List (Nat × Nat) → Prop where
  | done {start : Nat} : lines.length ≤ start → Goes chunker lines start []
  | turn {start : Nat} {ranges : List (Nat × Nat)} : start < lines.length →
      Goes chunker lines (chunker.endOf lines start) ranges →
      Goes chunker lines start ((start, chunker.endOf lines start) :: ranges)

/-- **The loop ends**, with a chunk for each range. -/
theorem chunkFrom_goes (chunker : TreeSitterChunker) (make : Nat → Nat → Text → CodeChunk)
    (lines : List Text) {fuel start : Nat} (fits : start ≤ lines.length)
    (enough : lines.length < fuel + start) :
    ∃ ranges, Goes chunker lines start ranges ∧ chunker.chunkFrom make lines fuel start =
      some (ranges.map fun range => make range.1 range.2
        (join ['\n'] (linesIn lines range.1 range.2))) := by
  induction fuel generalizing start with
  | zero => omega
  | succ fuel ih =>
    rw [chunkFrom]
    split
    · rename_i inside
      obtain ⟨further, within, -⟩ := endOf_spec chunker inside
      obtain ⟨ranges, goes, ran⟩ := ih within (by omega)
      refine ⟨_, .turn inside goes, ?_⟩
      dsimp only
      rw [nextStart_eq, ran]
      rfl
    · exact ⟨[], .done (by omega), rfl⟩

/-- The ranges go through all lines from the start on. -/
theorem Goes.covers {start : Nat} {ranges : List (Nat × Nat)}
    (goes : Goes chunker lines start ranges) :
    (∀ range ∈ ranges, range.1 < range.2 ∧ range.2 ≤ lines.length) ∧
      (∀ i, start ≤ i → i < lines.length → ∃ range ∈ ranges, range.1 ≤ i ∧ i < range.2) ∧
      ranges.IsChain fun range next => next.1 = range.2 := by
  induction goes with
  | done past =>
    exact ⟨fun range member => (List.not_mem_nil member).elim, fun i from_start short => by omega,
      .nil⟩
  | @turn start ranges inside goes ih =>
    obtain ⟨proper, whole, chained⟩ := ih
    obtain ⟨further, within, -⟩ := endOf_spec chunker inside
    refine ⟨?_, fun i from_start short => ?_, ?_⟩
    · rintro range (_ | ⟨_, member⟩)
      · exact ⟨further, within⟩
      · exact proper range member
    · by_cases first : i < chunker.endOf lines start
      · exact ⟨_, List.mem_cons_self, from_start, first⟩
      · obtain ⟨range, member, holds⟩ := whole i (by omega) short
        exact ⟨range, List.mem_cons_of_mem _ member, holds⟩
    · cases goes with
      | done => exact .singleton _
      | turn => exact .cons_cons rfl chained

/-- Ranges of which each begins behind the last one step back exactly if they are short. -/
theorem stepsBack_iff {overlapLines : Nat} {range next : Nat × Nat} (proper : range.1 < range.2)
    (behind : next.1 = range.2) :
    StepsBack overlapLines range next ↔
      overlapLines = 0 ∨ range.2 - range.1 ≤ overlapLines := by
  unfold StepsBack
  split <;> omega

/-- Where the loop comes by, a text that is cut into runs ends. -/
theorem Goes.cut {start : Nat} {ranges : List (Nat × Nat)} {front rest : List Text}
    (goes : Goes chunker lines start ranges) (cut : Cut chunker.maxChunkTokens front)
    (shape : lines.drop start = front ++ rest) :
    ∃ first later, ranges = first ++ later ∧ Goes chunker lines (start + front.length) later := by
  induction cut generalizing start ranges with
  | nil => exact ⟨[], ranges, rfl, goes⟩
  | @run run front fills cut ih =>
    rw [List.append_assoc] at shape
    have ends := endOf_run shape fills
    cases goes with
    | done past =>
      obtain ⟨init, last, rfl, -⟩ := fills
      rw [List.drop_eq_nil_of_le past] at shape
      simp at shape
    | turn inside goes =>
      rw [ends] at goes
      have onward : lines.drop (start + run.length) = front ++ rest := by
        rw [← List.drop_drop, shape, List.drop_left]
      obtain ⟨first, later, rfl, last⟩ := ih goes onward
      refine ⟨_ :: first, later, rfl, ?_⟩
      rwa [List.length_append, ← Nat.add_assoc]

theorem Cut.append {limit : Nat} {a b : List Text} (first : Cut limit a) (second : Cut limit b) :
    Cut limit (a ++ b) := by
  induction first with
  | nil => exact second
  | run fills _ ih =>
    rw [List.append_assoc]
    exact .run fills ih

/-- Where runs are short, the ranges step back as far as they may: not at all. -/
theorem Goes.steps_back {start overlapLines : Nat} {ranges : List (Nat × Nat)}
    (goes : Goes chunker lines start ranges)
    (cut : Cut chunker.maxChunkTokens (lines.take start))
    (short : ShortRuns chunker.maxChunkTokens overlapLines lines) :
    ranges.IsChain (StepsBack overlapLines) := by
  induction goes with
  | done => exact .nil
  | @turn start ranges inside goes ih =>
    obtain ⟨further, within, fills⟩ := endOf_spec chunker inside
    cases goes with
    | done => exact .singleton _
    | turn more goes =>
      have run := fills more
      have parts : lines.take (chunker.endOf lines start) =
          lines.take start ++ linesIn lines start (chunker.endOf lines start) := by
        have whole := List.take_append_drop start (lines.take (chunker.endOf lines start))
        rwa [List.take_take, Nat.min_eq_left further.le, eq_comm] at whole
      have split : lines = lines.take start ++
          (linesIn lines start (chunker.endOf lines start) ++
            lines.drop (chunker.endOf lines start)) := by
        rw [← List.append_assoc, ← parts, List.take_append_drop]
      have fits := short _ _ _ split cut run (by simpa using more)
      refine .cons_cons ((stepsBack_iff further rfl).mpr (.inr ?_)) (ih ?_)
      · rw [linesIn, List.length_drop, List.length_take] at fits
        dsimp only
        omega
      · rw [parts]
        have alone := Cut.run run .nil
        rw [List.append_nil] at alone
        exact cut.append alone

theorem Goes.short {overlapLines : Nat} {ranges : List (Nat × Nat)}
    (some_overlap : overlapLines ≠ 0) (goes : Goes chunker lines 0 ranges)
    (steps : ranges.IsChain (StepsBack overlapLines)) :
    ShortRuns chunker.maxChunkTokens overlapLines lines := by
  intro front run back shape cut fills more
  obtain ⟨first, later, rfl, onwards⟩ := goes.cut cut shape
  have onward : lines.drop front.length = run ++ back := by rw [shape, List.drop_left]
  have size := congrArg List.length shape
  have some_more := List.length_pos_iff.mpr more
  obtain ⟨init, last, same, -⟩ := id fills
  have some_line := congrArg List.length same
  simp only [List.length_append, List.length_singleton] at size some_line
  have ends := endOf_run onward fills
  rw [Nat.zero_add] at onwards
  cases onwards with
  | done past => omega
  | turn inside next =>
    rw [ends] at next steps
    cases next with
    | done past => omega
    | turn inside' next =>
      have pair := (List.isChain_append.mp steps).2.1
      rw [List.isChain_cons_cons] at pair
      have both := (stepsBack_iff (by dsimp only; omega) rfl).mp pair.1
      dsimp only at both
      omega

/-- The ranges of chunks that name them. -/
theorem ranges_eq {first : Nat} {make : Nat → Nat → Text → CodeChunk}
    (named : ∀ i j, i < j → Holds first lines (i, j) (make i j (join ['\n'] (linesIn lines i j))))
    {ranges others : List (Nat × Nat)} (proper : ∀ range ∈ ranges, range.1 < range.2)
    (holds : List.Forall₂ (Holds first lines) others (ranges.map fun range =>
      make range.1 range.2 (join ['\n'] (linesIn lines range.1 range.2)))) : others = ranges := by
  induction ranges generalizing others with
  | nil =>
    cases holds
    rfl
  | cons range ranges ih =>
    cases holds with
    | cons here later =>
      obtain ⟨starts, ends, -⟩ := here
      obtain ⟨starts', ends', -⟩ := named range.1 range.2 (proper range List.mem_cons_self)
      dsimp only at starts ends starts' ends'
      have same := ih (fun other member => proper other (List.mem_cons_of_mem _ member)) later
      rw [same]
      exact congrArg (· :: ranges) (Prod.ext (by omega) (by omega))

/-- **Chunks.** The loop ends, and its chunks are as they should be exactly if there is no
overlap, or nothing that could overlap. -/
theorem chunkLines_exact_iff {first : Nat} {make : Nat → Nat → Text → CodeChunk}
    (chunker : TreeSitterChunker) (named : ∀ i j, i < j →
      Holds first lines (i, j) (make i j (join ['\n'] (linesIn lines i j)))) :
    ∃ chunks, chunker.chunkLines make lines = some chunks ∧
      (Exact first (chunker.chunkOverlap / 4) lines chunks ↔ Unlapped chunker lines) := by
  obtain ⟨ranges, goes, ran⟩ := chunkFrom_goes chunker make lines (Nat.zero_le _)
    (Nat.lt_succ_self lines.length)
  obtain ⟨proper, whole, chained⟩ := goes.covers
  refine ⟨_, ran, ?_⟩
  have exact_iff : Exact first (chunker.chunkOverlap / 4) lines (ranges.map fun range =>
      make range.1 range.2 (join ['\n'] (linesIn lines range.1 range.2))) ↔
      ranges.IsChain (StepsBack (chunker.chunkOverlap / 4)) := by
    constructor
    · rintro ⟨others, holds, -, steps⟩
      rwa [ranges_eq named (fun range member => (proper range member).1) holds] at steps
    · intro steps
      refine ⟨ranges, ?_, ⟨proper, fun i => whole i (Nat.zero_le _), ?_⟩, steps⟩
      · refine List.forall₂_map_right_iff.mpr (List.forall₂_same.mpr fun range member => ?_)
        exact named _ _ (proper range member).1
      · refine chained.imp_of_mem_imp fun range next member _ behind => ?_
        obtain ⟨longer, -⟩ := proper range member
        omega
  rw [exact_iff]
  constructor
  · intro steps
    by_cases none_back : chunker.chunkOverlap / 4 = 0
    · exact .inl none_back
    · exact .inr (goes.short none_back steps)
  · rintro (none_back | short)
    · refine chained.imp_of_mem_imp fun range next member _ behind => ?_
      exact (stepsBack_iff (proper range member).1 behind).mpr (.inl none_back)
    · exact goes.steps_back .nil short

theorem fallback_exact (chunker : TreeSitterChunker) (content : Text) (path : PathBuf)
    (language : Language) (fileMtime : Nat) :
    ∃ chunks, chunker.fallbackLineChunking content path language fileMtime = some chunks ∧
      (Exact 1 (chunker.chunkOverlap / 4) (Text.lines content) chunks ↔
        Unlapped chunker (Text.lines content)) := by
  refine chunkLines_exact_iff chunker fun i j before => ⟨?_, ?_, rfl⟩
  · exact Nat.add_comm i 1
  · exact Nat.add_comm j 1

theorem split_exact (chunker : TreeSitterChunker) (chunk : CodeChunk) :
    ∃ chunks, chunker.splitLargeChunk chunk = some chunks ∧
      (Exact chunk.draft.startLine (chunker.chunkOverlap / 4) (Text.lines chunk.draft.content)
          chunks ↔
        Unlapped chunker (Text.lines chunk.draft.content)) := by
  refine chunkLines_exact_iff chunker fun i j before => ⟨rfl, ?_, rfl⟩
  dsimp only
  omega

/-- **Both functions** end, and are exact exactly where nothing could overlap. -/
theorem chunking_exact_iff (chunker : TreeSitterChunker) :
    (∀ content path language fileMtime, ∃ chunks,
      chunker.fallbackLineChunking content path language fileMtime = some chunks ∧
        (Exact 1 (chunker.chunkOverlap / 4) (Text.lines content) chunks ↔
          Unlapped chunker (Text.lines content))) ∧
      ∀ chunk, ∃ chunks, chunker.splitLargeChunk chunk = some chunks ∧
        (Exact chunk.draft.startLine (chunker.chunkOverlap / 4) (Text.lines chunk.draft.content)
            chunks ↔
          Unlapped chunker (Text.lines chunk.draft.content)) :=
  ⟨fallback_exact chunker, split_exact chunker⟩

/-- Three lines, of which the second should be in both chunks. -/
theorem overlap_left_out : ∃ chunks,
    fallbackLineChunking ⟨2, 4⟩ "a\nb\nc".toList ⟨"a.txt".toList⟩ .unknown 0 = some chunks ∧
      ¬ Exact 1 1 (Text.lines "a\nb\nc".toList) chunks := by
  obtain ⟨chunks, ran, whether⟩ :=
    fallback_exact ⟨2, 4⟩ "a\nb\nc".toList ⟨"a.txt".toList⟩ .unknown 0
  refine ⟨chunks, ran, fun good => ?_⟩
  rcases whether.mp good with none_back | short
  · cases none_back
  · have fills : Fills 2 [['a'], ['b']] := ⟨[['a']], ['b'], rfl, by decide, .inr (by decide)⟩
    have fits := short [] [['a'], ['b']] [['c']] (by decide) .nil fills (by decide)
    exact absurd fits (by decide)

end Devit.LineChunking
