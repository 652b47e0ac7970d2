import Devit.Library.Search
import Devit.Library.Utf8

/-! Separating the thinking of a model from its answer, by the tags around it, while the
answer arrives. A tag is taken out in the order of a list of patterns, not of the text, and
text that is put out is not looked at again. Where each tag that is taken is the first one
of the text that is left, and none is taken with text that was put out, the way the answer
is cut into chunks changes nothing. -/
namespace Devit
open Text

namespace ThinkingTags

inductive ParsedSegment where
  | thinking (text : Text)
  | content (text : Text)
  deriving DecidableEq, Repr

structure ThinkingTagParser where
  inThinking : Bool
  seenAnyTag : Bool
  buffer : Text
  deriving DecidableEq, Repr

/-- `THINKING_PATTERNS`, in two columns. -/
def openTags : List Text :=
  ["<think>", "<seed:think>", "<reasoning>", "<thought>"].map String.toList

def closeTags : List Text :=
  ["</think>", "</seed:think>", "</reasoning>", "</thought>"].map String.toList

def maxTagLen : Nat := 13

/-- Every beginning of a tag, but for some of the last one. -/
def partials : List Text :=
  ["<", "<t", "<th", "<thi", "<thin", "<think", "</", "</t", "</th", "</thi", "</thin", "</think",
    "<s", "<se", "<see", "<seed", "<seed:", "<seed:t", "<seed:th", "<seed:thi", "<seed:thin",
    "<seed:think", "</s", "</se", "</see", "</seed", "</seed:", "</seed:t", "</seed:th",
    "</seed:thi", "</seed:thin", "</seed:think", "<r", "<re", "<rea", "<reas", "<reaso", "<reason",
    "<reasoni", "<reasonin", "<reasoning", "</r", "</re", "</rea", "</reas", "</reaso", "</reason",
    "</reasoni", "</reasonin", "</reasoning"].map String.toList

namespace ThinkingTagParser

def new : ThinkingTagParser := ⟨false, false, []⟩

def findOpen (buffer : Text) : Option (Nat × Nat) := findAny openTags buffer
def findClose (buffer : Text) : Option (Nat × Nat) := findAny closeTags buffer

def endsWithPartialTag (buffer : Text) : Bool :=
  partials.any fun tag => (stripSuffix tag buffer).isSome

def canFlushPartial (buffer : Text) : Bool :=
  decide (byteLen buffer > maxTagLen) && !endsWithPartialTag buffer

/-- The characters that lie in so many bytes, and the rest: the text is cut at the last
boundary of characters. -/
def splitBytes : Nat → Text → Text × Text
  | _, [] => ([], [])
  | n, c :: cs =>
    if c.utf8Size ≤ n then
      let (front, rest) := splitBytes (n - c.utf8Size) cs
      (c :: front, rest)
    else ([], c :: cs)

/-- What may be put out, as no tag can begin in it and end behind it, and the rest. -/
def flushSafePrefix (buffer : Text) : Text × Text := splitBytes (byteLen buffer - maxTagLen) buffer

/-- A segment, unless it is empty. -/
def segmentOf (kind : Text → ParsedSegment) (text : Text) : List ParsedSegment :=
  if text = [] then [] else [kind text]

/-- A tag is taken out: the text before it is put out if there is a kind for it. -/
def taken (parser : ThinkingTagParser) (kind : Option (Text → ParsedSegment)) (thinking : Bool)
    (place : Nat × Nat) : List ParsedSegment × ThinkingTagParser :=
  ((kind.map fun kind => segmentOf kind (parser.buffer.take place.1)).getD [],
    ⟨thinking, true, parser.buffer.drop (place.1 + place.2)⟩)

def flushed (parser : ThinkingTagParser) (kind : Text → ParsedSegment) :
    List ParsedSegment × ThinkingTagParser :=
  if canFlushPartial parser.buffer then
    let (out, rest) := flushSafePrefix parser.buffer
    (segmentOf kind out, { parser with buffer := rest })
  else ([], parser)

/-- One turn of the loop of `feed`, and whether the loop goes on. -/
def turn (parser : ThinkingTagParser) : (List ParsedSegment × ThinkingTagParser) × Bool :=
  if parser.inThinking then
    match findClose parser.buffer with
    | some place => (parser.taken (some .thinking) false place, true)
    | none => (parser.flushed .thinking, false)
  else
    match findOpen parser.buffer with
    | some place =>
      (parser.taken (if parser.seenAnyTag then some .content else none) true place, true)
    | none =>
      match findClose parser.buffer with
      -- a closing tag without an opening one: what is before it is thinking
      | some place => (parser.taken (some .thinking) false place, true)
      | none => if parser.seenAnyTag then (parser.flushed .content, false) else (([], parser), false)

/-- The loop of `feed`. Each turn with which it goes on takes a tag out of the buffer, so
that the fuel of `feed` is enough. -/
def loop : Nat → ThinkingTagParser → List ParsedSegment × ThinkingTagParser
  | 0, parser => ([], parser)
  | fuel + 1, parser =>
    let ((out, next), goes) := parser.turn
    if goes then
      let (later, last) := loop fuel next
      (out ++ later, last)
    else (out, next)

def feed (parser : ThinkingTagParser) (content : Text) : List ParsedSegment × ThinkingTagParser :=
  let parser := { parser with buffer := parser.buffer ++ content }
  loop (parser.buffer.length + 1) parser

def flush (parser : ThinkingTagParser) : List ParsedSegment :=
  segmentOf (if parser.inThinking then .thinking else .content) parser.buffer

/-- Feeding chunk after chunk, and then flushing. -/
def feedAll : ThinkingTagParser → List Text → List ParsedSegment
  | parser, [] => parser.flush
  | parser, chunk :: chunks => (parser.feed chunk).1 ++ feedAll (parser.feed chunk).2 chunks

end ThinkingTagParser

open ThinkingTagParser

def thinkingText (segments : List ParsedSegment) : Text :=
  segments.flatMap fun
    | .thinking text => text
    | .content _ => []

def contentText (segments : List ParsedSegment) : Text :=
  segments.flatMap fun
    | .thinking _ => []
    | .content text => text

theorem thinkingText_append (first second : List ParsedSegment) :
    thinkingText (first ++ second) = thinkingText first ++ thinkingText second :=
  List.flatMap_append

theorem contentText_append (first second : List ParsedSegment) :
    contentText (first ++ second) = contentText first ++ contentText second :=
  List.flatMap_append

/-! ## The tags of a text -/

/-- A tag that is taken out of a text: the first one in the order of the list, which is also
the first one in the text, also among others. -/
structure Takes (tags others : List Text) (before tag rest : Text) : Prop where
  member : tag ∈ tags
  chosen : findAny tags (before ++ (tag ++ rest)) = some (before.length, tag.length)
  first : Free others (before ++ tag.dropLast)

/-- What the tags of a text come to, in thinking or outside of it, behind the first tag or
before: the thinking and the content. Outside of thinking, a closing tag is taken only
where no opening one follows, and behind the first tag only where nothing before it is put
out while the tag has not come. -/
inductive Reads : Bool → Bool → Text → Text → Text → Prop where
  | thoughts (free : Free closeTags text) : Reads true seen text text []
  | thought (takes : Takes closeTags closeTags before tag rest)
      (later : Reads false true rest thinking content) :
      Reads true seen (before ++ (tag ++ rest)) (before ++ thinking) content
  | answer (free : Free (openTags ++ closeTags) text) : Reads false seen text [] text
  | opened (takes : Takes openTags (openTags ++ closeTags) before tag rest)
      (later : Reads true true rest thinking content) :
      Reads false seen (before ++ (tag ++ rest)) thinking ((if seen then before else []) ++ content)
  | stray (unopened : Free openTags (before ++ (tag ++ rest)))
      (takes : Takes closeTags closeTags before tag rest)
      (kept : seen = true → ∀ part, part <+: before ++ tag.dropLast → canFlushPartial part = false)
      (later : Reads false true rest thinking content) :
      Reads false seen (before ++ (tag ++ rest)) (before ++ thinking) content

/-- The tags of a text can be read one after the other. -/
def Orderly (text : Text) : Prop := ∃ thinking content, Reads false false text thinking content

variable {tags others : List Text} {before tag rest : Text}

theorem openTags_filled : ∀ tag ∈ openTags, tag ≠ [] := by decide
theorem closeTags_filled : ∀ tag ∈ closeTags, tag ≠ [] := by decide
theorem openTags_short : ∀ tag ∈ openTags, byteLen tag ≤ maxTagLen := by decide
theorem closeTags_short : ∀ tag ∈ closeTags, byteLen tag ≤ maxTagLen := by decide

/-- A text that begins another one either ends within the tag, or has it. -/
theorem Takes.split (takes : Takes tags others before tag rest)
    (filled : ∀ tag ∈ tags, tag ≠ []) {a b : Text} (shape : a ++ b = before ++ (tag ++ rest)) :
    (a <+: before ++ tag.dropLast ∧ Free others a) ∨
      ∃ more, a = before ++ (tag ++ more) ∧ rest = more ++ b ∧
        findAny tags a = some (before.length, tag.length) := by
  have some_char := filled tag takes.member
  have found : ∀ more, a = before ++ (tag ++ more) → rest = more ++ b →
      findAny tags a = some (before.length, tag.length) := by
    intro more whole behind
    have chosen := takes.chosen
    rw [behind, ← List.append_assoc tag, ← List.append_assoc, ← whole] at chosen
    refine findAny_shrink filled chosen ?_
    rw [whole]
    simp only [List.length_append]
    omega
  rw [← List.append_assoc] at shape
  rcases List.append_eq_append_iff.mp shape with ⟨missing, whole, behind⟩ | ⟨more, whole, behind⟩
  · rcases List.eq_nil_or_concat' missing with rfl | ⟨front, last, rfl⟩
    · have ended : a = before ++ (tag ++ []) := by simpa using whole.symm
      exact .inr ⟨[], ended, behind.symm, found [] ended behind.symm⟩
    · have inside : a <+: before ++ tag.dropLast := by
        rw [← List.dropLast_append_of_ne_nil some_char, whole, ← List.append_assoc,
          List.dropLast_concat]
        exact List.prefix_append a front
      exact .inl ⟨inside, takes.first.within inside.isInfix⟩
  · rw [List.append_assoc] at whole
    exact .inr ⟨more, whole, behind, found more whole behind⟩

/-- A tag that is not in the text put out, nor reaches into it from what is kept, is taken
from the rest as well. -/
theorem Takes.behind (takes : Takes tags others before tag rest)
    (filled : ∀ tag ∈ tags, tag ≠ []) (short : ∀ tag ∈ tags, byteLen tag ≤ maxTagLen)
    {out kept future : Text} (free : Free tags (out ++ kept)) (long : maxTagLen ≤ byteLen kept)
    (shape : out ++ (kept ++ future) = before ++ (tag ++ rest)) :
    ∃ more, before = out ++ more ∧ kept ++ future = more ++ (tag ++ rest) ∧
      Takes tags others more tag rest := by
  have taken : ∀ more, before = out ++ more → Takes tags others more tag rest := by
    intro more whole
    refine ⟨takes.member, ?_, ?_⟩
    · have chosen := takes.chosen
      rw [whole, List.append_assoc, List.length_append] at chosen
      exact findAny_drop filled chosen
    · have first := takes.first
      rw [whole, List.append_assoc] at first
      exact first.within (List.suffix_append out _).isInfix
  rcases List.append_eq_append_iff.mp shape with ⟨more, whole, behind⟩ | ⟨begun, whole, behind⟩
  · exact ⟨more, whole, behind, taken more whole⟩
  · cases begun with
    | nil =>
      rw [List.append_nil] at whole
      have same : before = out ++ [] := by rw [whole, List.append_nil]
      exact ⟨[], same, behind.symm, taken [] same⟩
    | cons c begun =>
      -- the tag begins in what is put out, and is too short to end behind what is kept
      exfalso
      rw [← List.append_assoc] at behind
      rcases List.append_eq_append_iff.mp behind with ⟨more, inside, -⟩ | ⟨missing, inside, -⟩
      · refine free.absent takes.member ⟨before, more, ?_⟩
        rw [whole, List.append_assoc, List.append_assoc, inside]
      · have size := short tag takes.member
        have some_bytes := Char.utf8Size_pos c
        rw [inside, byteLen_append, byteLen_append, byteLen, List.map_cons, List.sum_cons] at size
        omega

/-! ## What a turn does -/

theorem splitBytes_append (n : Nat) (s : Text) : (splitBytes n s).1 ++ (splitBytes n s).2 = s := by
  induction s generalizing n with
  | nil => rfl
  | cons c s ih =>
    rw [splitBytes]
    split
    · simp only [List.cons_append, ih]
    · rfl

theorem byteLen_splitBytes (n : Nat) (s : Text) : byteLen (splitBytes n s).1 ≤ n := by
  induction s generalizing n with
  | nil => exact Nat.zero_le n
  | cons c s ih =>
    rw [splitBytes]
    split
    · have front := ih (n - c.utf8Size)
      simp only [byteLen, List.map_cons, List.sum_cons] at front ⊢
      omega
    · exact Nat.zero_le n

/-- As much is kept as the longest tag has bytes. -/
theorem flushSafePrefix_keeps {buffer : Text} (long : maxTagLen < byteLen buffer) :
    maxTagLen ≤ byteLen (flushSafePrefix buffer).2 := by
  have front := byteLen_splitBytes (byteLen buffer - maxTagLen) buffer
  have whole := congrArg byteLen (splitBytes_append (byteLen buffer - maxTagLen) buffer)
  rw [byteLen_append] at whole
  rw [flushSafePrefix]
  omega

theorem segment_thinking (text : Text) :
    thinkingText (segmentOf .thinking text) = text ∧ contentText (segmentOf .thinking text) = [] := by
  unfold segmentOf
  split
  · rename_i empty
    rw [empty]
    exact ⟨rfl, rfl⟩
  · simp [thinkingText, contentText]

theorem segment_content (text : Text) :
    thinkingText (segmentOf .content text) = [] ∧ contentText (segmentOf .content text) = text := by
  unfold segmentOf
  split
  · rename_i empty
    rw [empty]
    exact ⟨rfl, rfl⟩
  · simp [thinkingText, contentText]

/-- Thinking that is put out is read first. -/
theorem Reads.thinking_out {seen : Bool} {out kept future thinking content : Text}
    (reads : Reads true seen (out ++ (kept ++ future)) thinking content)
    (free : Free closeTags (out ++ kept)) (long : maxTagLen ≤ byteLen kept) :
    ∃ later, thinking = out ++ later ∧ Reads true seen (kept ++ future) later content := by
  generalize shape : out ++ (kept ++ future) = text at reads
  cases reads with
  | thoughts clean =>
    rw [← shape] at clean
    exact ⟨kept ++ future, shape.symm, .thoughts (clean.within (List.suffix_append out _).isInfix)⟩
  | thought takes later =>
    obtain ⟨more, rfl, behind, taken⟩ :=
      takes.behind closeTags_filled closeTags_short free long shape
    rw [behind]
    exact ⟨_, List.append_assoc _ _ _, .thought taken later⟩

/-- Content that is put out is read first, as no closing tag is waited for. -/
theorem Reads.content_out {out kept future thinking content : Text}
    (reads : Reads false true (out ++ (kept ++ future)) thinking content)
    (free : Free (openTags ++ closeTags) (out ++ kept)) (long : maxTagLen ≤ byteLen kept)
    (flushes : canFlushPartial (out ++ kept) = true) :
    ∃ later, content = out ++ later ∧ Reads false true (kept ++ future) thinking later := by
  generalize shape : out ++ (kept ++ future) = text at reads
  cases reads with
  | answer clean =>
    rw [← shape] at clean
    exact ⟨kept ++ future, shape.symm, .answer (clean.within (List.suffix_append out _).isInfix)⟩
  | opened takes later =>
    obtain ⟨more, rfl, behind, taken⟩ := takes.behind openTags_filled openTags_short
      (free.of_subset (List.subset_append_left _ _)) long shape
    rw [behind]
    exact ⟨_, List.append_assoc _ _ _, .opened taken later⟩
  | stray unopened takes kept_back later =>
    rw [← List.append_assoc] at shape
    rcases takes.split closeTags_filled shape with ⟨inside, -⟩ | ⟨more, whole, -⟩
    · rw [kept_back rfl _ inside] at flushes
      cases flushes
    · have closeFree := free.of_subset (List.subset_append_right openTags closeTags)
      exact absurd ⟨_, more, by rw [whole, List.append_assoc]⟩ (closeFree.absent takes.member)

/-- What was put out, and what is left to be read of the buffer and of the text to come. -/
def Leaves (turned : List ParsedSegment × ThinkingTagParser) (future thinking content : Text) :
    Prop :=
  ∃ thinking' content',
    Reads turned.2.inThinking turned.2.seenAnyTag (turned.2.buffer ++ future) thinking' content' ∧
      thinking = thinkingText turned.1 ++ thinking' ∧ content = contentText turned.1 ++ content'

theorem leaves_same {parser : ThinkingTagParser} {future thinking content : Text}
    (reads : Reads parser.inThinking parser.seenAnyTag (parser.buffer ++ future) thinking content) :
    Leaves ([], parser) future thinking content := ⟨thinking, content, reads, rfl, rfl⟩

variable {future thinking content : Text}

/-- What is put out and what is kept back of a buffer that is flushed. -/
theorem flush_parts {buffer : Text} (flushes : canFlushPartial buffer = true) :
    (flushSafePrefix buffer).1 ++ (flushSafePrefix buffer).2 = buffer ∧
      maxTagLen ≤ byteLen (flushSafePrefix buffer).2 := by
  have long : maxTagLen < byteLen buffer := by
    simp only [canFlushPartial, Bool.and_eq_true, decide_eq_true_eq] at flushes
    exact flushes.1
  exact ⟨splitBytes_append _ _, flushSafePrefix_keeps long⟩

theorem flushed_thinking {parser : ThinkingTagParser} (inside : parser.inThinking = true)
    (reads : Reads parser.inThinking parser.seenAnyTag (parser.buffer ++ future) thinking content)
    (free : Free closeTags parser.buffer) :
    Leaves (parser.flushed .thinking) future thinking content := by
  unfold flushed
  split
  · rename_i flushes
    obtain ⟨parts, keeps⟩ := flush_parts flushes
    obtain ⟨shownThinking, shownContent⟩ := segment_thinking (flushSafePrefix parser.buffer).1
    rw [← parts, inside, List.append_assoc] at reads
    rw [← parts] at free
    obtain ⟨later, same, left⟩ := reads.thinking_out free keeps
    refine ⟨later, content, ?_, ?_, ?_⟩
    · rw [← inside] at left
      exact left
    · rw [shownThinking, same]
    · rw [shownContent, List.nil_append]
  · exact leaves_same reads

theorem flushed_content {parser : ThinkingTagParser} (outside : parser.inThinking = false)
    (seen : parser.seenAnyTag = true)
    (reads : Reads parser.inThinking parser.seenAnyTag (parser.buffer ++ future) thinking content)
    (free : Free (openTags ++ closeTags) parser.buffer) :
    Leaves (parser.flushed .content) future thinking content := by
  unfold flushed
  split
  · rename_i flushes
    obtain ⟨parts, keeps⟩ := flush_parts flushes
    obtain ⟨shownThinking, shownContent⟩ := segment_content (flushSafePrefix parser.buffer).1
    rw [← parts] at flushes free
    rw [← parts, outside, seen, List.append_assoc] at reads
    obtain ⟨later, same, left⟩ := reads.content_out free keeps flushes
    refine ⟨thinking, later, ?_, ?_, ?_⟩
    · rw [← outside, ← seen] at left
      exact left
    · rw [shownThinking, List.nil_append]
    · rw [shownContent, same]
  · exact leaves_same reads

theorem not_free_of_findAny {tags : List Text} {buffer : Text} {place : Nat × Nat}
    (found : findAny tags buffer = some place) : ¬ Free tags buffer := by
  intro free
  rw [findAny_free free] at found
  cases found

/-- A tag that is taken from the buffer is the one that is read first of the whole. -/
theorem Takes.of_found (takes : Takes tags others before tag rest)
    (filled : ∀ tag ∈ tags, tag ≠ []) (among : tags ⊆ others) {buffer : Text} {place : Nat × Nat}
    (found : findAny tags buffer = some place) (shape : buffer ++ future = before ++ (tag ++ rest)) :
    place = (before.length, tag.length) ∧ ∃ more, rest = more ++ future ∧
      buffer = before ++ (tag ++ more) := by
  rcases takes.split filled shape with ⟨-, free⟩ | ⟨more, whole, behind, first⟩
  · exact absurd (free.of_subset among) (not_free_of_findAny found)
  · rw [first] at found
    cases found
    exact ⟨rfl, more, behind, whole⟩

theorem taken_parts (inThinking seen : Bool) (before tag more : Text)
    (kind : Option (Text → ParsedSegment)) (next : Bool) :
    taken ⟨inThinking, seen, before ++ (tag ++ more)⟩ kind next (before.length, tag.length) =
      ((kind.map fun kind => segmentOf kind before).getD [], ⟨next, true, more⟩) := by
  have cut : (before ++ (tag ++ more)).drop (before.length + tag.length) = more := by
    rw [← List.append_assoc, ← List.length_append, List.drop_left]
  simp only [taken, List.take_left, cut]

/-- Thinking up to a closing tag. -/
theorem taken_close (inThinking seen : Bool) {more : Text}
    (later : Reads false true (more ++ future) thinking content) :
    Leaves (taken ⟨inThinking, seen, before ++ (tag ++ more)⟩ (some .thinking) false
      (before.length, tag.length)) future (before ++ thinking) content := by
  obtain ⟨shownThinking, shownContent⟩ := segment_thinking before
  rw [taken_parts]
  refine ⟨thinking, content, later, ?_, ?_⟩
  · rw [Option.map_some, Option.getD_some, shownThinking]
  · rw [Option.map_some, Option.getD_some, shownContent, List.nil_append]

/-- Content up to an opening tag, which is dropped before the first tag. -/
theorem taken_open (inThinking seen : Bool) {more : Text}
    (later : Reads true true (more ++ future) thinking content) :
    Leaves (taken ⟨inThinking, seen, before ++ (tag ++ more)⟩
      (if seen then some .content else none) true (before.length, tag.length)) future thinking
      ((if seen then before else []) ++ content) := by
  obtain ⟨shownThinking, shownContent⟩ := segment_content before
  rw [taken_parts]
  refine ⟨thinking, content, later, ?_, ?_⟩
  · cases seen with
    | false => rfl
    | true => exact congrArg (· ++ thinking) shownThinking.symm
  · cases seen with
    | false => rfl
    | true => exact congrArg (· ++ content) shownContent.symm

/-- **A turn.** What it puts out is what is read first of the buffer and the text to come:
a tag that is taken from the buffer is taken from the whole. -/
theorem turn_reads {parser : ThinkingTagParser}
    (reads : Reads parser.inThinking parser.seenAnyTag (parser.buffer ++ future) thinking content) :
    Leaves parser.turn.1 future thinking content := by
  obtain ⟨inThinking, seen, buffer⟩ := parser
  dsimp only at reads
  have front : buffer <:+: buffer ++ future := (List.prefix_append buffer future).isInfix
  cases inThinking with
  | true =>
    cases closed : findClose buffer with
    | none =>
      have turned : turn ⟨true, seen, buffer⟩ = (flushed ⟨true, seen, buffer⟩ .thinking, false) := by
        simp only [turn, closed, if_true]
      rw [turned]
      exact flushed_thinking rfl reads (findAny_eq_none closeTags_filled closed)
    | some place =>
      have turned : turn ⟨true, seen, buffer⟩ =
          (taken ⟨true, seen, buffer⟩ (some .thinking) false place, true) := by
        simp only [turn, closed, if_true]
      rw [turned]
      generalize shape : buffer ++ future = text at reads front
      cases reads with
      | thoughts clean => exact absurd (clean.within front) (not_free_of_findAny closed)
      | thought takes later =>
        obtain ⟨rfl, more, rfl, rfl⟩ :=
          takes.of_found closeTags_filled (List.Subset.refl _) closed shape
        exact taken_close true seen later
  | false =>
    cases opened : findOpen buffer with
    | some place =>
      have turned : turn ⟨false, seen, buffer⟩ = (taken ⟨false, seen, buffer⟩
          (if seen then some .content else none) true place, true) := by
        simp only [turn, opened, Bool.false_eq_true, if_false]
      rw [turned]
      generalize shape : buffer ++ future = text at reads front
      cases reads with
      | answer clean =>
        have free := (clean.within front).of_subset (List.subset_append_left openTags closeTags)
        exact absurd free (not_free_of_findAny opened)
      | opened takes later =>
        obtain ⟨rfl, more, rfl, rfl⟩ :=
          takes.of_found openTags_filled (List.subset_append_left _ _) opened shape
        exact taken_open false seen later
      | stray unopened =>
        exact absurd (unopened.within front) (not_free_of_findAny opened)
    | none =>
      have noOpen := findAny_eq_none openTags_filled opened
      cases closed : findClose buffer with
      | some place =>
        have turned : turn ⟨false, seen, buffer⟩ =
            (taken ⟨false, seen, buffer⟩ (some .thinking) false place, true) := by
          simp only [turn, opened, closed, Bool.false_eq_true, if_false]
        rw [turned]
        generalize shape : buffer ++ future = text at reads front
        cases reads with
        | answer clean =>
          have free := (clean.within front).of_subset (List.subset_append_right openTags closeTags)
          exact absurd free (not_free_of_findAny closed)
        | opened takes later =>
          rcases takes.split openTags_filled shape with ⟨-, free⟩ | ⟨more, -, -, found⟩
          · have closeFree := free.of_subset (List.subset_append_right openTags closeTags)
            exact absurd closeFree (not_free_of_findAny closed)
          · exact absurd noOpen (not_free_of_findAny found)
        | stray unopened takes kept later =>
          obtain ⟨rfl, more, rfl, rfl⟩ :=
            takes.of_found closeTags_filled (List.Subset.refl _) closed shape
          exact taken_close false seen later
      | none =>
        have noClose := findAny_eq_none closeTags_filled closed
        have free : Free (openTags ++ closeTags) buffer := by
          intro tag member
          rcases List.mem_append.mp member with first | second
          · exact noOpen tag first
          · exact noClose tag second
        cases seen with
        | false =>
          have turned : turn ⟨false, false, buffer⟩ = (([], ⟨false, false, buffer⟩), false) := by
            simp only [turn, opened, closed, Bool.false_eq_true, if_false]
          rw [turned]
          exact leaves_same reads
        | true =>
          have turned : turn ⟨false, true, buffer⟩ =
              (flushed ⟨false, true, buffer⟩ .content, false) := by
            simp only [turn, opened, closed, Bool.false_eq_true, if_false, if_true]
          rw [turned]
          exact flushed_content rfl rfl reads free

/-! ## Whole chunks -/

/-- No tag is left that the parser would take out. -/
def Settled (parser : ThinkingTagParser) : Prop :=
  Free closeTags parser.buffer ∧ (parser.inThinking = false → Free openTags parser.buffer)

theorem flushed_settled {parser : ThinkingTagParser} {kind : Text → ParsedSegment}
    (settled : Settled parser) : Settled (parser.flushed kind).2 := by
  unfold flushed
  split
  · have parts : (flushSafePrefix parser.buffer).1 ++ (flushSafePrefix parser.buffer).2 =
        parser.buffer := splitBytes_append _ _
    have inside : (flushSafePrefix parser.buffer).2 <:+: parser.buffer :=
      ⟨(flushSafePrefix parser.buffer).1, [], by rw [List.append_nil, parts]⟩
    exact ⟨settled.1.within inside, fun outside => (settled.2 outside).within inside⟩
  · exact settled

theorem taken_shorter {tags : List Text} {parser : ThinkingTagParser}
    {kind : Option (Text → ParsedSegment)} {next : Bool} {place : Nat × Nat}
    (filled : ∀ tag ∈ tags, tag ≠ []) (found : findAny tags parser.buffer = some place) :
    (parser.taken kind next place).2.buffer.length < parser.buffer.length := by
  obtain ⟨tag, member, here⟩ := List.exists_of_findSome?_eq_some found
  obtain ⟨start, first, rfl⟩ := Option.map_eq_some_iff.mp here
  have some_char := List.length_pos_iff.mpr (filled tag member)
  have some_text : parser.buffer ≠ [] := by
    intro empty
    rw [empty] at first
    cases first
  have some_length := List.length_pos_iff.mpr some_text
  simp only [taken, List.length_drop]
  omega

/-- The loop goes on with a shorter buffer, or no tag is left. -/
theorem turn_goes (parser : ThinkingTagParser) :
    (parser.turn.2 = true ∧ parser.turn.1.2.buffer.length < parser.buffer.length) ∨
      (parser.turn.2 = false ∧ Settled parser.turn.1.2) := by
  unfold turn
  split
  · rename_i inside
    split
    · rename_i closed
      exact .inl ⟨rfl, taken_shorter closeTags_filled closed⟩
    · rename_i closed
      refine .inr ⟨rfl, flushed_settled ⟨findAny_eq_none closeTags_filled closed, ?_⟩⟩
      intro outside
      rw [inside] at outside
      cases outside
  · split
    · rename_i opened
      exact .inl ⟨rfl, taken_shorter openTags_filled opened⟩
    · rename_i opened
      split
      · rename_i closed
        exact .inl ⟨rfl, taken_shorter closeTags_filled closed⟩
      · rename_i closed
        have settled : Settled parser := ⟨findAny_eq_none closeTags_filled closed,
          fun _ => findAny_eq_none openTags_filled opened⟩
        split
        · exact .inr ⟨rfl, flushed_settled settled⟩
        · exact .inr ⟨rfl, settled⟩

theorem loop_reads {fuel : Nat} {parser : ThinkingTagParser}
    (enough : parser.buffer.length < fuel)
    (reads : Reads parser.inThinking parser.seenAnyTag (parser.buffer ++ future) thinking content) :
    Leaves (loop fuel parser) future thinking content ∧ Settled (loop fuel parser).2 := by
  induction fuel generalizing parser thinking content with
  | zero => omega
  | succ fuel ih =>
    have left := turn_reads reads
    rw [loop]
    rcases turn_goes parser with ⟨goes, shorter⟩ | ⟨stops, settled⟩
    · obtain ⟨thinking', content', later, rfl, rfl⟩ := left
      obtain ⟨⟨thinking'', content'', last, rfl, rfl⟩, settled⟩ := ih (by omega) later
      simp only [goes, if_true]
      refine ⟨⟨thinking'', content'', last, ?_, ?_⟩, settled⟩
      · rw [thinkingText_append, List.append_assoc]
      · rw [contentText_append, List.append_assoc]
    · simp only [stops, Bool.false_eq_true, if_false]
      exact ⟨left, settled⟩

theorem feed_reads {parser : ThinkingTagParser} {chunk : Text}
    (reads : Reads parser.inThinking parser.seenAnyTag (parser.buffer ++ (chunk ++ future))
      thinking content) :
    Leaves (parser.feed chunk) future thinking content ∧ Settled (parser.feed chunk).2 := by
  rw [← List.append_assoc] at reads
  rw [feed]
  exact loop_reads (Nat.lt_succ_self _) reads

theorem flush_reads {parser : ThinkingTagParser} (settled : Settled parser)
    (reads : Reads parser.inThinking parser.seenAnyTag parser.buffer thinking content) :
    thinkingText parser.flush = thinking ∧ contentText parser.flush = content := by
  obtain ⟨inThinking, seen, buffer⟩ := parser
  obtain ⟨noClose, noOpen⟩ := settled
  dsimp only at reads noClose noOpen
  have absent {tags : List Text} {before tag rest : Text} (free : Free tags (before ++ (tag ++ rest)))
      (member : tag ∈ tags) : False :=
    free.absent member ⟨before, rest, List.append_assoc _ _ _⟩
  cases reads with
  | thoughts => exact segment_thinking _
  | thought takes => exact (absent noClose takes.member).elim
  | answer => exact segment_content _
  | opened takes => exact (absent (noOpen rfl) takes.member).elim
  | stray _ takes => exact (absent noClose takes.member).elim

theorem feedAll_reads {parser : ThinkingTagParser} {chunks : List Text} (settled : Settled parser)
    (reads : Reads parser.inThinking parser.seenAnyTag (parser.buffer ++ chunks.flatten)
      thinking content) :
    thinkingText (feedAll parser chunks) = thinking ∧
      contentText (feedAll parser chunks) = content := by
  induction chunks generalizing parser thinking content with
  | nil =>
    rw [List.flatten_nil, List.append_nil] at reads
    exact flush_reads settled reads
  | cons chunk chunks ih =>
    rw [List.flatten_cons] at reads
    obtain ⟨⟨thinking', content', later, rfl, rfl⟩, settled⟩ := feed_reads reads
    obtain ⟨laterThinking, laterContent⟩ := ih settled later
    refine ⟨?_, ?_⟩
    · rw [feedAll, thinkingText_append, laterThinking]
    · rw [feedAll, contentText_append, laterContent]

/-- **Chunks.** Where the tags of a text can be read one after the other, every way of
cutting it into chunks gives the thinking and the content that the whole gives. -/
theorem feedAll_chunks {text : Text} (orderly : Orderly text) {chunks : List Text}
    (cut : chunks.flatten = text) :
    thinkingText (feedAll .new chunks) = thinkingText (feedAll .new [text]) ∧
      contentText (feedAll .new chunks) = contentText (feedAll .new [text]) := by
  obtain ⟨thinking, content, reads⟩ := orderly
  have settled : Settled .new := ⟨by decide, fun _ => by decide⟩
  have whole : thinkingText (feedAll .new [text]) = thinking ∧
      contentText (feedAll .new [text]) = content := by
    refine feedAll_reads settled ?_
    rw [List.flatten_singleton]
    exact reads
  have parts : thinkingText (feedAll .new chunks) = thinking ∧
      contentText (feedAll .new chunks) = content := by
    refine feedAll_reads settled ?_
    rw [cut]
    exact reads
  exact ⟨parts.1.trans whole.1.symm, parts.2.trans whole.2.symm⟩

/-- Thinking and an answer, with a chunk that ends within a tag. -/
theorem feedAll_thought :
    thinkingText (feedAll .new ["<thi".toList, "nk>a</think>b".toList]) = ['a'] ∧
      contentText (feedAll .new ["<thi".toList, "nk>a</think>b".toList]) = ['b'] := by
  have orderly : Orderly ([] ++ ("<think>".toList ++ (['a'] ++ ("</think>".toList ++ ['b'])))) :=
    ⟨_, _, .opened ⟨by decide, by decide, by decide⟩
      (.thought ⟨by decide, by decide, by decide⟩ (.answer (by decide)))⟩
  have same := @feedAll_chunks _ orderly ["<thi".toList, "nk>a</think>b".toList] (by decide)
  have whole : thinkingText (feedAll .new ["<think>a</think>b".toList]) = ['a'] ∧
      contentText (feedAll .new ["<think>a</think>b".toList]) = ['b'] := by decide +kernel
  exact ⟨same.1.trans whole.1, same.2.trans whole.2⟩

/-- A closing tag before the first opening one is taken when it comes, or else dropped. -/
theorem feedAll_cut_differs :
    contentText (feedAll .new ["a</think>b".toList, "<think>c".toList]) = ['b'] ∧
      contentText (feedAll .new ["a</think>b<think>c".toList]) = [] := by
  decide +kernel

end ThinkingTags

end Devit
