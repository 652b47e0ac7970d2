import Devit.Library.Search
import Devit.Library.Utf8

/-! What of a streamed answer is shown: the text outside of tool calls. A suffix that may be
the beginning of a tag is held back until more of the answer has come. Cutting the answer
into chunks changes nothing: what is held back is looked at again with the next chunk, and
no tag begins in what is not. -/
namespace Devit
open Text

namespace ToolCallFilter

def openTag : Text := "<tool_call>".toList
def closeTag : Text := "</tool_call>".toList

structure FilterResult where
  displayText : Text
  newBuffer : Text
  newDepth : Int
  enteredToolCall : Bool
  deriving DecidableEq, Repr

/-- The rest of the text may be the beginning of a tag. -/
def mayBeTag (remaining : Text) : Bool :=
  startsWith ['<'] remaining && decide (byteLen remaining < 12) &&
    (startsWith "<t".toList remaining || startsWith "</".toList remaining || remaining == ['<'])

/-- The loop of `filter_tool_call_xml`, with so many characters of a tag to skip. -/
def scan : Nat → Int → Text → FilterResult
  | _, depth, [] => ⟨[], [], depth, false⟩
  | skip + 1, depth, _ :: cs => scan skip depth cs
  | 0, depth, c :: cs =>
    if depth = 0 ∧ startsWith openTag (c :: cs) then
      { scan (openTag.length - 1) 1 cs with enteredToolCall := true }
    else if depth > 0 ∧ startsWith closeTag (c :: cs) then scan (closeTag.length - 1) 0 cs
    else if mayBeTag (c :: cs) then ⟨[], c :: cs, depth, false⟩
    else
      let after := scan 0 depth cs
      if depth = 0 then { after with displayText := c :: after.displayText } else after

def filterToolCallXml (buffer : Text) (xmlDepth : Int) : FilterResult := scan 0 xmlDepth buffer

/-! ## What is held back -/

/-- A text that begins like a tag and ends within it is held back. -/
theorem mayBeTag_begun {pat part : Text} (isTag : pat = openTag ∨ pat = closeTag)
    {more : Text} (shape : pat = part ++ more) (begun : part ≠ []) (unfinished : more ≠ []) :
    mayBeTag part = true := by
  have every : ∀ pat ∈ [openTag, closeTag], ∀ n < pat.length, 0 < n →
      mayBeTag (pat.take n) = true := by decide +kernel
  have shorter : part.length < pat.length := by
    rw [shape, List.length_append]
    have some_char := List.length_pos_iff.mpr unfinished
    omega
  have taken : pat.take part.length = part := by rw [shape, List.take_left]
  rw [← taken]
  exact every pat (by simpa using isTag) part.length shorter (List.length_pos_iff.mpr begun)

/-- What is held back with more behind it is held back without. -/
theorem mayBeTag_first {a b : Text} (begun : a ≠ []) (held : mayBeTag (a ++ b) = true) :
    mayBeTag a = true := by
  simp only [mayBeTag, Bool.and_eq_true, Bool.or_eq_true, decide_eq_true_eq, beq_iff_eq] at held ⊢
  obtain ⟨⟨opens, short⟩, kind⟩ := held
  rw [byteLen_append] at short
  cases a with
  | nil => exact absurd rfl begun
  | cons c a =>
    have first : c = '<' := by
      rw [List.cons_append, startsWith_cons, Bool.and_eq_true, decide_eq_true_eq] at opens
      exact opens.1.symm
    subst first
    refine ⟨⟨by rw [startsWith_cons]; rfl, by omega⟩, ?_⟩
    cases a with
    | nil => exact .inr rfl
    | cons d a =>
      have second : ∀ e : Char, startsWith ['<', e] ('<' :: d :: (a ++ b)) =
          startsWith ['<', e] ('<' :: d :: a) := by
        intro e
        simp only [startsWith_cons]
        rfl
      rcases kind with (tagged | closing) | alone
      · exact .inl (.inl ((second 't').symm.trans tagged))
      · exact .inl (.inr ((second '/').symm.trans closing))
      · simp at alone

/-- Where nothing is held back, no tag is begun that the text to come might finish. -/
theorem tag_first {pat a b : Text} (isTag : pat = openTag ∨ pat = closeTag) (begun : a ≠ [])
    (free : mayBeTag a = false) : startsWith pat (a ++ b) = startsWith pat a := by
  rw [Bool.eq_iff_iff]
  refine ⟨fun found => ?_, startsWith_first b⟩
  rcases startsWith_parts found with first | ⟨more, unfinished, shape, -⟩
  · exact first
  · rw [mayBeTag_begun isTag shape begun unfinished] at free
    cases free

/-! ## Chunks -/

/-- Going on with a second part, at what the first one held back. -/
def continueWith (first : FilterResult) (b : Text) : FilterResult :=
  let after := scan 0 first.newDepth (first.newBuffer ++ b)
  { displayText := first.displayText ++ after.displayText
    newBuffer := after.newBuffer
    newDepth := after.newDepth
    enteredToolCall := first.enteredToolCall || after.enteredToolCall }

theorem scan_length {pat : Text} {c : Char} {cs : Text}
    (found : startsWith pat (c :: cs) = true) : pat.length - 1 ≤ cs.length := by
  obtain ⟨rest, shape⟩ := startsWith_iff.mp found
  have lengths := congrArg List.length shape
  simp only [List.length_cons, List.length_append] at lengths
  omega

/-- **Two parts.** Filtering two parts at once is filtering the first, and then what it
held back with the second. The induction is on the first part. -/
theorem scan_append (a b : Text) (skip : Nat) (short : skip ≤ a.length) (depth : Int) :
    scan skip depth (a ++ b) = continueWith (scan skip depth a) b := by
  induction a generalizing skip depth with
  | nil =>
    cases Nat.le_zero.mp short
    simp [scan, continueWith]
  | cons c a ih =>
    cases skip with
    | succ skip => exact ih skip (Nat.le_of_succ_le_succ short) depth
    | zero =>
      by_cases opens : depth = 0 ∧ startsWith openTag (c :: a)
      · have opensWhole : depth = 0 ∧ startsWith openTag (c :: (a ++ b)) :=
          ⟨opens.1, startsWith_first b opens.2⟩
        rw [List.cons_append, scan, if_pos opensWhole, scan, if_pos opens,
          ih _ (scan_length opens.2)]
        simp [continueWith]
      · by_cases closes : depth > 0 ∧ startsWith closeTag (c :: a)
        · have closesWhole : depth > 0 ∧ startsWith closeTag (c :: (a ++ b)) :=
            ⟨closes.1, startsWith_first b closes.2⟩
          have stays : ¬ (depth = 0 ∧ startsWith openTag (c :: (a ++ b))) := by
            rintro ⟨rfl, -⟩
            exact absurd closes.1 (by decide)
          rw [List.cons_append, scan, if_neg stays, if_pos closesWhole, scan, if_neg opens,
            if_pos closes, ih _ (scan_length closes.2)]
        · by_cases held : mayBeTag (c :: a) = true
          · -- the whole is filtered again from here
            have same : scan 0 depth (c :: a) = ⟨[], c :: a, depth, false⟩ := by
              rw [scan, if_neg opens, if_neg closes, if_pos held]
            rw [same]
            simp [continueWith]
          · have free : mayBeTag (c :: a) = false := by simpa using held
            have some_char : c :: a ≠ [] := List.cons_ne_nil c a
            have opensNot : ¬ (depth = 0 ∧ startsWith openTag (c :: (a ++ b))) := by
              have first := @tag_first _ _ b (.inl rfl) some_char free
              rw [List.cons_append] at first
              rw [first]
              exact opens
            have closesNot : ¬ (depth > 0 ∧ startsWith closeTag (c :: (a ++ b))) := by
              have first := @tag_first _ _ b (.inr rfl) some_char free
              rw [List.cons_append] at first
              rw [first]
              exact closes
            have freeWhole : ¬ mayBeTag (c :: (a ++ b)) = true := fun heldWhole =>
              held (mayBeTag_first some_char heldWhole)
            rw [List.cons_append, scan, if_neg opensNot, if_neg closesNot, if_neg freeWhole, scan,
              if_neg opens, if_neg closes, if_neg held, ih 0 (Nat.zero_le _)]
            by_cases outside : depth = 0
            · rw [if_pos outside, if_pos outside]
              simp [continueWith]
            · rw [if_neg outside, if_neg outside]

/-- What the stream loop keeps from chunk to chunk, and what it has shown. -/
structure Shown where
  display : Text
  buffer : Text
  depth : Int
  deriving DecidableEq, Repr

/-- One chunk. -/
def Shown.feed (shown : Shown) (chunk : Text) : Shown :=
  let result := filterToolCallXml (shown.buffer ++ chunk) shown.depth
  ⟨shown.display ++ result.displayText, result.newBuffer, result.newDepth⟩

/-- What one call on a whole text shows and keeps. -/
def whole (text : Text) (depth : Int) : Shown :=
  let result := filterToolCallXml text depth
  ⟨result.displayText, result.newBuffer, result.newDepth⟩

theorem whole_feed (text chunk : Text) (depth : Int) :
    (whole text depth).feed chunk = whole (text ++ chunk) depth := by
  have parts := scan_append text chunk 0 (Nat.zero_le _) depth
  simp only [whole, Shown.feed, filterToolCallXml, parts, continueWith]

theorem whole_chunks (depth : Int) (before : Text) (chunks : List Text) :
    chunks.foldl Shown.feed (whole before depth) = whole (before ++ chunks.flatten) depth := by
  induction chunks generalizing before with
  | nil => simp
  | cons chunk chunks ih =>
    rw [List.foldl_cons, whole_feed, ih, List.flatten_cons, List.append_assoc]

/-- **Chunks.** Folding the filter along the chunks of a text shows and keeps what one call
on the whole text does. -/
theorem feed_chunks (depth : Int) (chunks : List Text) :
    chunks.foldl Shown.feed ⟨[], [], depth⟩ = whole chunks.flatten depth :=
  whole_chunks depth [] chunks

end ToolCallFilter

end Devit
