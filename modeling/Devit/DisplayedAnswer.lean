import Devit.ToolCallFilter
import Devit.ChatStreams

/-! What a user sees of a streamed answer. The text outside of tool calls is shown piece by
piece, with the narration that some models have learned taken out of each piece. A piece
that may begin such narration is not kept for the next one but dropped, and so is what the
filter of tool calls still holds back at the end. -/
namespace Devit
open Text

namespace DisplayedAnswer
open ToolCallFilter ChatStreams

def narrationPatterns : List Text :=
  ["[Executed shell - see result below]", "[Executed file_read - see result below]",
    "[Executed file_write - see result below]", "[Executed file_list - see result below]",
    "[Executed project_structure - see result below]", "[Executed pwd - see result below]",
    "[Executed patch_apply - see result below]"].map String.toList

/-- The patterns taken out, one after the other. -/
def removePatterns (text : Text) : Text :=
  narrationPatterns.foldl (fun result pattern => replace pattern [] result) text

/-- What may begin a pattern. -/
def waits (result : Text) : Bool :=
  startsWith "[Executed ".toList result && decide (']' ∉ result)

def filterNarrationPatterns (text : Text) : Text :=
  let result := removePatterns text
  if waits result then [] else result

/-- What the stream loop keeps, and the texts that it has emitted as `llm:chunk`. -/
structure Loop where
  buffer : Text
  xmlDepth : Int
  emitted : List Text
  deriving DecidableEq

def onDelta (loop : Loop) (text : Text) : Loop :=
  let result := filterToolCallXml (loop.buffer ++ text) loop.xmlDepth
  let filtered := filterNarrationPatterns result.displayText
  { buffer := result.newBuffer
    xmlDepth := result.newDepth
    emitted := if result.displayText ≠ [] ∧ filtered ≠ [] then loop.emitted ++ [filtered]
      else loop.emitted }

def truncatedNotice : Text :=
  "\n\n\u26a0\ufe0f **Response truncated** - Context limit reached. Try:\n- Clear chat history\n".toList ++
    "- Use `/compact` to compress context\n- Ask shorter questions".toList

def onDone (loop : Loop) (finishReason : Option FinishReason) : List Text :=
  loop.emitted ++ (if finishReason = some .length then [truncatedNotice] else []) ++
    if loop.xmlDepth = 0 ∧ loop.buffer ≠ [] ∧ startsWith ['<'] loop.buffer = false then [loop.buffer]
    else []

/-- The texts emitted for some deltas and the end of the answer. -/
def streamLoop (deltas : List Text) (finishReason : Option FinishReason) : List Text :=
  onDone (deltas.foldl onDelta ⟨[], 0, []⟩) finishReason

/-! ## What is to be seen -/

/-- An answer in which every tool call is closed, and the text outside of the calls. -/
inductive Visible : Text → Text → Prop where
  | plain (free : contains openTag text = false) : Visible text text
  | call (free : contains openTag before = false) (inner : contains closeTag call = false)
      (later : Visible rest visible) :
      Visible (before ++ (openTag ++ (call ++ (closeTag ++ rest)))) (before ++ visible)

/-- The texts that are displayed, chunk by chunk, before narration is taken out. -/
def pieces (buffer : Text) (depth : Int) : List Text → List Text
  | [] => []
  | delta :: deltas =>
    let result := filterToolCallXml (buffer ++ delta) depth
    result.displayText :: pieces result.newBuffer result.newDepth deltas

theorem scan_plain {text : Text} (free : contains openTag text = false) :
    (scan 0 0 text).displayText ++ (scan 0 0 text).newBuffer = text ∧
      (scan 0 0 text).newDepth = 0 := by
  induction text with
  | nil => exact ⟨rfl, rfl⟩
  | cons c cs ih =>
    obtain ⟨here, behind⟩ := startsWith_of_absent free
    have unopened : ¬ ((0 : Int) = 0 ∧ startsWith openTag (c :: cs) = true) := by simp [here]
    have unclosed : ¬ ((0 : Int) > 0 ∧ startsWith closeTag (c :: cs) = true) := by simp
    rw [scan, if_neg unopened, if_neg unclosed]
    split
    · exact ⟨rfl, rfl⟩
    · obtain ⟨shown, depth⟩ := ih behind
      rw [if_pos rfl]
      exact ⟨by rw [List.cons_append, shown], depth⟩

/-- A text with a whole closing tag in it is not held back. -/
theorem not_mayBeTag (before rest : Text) : ¬ mayBeTag (before ++ (closeTag ++ rest)) = true := by
  have long : byteLen closeTag = 12 := by decide +kernel
  have size : ¬ byteLen (before ++ (closeTag ++ rest)) < 12 := by
    rw [byteLen_append, byteLen_append, long]
    omega
  simp [mayBeTag, size]

theorem scan_skip (part rest : Text) (depth : Int) :
    scan part.length depth (part ++ rest) = scan 0 depth rest := by
  induction part with
  | nil => rfl
  | cons c part ih => exact ih

/-- Text in front of a call is shown. -/
theorem scan_before {before : Text} (free : contains openTag before = false) (call rest : Text) :
    let behind := openTag ++ (call ++ (closeTag ++ rest))
    scan 0 0 (before ++ behind) =
      { scan 0 0 behind with displayText := before ++ (scan 0 0 behind).displayText } := by
  intro behind
  have stops : Stops openTag behind := by
    rintro c ⟨⟩
    decide +kernel
  have tagged : behind = (openTag ++ call) ++ (closeTag ++ rest) := by
    rw [List.append_assoc]
  induction before with
  | nil => rfl
  | cons c before ih =>
    obtain ⟨here, later⟩ := startsWith_of_absent free
    rw [← startsWith_stops (List.cons_ne_nil c before) stops, List.cons_append] at here
    have unopened : ¬ ((0 : Int) = 0 ∧ startsWith openTag (c :: (before ++ behind)) = true) := by
      simp [here]
    have unclosed : ¬ ((0 : Int) > 0 ∧ startsWith closeTag (c :: (before ++ behind)) = true) := by
      simp
    have free : ¬ mayBeTag (c :: (before ++ behind)) = true := by
      have none := not_mayBeTag (c :: (before ++ (openTag ++ call))) rest
      simpa only [tagged, List.append_assoc, List.cons_append] using none
    rw [List.cons_append, scan, if_neg unopened, if_neg unclosed, if_neg free, ih later, if_pos rfl]
    rfl

/-- The text of a call is not. -/
theorem scan_call {call : Text} (inner : contains closeTag call = false) (rest : Text) :
    scan 0 1 (call ++ (closeTag ++ rest)) = scan 0 0 rest := by
  have stops : Stops closeTag (closeTag ++ rest) := by
    rintro c ⟨⟩
    decide +kernel
  have outside (text : Text) : ¬ ((1 : Int) = 0 ∧ startsWith openTag text = true) := by simp
  induction call with
  | nil =>
    have closes : (1 : Int) > 0 ∧ startsWith closeTag (closeTag ++ rest) = true :=
      ⟨by decide, startsWith_append closeTag rest⟩
    have shape : closeTag ++ rest = '<' :: (closeTag.tail ++ rest) := rfl
    rw [List.nil_append]
    rw [shape] at closes ⊢
    rw [scan, if_neg (outside _), if_pos closes]
    exact scan_skip closeTag.tail rest 0
  | cons c call ih =>
    obtain ⟨here, later⟩ := startsWith_of_absent inner
    rw [← startsWith_stops (List.cons_ne_nil c call) stops, List.cons_append] at here
    have unclosed : ¬ ((1 : Int) > 0 ∧ startsWith closeTag (c :: (call ++ (closeTag ++ rest))) = true) := by
      simp [here]
    have free := not_mayBeTag (c :: call) rest
    rw [List.cons_append] at free
    rw [List.cons_append, scan, if_neg (outside _), if_neg unclosed, if_neg free, ih later,
      if_neg (by decide)]

/-- What is shown and what is held back of an answer make up what is to be seen. -/
theorem scan_visible {text visible : Text} (sees : Visible text visible) :
    (scan 0 0 text).displayText ++ (scan 0 0 text).newBuffer = visible ∧
      (scan 0 0 text).newDepth = 0 := by
  induction sees with
  | plain free => exact scan_plain free
  | @call before call rest visible free inner later ih =>
    obtain ⟨shown, depth⟩ := ih
    have opens : (0 : Int) = 0 ∧ startsWith openTag (openTag ++ (call ++ (closeTag ++ rest))) = true :=
      ⟨rfl, startsWith_append openTag _⟩
    have passed : scan 0 0 (openTag ++ (call ++ (closeTag ++ rest))) =
        { scan 0 0 rest with enteredToolCall := true } := by
      have shape : openTag ++ (call ++ (closeTag ++ rest)) =
          '<' :: (openTag.tail ++ (call ++ (closeTag ++ rest))) := rfl
      rw [shape] at opens ⊢
      rw [scan, if_pos opens]
      have skipped := scan_skip openTag.tail (call ++ (closeTag ++ rest)) 1
      rw [scan_call inner] at skipped
      exact congrArg (fun result : FilterResult => { result with enteredToolCall := true }) skipped
    rw [scan_before free, passed]
    exact ⟨by rw [List.append_assoc, shown], depth⟩

/-! ## What is emitted -/

/-- What every pattern is like. -/
theorem narrationPatterns_plain : ∀ pattern ∈ narrationPatterns,
    pattern.count '[' = 1 ∧ pattern.count ']' = 1 ∧ '<' ∉ pattern ∧ '\u26a0' ∉ pattern := by
  decide +kernel

theorem filterNarrationPatterns_nil : filterNarrationPatterns [] = [] := by
  have nothing : removePatterns [] = [] := by
    unfold removePatterns
    induction narrationPatterns with
    | nil => rfl
    | cons pattern patterns ih => exact ih
  rw [filterNarrationPatterns, nothing]
  exact ite_self _

/-- The loop keeps what the filter does, and emits the pieces without narration. -/
theorem foldl_onDelta (deltas : List Text) (loop : Loop) (display : Text) :
    let last := deltas.foldl onDelta loop
    let shown := deltas.foldl Shown.feed ⟨display, loop.buffer, loop.xmlDepth⟩
    last.buffer = shown.buffer ∧ last.xmlDepth = shown.depth ∧
      shown.display = display ++ (pieces loop.buffer loop.xmlDepth deltas).flatten ∧
      last.emitted.flatten = loop.emitted.flatten ++
        ((pieces loop.buffer loop.xmlDepth deltas).map filterNarrationPatterns).flatten := by
  induction deltas generalizing loop display with
  | nil => simp [pieces]
  | cons delta deltas ih =>
    obtain ⟨buffer, depth, shown, emitted⟩ := ih (onDelta loop delta)
      (display ++ (filterToolCallXml (loop.buffer ++ delta) loop.xmlDepth).displayText)
    refine ⟨buffer, depth, shown.trans ?_, emitted.trans ?_⟩
    · rw [pieces, List.flatten_cons, List.append_assoc]
      rfl
    · rw [pieces, List.map_cons, List.flatten_cons, ← List.append_assoc]
      refine congrArg (· ++ _) ?_
      simp only [onDelta]
      split
      · simp
      · rename_i silent
        have nothing : filterNarrationPatterns
            (filterToolCallXml (loop.buffer ++ delta) loop.xmlDepth).displayText = [] := by
          by_contra some_char
          refine silent ⟨?_, some_char⟩
          intro empty
          rw [empty] at some_char
          exact some_char filterNarrationPatterns_nil
        rw [nothing, List.append_nil]

/-- Narration that is taken out: as many characters of each pattern as it has, times a
number for each pattern. -/
theorem count_removePatterns (text : Text) :
    ∃ n, text.count '[' = (removePatterns text).count '[' + n ∧
      text.count ']' = (removePatterns text).count ']' + n ∧
      ∀ c, (∀ pattern ∈ narrationPatterns, c ∉ pattern) → text.count c = (removePatterns text).count c := by
  have brackets : ∀ pattern ∈ narrationPatterns, pattern.count '[' = 1 ∧ pattern.count ']' = 1 :=
    fun pattern member =>
      ⟨(narrationPatterns_plain pattern member).1, (narrationPatterns_plain pattern member).2.1⟩
  unfold removePatterns
  generalize narrationPatterns = patterns at brackets
  induction patterns generalizing text with
  | nil => exact ⟨0, rfl, rfl, fun c _ => rfl⟩
  | cons pattern patterns ih =>
    obtain ⟨⟨opens, closes⟩, brackets⟩ := List.forall_mem_cons.mp brackets
    have some_char : pattern ≠ [] := by
      rintro rfl
      cases opens
    obtain ⟨n, counts⟩ := count_replace some_char text
    obtain ⟨m, open_count, close_count, others⟩ := ih (replace pattern [] text) brackets
    refine ⟨m + n, ?_, ?_, fun c absent => ?_⟩
    · rw [counts, opens, open_count, List.foldl_cons]
      omega
    · rw [counts, closes, close_count, List.foldl_cons]
      omega
    · obtain ⟨here, later⟩ := List.forall_mem_cons.mp absent
      rw [counts, List.count_eq_zero.mpr here, others c later, List.foldl_cons]
      omega

/-- A piece is shown up to its narration, or it is dropped with a bracket that it opens. -/
theorem count_piece (piece : Text) :
    (waits (removePatterns piece) = false ∧ filterNarrationPatterns piece = removePatterns piece) ∨
      (waits (removePatterns piece) = true ∧ filterNarrationPatterns piece = [] ∧
        piece.count ']' < piece.count '[') := by
  rw [filterNarrationPatterns]
  cases kept : waits (removePatterns piece) with
  | false => exact .inl ⟨rfl, by simp⟩
  | true =>
    obtain ⟨n, opens, closes, -⟩ := count_removePatterns piece
    refine .inr ⟨rfl, by simp, ?_⟩
    simp only [waits, Bool.and_eq_true, decide_eq_true_eq] at kept
    obtain ⟨begun, unclosed⟩ := kept
    obtain ⟨rest, shape⟩ := startsWith_iff.mp begun
    have none := List.count_eq_zero.mpr unclosed
    have some_open : 0 < (removePatterns piece).count '[' := by
      rw [shape, List.count_append]
      exact Nat.lt_of_lt_of_le (by decide) (Nat.le_add_right 1 _)
    omega

theorem angle_outside : ∀ pattern ∈ narrationPatterns, '<' ∉ pattern :=
  fun pattern member => (narrationPatterns_plain pattern member).2.2.1

theorem warning_outside : ∀ pattern ∈ narrationPatterns, '\u26a0' ∉ pattern :=
  fun pattern member => (narrationPatterns_plain pattern member).2.2.2

/-- No piece has fewer of a character than is shown of it. -/
theorem count_angle (texts : List Text) :
    (texts.map filterNarrationPatterns).flatten.count '<' ≤ texts.flatten.count '<' := by
  induction texts with
  | nil => exact Nat.le_refl _
  | cons piece texts ih =>
    have first : (filterNarrationPatterns piece).count '<' ≤ piece.count '<' := by
      obtain ⟨-, -, -, same⟩ := count_removePatterns piece
      rcases count_piece piece with ⟨-, kept⟩ | ⟨-, dropped, -⟩
      · rw [kept, same '<' angle_outside]
      · rw [dropped]
        exact Nat.zero_le _
    simp only [List.map_cons, List.flatten_cons, List.count_append]
    omega

/-- Brackets stay balanced as they were, unless a piece is dropped. -/
theorem count_brackets (texts : List Text) :
    (∀ piece ∈ texts, waits (removePatterns piece) = false) ∧
        texts.flatten.count ']' + (texts.map filterNarrationPatterns).flatten.count '[' =
          texts.flatten.count '[' + (texts.map filterNarrationPatterns).flatten.count ']' ∨
      texts.flatten.count ']' + (texts.map filterNarrationPatterns).flatten.count '[' <
        texts.flatten.count '[' + (texts.map filterNarrationPatterns).flatten.count ']' := by
  induction texts with
  | nil => exact .inl ⟨nofun, rfl⟩
  | cons piece texts ih =>
    simp only [List.map_cons, List.flatten_cons, List.count_append]
    rcases count_piece piece with ⟨stays, kept⟩ | ⟨-, dropped, unclosed⟩
    · obtain ⟨n, opens, closes, -⟩ := count_removePatterns piece
      rw [← kept] at opens closes
      rcases ih with ⟨others, balanced⟩ | fewer
      · exact .inl ⟨List.forall_mem_cons.mpr ⟨stays, others⟩, by omega⟩
      · exact .inr (by omega)
    · rw [dropped]
      simp only [List.count_nil]
      rcases ih with ⟨-, balanced⟩ | fewer <;> exact .inr (by omega)

theorem count_kept {c : Char} (outside : ∀ pattern ∈ narrationPatterns, c ∉ pattern)
    (texts : List Text) : (texts.map removePatterns).flatten.count c = texts.flatten.count c := by
  induction texts with
  | nil => rfl
  | cons piece texts ih =>
    obtain ⟨-, -, -, same⟩ := count_removePatterns piece
    simp only [List.map_cons, List.flatten_cons, List.count_append, ih, ← same c outside]

theorem scan_buffer (skip : Nat) (depth : Int) (text : Text) :
    (scan skip depth text).newBuffer = [] ∨
      startsWith ['<'] (scan skip depth text).newBuffer = true := by
  induction text generalizing skip depth with
  | nil => cases skip <;> exact .inl rfl
  | cons c cs ih =>
    cases skip with
    | succ skip => exact ih skip depth
    | zero =>
      rw [scan]
      split
      · exact ih _ _
      split
      · exact ih _ _
      split
      · rename_i held
        simp only [mayBeTag, Bool.and_eq_true] at held
        exact .inr held.1.1
      · split <;> exact ih _ _

/-- What of an answer is emitted, and what is held back at its end. -/
theorem streamLoop_flatten {deltas : List Text} {visible : Text}
    (sees : Visible deltas.flatten visible) (finishReason : Option FinishReason) :
    (pieces [] 0 deltas).flatten ++ (filterToolCallXml deltas.flatten 0).newBuffer = visible ∧
      (streamLoop deltas finishReason).flatten =
        ((pieces [] 0 deltas).map filterNarrationPatterns).flatten ++
          (if finishReason = some .length then truncatedNotice else []) := by
  obtain ⟨shown, depth⟩ := scan_visible sees
  obtain ⟨buffer, xmlDepth, display, emitted⟩ := foldl_onDelta deltas ⟨[], 0, []⟩ []
  have fold : deltas.foldl Shown.feed ⟨[], [], 0⟩ = whole deltas.flatten 0 := whole_chunks 0 [] deltas
  dsimp only at buffer xmlDepth display emitted
  rw [fold] at buffer xmlDepth display
  refine ⟨?_, ?_⟩
  · rw [List.nil_append] at display
    rw [← display]
    exact shown
  · have silent : ¬ ((deltas.foldl onDelta ⟨[], 0, []⟩).xmlDepth = 0 ∧
        (deltas.foldl onDelta ⟨[], 0, []⟩).buffer ≠ [] ∧
        startsWith ['<'] (deltas.foldl onDelta ⟨[], 0, []⟩).buffer = false) := by
      rintro ⟨-, held, other⟩
      rw [buffer] at held other
      rcases scan_buffer 0 0 deltas.flatten with empty | opens
      · exact held empty
      · exact Bool.false_ne_true (other.symm.trans opens)
    rw [streamLoop, onDone, if_neg silent, List.append_nil, List.flatten_append, emitted]
    split <;> simp

/-- **What the user sees.** The text outside of tool calls is emitted without narration
exactly where nothing is held back at its end, no piece is dropped as the beginning of
narration, no narration is cut by the border of two pieces, and no notice is added. -/
theorem streamLoop_shows_iff {deltas : List Text} {visible : Text}
    (sees : Visible deltas.flatten visible) (finishReason : Option FinishReason) :
    (streamLoop deltas finishReason).flatten = removePatterns visible ↔
      (filterToolCallXml deltas.flatten 0).newBuffer = [] ∧ finishReason ≠ some .length ∧
        (∀ piece ∈ pieces [] 0 deltas, waits (removePatterns piece) = false) ∧
        ((pieces [] 0 deltas).map removePatterns).flatten =
          removePatterns (pieces [] 0 deltas).flatten := by
  obtain ⟨rfl, emitted⟩ := streamLoop_flatten sees finishReason
  rw [emitted]
  have buffered := scan_buffer 0 0 deltas.flatten
  rw [← filterToolCallXml] at buffered
  generalize (filterToolCallXml deltas.flatten 0).newBuffer = buffer at buffered ⊢
  generalize pieces [] 0 deltas = texts
  have kept (stay : ∀ piece ∈ texts, waits (removePatterns piece) = false) :
      texts.map filterNarrationPatterns = texts.map removePatterns := by
    refine List.map_congr_left fun piece member => ?_
    rw [filterNarrationPatterns, stay piece member]
    rfl
  constructor
  · intro same
    have plain : ∀ c ∈ ['<', '[', ']'],
        (if finishReason = some .length then truncatedNotice else []).count c = 0 := by
      intro c listed
      simp only [List.mem_cons, List.not_mem_nil, or_false] at listed
      split
      · rcases listed with rfl | rfl | rfl <;> decide
      · exact List.count_nil
    -- what is held back begins with an angle bracket, which nothing that is emitted makes up for
    have unheld : buffer = [] := by
      obtain ⟨-, -, -, angles⟩ := count_removePatterns (texts.flatten ++ buffer)
      have counted := congrArg (List.count '<') same
      rw [← angles '<' angle_outside, List.count_append, List.count_append,
        plain '<' (by decide)] at counted
      have fewer := count_angle texts
      rcases buffered with empty | opens
      · exact empty
      · obtain ⟨rest, rfl⟩ := startsWith_iff.mp opens
        rw [List.singleton_append, List.count_cons_self] at counted
        omega
    subst unheld
    rw [List.append_nil] at same
    obtain ⟨n, opens, closes, others⟩ := count_removePatterns texts.flatten
    have stay : ∀ piece ∈ texts, waits (removePatterns piece) = false := by
      rcases count_brackets texts with ⟨stay, -⟩ | fewer
      · exact stay
      · have opened := congrArg (List.count '[') same
        have closed := congrArg (List.count ']') same
        rw [List.count_append, plain '[' (by decide)] at opened
        rw [List.count_append, plain ']' (by decide)] at closed
        omega
    rw [kept stay] at same
    have whole : finishReason ≠ some .length := by
      rintro rfl
      have warned := congrArg (List.count '\u26a0') same
      have some_warning : truncatedNotice.count '\u26a0' = 1 := by decide +kernel
      rw [if_pos rfl, List.count_append, count_kept warning_outside,
        ← others _ warning_outside, some_warning] at warned
      omega
    rw [if_neg whole, List.append_nil] at same
    exact ⟨rfl, whole, stay, same⟩
  · rintro ⟨rfl, whole, stay, uncut⟩
    rw [kept stay, uncut, if_neg whole, List.append_nil, List.append_nil]

/-- An answer with a call, cut within a tag. -/
theorem call_hidden :
    (streamLoop ["Hi <tool".toList, "_call>x</tool_call> there".toList] (some .stop)).flatten =
      "Hi  there".toList := by
  have sees : Visible ["Hi <tool".toList, "_call>x</tool_call> there".toList].flatten
      ("Hi ".toList ++ " there".toList) :=
    @Visible.call "Hi ".toList ['x'] _ _ (by decide) (by decide) (.plain (by decide))
  have shows := (streamLoop_shows_iff sees (some .stop)).mpr (by decide +kernel)
  exact shows.trans (by decide +kernel)

/-- A tag at the end, and narration that is no pattern, are lost. -/
theorem text_lost :
    (streamLoop ["a</a>".toList] (some .stop)).flatten = ['a'] ∧
      (streamLoop ["[Executed ".toList, "twice] ok".toList] (some .stop)).flatten =
        "twice] ok".toList ∧
      removePatterns "a</a>".toList = "a</a>".toList ∧
      removePatterns "[Executed twice] ok".toList = "[Executed twice] ok".toList := by
  decide +kernel

end DisplayedAnswer

end Devit
