import Mathlib.Algebra.Group.Nat.Even
import Mathlib.Data.List.DropRight
import Devit.ToolCalling

/-! What is left of an answer when the tool calls are taken out. Blocks between tags go, and
blocks between code fences that are a tool call; then the lines are trimmed and runs of blank
ones are made one. A code fence is written back without what stands behind it, and the lines
behind a fence that is never closed are not written back at all. -/
namespace Devit.DevItFormatParser
open Text

/-- The loop over blocks between the tags of a call. Each turn makes the text shorter, so that
the fuel of `stripToolCalls` is enough. -/
def stripXml : Nat → Text → Text
  | 0, result => result
  | fuel + 1, result =>
    match find callOpen result with
    | none => result
    | some start =>
      match find callClose (result.drop start) with
      | none => result
      | some endRel =>
        stripXml fuel (result.take start ++ result.drop (start + endRel + callClose.length))

def fence : Text := "```".toList

def isFence (line : Text) : Bool := startsWith fence (trim line)

section
-- `serde_json::from_str`
variable (read : Text → Option Json)

def isToolCallJson (content : Text) : Bool :=
  match read (trim content) with
  | some obj => (obj.get "name".toList).isSome && (obj.get "arguments".toList).isSome
  | none => false

/-- The loop of `strip_json_code_blocks`, with the content of the code block it is in. -/
def stripBlocks : Option Text → List Text → Text
  | _, [] => []
  | inCodeBlock, line :: rest =>
    if isFence line then
      match inCodeBlock with
      | some content =>
        (if isToolCallJson read content then [] else "```\n".toList ++ content ++ "```\n".toList) ++
          stripBlocks none rest
      | none => stripBlocks (some []) rest
    else
      match inCodeBlock with
      | some content => stripBlocks (some (content ++ (line ++ ['\n']))) rest
      | none => line ++ ['\n'] ++ stripBlocks none rest

def stripJsonCodeBlocks (content : Text) : Text := stripBlocks read none (lines content)

/-- Trimmed lines, where `emptyCount` blank ones stand before them. -/
def normalizeLines : Nat → List Text → List Text
  | _, [] => []
  | emptyCount, line :: rest =>
    if trim line = [] then
      if emptyCount + 1 ≤ 1 then [] :: normalizeLines (emptyCount + 1) rest
      else normalizeLines (emptyCount + 1) rest
    else trim line :: normalizeLines 0 rest

/-- Remove tool call blocks from content, leaving only the text. -/
def stripToolCalls (content : Text) : Text :=
  let result := stripJsonCodeBlocks read (stripXml content.length content)
  let normalized := normalizeLines 0 (lines result)
  join ['\n'] ((normalized.dropWhile (· = [])).rdropWhile (· = []))

/-! ## What it is for -/

/-- The contents of the code blocks that are closed. -/
def codeBlocks : Option Text → List Text → List Text
  | _, [] => []
  | inCodeBlock, line :: rest =>
    if isFence line then
      match inCodeBlock with
      | some content => content :: codeBlocks none rest
      | none => codeBlocks (some []) rest
    else codeBlocks (inCodeBlock.map (· ++ (line ++ ['\n']))) rest

/-- No tag of a call is closed. -/
def NoBlock (content : Text) : Prop :=
  ∀ start, find callOpen content = some start → find callClose (content.drop start) = none

/-- The text has no tool call: none between tags, and no code block that is one. -/
def NoToolCall (content : Text) : Prop :=
  NoBlock content ∧ ∀ block ∈ codeBlocks none (lines content), isToolCallJson read block = false

/-- The lines that are not blank, trimmed. -/
def shown (ls : List Text) : List Text := (ls.map trim).filter (· ≠ [])

/-- Every line that is not blank appears in the result, in order. -/
def Keeps (content : Text) : Prop :=
  (shown (lines content)).Sublist (lines (stripToolCalls read content))

end

/-- Every code fence is closed by another one, and they are nothing but fences. -/
def BareFences (ls : List Text) : Prop :=
  Even (ls.countP isFence) ∧ ∀ line ∈ ls, isFence line = true → trim line = fence

variable {read : Text → Option Json}

/-! ## Trimmed lines -/

/-- A trimmed line does not end in a space. -/
theorem trim_last {line : Text} {c : Char} (last : (trim line).getLast? = some c) :
    isWhitespace c = false := by
  rw [trim, List.getLast?_reverse] at last
  generalize (line.dropWhile isWhitespace).reverse = turned at last
  induction turned with
  | nil => cases last
  | cons d turned ih =>
    by_cases space : isWhitespace d = true
    · rw [List.dropWhile_cons_of_pos space] at last
      exact ih last
    · rw [List.dropWhile_cons_of_neg space] at last
      cases last
      exact Bool.eq_false_iff.mpr space

theorem chopCr_trim (line : Text) : chopCr (trim line) = trim line :=
  chopCr_eq_self.mpr fun last => absurd (trim_last last) (by decide)

theorem trim_chopCr (line : Text) : trim (chopCr line) = trim line := by
  unfold chopCr stripLast
  split
  · rename_i last
    obtain ⟨front, rfl⟩ := List.getLast?_eq_some_iff.mp last
    rw [Option.getD_some, List.dropLast_concat, trim_append_space (by decide)]
  · rfl

theorem trim_subset (line : Text) : trim line ⊆ line := by
  intro c member
  rw [trim, List.mem_reverse] at member
  have inside := (List.dropWhile_sublist isWhitespace).subset member
  exact (List.dropWhile_sublist isWhitespace).subset (List.mem_reverse.mp inside)

theorem shown_append (front back : List Text) :
    shown (front ++ back) = shown front ++ shown back := by
  rw [shown, List.map_append, List.filter_append]
  rfl

theorem shown_cons (line : Text) (rest : List Text) :
    shown (line :: rest) = shown [line] ++ shown rest := shown_append [line] rest

theorem shown_congr {ls ms : List Text} (same : ls.map trim = ms.map trim) : shown ls = shown ms :=
  congrArg (List.filter (· ≠ [])) same

/-! ## Blank lines -/

/-- Only blank lines are left out. -/
theorem normalizeLines_filled (emptyCount : Nat) (ls : List Text) :
    (normalizeLines emptyCount ls).filter (· ≠ []) = shown ls := by
  induction ls generalizing emptyCount with
  | nil => rfl
  | cons line rest ih =>
    rw [normalizeLines, shown_cons]
    by_cases blank : trim line = []
    · have none : shown [line] = [] := by simp [shown, blank]
      rw [if_pos blank, none, List.nil_append]
      split
      · exact ih _
      · exact ih _
    · have one : shown [line] = [trim line] := by simp [shown, blank]
      rw [if_neg blank, one, List.filter_cons_of_pos (by simpa using blank), ih]
      rfl

theorem mem_normalizeLines {emptyCount : Nat} {ls : List Text} {line : Text}
    (member : line ∈ normalizeLines emptyCount ls) : line = [] ∨ ∃ own ∈ ls, line = trim own := by
  induction ls generalizing emptyCount with
  | nil => cases member
  | cons own rest ih =>
    have later : ∀ {count}, line ∈ normalizeLines count rest →
        line = [] ∨ ∃ other ∈ own :: rest, line = trim other := fun inside =>
      (ih inside).imp_right fun ⟨other, listed, same⟩ =>
        ⟨other, List.mem_cons_of_mem _ listed, same⟩
    rw [normalizeLines] at member
    split at member
    · split at member
      · rcases List.mem_cons.mp member with here | inside
        · exact .inl here
        · exact later inside
      · exact later member
    · rcases List.mem_cons.mp member with here | inside
      · exact .inr ⟨own, List.mem_cons_self, here⟩
      · exact later inside

theorem filter_dropWhile_blank (ls : List Text) :
    (ls.dropWhile (· = [])).filter (· ≠ []) = ls.filter (· ≠ []) := by
  induction ls with
  | nil => rfl
  | cons line rest ih =>
    by_cases blank : line = []
    · rw [List.dropWhile_cons_of_pos (by simpa using blank), ih,
        List.filter_cons_of_neg (by simpa using blank)]
    · rw [List.dropWhile_cons_of_neg (by simpa using blank)]

theorem filter_rdropWhile_blank (ls : List Text) :
    (ls.rdropWhile (· = [])).filter (· ≠ []) = ls.filter (· ≠ []) := by
  rw [List.rdropWhile, List.filter_reverse, filter_dropWhile_blank, ← List.filter_reverse,
    List.reverse_reverse]

/-- Trimmed lines with no blank one at the end are read back as they are. -/
theorem lines_join_trimmed {ls : List Text} (single : ∀ line ∈ ls, '\n' ∉ line)
    (trimmed : ∀ line ∈ ls, chopCr line = line) (last : ls.getLast? ≠ some []) :
    lines (join ['\n'] ls) = ls := by
  rcases List.eq_nil_or_concat ls with rfl | ⟨init, line, rfl⟩
  · rfl
  · rw [List.concat_eq_append] at single trimmed last ⊢
    rw [List.getLast?_concat] at last
    have some_char : line ≠ [] := fun empty => last (congrArg some empty)
    have kept : init.map chopCr = init :=
      (List.map_congr_left fun own inside => trimmed own (List.mem_append_left _ inside)).trans
        (List.map_id init)
    rw [lines_join init line single, if_neg some_char, kept]

/-- The lines of a result that are not blank are those of what is left of the blocks. -/
theorem lines_normalized {ls : List Text} (single : ∀ line ∈ ls, '\n' ∉ line) :
    (lines (join ['\n'] (((normalizeLines 0 ls).dropWhile (· = [])).rdropWhile (· = [])))).filter
      (· ≠ []) = shown ls := by
  have within : ∀ line ∈ ((normalizeLines 0 ls).dropWhile (· = [])).rdropWhile (· = []),
      line = [] ∨ ∃ own ∈ ls, line = trim own := fun line member =>
    mem_normalizeLines
      ((List.dropWhile_sublist _).subset ((List.rdropWhile_prefix _ _).subset member))
  rw [lines_join_trimmed, filter_rdropWhile_blank, filter_dropWhile_blank, normalizeLines_filled]
  · intro line member
    rcases within line member with rfl | ⟨own, listed, rfl⟩
    · exact List.not_mem_nil
    · exact fun inside => single own listed (trim_subset own inside)
  · intro line member
    rcases within line member with rfl | ⟨own, -, rfl⟩
    · rfl
    · exact chopCr_trim own
  · intro last
    obtain ⟨front, shape⟩ := List.getLast?_eq_some_iff.mp last
    have some_line : ((normalizeLines 0 ls).dropWhile (· = [])).rdropWhile (· = []) ≠ [] := by
      rw [shape]
      simp
    have filled := List.rdropWhile_last_not (· = ([] : Text)) _ some_line
    simp [shape] at filled

/-! ## Code blocks -/

/-- The lines that are left of a text without a tool call, in a code block with these lines. -/
def keptLines : Option (List Text) → List Text → List Text
  | _, [] => []
  | inCodeBlock, line :: rest =>
    if isFence line then
      match inCodeBlock with
      | some content => fence :: (content ++ [fence]) ++ keptLines none rest
      | none => keptLines (some []) rest
    else
      match inCodeBlock with
      | some content => keptLines (some (content ++ [line])) rest
      | none => line :: keptLines none rest

theorem unlines_concat (ls : List Text) (line : Text) :
    unlines (ls ++ [line]) = unlines ls ++ (line ++ ['\n']) := by
  simp [unlines]

/-- Where no code block is a tool call, all that are closed are written back. -/
theorem stripBlocks_kept {inCodeBlock : Option (List Text)} {ls : List Text}
    (plain : ∀ block ∈ codeBlocks (inCodeBlock.map unlines) ls, isToolCallJson read block = false) :
    stripBlocks read (inCodeBlock.map unlines) ls = unlines (keptLines inCodeBlock ls) := by
  induction ls generalizing inCodeBlock with
  | nil => rfl
  | cons line rest ih =>
    rw [codeBlocks.eq_def] at plain
    rw [stripBlocks.eq_def, keptLines.eq_def]
    dsimp only at plain ⊢
    by_cases fenced : isFence line = true
    · rw [if_pos fenced] at plain ⊢
      rw [if_pos fenced]
      cases inCodeBlock with
      | none => exact @ih (some []) plain
      | some content =>
        obtain ⟨own, later⟩ := List.forall_mem_cons.mp plain
        have below := @ih none later
        simp only [Option.map_some, own, Bool.false_eq_true, if_false]
        rw [Option.map_none] at below
        rw [below]
        simp [unlines, fence]
    · rw [if_neg fenced] at plain ⊢
      rw [if_neg fenced]
      cases inCodeBlock with
      | none =>
        have below := @ih none plain
        rw [Option.map_none] at below
        simp only [Option.map_none, below]
        simp [unlines]
      | some content =>
        have below := @ih (some (content ++ [line]))
        rw [Option.map_some, unlines_concat] at below
        exact below plain

/-- What a line that is written back becomes. -/
def flat (line : Text) : Text := if isFence line then fence else trim line

theorem fence_filled {line : Text} (fenced : isFence line = true) : trim line ≠ [] := by
  intro blank
  rw [isFence, blank] at fenced
  cases fenced

theorem even_fence {line : Text} {rest : List Text} (fenced : isFence line = true) :
    Even ((line :: rest).countP isFence) ↔ ¬ Even (rest.countP isFence) := by
  rw [List.countP_cons_of_pos fenced, Nat.even_add_one]

theorem even_plain {line : Text} {rest : List Text} (plain : ¬ isFence line = true) :
    Even ((line :: rest).countP isFence) ↔ Even (rest.countP isFence) := by
  rw [List.countP_cons_of_neg plain]

/-- With an even number of fences all lines are written back, and in a code block with an odd
number of fences to come. -/
theorem keptLines_closed (ls : List Text) :
    (Even (ls.countP isFence) → (keptLines none ls).map trim = ls.map flat) ∧
      ∀ content, ¬ Even (ls.countP isFence) →
        (keptLines (some content) ls).map trim = fence :: (content.map trim ++ ls.map flat) := by
  have bare : trim fence = fence := by decide
  induction ls with
  | nil => exact ⟨fun _ => rfl, fun _ odd => absurd (by decide) odd⟩
  | cons line rest ih =>
    obtain ⟨outside, inside⟩ := ih
    rw [keptLines.eq_def]
    by_cases fenced : isFence line = true
    · have flattened : flat line = fence := if_pos fenced
      simp only [even_fence fenced, not_not, keptLines, if_pos fenced, List.map_cons, flattened]
      refine ⟨fun odd => inside [] odd, fun content even => ?_⟩
      simp [outside even, bare]
    · have flattened : flat line = trim line := if_neg fenced
      simp only [even_plain fenced, keptLines, if_neg fenced, List.map_cons, flattened]
      refine ⟨fun even => by rw [outside even], fun content odd => ?_⟩
      simp [inside _ odd]

/-- With a fence that is not closed, fewer lines are written back. -/
theorem keptLines_open (ls : List Text) :
    (¬ Even (ls.countP isFence) → (shown (keptLines none ls)).length < (shown ls).length) ∧
      ∀ content, Even (ls.countP isFence) →
        (shown (keptLines (some content) ls)).length <
          1 + (shown content).length + (shown ls).length := by
  induction ls with
  | nil =>
    refine ⟨fun odd => absurd (by decide) odd, fun content _ => ?_⟩
    have none : shown (keptLines (some content) []) = [] := rfl
    rw [none, List.length_nil]
    omega
  | cons line rest ih =>
    obtain ⟨outside, inside⟩ := ih
    rw [keptLines.eq_def, shown_cons line rest, List.length_append]
    by_cases fenced : isFence line = true
    · have one : (shown [line]).length = 1 := by simp [shown, fence_filled fenced]
      have ends : shown [fence] = [fence] := by decide
      simp only [even_fence fenced, not_not, keptLines, if_pos fenced, one]
      refine ⟨fun even => ?_, fun content odd => ?_⟩
      · have fewer := inside [] even
        have none : shown [] = [] := rfl
        rw [none, List.length_nil] at fewer
        omega
      · have fewer := outside odd
        rw [shown_append, shown_cons fence, shown_append content, ends]
        simp only [List.length_append, List.length_singleton]
        omega
    · simp only [even_plain fenced, keptLines, if_neg fenced]
      refine ⟨fun odd => ?_, fun content even => ?_⟩
      · have fewer := outside odd
        rw [shown_cons line, List.length_append]
        omega
      · have fewer := inside (content ++ [line]) even
        rw [shown_append, List.length_append] at fewer
        omega

/-- The lines are what they are written back as where every fence is bare. -/
theorem flat_shown_iff (ls : List Text) :
    (ls.map flat).filter (· ≠ []) = shown ls ↔
      ∀ line ∈ ls, isFence line = true → trim line = fence := by
  induction ls with
  | nil => simp [shown]
  | cons line rest ih =>
    rw [List.forall_mem_cons, ← ih, shown_cons, List.map_cons]
    by_cases fenced : isFence line = true
    · have flattened : flat line = fence := if_pos fenced
      have one : shown [line] = [trim line] := by simp [shown, fence_filled fenced]
      rw [flattened, List.filter_cons_of_pos (by decide), one, List.singleton_append,
        List.cons_eq_cons]
      exact and_congr_left fun _ => ⟨fun same _ => same.symm, fun same => (same fenced).symm⟩
    · have flattened : flat line = trim line := if_neg fenced
      rw [flattened, and_iff_right fun bad => absurd bad fenced, shown, List.map_singleton]
      by_cases blank : trim line = []
      · simp [blank]
      · simp [blank]

theorem flat_length (ls : List Text) :
    ((ls.map flat).filter (· ≠ [])).length = (shown ls).length := by
  have blank : ∀ line, flat line ≠ [] ↔ trim line ≠ [] := by
    intro line
    by_cases fenced : isFence line = true
    · have flattened : flat line = fence := if_pos fenced
      rw [flattened]
      exact iff_of_true (by decide) (fence_filled fenced)
    · have flattened : flat line = trim line := if_neg fenced
      rw [flattened]
  rw [shown, List.filter_map, List.filter_map, List.length_map, List.length_map]
  refine congrArg List.length (List.filter_congr fun line _ => ?_)
  exact decide_eq_decide.mpr (blank line)

theorem mem_keptLines {inCodeBlock : Option (List Text)} {ls : List Text} {line : Text}
    (member : line ∈ keptLines inCodeBlock ls) :
    line = fence ∨ line ∈ ls ∨ ∃ content, inCodeBlock = some content ∧ line ∈ content := by
  induction ls generalizing inCodeBlock with
  | nil => cases inCodeBlock <;> cases member
  | cons own rest ih =>
    rw [keptLines.eq_def] at member
    dsimp only at member
    split at member
    · cases inCodeBlock with
      | none =>
        rcases ih member with here | later | ⟨content, same, inside⟩
        · exact .inl here
        · exact .inr (.inl (List.mem_cons_of_mem _ later))
        · cases same
          cases inside
      | some content =>
        rcases List.mem_append.mp member with closed | later
        · rcases List.mem_cons.mp closed with here | inside
          · exact .inl here
          · rcases List.mem_append.mp inside with own | ends
            · exact .inr (.inr ⟨content, rfl, own⟩)
            · exact .inl (List.mem_singleton.mp ends)
        · rcases ih later with here | later | ⟨content, same, -⟩
          · exact .inl here
          · exact .inr (.inl (List.mem_cons_of_mem _ later))
          · cases same
    · cases inCodeBlock with
      | none =>
        rcases List.mem_cons.mp member with rfl | later
        · exact .inr (.inl List.mem_cons_self)
        · rcases ih later with here | later | ⟨content, same, -⟩
          · exact .inl here
          · exact .inr (.inl (List.mem_cons_of_mem _ later))
          · cases same
      | some content =>
        rcases ih member with here | later | ⟨content', same, inside⟩
        · exact .inl here
        · exact .inr (.inl (List.mem_cons_of_mem _ later))
        · cases same
          rcases List.mem_append.mp inside with listed | last
          · exact .inr (.inr ⟨content, rfl, listed⟩)
          · rw [List.mem_singleton.mp last]
            exact .inr (.inl List.mem_cons_self)

/-! ## A whole answer -/

theorem stripXml_plain {fuel : Nat} {content : Text} (plain : NoBlock content) :
    stripXml fuel content = content := by
  cases fuel with
  | zero => rfl
  | succ fuel =>
    rw [stripXml]
    cases found : find callOpen content with
    | none => rfl
    | some start =>
      dsimp only
      rw [plain start found]

/-- The loop ends: it leaves no block between tags. -/
theorem stripXml_done {fuel : Nat} {content : Text} (enough : content.length ≤ fuel) :
    NoBlock (stripXml fuel content) := by
  induction fuel generalizing content with
  | zero =>
    rw [List.eq_nil_of_length_eq_zero (Nat.le_zero.mp enough)]
    intro start found
    cases found
  | succ fuel ih =>
    rw [stripXml]
    cases found : find callOpen content with
    | none =>
      intro start other
      rw [found] at other
      cases other
    | some start =>
      dsimp only
      cases closed : find callClose (content.drop start) with
      | none =>
        intro other same
        dsimp only at same ⊢
        rw [found] at same
        cases same
        exact closed
      | some endRel =>
        dsimp only
        have fits : endRel + callClose.length ≤ (content.drop start).length :=
          find_fits (tag_ne_nil _) closed
        rw [List.length_drop] at fits
        have long : 0 < callClose.length := by decide
        refine ih ?_
        rw [List.length_append, List.length_take, List.length_drop]
        omega

/-- The lines of the result that are not blank. -/
theorem stripToolCalls_shown {content : Text} (plain : NoToolCall read content) :
    (lines (stripToolCalls read content)).filter (· ≠ []) =
      shown (keptLines none (lines content)) := by
  have single : ∀ line ∈ keptLines none (lines content), '\n' ∉ line := by
    intro line member
    rcases mem_keptLines member with rfl | listed | ⟨content, same, -⟩
    · decide
    · exact not_mem_lines listed
    · cases same
  have blocks := @stripBlocks_kept read none (lines content) plain.2
  rw [Option.map_none] at blocks
  unfold stripToolCalls stripJsonCodeBlocks
  dsimp only
  rw [stripXml_plain plain.1, blocks, lines_unlines single, lines_normalized]
  · refine shown_congr ?_
    rw [List.map_map]
    exact List.map_congr_left fun line _ => trim_chopCr line
  · intro line member
    obtain ⟨own, inside, rfl⟩ := List.mem_map.mp member
    exact fun newline => single own inside (chopCr_subset own newline)

/-- **Lines are kept** in a text without a tool call exactly where its code fences are closed
and bare. -/
theorem stripToolCalls_keeps_iff {content : Text} (plain : NoToolCall read content) :
    Keeps read content ↔ BareFences (lines content) := by
  have kept := stripToolCalls_shown plain
  have filled : (shown (lines content)).filter (· ≠ []) = shown (lines content) := by
    rw [shown, List.filter_filter]
    simp
  have listed : Keeps read content ↔
      (shown (lines content)).Sublist (shown (keptLines none (lines content))) := by
    rw [Keeps, ← kept]
    refine ⟨fun appear => ?_, fun appear => appear.trans List.filter_sublist⟩
    have both := appear.filter (· ≠ [])
    rwa [filled] at both
  rw [listed, BareFences]
  by_cases even : Even ((lines content).countP isFence)
  · have written : shown (keptLines none (lines content)) =
        ((lines content).map flat).filter (· ≠ []) :=
      congrArg (List.filter (· ≠ [])) ((keptLines_closed (lines content)).1 even)
    rw [and_iff_right even, ← flat_shown_iff, written]
    refine ⟨fun appear => ?_, fun same => by rw [same]⟩
    exact (appear.eq_of_length (flat_length (lines content)).symm).symm
  · refine iff_of_false (fun appear => ?_) fun both => even both.1
    have fewer := (keptLines_open (lines content)).1 even
    have long := appear.length_le
    omega

/-- A text with a closed code block. -/
theorem listing_kept : Keeps (fun _ => none) "See:\n```\nlet x\n```\nthat is all".toList := by
  have looked : find callOpen "See:\n```\nlet x\n```\nthat is all".toList = none ∧
      (lines "See:\n```\nlet x\n```\nthat is all".toList).countP isFence = 2 ∧
      ((lines "See:\n```\nlet x\n```\nthat is all".toList).all fun line =>
        !isFence line || trim line == fence) = true := by decide +kernel
  obtain ⟨open_, count, bare⟩ := looked
  refine (stripToolCalls_keeps_iff ⟨fun start found => ?_, fun _ _ => rfl⟩).mpr ⟨?_, ?_⟩
  · rw [open_] at found
    cases found
  · rw [count]
    decide
  · intro line member fenced
    have own := List.all_eq_true.mp bare line member
    rw [fenced, Bool.not_true, Bool.false_or] at own
    exact eq_of_beq own

/-- What stands behind a code fence that is never closed is lost. -/
theorem open_listing_lost :
    NoToolCall (fun _ => none) "See:\n```\nlet x".toList ∧
      stripToolCalls (fun _ => none) "See:\n```\nlet x".toList = "See:".toList ∧
      ¬ Keeps (fun _ => none) "See:\n```\nlet x".toList := by
  have looked : find callOpen "See:\n```\nlet x".toList = none ∧
      stripToolCalls (fun _ => none) "See:\n```\nlet x".toList = "See:".toList ∧
      ((shown (lines "See:\n```\nlet x".toList)).isSublist
        (lines (stripToolCalls (fun _ => none) "See:\n```\nlet x".toList))) = false := by
    decide +kernel
  obtain ⟨open_, left, lost⟩ := looked
  refine ⟨⟨fun start found => ?_, fun _ _ => rfl⟩, left, fun keeps => ?_⟩
  · rw [open_] at found
    cases found
  · rw [List.isSublist_iff_sublist.mpr keeps] at lost
    cases lost

end Devit.DevItFormatParser
