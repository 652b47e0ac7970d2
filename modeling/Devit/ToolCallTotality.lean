import Devit.ToolCalling

/-! Where the parser of tool calls panics. It is written here with every slice that the code
takes, and is the parser of `ToolCalling`. The bounds of its slices are found apart from each
other; those inside a block are in order unless a closing tag stands before the first
opening one. -/
namespace Devit
open Text

namespace ToolCallTotality
open DevItFormatParser (tag callOpen callClose nameOpen nameClose argsOpen argsClose endsAt bareEnd
  pathValue callOfObject toolNames stripMarkdownBlocks looksLikeToolResult PlainName)

/-- `&s[i..]`. -/
def sliceFrom (s : Text) (i : Nat) : Option Text := slice s i s.length

/-! ## The parser with its slices -/

/-- The blocks between an opening and its end; nothing where a slice panics. -/
def blocksOf (opening : Text) (ends : Text → Option Nat) : Nat → Text → Option (List Text)
  | _, [] => some []
  | skip + 1, _ :: cs => blocksOf opening ends skip cs
  | 0, c :: cs =>
    if startsWith opening (c :: cs) then
      match ends (c :: cs) with
      | none => some []
      | some n => do
        let block ← slice (c :: cs) 0 n
        let rest ← blocksOf opening ends (n - 1) cs
        some (block :: rest)
    else blocksOf opening ends 0 cs

section
variable (read : Text → Option Json)

def behindKey (key json : Text) : Option (Option Text) :=
  match find key json with
  | none => some none
  | some idx => do
    let after ← sliceFrom json (idx + key.length)
    some (stripPrefix ['"'] (after.dropWhile isWhitespace))

def repairFileWriteJson (json : Text) : Option (Option Json) := do
  let path ← behindKey "\"path\":".toList json
  let content ← behindKey "\"content\":".toList json
  some do
    let path ← path
    let content ← content
    let contentValue ← beforeLast "\"\n\x7d".toList content <|>
      beforeLast "\"\x7d".toList content <|> beforeLast "\"".toList content
    some (.object (Json.insertField "content".toList (.string contentValue)
      (Json.insertField "path".toList (.string (pathValue none path)) [])))

def tryRepairJson (json toolName : Text) : Option (Option Json) :=
  if contains "file_write".toList toolName then repairFileWriteJson json
  else some (read (replace ", \x7d".toList " \x7d".toList
    (replace ",\n\x7d".toList "\n\x7d".toList json)))

def extractArguments (block toolName : Text) : Option Json :=
  match find argsOpen block, find argsClose block with
  | some argsStart, some argsEnd => do
    let argsStr := trim (← slice block (argsStart + argsOpen.length) argsEnd)
    match read argsStr with
    | some value => some value
    | none => (tryRepairJson read argsStr toolName).map (·.getD (.object []))
  | _, _ => some (.object [])

def parseCompact (block : Text) : Option (Option ToolCall) :=
  match find argsOpen block with
  | none => some none
  | some argsStart => do
    let afterTag := ((find callOpen block).map (· + callOpen.length)).getD 0
    let name := trim (← slice block afterTag argsStart)
    if name ≠ [] ∧ '<' ∉ name then
      let arguments ← extractArguments read block name
      some (some ⟨name, arguments⟩)
    else some none

def parseSingleBlock (block : Text) : Option (Option ToolCall) :=
  match find nameOpen block, find nameClose block with
  | some nameStart, some nameEnd => do
    let name := trim (← slice block (nameStart + nameOpen.length) nameEnd)
    let arguments ← extractArguments read block name
    some (some ⟨name, arguments⟩)
  | _, _ => parseCompact read block

def parseBlocks (blocks : List Text) : Option (List ToolCall) :=
  (blocks.mapM (parseSingleBlock read)).map fun calls => calls.filterMap id

/-- The loop of `try_parse_json_format` over the whole text: where the brace was opened, how
many are open, and the place. -/
def scanJson (content : Text) : Option Nat → Int → Nat → Text → Option (Option ToolCall)
  | _, _, _, [] => some none
  | started, count, i, c :: cs =>
    if c = '{' then scanJson content (some (started.getD i)) (count + 1) (i + 1) cs
    else if c = '}' then
      if count - 1 = 0 then
        match started with
        | none => scanJson content none 0 (i + 1) cs
        | some start => do
          let jsonStr ← slice content start (i + 1)
          match (read jsonStr).bind callOfObject with
          | some call => some (some call)
          | none => scanJson content none 0 (i + 1) cs
      else scanJson content started (count - 1) (i + 1) cs
    else scanJson content started count (i + 1) cs

def tryParseJsonFormat (content : Text) : Option (Option ToolCall) :=
  scanJson read content none 0 0 content

def xmlParams : Nat → Text → Option (List (Text × Json))
  | _, [] => some []
  | skip + 1, _ :: cs => xmlParams skip cs
  | 0, c :: cs =>
    if c = '<' then
      match find ['>'] (c :: cs) with
      | none => some []
      | some tagEnd => do
        let tagName ← slice (c :: cs) 1 tagEnd
        if startsWith ['/'] tagName then xmlParams tagEnd cs
        else
          let closeTag := tag ('/' :: tagName)
          match find closeTag (← sliceFrom (c :: cs) (tagEnd + 1)) with
          | none => xmlParams tagEnd cs
          | some closeStart =>
            let value := trim (← slice (c :: cs) (tagEnd + 1) (tagEnd + 1 + closeStart))
            let rest ← xmlParams (tagEnd + closeStart + closeTag.length) cs
            some ((tagName, (read value).getD (.string value)) :: rest)
    else xmlParams 0 cs

def parseXmlParams (content : Text) : Option (Option Json) :=
  (xmlParams read 0 content).map fun params =>
    match params with
    | [] => none
    | params => some (.object (params.foldl (fun fields param =>
        Json.insertField param.1 param.2 fields) []))

/-- The calls of one tool name. -/
def parseGlmTool (content toolName : Text) : Option (List ToolCall) := do
  let openTag := tag toolName
  let closeTag := tag ('/' :: toolName)
  let blocks ← blocksOf openTag (endsAt closeTag) 0 content
  let calls ← blocks.mapM fun block => do
    let inner ← slice block openTag.length (block.length - closeTag.length)
    let arguments ← parseXmlParams read inner
    some (arguments.map fun arguments => ⟨toolName, arguments⟩)
  some (calls.filterMap id)

def parseGlmStyle (content : Text) : Option (List ToolCall) :=
  (toolNames.mapM (parseGlmTool read content)).map List.flatten

def parseOther (cleaned : Text) : Option (List ToolCall) := do
  match ← tryParseJsonFormat read cleaned with
  | some call => some [call]
  | none => parseGlmStyle read cleaned

/-- `DevItFormatParser::parse`; nothing where a slice panics. -/
def parse (content : Text) : Option (List ToolCall) := do
  let cleaned := stripMarkdownBlocks content
  let blocks ← blocksOf callOpen (endsAt callClose) 0 cleaned
  match ← parseBlocks read (blocks.filter fun block => !looksLikeToolResult block) with
  | [] =>
    let blocks ← blocksOf nameOpen bareEnd 0 cleaned
    match ← parseBlocks read (blocks.map fun block => callOpen ++ block ++ callClose) with
    | [] => parseOther read cleaned
    | calls => some calls
  | calls => some calls

end

/-! ## Slices in their bounds -/

theorem slice_some {s : Text} {i j : Nat} (order : i ≤ j) (fits : j ≤ s.length) :
    slice s i j = some ((s.take j).drop i) := if_pos ⟨order, fits⟩

theorem sliceFrom_some {s : Text} {i : Nat} (fits : i ≤ s.length) :
    sliceFrom s i = some (s.drop i) := by
  rw [sliceFrom, slice_some fits (Nat.le_refl _), List.take_length]

theorem endsAt_fits {close s : Text} {n : Nat} (filled : close ≠ [])
    (ends : endsAt close s = some n) : close.length ≤ n ∧ n ≤ s.length := by
  obtain ⟨i, found, rfl⟩ := Option.map_eq_some_iff.mp ends
  exact ⟨Nat.le_add_left _ _, find_fits filled found⟩

theorem bareEnd_fits {s : Text} {n : Nat} (ends : bareEnd s = some n) : n ≤ s.length := by
  unfold bareEnd at ends
  cases first : endsAt argsClose s with
  | none =>
    rw [first] at ends
    exact (endsAt_fits (by decide) ends).2
  | some m =>
    rw [first] at ends
    cases ends
    exact (endsAt_fits (by decide) first).2

theorem blocksOf_eq {opening : Text} {ends : Text → Option Nat}
    (fits : ∀ s n, ends s = some n → n ≤ s.length) (skip : Nat) (s : Text) :
    blocksOf opening ends skip s = some (cutOut opening ends skip s) := by
  induction s generalizing skip with
  | nil => cases skip <;> rfl
  | cons c s ih =>
    cases skip with
    | succ skip => exact ih skip
    | zero =>
      rw [blocksOf, cutOut]
      split
      · cases ended : ends (c :: s) with
        | none => rfl
        | some n =>
          simp only [slice_some (Nat.zero_le n) (fits _ _ ended), ih, List.drop_zero]
          rfl
      · exact ih 0

theorem behindKey_eq {key : Text} (filled : key ≠ []) (json : Text) :
    behindKey key json = some (DevItFormatParser.behindKey key json) := by
  unfold behindKey DevItFormatParser.behindKey
  cases found : find key json with
  | none => rfl
  | some idx =>
    simp only [sliceFrom_some (find_fits filled found)]
    rfl

/-- A tag ends before another one begins. -/
theorem tag_apart {name other s : Text} {i j : Nat} (plain : PlainName name)
    (here : startsWith (tag name) (s.drop i) = true)
    (there : startsWith (tag other) (s.drop j) = true) (before : i < j) :
    i + (tag name).length ≤ j := by
  by_contra inside
  obtain ⟨rest, shape⟩ := startsWith_iff.mp here
  obtain ⟨rest', shape'⟩ := startsWith_iff.mp there
  obtain ⟨k, rfl⟩ : ∃ k, j = i + (k + 1) := ⟨j - i - 1, by omega⟩
  have cut : (name ++ ['>']).drop k ++ rest = '<' :: (other ++ ['>'] ++ rest') := by
    rw [← List.drop_drop, shape, List.drop_append_of_le_length (by omega)] at shape'
    exact shape'
  have size : (tag name).length = (name ++ ['>']).length + 1 := rfl
  cases left : (name ++ ['>']).drop k with
  | nil =>
    have short := List.drop_eq_nil_iff.mp left
    omega
  | cons c cs =>
    rw [left] at cut
    have first : c = '<' := (List.cons.inj cut).1
    have member : '<' ∈ name ++ ['>'] := by
      rw [← first]
      exact List.mem_of_mem_drop (by rw [left]; exact List.mem_cons_self)
    simp [plain.1] at member

/-- No two tags begin at the same place. -/
theorem tag_alone {name other s : Text} (plain : PlainName name) (plain' : PlainName other)
    (here : startsWith (tag name) s = true) (there : startsWith (tag other) s = true) :
    name = other := by
  obtain ⟨rest, shape⟩ := startsWith_iff.mp here
  obtain ⟨rest', shape'⟩ := startsWith_iff.mp there
  have cut : ∀ {name rest : Text}, '>' ∉ name →
      (name ++ ['>'] ++ rest).takeWhile (· ≠ '>') = name := by
    intro name rest absent
    rw [List.append_assoc, List.takeWhile_append_of_pos fun c member => ?_]
    · simp
    · simpa using fun same : c = '>' => absent (same ▸ member)
  have same : name ++ ['>'] ++ rest = other ++ ['>'] ++ rest' :=
    (List.cons.inj (shape.symm.trans shape')).2
  rw [← @cut name rest plain.2.1, same, cut plain'.2.1]

section
variable (read : Text → Option Json)

theorem repairFileWriteJson_eq (json : Text) :
    repairFileWriteJson json = some (DevItFormatParser.repairFileWriteJson json) := by
  unfold repairFileWriteJson
  rw [behindKey_eq (by decide), behindKey_eq (by decide)]
  rfl

theorem tryRepairJson_eq (json toolName : Text) :
    tryRepairJson read json toolName =
      some (DevItFormatParser.tryRepairJson read json toolName) := by
  unfold tryRepairJson DevItFormatParser.tryRepairJson
  split
  · exact repairFileWriteJson_eq json
  · rfl

theorem extractArguments_eq (block toolName : Text) : extractArguments read block toolName =
    DevItFormatParser.extractArguments read block toolName := by
  simp only [extractArguments, DevItFormatParser.extractArguments, tryRepairJson_eq,
    Option.map_some] <;> rfl

theorem parseSingleBlock_eq (block : Text) :
    parseSingleBlock read block = DevItFormatParser.parseSingleBlock read block := by
  simp only [parseSingleBlock, DevItFormatParser.parseSingleBlock, parseCompact,
    DevItFormatParser.parseCompact, extractArguments_eq] <;> rfl

theorem scanJson_eq (before : Text) (started : Option Nat) (count : Int) (cs : Text)
    (opened : ∀ start, started = some start → start ≤ before.length) :
    scanJson read (before ++ cs) started count before.length cs =
      some (DevItFormatParser.scanJson read (started.map fun start => before.drop start) count
        cs) := by
  induction cs generalizing before started count with
  | nil => rfl
  | cons c cs ih =>
    have later := ih (before ++ [c])
    rw [List.length_append, List.length_singleton, List.append_assoc,
      List.singleton_append] at later
    have onward : ∀ count, scanJson read (before ++ c :: cs) started count (before.length + 1) cs =
        some (DevItFormatParser.scanJson read
          ((started.map fun start => before.drop start).map (· ++ [c])) count cs) := by
      intro count
      rw [later started count fun start same => Nat.le_succ_of_le (opened start same)]
      cases started with
      | none => rfl
      | some start =>
        simp only [Option.map_some, List.drop_append_of_le_length (opened start rfl)]
    have fresh : ∀ count, scanJson read (before ++ c :: cs) none count (before.length + 1) cs =
        some (DevItFormatParser.scanJson read none count cs) :=
      fun count => later none count (by rintro start ⟨⟩)
    rw [scanJson.eq_def, DevItFormatParser.scanJson.eq_def]
    dsimp only
    split
    · cases started with
      | none =>
        rw [Option.getD_none,
          later (some before.length) _ (by rintro start ⟨⟩; exact Nat.le_succ _)]
        simp
      | some start => exact onward _
    · split
      · split
        · cases started with
          | none => exact fresh 0
          | some start =>
            have cut : slice (before ++ c :: cs) start (before.length + 1) =
                some (before.drop start ++ [c]) := by
              rw [slice_some (Nat.le_succ_of_le (opened start rfl)) (by simp),
                List.take_append, List.take_of_length_le (Nat.le_succ _), Nat.succ_eq_add_one,
                Nat.add_sub_cancel_left, List.take_succ_cons, List.take_zero,
                List.drop_append_of_le_length (opened start rfl)]
            simp only [cut, Option.map_some, fresh, Option.bind_eq_bind, Option.bind_some]
            cases (read (before.drop start ++ [c])).bind callOfObject with
            | none => rfl
            | some call => rfl
        · exact onward _
      · exact onward _

theorem xmlParams_eq (skip : Nat) (s : Text) :
    xmlParams read skip s = some (DevItFormatParser.xmlParams read skip s) := by
  induction s generalizing skip with
  | nil => cases skip <;> rfl
  | cons c cs ih =>
    cases skip with
    | succ skip => exact ih skip
    | zero =>
      rw [xmlParams, DevItFormatParser.xmlParams]
      split
      · rename_i opens
        cases closed : find ['>'] (c :: cs) with
        | none => rfl
        | some tagEnd =>
          have fits := find_fits (List.cons_ne_nil _ _) closed
          obtain ⟨k, rfl⟩ : ∃ k, tagEnd = k + 1 := by
            refine Nat.exists_eq_succ_of_ne_zero fun first => ?_
            have here := find_found (first ▸ closed)
            have other : startsWith ['>'] ('<' :: cs) = false := startsWith_head_ne (by decide)
            rw [opens, List.drop_zero, other] at here
            cases here
          simp only [List.length_cons, List.length_nil] at fits
          have name : slice (c :: cs) 1 (k + 1) = some (cs.take k) := by
            rw [slice_some (by omega) (by simp only [List.length_cons]; omega), List.take_succ_cons,
              List.drop_succ_cons, List.drop_zero]
          have behind : sliceFrom (c :: cs) (k + 1 + 1) = some (cs.drop (k + 1)) :=
            sliceFrom_some (by simp only [List.length_cons]; omega)
          simp only [name, behind, Option.bind_eq_bind, Option.bind_some, Nat.add_sub_cancel, ih]
          split
          · rfl
          · cases ended : find (tag ('/' :: cs.take k)) (cs.drop (k + 1)) with
            | none => rfl
            | some closeStart =>
              have inside := find_fits (DevItFormatParser.tag_ne_nil _) ended
              rw [List.length_drop] at inside
              have value : slice (c :: cs) (k + 1 + 1) (k + 1 + 1 + closeStart) =
                  some ((cs.drop (k + 1)).take closeStart) := by
                rw [slice_some (Nat.le_add_right _ _) (by simp only [List.length_cons]; omega),
                  List.take_drop]
                simp only [Nat.add_right_comm _ 1 closeStart, List.take_succ_cons,
                  List.drop_succ_cons]
              simp only [value, Option.bind_some]
      · exact ih 0

theorem parseXmlParams_eq (content : Text) :
    parseXmlParams read content = some (DevItFormatParser.parseXmlParams read content) := by
  rw [parseXmlParams, xmlParams_eq, Option.map_some]
  rfl

/-- What is between the tags of a block can be cut out. -/
theorem inner_eq {name content block : Text} (plain : PlainName name)
    (closing : PlainName ('/' :: name))
    (member : block ∈ cutOut (tag name) (endsAt (tag ('/' :: name))) 0 content) :
    slice block (tag name).length (block.length - (tag ('/' :: name)).length) =
      some ((block.take (block.length - (tag ('/' :: name)).length)).drop (tag name).length) := by
  obtain ⟨rest, n, opens, ends, rfl⟩ := mem_cutOut member
  have fits := (endsAt_fits (DevItFormatParser.tag_ne_nil _) ends).2
  obtain ⟨i, found, rfl⟩ := Option.map_eq_some_iff.mp ends
  have closes := find_found found
  have behind : 0 < i := by
    refine Nat.pos_of_ne_zero fun first => ?_
    rw [first, List.drop_zero] at closes
    have same := tag_alone plain closing opens closes
    have sizes := congrArg List.length same
    rw [List.length_cons] at sizes
    omega
  have apart := tag_apart (i := 0) plain opens closes behind
  rw [Nat.zero_add] at apart
  have size : (rest.take (i + (tag ('/' :: name)).length)).length =
      i + (tag ('/' :: name)).length := by rw [List.length_take, Nat.min_eq_left fits]
  rw [size, Nat.add_sub_cancel]
  exact slice_some apart (by rw [size]; exact Nat.le_add_right _ _)

theorem parseGlmStyle_eq (content : Text) :
    parseGlmStyle read content = some (DevItFormatParser.parseGlmStyle read content) := by
  have names : ∀ name ∈ toolNames, PlainName name ∧ PlainName ('/' :: name) := by decide
  have each : ∀ name ∈ toolNames, parseGlmTool read content name =
      pure ((cutOut (tag name) (endsAt (tag ('/' :: name))) 0 content).filterMap fun block =>
        (DevItFormatParser.parseXmlParams read ((block.take (block.length -
          (tag ('/' :: name)).length)).drop (tag name).length)).map
            fun arguments => ⟨name, arguments⟩) := by
    intro name member
    obtain ⟨plain, closing⟩ := names name member
    have bounded : ∀ s n, endsAt (tag ('/' :: name)) s = some n → n ≤ s.length :=
      fun s n ends => (endsAt_fits (DevItFormatParser.tag_ne_nil _) ends).2
    simp only [parseGlmTool, blocksOf_eq bounded, Option.bind_eq_bind, Option.bind_some]
    rw [mapM_each (m := Option) (g := fun block =>
        (DevItFormatParser.parseXmlParams read ((block.take (block.length -
          (tag ('/' :: name)).length)).drop (tag name).length)).map
            fun arguments => (⟨name, arguments⟩ : ToolCall)) fun block inside => ?_]
    · simp only [Option.pure_def, Option.bind_some, List.filterMap_map]
      rfl
    · simp only [inner_eq plain closing inside, parseXmlParams_eq, Option.bind_some]
      rfl
  rw [parseGlmStyle, mapM_each each]
  simp only [Option.pure_def, Option.map_some, ← List.flatMap_def]
  rfl

theorem parseOther_eq (cleaned : Text) :
    parseOther read cleaned = some (DevItFormatParser.parseOther read cleaned) := by
  have json : tryParseJsonFormat read cleaned =
      some (DevItFormatParser.tryParseJsonFormat read cleaned) :=
    scanJson_eq read [] none 0 cleaned (by rintro start ⟨⟩)
  simp only [parseOther, DevItFormatParser.parseOther, json, parseGlmStyle_eq,
    Option.bind_eq_bind, Option.bind_some]
  cases DevItFormatParser.tryParseJsonFormat read cleaned <;> rfl

/-- **The same parser.** Outside blocks every slice is in its bounds. -/
theorem parse_eq (content : Text) : parse read content = DevItFormatParser.parse read content := by
  have blocks : ∀ list, parseBlocks read list = DevItFormatParser.parseBlocks read list := by
    intro list
    rw [parseBlocks, DevItFormatParser.parseBlocks, funext (parseSingleBlock_eq read)]
  simp only [parse, DevItFormatParser.parse, blocksOf_eq fun s n ends =>
      (endsAt_fits (show callClose ≠ [] by decide) ends).2,
    blocksOf_eq fun s n ends => bareEnd_fits ends, blocks, parseOther_eq, Option.bind_eq_bind,
    Option.bind_some] <;> rfl

end

/-! ## Where it panics -/

/-- The first opening tag, if there is one, stands before the first closing one. -/
def Before (opening close block : Text) : Prop :=
  ∀ i j, find opening block = some i → find close block = some j → i < j

/-- A block with both tags of a name has them in order, and those of its arguments. -/
def TagsInOrder (block : Text) : Prop :=
  contains nameOpen block = true → contains nameClose block = true →
    Before nameOpen nameClose block ∧ Before argsOpen argsClose block

section
variable {read : Text → Option Json} {block : Text}

/-- The text between two tags can be cut out exactly if they are in order. -/
theorem slice_isSome {name other : Text} {i j : Nat} (plain : PlainName name)
    (opens : find (tag name) block = some i) (closes : find (tag other) block = some j) :
    (slice block (i + (tag name).length) j).isSome = true ↔ i < j := by
  have fits := find_fits (DevItFormatParser.tag_ne_nil _) closes
  have size : 0 < (tag name).length := Nat.succ_pos _
  constructor
  · intro cut
    rw [slice] at cut
    split at cut
    · omega
    · cases cut
  · intro before
    have apart := tag_apart plain (find_found opens) (find_found closes) before
    rw [slice_some apart (by omega)]
    rfl

theorem extractArguments_isSome {name : Text} :
    (DevItFormatParser.extractArguments read block name).isSome = true ↔
      Before argsOpen argsClose block := by
  unfold DevItFormatParser.extractArguments
  split
  · rename_i i j opens closes
    have cut := slice_isSome (by decide) opens closes
    have order : Before argsOpen argsClose block ↔ i < j := by
      refine ⟨fun before => before i j opens closes, fun before i' j' opens' closes' => ?_⟩
      cases opens.symm.trans opens'
      cases closes.symm.trans closes'
      exact before
    rw [order, ← cut, argsOpen]
    cases slice block (i + (tag "arguments".toList).length) j with
    | none => exact Iff.rfl
    | some text =>
      simp only [Option.bind_eq_bind, Option.bind_some, Option.isSome_some, iff_true]
      cases read (trim text) <;> rfl
  · rename_i missing
    refine iff_of_true rfl fun i j opens closes => (missing i j opens closes).elim

theorem mem_trim {c : Char} {s : Text} (other : isWhitespace c = false) (member : c ∈ s) :
    c ∈ trim s := by
  have kept : ∀ {part : Text}, c ∈ part → c ∈ part.dropWhile isWhitespace := by
    intro part inside
    rw [← List.takeWhile_append_dropWhile (p := isWhitespace) (l := part)] at inside
    rcases List.mem_append.mp inside with space | later
    · rw [List.mem_takeWhile_imp space] at other
      cases other
    · exact later
  exact List.mem_reverse.mpr (kept (List.mem_reverse.mpr (kept member)))

/-- Without the tags of a name nothing panics: arguments that end before they begin would be
part of the name, and a name has no tags. -/
theorem parseCompact_isSome (opens : startsWith callOpen block = true) :
    (DevItFormatParser.parseCompact read block).isSome = true := by
  unfold DevItFormatParser.parseCompact
  cases found : find argsOpen block with
  | none => rfl
  | some a =>
    obtain ⟨i, first, called⟩ := find_le (j := 0) (by decide) opens
    obtain rfl := Nat.le_zero.mp first
    have later : ∀ {name : Text} {j : Nat}, PlainName name → name ≠ "tool_call".toList →
        find (tag name) block = some j → 0 < j := by
      intro name j plain other begins
      refine Nat.pos_of_ne_zero fun zero => other ?_
      have here := find_found begins
      rw [zero, List.drop_zero] at here
      exact tag_alone plain (by decide) here opens
    have size := find_fits (by decide) found
    have apart := tag_apart (by decide) (find_found called) (find_found found)
      (later (by decide) (by decide) found)
    have cut := slice_some apart (Nat.le_of_add_right_le size)
    simp only [called, Option.map_some, Option.getD_some, Option.bind_eq_bind]
    rw [callOpen, cut, Option.bind_some]
    split
    · rename_i named
      have ordered : Before argsOpen argsClose block := by
        intro a' b opens' closes
        cases found.symm.trans opens'
        have different : a ≠ b := by
          rintro rfl
          exact absurd (tag_alone (by decide) (by decide) (find_found found) (find_found closes))
            (by decide)
        by_contra behind
        refine named.2 (mem_trim (by decide) (List.mem_of_getElem? (i := b -
          (0 + (tag "tool_call".toList).length)) ?_))
        have apart' := tag_apart (by decide) (find_found called) (find_found closes)
          (later (by decide) (by decide) closes)
        rw [List.getElem?_drop, Nat.add_sub_cancel' apart', List.getElem?_take_of_lt (by omega)]
        obtain ⟨rest, shape⟩ := startsWith_iff.mp (find_found closes)
        have head := congrArg List.head? shape
        rwa [List.head?_drop] at head
      obtain ⟨arguments, extracted⟩ := Option.isSome_iff_exists.mp
        ((@extractArguments_isSome read block _).mpr ordered)
      rw [extracted]
      rfl
    · rfl

/-- **One block.** -/
theorem parseSingleBlock_isSome (opens : startsWith callOpen block = true) :
    (DevItFormatParser.parseSingleBlock read block).isSome = true ↔ TagsInOrder block := by
  unfold DevItFormatParser.parseSingleBlock
  split
  · rename_i i j begins ends
    have both : TagsInOrder block ↔ i < j ∧ Before argsOpen argsClose block := by
      constructor
      · intro order
        obtain ⟨named, arguments⟩ := order (contains_of_found begins) (contains_of_found ends)
        exact ⟨named i j begins ends, arguments⟩
      · rintro ⟨named, arguments⟩ - -
        refine ⟨fun i' j' begins' ends' => ?_, arguments⟩
        cases begins.symm.trans begins'
        cases ends.symm.trans ends'
        exact named
    have cut := slice_isSome (by decide) begins ends
    rw [both, ← cut, nameOpen]
    cases slice block (i + (tag "tool_name".toList).length) j with
    | none => simp
    | some name =>
      rw [← @extractArguments_isSome read block (trim name)]
      simp only [Option.bind_eq_bind, Option.bind_some, Option.isSome_some, true_and]
      cases DevItFormatParser.extractArguments read block (trim name) <;> exact Iff.rfl
  · rename_i missing
    refine iff_of_true (parseCompact_isSome opens) fun named closed => ?_
    obtain ⟨i, begins⟩ := find_of_contains (by decide) named
    obtain ⟨j, ends⟩ := find_of_contains (by decide) closed
    exact (missing i j begins ends).elim

/-! ## Names without a call -/

/-- A name with its arguments, between the tags of a call. -/
def wrapped (block : Text) : Text := callOpen ++ block ++ callClose

/-- A block that begins with a name has its tags in order, once it is wrapped. -/
theorem names_in_order {rest : Text} {n : Nat} (opens : startsWith nameOpen rest = true)
    (long : nameOpen.length ≤ n) : Before nameOpen nameClose (wrapped (rest.take n)) := by
  intro i j begins ends
  have inner : (wrapped (rest.take n)).drop callOpen.length = rest.take n ++ callClose := by
    rw [wrapped, List.append_assoc, List.drop_left]
  have named : startsWith nameOpen ((wrapped (rest.take n)).drop callOpen.length) = true := by
    obtain ⟨behind, rfl⟩ := startsWith_iff.mp opens
    rw [inner, List.take_append, List.take_of_length_le long, List.append_assoc]
    exact startsWith_append nameOpen _
  have called : startsWith callOpen ((wrapped (rest.take n)).drop 0) = true := by
    rw [List.drop_zero, wrapped, List.append_assoc]
    exact startsWith_append callOpen _
  obtain ⟨i', first, begins'⟩ := find_le (by decide) named
  cases begins.symm.trans begins'
  have closes := find_found ends
  have later : 0 < j := by
    refine Nat.pos_of_ne_zero fun zero => ?_
    rw [zero] at closes
    exact absurd (tag_alone (by decide) (by decide) closes called) (by decide)
  have apart := tag_apart (by decide) called closes later
  have other : callOpen.length ≠ j := by
    intro same
    rw [← same] at closes
    exact absurd (tag_alone (by decide) (by decide) closes named) (by decide)
  have size : callOpen.length = (tag "tool_call".toList).length := rfl
  omega

/-- A block that ends with its first closing tag of arguments has these in order. -/
theorem arguments_in_order {rest : Text} {k : Nat} (ends : find argsClose rest = some k) :
    Before argsOpen argsClose (wrapped (rest.take (k + argsClose.length))) := by
  intro a b begins closes
  obtain ⟨behind, shape, absent⟩ := find_split (by decide) ends
  have fits := find_fits (by decide) ends
  have cut : rest.take (k + argsClose.length) = rest.take k ++ argsClose := by
    have size : (rest.take k).length = k := by
      rw [List.length_take]
      omega
    conv_lhs => rw [shape, ← List.append_assoc]
    exact List.take_left' (by rw [List.length_append, size])
  have whole : wrapped (rest.take (k + argsClose.length)) =
      (callOpen ++ rest.take k) ++ (argsClose ++ callClose) := by
    rw [wrapped, cut]
    simp only [List.append_assoc]
  rw [whole] at begins closes
  have inFront : contains argsClose (callOpen ++ rest.take k) = false := by
    have plain : PlainName "/arguments".toList := by decide
    have inCall : contains argsClose callOpen = false := by decide
    rw [argsClose] at absent inCall ⊢
    rw [callOpen, DevItFormatParser.contains_tag_append plain, ← callOpen, inCall, absent]
    rfl
  have place : find argsClose ((callOpen ++ rest.take k) ++ (argsClose ++ callClose)) =
      some (callOpen ++ rest.take k).length := DevItFormatParser.find_tag (by decide) inFront _
  cases closes.symm.trans place
  by_contra late
  have inside : contains argsOpen (argsClose ++ callClose) = true := by
    obtain ⟨more, shape⟩ := startsWith_iff.mp (find_found begins)
    rw [List.drop_append, List.drop_of_length_le (Nat.not_lt.mp late), List.nil_append] at shape
    exact contains_iff.mpr ⟨_, more, by rw [List.append_assoc, ← shape, List.take_append_drop]⟩
  exact absurd inside (by decide)

/-- No block that is wrapped panics. -/
theorem wrapped_in_order {content block : Text}
    (member : block ∈ cutOut nameOpen bareEnd 0 content) : TagsInOrder (wrapped block) := by
  obtain ⟨rest, n, opens, ends, rfl⟩ := mem_cutOut member
  have behind : ∀ {name : Text} {k : Nat}, PlainName name → name ≠ "tool_name".toList →
      find (tag name) rest = some k → nameOpen.length ≤ k := by
    intro name k plain other found
    have later : 0 < k := by
      refine Nat.pos_of_ne_zero fun zero => other ?_
      have here := find_found found
      rw [zero, List.drop_zero] at here
      exact tag_alone plain (by decide) here opens
    have apart := tag_apart (i := 0) (by decide) opens (find_found found) later
    rwa [Nat.zero_add] at apart
  unfold bareEnd at ends
  cases argued : find argsClose rest with
  | some k =>
    rw [endsAt, argued] at ends
    cases ends
    exact fun _ _ => ⟨names_in_order opens
      (Nat.le_add_right_of_le (behind (by decide) (by decide) argued)),
      arguments_in_order argued⟩
  | none =>
    have none_here : endsAt argsClose rest = none := by rw [endsAt, argued]; rfl
    rw [none_here] at ends
    obtain ⟨k, closes, rfl⟩ := Option.map_eq_some_iff.mp ends
    refine fun _ _ => ⟨names_in_order opens
      (Nat.le_add_right_of_le (behind (by decide) (by decide) closes)), fun a b _ found => ?_⟩
    -- a block without a closing tag of arguments is wrapped in none
    have plain : PlainName "/arguments".toList := by decide
    have absent : contains argsClose (rest.take (k + nameClose.length)) = false := by
      rw [← Bool.not_eq_true, contains_iff]
      intro inside
      have present := contains_iff.mpr (inside.trans (List.take_prefix _ _).isInfix)
      rw [contains_of_find (by decide) argued] at present
      cases present
    have inCalls : contains argsClose callOpen = false ∧ contains argsClose callClose = false := by
      decide
    have present := contains_of_found found
    rw [wrapped, List.append_assoc, argsClose, callOpen,
      DevItFormatParser.contains_tag_append plain, ← callOpen, ← argsClose, inCalls.1,
      ← List.append_nil callClose, argsClose, callClose,
      DevItFormatParser.contains_append_tag plain, ← callClose, List.append_nil, ← argsClose,
      absent, inCalls.2] at present
    cases present

theorem parseBlocks_isSome {blocks : List Text}
    (opens : ∀ block ∈ blocks, startsWith callOpen block = true) :
    (DevItFormatParser.parseBlocks read blocks).isSome = true ↔
      ∀ block ∈ blocks, TagsInOrder block := by
  rw [DevItFormatParser.parseBlocks, Option.isSome_map, mapM_isSome]
  exact forall₂_congr fun block member => parseSingleBlock_isSome (opens block member)

/-- A block that is cut out begins with the tag of a call. -/
theorem block_opens {content : Text}
    (member : block ∈ cutOut callOpen (endsAt callClose) 0 content) :
    startsWith callOpen block = true := by
  obtain ⟨rest, n, opens, ends, rfl⟩ := mem_cutOut member
  obtain ⟨k, found, rfl⟩ := Option.map_eq_some_iff.mp ends
  have later : 0 < k := by
    refine Nat.pos_of_ne_zero fun zero => ?_
    have here := find_found found
    rw [zero, List.drop_zero] at here
    exact absurd (tag_alone (by decide) (by decide) here opens) (by decide)
  have apart := tag_apart (i := 0) (by decide) opens (find_found found) later
  obtain ⟨behind, rfl⟩ := startsWith_iff.mp opens
  rw [List.take_append, List.take_of_length_le (by rw [callOpen]; omega)]
  exact startsWith_append callOpen _

/-- What is passed over as a result has no name. -/
theorem result_in_order (result : looksLikeToolResult block = true) : TagsInOrder block := by
  intro named
  simp [looksLikeToolResult, named] at result

/-- **Totality.** The parser panics exactly if a block with both tags of a name has a closing
one before the first opening one, among these or those of its arguments. -/
theorem parse_isSome_iff (read : Text → Option Json) (content : Text) :
    (parse read content).isSome = true ↔
      ∀ block ∈ cutOut callOpen (endsAt callClose) 0 (stripMarkdownBlocks content),
        TagsInOrder block := by
  have called := @parseBlocks_isSome read ((cutOut callOpen (endsAt callClose) 0
    (stripMarkdownBlocks content)).filter fun block => !looksLikeToolResult block)
    fun block member => block_opens (List.mem_of_mem_filter member)
  have named := @parseBlocks_isSome read ((cutOut nameOpen bareEnd 0
    (stripMarkdownBlocks content)).map fun block => callOpen ++ block ++ callClose)
    (List.forall_mem_map.mpr fun block _ => by
      rw [List.append_assoc]
      exact startsWith_append callOpen _)
  obtain ⟨others, reads⟩ := Option.isSome_iff_exists.mp (named.mpr
    (List.forall_mem_map.mpr fun block member => wrapped_in_order member))
  rw [parse_eq, DevItFormatParser.parse]
  constructor
  · intro total block member
    cases result : looksLikeToolResult block with
    | true => exact result_in_order result
    | false =>
      refine called.mp ?_ block (List.mem_filter.mpr ⟨member, by rw [result]; rfl⟩)
      obtain ⟨calls, whole⟩ := Option.isSome_iff_exists.mp total
      obtain ⟨first, found, -⟩ := Option.bind_eq_some_iff.mp whole
      rw [found]
      rfl
  · intro ordered
    obtain ⟨calls, found⟩ := Option.isSome_iff_exists.mp
      (called.mpr fun block member => ordered block (List.mem_of_mem_filter member))
    simp only [found, reads, Option.bind_eq_bind, Option.bind_some]
    cases calls with
    | cons call calls => rfl
    | nil => cases others <;> rfl

end

/-- A closing tag in front of the opening one panics, for a name and for arguments. -/
theorem closing_first_panics :
    (parse (fun _ => none)
        "<tool_call></tool_name><tool_name>ocr</tool_call>".toList).isSome = false ∧
      (parse (fun _ => none) ("<tool_call><tool_name>ocr</tool_name></arguments>".toList ++
        "<arguments></tool_call>".toList)).isSome = false := by
  decide +kernel

end ToolCallTotality

end Devit
