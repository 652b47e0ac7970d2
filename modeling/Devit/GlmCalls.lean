import Devit.Library.Grouping
import Devit.Library.Segments
import Devit.ToolCallTotality

/-! Calls in the style `<tool><param>value</param></tool>`. The parser looks for them tool by
tool, so that they come in the order of its list of tools; and it looks for them last, so that
a text in another format between the tags is read in their place. -/
namespace Devit.GlmCalls
open Text DevItFormatParser Grouping

/-- A call of a tool with its parameters, as it is printed. -/
structure GlmCall where
  tool : Text
  params : List (Text × Text)

def printParam (param : Text × Text) : Text :=
  tag param.1 ++ (param.2 ++ tag ('/' :: param.1))

def printParams (params : List (Text × Text)) : Text := params.flatMap printParam

def printGlm (call : GlmCall) : Text :=
  tag call.tool ++ (printParams call.params ++ tag ('/' :: call.tool))

/-- Calls one after the other. -/
def printGlms (calls : List GlmCall) : Text := calls.flatMap printGlm

def argumentsOf (value : Text → Json) (params : List (Text × Text)) : Json :=
  .object (params.foldl (fun fields param => Json.insertField param.1 (value param.2) fields) [])

/-- The call that is meant. -/
def GlmCall.call (glm : GlmCall) : ToolCall := ⟨glm.tool, argumentsOf .string glm.params⟩

/-- What can be the name of a parameter: it stands in a tag, closes none, and has no quotes. -/
def KeyName (name : Text) : Prop := ∀ c ∈ name, c ∉ "<>/`\"\n".toList

/-- Plain text: no brackets, no space around it, and no JSON. -/
structure PlainValue (read : Text → Option Json) (value : Text) : Prop where
  unopened : '<' ∉ value
  unclosed : '>' ∉ value
  trimmed : trim value = value
  unread : read value = none

/-- A call to a known tool, with parameters of different names and with plain values. -/
structure Valid (read : Text → Option Json) (glm : GlmCall) : Prop where
  known : glm.tool ∈ toolNames
  filled : glm.params ≠ []
  distinct : (glm.params.map Prod.fst).Nodup
  named : ∀ param ∈ glm.params, KeyName param.1
  plain : ∀ param ∈ glm.params, PlainValue read param.2

/-- The calls are read back: these, once each, in the order of the text. -/
def ReadsBack (read : Text → Option Json) (calls : List GlmCall) : Prop :=
  parse read (printGlms calls) = some (calls.map GlmCall.call)

/-- The calls come in the order of the list of tools; no parameter is named as its tool or as
the tag of a name, no value has a code fence, and no object that the text has is a call. -/
structure Readable (read : Text → Option Json) (calls : List GlmCall) : Prop where
  ordered : Ordered toolNames GlmCall.tool calls
  other : ∀ glm ∈ calls, ∀ param ∈ glm.params, param.1 ≠ glm.tool
  unnamed : ∀ glm ∈ calls, ∀ param ∈ glm.params, param.1 ≠ "tool_name".toList
  fenceless : ∀ glm ∈ calls, ∀ param ∈ glm.params, contains "```".toList param.2 = false
  noObject : tryParseJsonFormat read (printGlms calls) = none

/-- A string in a value. -/
inductive HasString (w : Text) : Json → Prop where
  | here : HasString w (.string w)
  | item (member : value ∈ items) (inside : HasString w value) : HasString w (.array items)
  | field (member : (key, value) ∈ fields) (inside : HasString w value) :
      HasString w (.object fields)

/-- A string is written in a text behind a quote, with escapes at its most: it is as long, and
has no bracket that is not in the string. -/
def Quoted (w s : Text) : Prop :=
  ∃ written, '"' :: written <:+: s ∧ w.length ≤ written.length ∧
    ∀ c ∈ ['<', '>'], c ∈ written → c ∈ w

/-- What `serde_json` reads has the strings that are written in the text. -/
def Literal (read : Text → Option Json) : Prop :=
  ∀ s value, read s = some value → ∀ w, HasString w value → Quoted w s

variable {read : Text → Option Json} {params : List (Text × Text)} {calls : List GlmCall}

theorem printParams_cons (param : Text × Text) (params : List (Text × Text)) :
    printParams (param :: params) = printParam param ++ printParams params := rfl

theorem printGlms_cons (glm : GlmCall) (calls : List GlmCall) :
    printGlms (glm :: calls) = printGlm glm ++ printGlms calls := rfl

/-! ## Tags -/

theorem KeyName.plain {name : Text} (key : KeyName name) : PlainName name :=
  ⟨fun member => key _ member (by decide), fun member => key _ member (by decide),
    fun member => key _ member (by decide)⟩

theorem KeyName.closing {name : Text} (key : KeyName name) : PlainName ('/' :: name) :=
  ⟨by simpa using key.plain.1, by simpa using key.plain.2.1, by simpa using key.plain.2.2⟩

theorem KeyName.opening {name other : Text} (key : KeyName name) : name ≠ '/' :: other := by
  rintro rfl
  exact key '/' List.mem_cons_self (by decide)

theorem KeyName.of_all {name : Text}
    (all : (name.all fun c => decide (c ∉ "<>/`\"\n".toList)) = true) : KeyName name :=
  fun c member => of_decide_eq_true (List.all_eq_true.mp all c member)

theorem tool_key : ∀ tool ∈ toolNames, KeyName tool := by
  have all : (toolNames.all fun tool =>
      tool.all fun c => decide (c ∉ "<>/`\"\n".toList)) = true := by decide +kernel
  exact fun tool member => .of_all (List.all_eq_true.mp all tool member)

theorem absent_of_unopened {name s : Text} (unopened : '<' ∉ s) :
    contains (tag name) s = false := by
  rw [← Bool.not_eq_true, contains_iff]
  exact fun inside => unopened (inside.subset List.mem_cons_self)

/-- A tag is in another one only if it is the same. -/
theorem contains_tag {name other : Text} (plain : PlainName name) (plainOther : PlainName other)
    (apart : name ≠ other) : contains (tag name) (tag other) = false := by
  rw [← Bool.not_eq_true, contains_iff]
  rintro ⟨before, after, shape⟩
  cases before with
  | nil =>
    refine apart (ToolCallTotality.tag_alone plain plainOther (s := tag other) ?_ ?_)
    · exact startsWith_iff.mpr ⟨after, by rw [← shape, List.nil_append]⟩
    · exact startsWith_iff.mpr ⟨[], by rw [List.append_nil]⟩
  | cons c before =>
    have behind := (List.cons.inj shape).2
    have opened : '<' ∈ other ++ ['>'] := by
      rw [← behind]
      simp [tag]
    simp [plainOther.1] at opened

theorem contains_param {name : Text} {param : Text × Text} (plain : PlainName name)
    (key : KeyName param.1) (unopened : '<' ∉ param.2) (opens : name ≠ param.1)
    (closes : name ≠ '/' :: param.1) : contains (tag name) (printParam param) = false := by
  rw [printParam, contains_tag_append plain, contains_tag plain key.plain opens]
  have behind := contains_append_tag plain param.2 ('/' :: param.1) []
  rw [List.append_nil] at behind
  rw [behind, absent_of_unopened unopened, contains_tag plain key.closing closes]
  rfl

/-- A text that goes on with a tag. -/
def AtTag (rest : Text) : Prop := ∀ c ∈ rest.head?, c = '<'

theorem atTag_tag (name rest : Text) : AtTag (tag name ++ rest) := by
  rintro c ⟨⟩
  rfl

theorem atTag_params (params : List (Text × Text)) {rest : Text} (at_tag : AtTag rest) :
    AtTag (printParams params ++ rest) := by
  cases params with
  | nil => exact at_tag
  | cons param params =>
    rintro c ⟨⟩
    rfl

theorem atTag_param (param : Text × Text) (rest : Text) : AtTag (printParam param ++ rest) := by
  rintro c ⟨⟩
  rfl

theorem AtTag.stops {name rest : Text} (at_tag : AtTag rest) (plain : PlainName name) :
    Stops (tag name) rest := by
  intro c head member
  rw [at_tag c head] at member
  have inside : '<' ∈ name ++ ['>'] := member
  simp [plain.1] at inside

theorem contains_params {name : Text} (plain : PlainName name)
    (keys : ∀ param ∈ params, KeyName param.1 ∧ '<' ∉ param.2 ∧ name ≠ param.1 ∧
      name ≠ '/' :: param.1) : contains (tag name) (printParams params) = false := by
  induction params with
  | nil => exact contains_nil (tag_ne_nil name)
  | cons param params ih =>
    obtain ⟨⟨key, unopened, opens, closes⟩, later⟩ := List.forall_mem_cons.mp keys
    have at_next := @atTag_params params [] (by rintro c ⟨⟩)
    rw [List.append_nil] at at_next
    rw [printParams_cons,
      contains_stops (tag_ne_nil name) _ (at_next.stops plain),
      contains_param plain key unopened opens closes, ih later, Bool.false_or]

/-! ## Blocks -/

/-- What stands between two tags. -/
def between (name inner : Text) : Text := tag name ++ (inner ++ tag ('/' :: name))

theorem endsAt_between {name inner : Text} (key : KeyName name)
    (absent : contains (tag ('/' :: name)) inner = false) (rest : Text) :
    endsAt (tag ('/' :: name)) (between name inner ++ rest) = some (between name inner).length := by
  have front : contains (tag ('/' :: name)) (tag name ++ inner) = false := by
    rw [contains_tag_append key.closing, contains_tag key.closing key.plain key.opening.symm,
      absent]
    rfl
  have shape : between name inner ++ rest =
      (tag name ++ inner) ++ (tag ('/' :: name) ++ rest) := by
    rw [between, List.append_assoc, List.append_assoc, List.append_assoc]
  rw [endsAt, shape, find_tag key.closing front, between]
  simp only [Option.map_some, List.length_append, Nat.add_assoc]

/-- The calls' names and values as they can stand between tags. -/
structure Tagged (glm : GlmCall) : Prop where
  tool : KeyName glm.tool
  params : ∀ param ∈ glm.params, KeyName param.1 ∧ '<' ∉ param.2

/-- What is cut out of parameters by the tags of a name: those with this name. -/
theorem cutOut_params {name rest : Text} (key : KeyName name)
    (tagged : ∀ param ∈ params, KeyName param.1 ∧ '<' ∉ param.2) (at_tag : AtTag rest) :
    cutOut (tag name) (endsAt (tag ('/' :: name))) 0 (printParams params ++ rest) =
      (params.filter (·.1 = name)).map printParam ++
        cutOut (tag name) (endsAt (tag ('/' :: name))) 0 rest := by
  induction params with
  | nil => rfl
  | cons param params ih =>
    obtain ⟨⟨own, unopened⟩, later⟩ := List.forall_mem_cons.mp tagged
    rw [printParams_cons, List.append_assoc]
    by_cases same : param.1 = name
    · have block : printParam param = between name param.2 := by rw [printParam, same, between]
      rw [List.filter_cons_of_pos (by simpa using same), List.map_cons, List.cons_append,
        ← ih later, block]
      exact cutOut_piece (List.cons_ne_nil _ _) (startsWith_append (tag name) _)
        (endsAt_between key (absent_of_unopened unopened) _)
    · rw [List.filter_cons_of_neg (by simpa using same), ← ih later]
      exact cutOut_behind (contains_param key.plain own unopened (Ne.symm same) key.opening)
        ((atTag_params params at_tag).stops key.plain)

/-- The blocks of a call that are cut out by the tags of a name. -/
def blocksOf (name : Text) (glm : GlmCall) : List Text :=
  if glm.tool = name then [printGlm glm] else (glm.params.filter (·.1 = name)).map printParam

/-- **Blocks.** What is cut out of calls by the tags of a name: the calls of the tool with this
name, and parameters of other calls. -/
theorem cutOut_glms {name : Text} (key : KeyName name) (tagged : ∀ glm ∈ calls, Tagged glm)
    (other : ∀ glm ∈ calls, glm.tool = name → ∀ param ∈ glm.params, param.1 ≠ name) :
    cutOut (tag name) (endsAt (tag ('/' :: name))) 0 (printGlms calls) =
      calls.flatMap (blocksOf name) := by
  induction calls with
  | nil => rfl
  | cons glm calls ih =>
    obtain ⟨own, later⟩ := List.forall_mem_cons.mp tagged
    obtain ⟨apart, laterApart⟩ := List.forall_mem_cons.mp other
    have at_next : AtTag (printGlms calls) := by
      cases calls with
      | nil => rintro c ⟨⟩
      | cons next calls =>
        rintro c ⟨⟩
        rfl
    rw [printGlms_cons, List.flatMap_cons, ← ih later laterApart, blocksOf]
    by_cases same : glm.tool = name
    · have block : printGlm glm = between name (printParams glm.params) := by
        rw [printGlm, same, between]
      have absent : contains (tag ('/' :: name)) (printParams glm.params) = false := by
        refine contains_params key.closing fun param member => ?_
        obtain ⟨named, unopened⟩ := own.params param member
        refine ⟨named, unopened, named.opening.symm, fun equal => ?_⟩
        exact apart same param member (List.cons.inj equal).2.symm
      rw [if_pos same, List.singleton_append, block]
      exact cutOut_piece (List.cons_ne_nil _ _) (startsWith_append (tag name) _)
        (endsAt_between key absent _)
    · have opens := contains_tag key.plain own.tool.plain (Ne.symm same)
      have closes := contains_tag key.plain own.tool.closing key.opening
      rw [if_neg same, printGlm, List.append_assoc, List.append_assoc,
        cutOut_behind opens ((atTag_params _ (atTag_tag _ _)).stops key.plain),
        cutOut_params key own.params (atTag_tag _ _),
        cutOut_behind closes (at_next.stops key.plain)]

/-! ## Parameters -/

/-- The value of a parameter as it is read. -/
def valueOf (read : Text → Option Json) (value : Text) : Json :=
  (read (trim value)).getD (.string (trim value))

/-- A call as it is read. -/
def readGlm (read : Text → Option Json) (glm : GlmCall) : ToolCall :=
  ⟨glm.tool, argumentsOf (valueOf read) glm.params⟩

theorem xmlParams_skip (part rest : Text) :
    xmlParams read part.length (part ++ rest) = xmlParams read 0 rest := by
  induction part with
  | nil => rfl
  | cons c part ih => exact ih

/-- **A parameter** is read back. -/
theorem xmlParams_param {param : Text × Text} (key : KeyName param.1) (unopened : '<' ∉ param.2)
    (rest : Text) : xmlParams read 0 (printParam param ++ rest) =
      (param.1, valueOf read param.2) :: xmlParams read 0 rest := by
  obtain ⟨name, value⟩ := param
  dsimp only at key unopened
  have shape : printParam (name, value) ++ rest =
      '<' :: (name ++ '>' :: (value ++ (tag ('/' :: name) ++ rest))) := by
    simp [printParam, tag]
  have ends : find ['>'] ('<' :: (name ++ '>' :: (value ++ (tag ('/' :: name) ++ rest)))) =
      some (name.length + 1) := by
    have front : contains ['>'] ('<' :: name) = false := by
      rw [← Bool.not_eq_true, contains_iff]
      intro inside
      have member := inside.subset (List.mem_singleton_self '>')
      simp [key.plain.2.1] at member
    have once : Stops ['>'] ['>'] := by
      rintro c ⟨⟩
      simp
    have found := find_append (by simp) (value ++ (tag ('/' :: name) ++ rest)) front once
    simpa using found
  have opening : startsWith ['/'] name = false := by
    cases name with
    | nil => rfl
    | cons c name =>
      refine startsWith_head_ne ?_
      rintro rfl
      exact key '/' List.mem_cons_self (by decide)
  have closes : find (tag ('/' :: name)) (value ++ (tag ('/' :: name) ++ rest)) =
      some value.length := find_tag key.closing (absent_of_unopened unopened) rest
  have behind : (name ++ '>' :: (value ++ (tag ('/' :: name) ++ rest))).drop (name.length + 1) =
      value ++ (tag ('/' :: name) ++ rest) := by
    rw [List.drop_append]
    simp
  rw [shape, xmlParams.eq_def]
  dsimp only
  rw [if_pos rfl, ends]
  dsimp only
  rw [Nat.add_sub_cancel, List.take_left, opening, behind, closes]
  have part : name ++ '>' :: (value ++ (tag ('/' :: name) ++ rest)) =
      (name ++ ['>'] ++ value ++ tag ('/' :: name)) ++ rest := by simp
  have size : (name ++ ['>'] ++ value ++ tag ('/' :: name)).length =
      name.length + 1 + value.length + (tag ('/' :: name)).length := by
    simp only [List.length_append, List.length_singleton]
  have skipped := @xmlParams_skip read (name ++ ['>'] ++ value ++ tag ('/' :: name)) rest
  rw [size, ← part] at skipped
  simp only [Bool.false_eq_true, if_false, List.take_left, valueOf, skipped]

theorem xmlParams_printed (tagged : ∀ param ∈ params, KeyName param.1 ∧ '<' ∉ param.2) :
    xmlParams read 0 (printParams params) =
      params.map fun param => (param.1, valueOf read param.2) := by
  induction params with
  | nil => rfl
  | cons param params ih =>
    obtain ⟨⟨key, unopened⟩, later⟩ := List.forall_mem_cons.mp tagged
    rw [printParams_cons, xmlParams_param key unopened, ih later, List.map_cons]

theorem xmlParams_plain {s : Text} (unopened : '<' ∉ s) : xmlParams read 0 s = [] := by
  induction s with
  | nil => rfl
  | cons c s ih =>
    have other : c ≠ '<' := fun same => unopened (by rw [same]; exact List.mem_cons_self)
    rw [xmlParams, if_neg other]
    exact ih fun member => unopened (List.mem_cons_of_mem _ member)

/-- What is read of a block. -/
def readBlock (read : Text → Option Json) (toolName block : Text) : Option ToolCall :=
  (parseXmlParams read ((block.take (block.length - (tag ('/' :: toolName)).length)).drop
    (tag toolName).length)).map fun arguments => ⟨toolName, arguments⟩

theorem parseGlmStyle_eq (content : Text) :
    parseGlmStyle read content = toolNames.flatMap fun name =>
      (cutOut (tag name) (endsAt (tag ('/' :: name))) 0 content).filterMap
        (readBlock read name) := rfl

theorem readBlock_between (name inner : Text) : readBlock read name (between name inner) =
    (parseXmlParams read inner).map fun arguments => ⟨name, arguments⟩ := by
  have cut : (between name inner).length - (tag ('/' :: name)).length =
      (tag name ++ inner).length := by
    rw [between, List.length_append, List.length_append, List.length_append]
    omega
  rw [readBlock, cut, between, ← List.append_assoc, List.take_left, List.drop_left]

theorem readBlock_glm {glm : GlmCall} (tagged : Tagged glm) (filled : glm.params ≠ []) :
    readBlock read glm.tool (printGlm glm) = some (readGlm read glm) := by
  have inner := @xmlParams_printed read _ tagged.params
  have block : printGlm glm = between glm.tool (printParams glm.params) := rfl
  rw [block, readBlock_between, parseXmlParams, inner, readGlm, argumentsOf]
  cases params : glm.params with
  | nil => exact absurd params filled
  | cons param params => simp only [List.map_cons, Option.map_some, List.foldl_cons, List.foldl_map]

theorem readBlock_param {param : Text × Text} (unopened : '<' ∉ param.2) :
    readBlock read param.1 (printParam param) = none := by
  have block : printParam param = between param.1 param.2 := rfl
  rw [block, readBlock_between, parseXmlParams, xmlParams_plain unopened]
  rfl

/-- **Calls**, tool by tool. -/
theorem parseGlmStyle_printed (tagged : ∀ glm ∈ calls, Tagged glm)
    (filled : ∀ glm ∈ calls, glm.params ≠ [])
    (other : ∀ glm ∈ calls, ∀ param ∈ glm.params, param.1 ≠ glm.tool) :
    parseGlmStyle read (printGlms calls) =
      (toolNames.flatMap fun name => calls.filter (·.tool = name)).map (readGlm read) := by
  rw [parseGlmStyle_eq, List.map_flatMap]
  refine List.flatMap_congr fun name known => ?_
  rw [cutOut_glms (tool_key name known) tagged fun glm member same param inside =>
    same ▸ other glm member param inside]
  clear other
  induction calls with
  | nil => rfl
  | cons glm calls ih =>
    obtain ⟨own, later⟩ := List.forall_mem_cons.mp tagged
    obtain ⟨some_param, laterFilled⟩ := List.forall_mem_cons.mp filled
    rw [List.flatMap_cons, List.filterMap_append, ih later laterFilled, blocksOf]
    by_cases same : glm.tool = name
    · subst same
      rw [if_pos rfl, List.filter_cons_of_pos (by simp), List.map_cons, List.filterMap_cons,
        readBlock_glm own some_param]
      rfl
    · have none : ((glm.params.filter (·.1 = name)).map printParam).filterMap
          (readBlock read name) = [] := by
        rw [List.filterMap_eq_nil_iff]
        intro block member
        obtain ⟨param, inside, rfl⟩ := List.mem_map.mp member
        obtain ⟨listed, named⟩ := List.mem_filter.mp inside
        have equal : param.1 = name := by simpa using named
        rw [← equal]
        exact readBlock_param (own.params param listed).2
      rw [if_neg same, none, List.filter_cons_of_neg (by simpa using same), List.nil_append]

/-- Calls in the order of the tools are read in their own order. -/
theorem parseGlmStyle_ordered (tagged : ∀ glm ∈ calls, Tagged glm)
    (known : ∀ glm ∈ calls, glm.tool ∈ toolNames) (filled : ∀ glm ∈ calls, glm.params ≠ [])
    (other : ∀ glm ∈ calls, ∀ param ∈ glm.params, param.1 ≠ glm.tool)
    (ordered : Ordered toolNames GlmCall.tool calls) :
    parseGlmStyle read (printGlms calls) = calls.map (readGlm read) := by
  have distinct : toolNames.Nodup := by decide +kernel
  rw [parseGlmStyle_printed tagged filled other]
  exact congrArg (List.map (readGlm read)) (flatMap_filter distinct known ordered)

/-! ## The formats that are tried before -/

/-- A parameter between the tags of a call is no call: it has no name. -/
theorem parseSingleBlock_param {param : Text × Text} (named : param.1 = "tool_call".toList)
    (unopened : '<' ∉ param.2) : parseSingleBlock read (printParam param) = some none := by
  have key : KeyName param.1 := by
    rw [named]
    exact .of_all (by decide +kernel)
  have noName : find nameOpen (printParam param) = none := find_absent
    (contains_param (by decide) key unopened (by rw [named]; decide) (by rw [named]; decide))
  have noArguments : find argsOpen (printParam param) = none := find_absent
    (contains_param (by decide) key unopened (by rw [named]; decide) (by rw [named]; decide))
  simp only [parseSingleBlock, noName, parseCompact, noArguments]

/-- No block between the tags of a call is a call. -/
theorem no_blocks (tagged : ∀ glm ∈ calls, Tagged glm)
    (known : ∀ glm ∈ calls, glm.tool ∈ toolNames) :
    parseBlocks read ((cutOut callOpen (endsAt callClose) 0 (printGlms calls)).filter
      fun block => !looksLikeToolResult block) = some [] := by
  have key : KeyName "tool_call".toList := .of_all (by decide +kernel)
  have unknown : "tool_call".toList ∉ toolNames := by decide +kernel
  have blocks : cutOut callOpen (endsAt callClose) 0 (printGlms calls) =
      calls.flatMap (blocksOf "tool_call".toList) :=
    cutOut_glms key tagged fun glm member same => absurd (same ▸ known glm member) unknown
  have each : ∀ block ∈ (calls.flatMap (blocksOf "tool_call".toList)).filter
      (fun block => !looksLikeToolResult block), parseSingleBlock read block = pure none := by
    intro block member
    obtain ⟨glm, listed, inside⟩ := List.mem_flatMap.mp (List.mem_of_mem_filter member)
    have apart : glm.tool ≠ "tool_call".toList := fun same => unknown (same ▸ known glm listed)
    rw [blocksOf, if_neg apart] at inside
    obtain ⟨param, own, rfl⟩ := List.mem_map.mp inside
    obtain ⟨of_glm, named⟩ := List.mem_filter.mp own
    have unopened := ((tagged glm listed).params param of_glm).2
    exact parseSingleBlock_param (of_decide_eq_true named) unopened
  rw [blocks, parseBlocks, mapM_each each]
  simp

/-- A text without blocks of calls is looked through for bare names, and then for other formats. -/
theorem parse_unwrapped {content : Text}
    (none : parseBlocks read ((cutOut callOpen (endsAt callClose) 0
      (stripMarkdownBlocks content)).filter fun block => !looksLikeToolResult block) = some []) :
    DevItFormatParser.parse read content = (parseBlocks read ((cutOut nameOpen bareEnd 0
        (stripMarkdownBlocks content)).map fun block => callOpen ++ block ++ callClose)).map
      fun calls =>
        if calls.isEmpty then parseOther read (stripMarkdownBlocks content) else calls := by
  unfold DevItFormatParser.parse
  dsimp only
  rw [none]
  simp only [Option.bind_eq_bind, Option.bind_some]
  cases parseBlocks read ((cutOut nameOpen bareEnd 0 (stripMarkdownBlocks content)).map
      fun block => callOpen ++ block ++ callClose) with
  | none => rfl
  | some calls => cases calls <;> rfl

/-! ## Code fences -/

theorem strip_tag_text {name : Text} (key : KeyName name) (value rest : Text) :
    stripMarkdownBlocks (value ++ (tag name ++ rest)) =
      stripMarkdownBlocks value ++ (tag name ++ stripMarkdownBlocks rest) := by
  refine strip_tag (strip_absent ?_) value rest
  rw [← Bool.not_eq_true, contains_iff]
  intro inside
  exact key '`' (inside.subset (by decide)) (by decide)

theorem strip_closing_text {name : Text} (key : KeyName name) (value rest : Text) :
    stripMarkdownBlocks (value ++ (tag ('/' :: name) ++ rest)) =
      stripMarkdownBlocks value ++ (tag ('/' :: name) ++ stripMarkdownBlocks rest) := by
  refine strip_tag (strip_absent ?_) value rest
  rw [← Bool.not_eq_true, contains_iff]
  intro inside
  rcases List.mem_cons.mp (inside.subset (by decide : '`' ∈ "```".toList)) with bad | member
  · exact absurd bad (by decide)
  · exact key '`' member (by decide)

/-- A call without the fences in its values. -/
def cleaned (glm : GlmCall) : GlmCall :=
  ⟨glm.tool, glm.params.map fun param => (param.1, stripMarkdownBlocks param.2)⟩

theorem strip_params {rest : Text} (keys : ∀ param ∈ params, KeyName param.1) :
    stripMarkdownBlocks (printParams params ++ rest) =
      printParams (params.map fun param => (param.1, stripMarkdownBlocks param.2)) ++
        stripMarkdownBlocks rest := by
  induction params with
  | nil => rfl
  | cons param params ih =>
    obtain ⟨key, later⟩ := List.forall_mem_cons.mp keys
    have opened := strip_tag_text key []
    have empty : stripMarkdownBlocks [] = [] := by decide
    simp only [List.nil_append, empty] at opened
    rw [printParams_cons, printParam, List.append_assoc, List.append_assoc, List.append_assoc,
      opened, strip_closing_text key, ih later, List.map_cons, printParams_cons, printParam]
    simp only [List.append_assoc]

/-- Fences are taken out of the values one by one. -/
theorem strip_printed (tools : ∀ glm ∈ calls, KeyName glm.tool)
    (keys : ∀ glm ∈ calls, ∀ param ∈ glm.params, KeyName param.1) :
    stripMarkdownBlocks (printGlms calls) = printGlms (calls.map cleaned) := by
  induction calls with
  | nil => decide
  | cons glm calls ih =>
    obtain ⟨tool, laterTools⟩ := List.forall_mem_cons.mp tools
    obtain ⟨own, later⟩ := List.forall_mem_cons.mp keys
    have opened := strip_tag_text tool []
    have closed := strip_closing_text tool []
    have empty : stripMarkdownBlocks [] = [] := by decide
    simp only [List.nil_append, empty] at opened closed
    rw [printGlms_cons, printGlm, List.append_assoc, List.append_assoc, opened, strip_params own,
      closed, ih laterTools later, List.map_cons, printGlms_cons, printGlm, cleaned]
    simp only [List.append_assoc]

/-! ## Calls that can be read -/

theorem Valid.tagged {glm : GlmCall} (valid : Valid read glm) : Tagged glm :=
  ⟨tool_key _ valid.known, fun param member =>
    ⟨valid.named param member, (valid.plain param member).unopened⟩⟩

/-- A tag that is no tool's and no parameter's is not in the text. -/
theorem contains_glms {name : Text} (key : KeyName name) (tagged : ∀ glm ∈ calls, Tagged glm)
    (tools : ∀ glm ∈ calls, glm.tool ≠ name)
    (names : ∀ glm ∈ calls, ∀ param ∈ glm.params, param.1 ≠ name) :
    contains (tag name) (printGlms calls) = false := by
  induction calls with
  | nil => exact contains_nil (tag_ne_nil name)
  | cons glm calls ih =>
    obtain ⟨own, later⟩ := List.forall_mem_cons.mp tagged
    obtain ⟨tool, laterTools⟩ := List.forall_mem_cons.mp tools
    obtain ⟨apart, laterNames⟩ := List.forall_mem_cons.mp names
    have inside : contains (tag name) (printParams glm.params) = false :=
      contains_params key.plain fun param member =>
        ⟨(own.params param member).1, (own.params param member).2, (apart param member).symm,
          key.opening⟩
    rw [printGlms_cons, printGlm, List.append_assoc, List.append_assoc,
      contains_tag_append key.plain, contains_tag key.plain own.tool.plain tool.symm,
      contains_append_tag key.plain, inside, contains_tag_append key.plain,
      contains_tag key.plain own.tool.closing key.opening, ih later laterTools laterNames]
    rfl

theorem valueOf_plain {value : Text} (plain : PlainValue read value) :
    valueOf read value = .string value := by
  rw [valueOf, plain.trimmed, plain.unread, Option.getD_none]

theorem readGlm_valid {glm : GlmCall} (valid : Valid read glm) : readGlm read glm = glm.call := by
  rw [readGlm, GlmCall.call, argumentsOf, argumentsOf]
  refine congrArg (fun fields => ToolCall.mk glm.tool (.object fields)) ?_
  exact List.foldl_ext _ _ _ fun fields param member => by
    rw [valueOf_plain (valid.plain param member)]

/-- Without fences, cleaning changes nothing. -/
theorem cleaned_of_fenceless (fenceless : ∀ glm ∈ calls, ∀ param ∈ glm.params,
    contains "```".toList param.2 = false) : calls.map cleaned = calls := by
  refine (List.map_congr_left fun glm member => ?_).trans (List.map_id calls)
  have values : glm.params.map (fun param => (param.1, stripMarkdownBlocks param.2)) =
      glm.params :=
    (List.map_congr_left fun param inside => congrArg (Prod.mk param.1)
      (strip_absent (fenceless glm member param inside))).trans (List.map_id' _)
  rw [cleaned, values]
  rfl

/-- Readable calls are read back. -/
theorem readsBack_of_readable (valid : ∀ glm ∈ calls, Valid read glm)
    (readable : Readable read calls) : ReadsBack read calls := by
  have tagged : ∀ glm ∈ calls, Tagged glm := fun glm member => (valid glm member).tagged
  have known : ∀ glm ∈ calls, glm.tool ∈ toolNames := fun glm member => (valid glm member).known
  have kept := cleaned_of_fenceless readable.fenceless
  have stripped : stripMarkdownBlocks (printGlms calls) = printGlms calls := by
    rw [strip_printed (fun glm member => (tagged glm member).tool)
      (fun glm member param inside => ((tagged glm member).params param inside).1), kept]
  have unnamed : contains nameOpen (printGlms calls) = false := by
    refine contains_glms ?_ tagged (fun glm member same => ?_) readable.unnamed
    · exact .of_all (by decide +kernel)
    · have unknown : "tool_name".toList ∉ toolNames := by decide +kernel
      exact unknown (same ▸ known glm member)
  have nothing : cutOut nameOpen bareEnd 0 (printGlms calls) = [] := cutOut_absent unnamed
  have blocks := @no_blocks read _ tagged known
  rw [ReadsBack, parse_unwrapped (by rw [stripped]; exact blocks), stripped, nothing]
  have ordered := @parseGlmStyle_ordered read _ tagged known
    (fun glm member => (valid glm member).filled) readable.other readable.ordered
  simp only [List.map_nil, parseBlocks, List.mapM_nil, parseOther, readable.noObject, ordered]
  exact congrArg some (List.map_congr_left fun glm member => readGlm_valid (valid glm member))

end Devit.GlmCalls
