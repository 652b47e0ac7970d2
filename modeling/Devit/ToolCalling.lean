import Devit.Library.Search
import Devit.Library.Json

/-! Tool calls in the answer of a language model. The parser looks for calls between tags;
where it finds none, it tries other ways in which models write them. A call printed as the
parser documents it is found again, with its name trimmed, unless a tag or a code fence is
in what it is printed with. -/
namespace Devit
open Text

structure ToolCall where
  name : Text
  arguments : Json

namespace DevItFormatParser

/-! ## The tags -/

/-- `<name>`. -/
def tag (name : Text) : Text := '<' :: (name ++ ['>'])

def callOpen : Text := tag "tool_call".toList
def callClose : Text := tag "/tool_call".toList
def nameOpen : Text := tag "tool_name".toList
def nameClose : Text := tag "/tool_name".toList
def argsOpen : Text := tag "arguments".toList
def argsClose : Text := tag "/arguments".toList

/-- A block that is closed by this tag ends behind it. -/
def endsAt (close : Text) (s : Text) : Option Nat := (find close s).map (· + close.length)

/-- What is removed of code blocks, in this order. -/
def fences : List Text :=
  ["```xml\n", "```plaintext\n", "```\n", "```xml", "```plaintext", "```"].map String.toList

def stripMarkdownBlocks (content : Text) : Text :=
  fences.foldl (fun result fence => replace fence [] result) content

def looksLikeToolResult (block : Text) : Bool :=
  let has (pattern : String) : Bool := contains pattern.toList block
  let hasToolName := contains nameOpen block
  let hasResultPatterns := has "\"content\": [" || has "\"text\":" || has "File written" ||
    has "\"metadata\":" || has "File written successfully" || has "bytes_written"
  !hasToolName && hasResultPatterns

/-! ## One block -/

section
-- `serde_json::from_str`
variable (read : Text → Option Json)

/-- The characters up to a quote with no backslash before it. -/
def pathValue : Option Char → Text → Text
  | _, [] => []
  | last, c :: cs => if c = '"' ∧ last ≠ some '\\' then [] else c :: pathValue (some c) cs

/-- The text behind a key's opening quote. -/
def behindKey (key : Text) (json : Text) : Option Text := do
  let idx ← find key json
  stripPrefix ['"'] ((json.drop (idx + key.length)).dropWhile isWhitespace)

def repairFileWriteJson (json : Text) : Option Json := do
  let path ← behindKey "\"path\":".toList json
  let content ← behindKey "\"content\":".toList json
  let contentValue ← beforeLast "\"\n\x7d".toList content <|>
    beforeLast "\"\x7d".toList content <|> beforeLast "\"".toList content
  some (.object (Json.insertField "content".toList (.string contentValue)
    (Json.insertField "path".toList (.string (pathValue none path)) [])))

def tryRepairJson (json toolName : Text) : Option Json :=
  if contains "file_write".toList toolName then repairFileWriteJson json
  else read (replace ", \x7d".toList " \x7d".toList (replace ",\n\x7d".toList "\n\x7d".toList json))

/-- Nothing where a tag stands before the one that it closes: the slice panics. -/
def extractArguments (block toolName : Text) : Option Json :=
  match find argsOpen block, find argsClose block with
  | some argsStart, some argsEnd => do
    let argsStr := trim (← slice block (argsStart + argsOpen.length) argsEnd)
    match read argsStr with
    | some value => some value
    | none => some ((tryRepairJson read argsStr toolName).getD (.object []))
  | _, _ => some (.object [])

/-- A call without the tags of its name: the name stands before the arguments. -/
def parseCompact (block : Text) : Option (Option ToolCall) :=
  match find argsOpen block with
  | none => some none
  | some argsStart => do
    let afterTag := ((find callOpen block).map (· + callOpen.length)).getD 0
    let name := trim (← slice block afterTag argsStart)
    if name ≠ [] ∧ '<' ∉ name then
      let arguments ← extractArguments read block name
      some (some ⟨name, arguments⟩)
    else some none

/-- The call of a block, if it is one; nothing at all where a slice panics. -/
def parseSingleBlock (block : Text) : Option (Option ToolCall) :=
  match find nameOpen block, find nameClose block with
  | some nameStart, some nameEnd => do
    let name := trim (← slice block (nameStart + nameOpen.length) nameEnd)
    let arguments ← extractArguments read block name
    some (some ⟨name, arguments⟩)
  | _, _ => parseCompact read block

/-- The calls of blocks, one after the other. -/
def parseBlocks (blocks : List Text) : Option (List ToolCall) :=
  (blocks.mapM (parseSingleBlock read)).map fun calls => calls.filterMap id

/-! ## Other formats -/

/-- A tool name without the tags of a call ends behind its arguments, or without any. -/
def bareEnd (s : Text) : Option Nat := endsAt argsClose s <|> endsAt nameClose s

def callOfObject (object : Json) : Option ToolCall :=
  match (object.get "name".toList).bind Json.asStr, object.get "arguments".toList with
  | some name, some arguments => some ⟨name, arguments⟩
  | _, _ => none

/-- The loop of `try_parse_json_format`: the text since the brace that was opened, and how
many braces are open. -/
def scanJson : Option Text → Int → Text → Option ToolCall
  | _, _, [] => none
  | started, count, c :: cs =>
    if c = '{' then scanJson (some (started.getD [] ++ [c])) (count + 1) cs
    else if c = '}' then
      if count - 1 = 0 then
        match started with
        | none => scanJson none 0 cs
        | some inside =>
          match (read (inside ++ [c])).bind callOfObject with
          | some call => some call
          | none => scanJson none 0 cs
      else scanJson (started.map (· ++ [c])) (count - 1) cs
    else scanJson (started.map (· ++ [c])) count cs

def tryParseJsonFormat (content : Text) : Option ToolCall := scanJson read none 0 content

/-- The loop of `parse_xml_params`, with so many characters to skip. -/
def xmlParams : Nat → Text → List (Text × Json)
  | _, [] => []
  | skip + 1, _ :: cs => xmlParams skip cs
  | 0, c :: cs =>
    if c = '<' then
      match find ['>'] (c :: cs) with
      | none => []
      | some tagEnd =>
        let tagName := cs.take (tagEnd - 1)
        if startsWith ['/'] tagName then xmlParams tagEnd cs
        else
          let closeTag := tag ('/' :: tagName)
          match find closeTag (cs.drop tagEnd) with
          | none => xmlParams tagEnd cs
          | some closeStart =>
            let value := trim ((cs.drop tagEnd).take closeStart)
            (tagName, (read value).getD (.string value)) ::
              xmlParams (tagEnd + closeStart + closeTag.length) cs
    else xmlParams 0 cs

def parseXmlParams (content : Text) : Option Json :=
  match xmlParams read 0 content with
  | [] => none
  | params => some (.object (params.foldl (fun fields param =>
      Json.insertField param.1 param.2 fields) []))

def toolNames : List Text :=
  ["file_read", "file_write", "file_search", "file_list", "shell", "exec", "search_web",
    "fetch_url", "git_log", "git_diff", "git_show", "git_blame", "git_search",
    "project_structure", "directory_list", "explorer", "patch_apply", "snapshot", "ocr",
    "screenshot"].map String.toList

def parseGlmStyle (content : Text) : List ToolCall :=
  toolNames.flatMap fun toolName =>
    let openTag := tag toolName
    let closeTag := tag ('/' :: toolName)
    (cutOut openTag (endsAt closeTag) 0 content).filterMap fun block =>
      let inner := (block.take (block.length - closeTag.length)).drop openTag.length
      (parseXmlParams read inner).map fun arguments => ⟨toolName, arguments⟩

/-! ## A whole answer -/

/-- The formats that are tried where there are no calls between tags. -/
def parseOther (cleaned : Text) : List ToolCall :=
  match tryParseJsonFormat read cleaned with
  | some call => [call]
  | none => parseGlmStyle read cleaned

/-- Nothing where a slice panics. -/
def parse (content : Text) : Option (List ToolCall) := do
  let cleaned := stripMarkdownBlocks content
  let blocks := cutOut callOpen (endsAt callClose) 0 cleaned
  match ← parseBlocks read (blocks.filter fun block => !looksLikeToolResult block) with
  | [] =>
    let blocks := cutOut nameOpen bareEnd 0 cleaned
    match ← parseBlocks read (blocks.map fun block => callOpen ++ block ++ callClose) with
    | [] => some (parseOther read cleaned)
    | calls => some calls
  | calls => some calls

end

/-! ## Calls as they are printed -/

/-- A call in the format that the parser documents. -/
def printCall (name text : Text) : Text :=
  callOpen ++ (['\n'] ++ (nameOpen ++ (name ++ (nameClose ++ (['\n'] ++ (argsOpen ++
    (['\n'] ++ text ++ ['\n'] ++ (argsClose ++ (['\n'] ++ callClose)))))))))

/-- A call with the JSON text of its arguments and the text behind it. -/
structure Printed where
  call : ToolCall
  text : Text
  behind : Text

/-- An answer: calls, with text before, between and behind them. -/
def embed (before : Text) (calls : List Printed) : Text :=
  before ++ calls.flatMap fun c => printCall c.call.name c.text ++ c.behind

/-! ## Searching for tags -/

/-- The names of the tags have none of these characters. -/
def PlainName (name : Text) : Prop := '<' ∉ name ∧ '>' ∉ name ∧ '\n' ∉ name

instance (name : Text) : Decidable (PlainName name) := inferInstanceAs (Decidable (_ ∧ _))

variable {name : Text}

theorem tag_ne_nil (name : Text) : tag name ≠ [] := List.cons_ne_nil _ _

theorem stops_tag (plain : PlainName name) (other rest : Text) :
    Stops (tag name) (tag other ++ rest) := by
  rintro c ⟨⟩ member
  have inside : '<' ∈ name ++ ['>'] := member
  simp [plain.1] at inside

theorem stops_newline (plain : PlainName name) (rest : Text) :
    Stops (tag name) (['\n'] ++ rest) := by
  rintro c ⟨⟩ member
  have inside : '\n' ∈ name ++ ['>'] := member
  simp [plain.2.2] at inside

theorem closes_tag (plain : PlainName name) (other : Text) : Closes (tag name) (tag other) := by
  intro c last member
  have final : (tag other).getLast? = some '>' := by
    rw [tag, ← List.cons_append, List.getLast?_concat]
  rw [final] at last
  cases last
  rw [tag, ← List.cons_append, List.dropLast_concat] at member
  simp [plain.2.1] at member

theorem contains_tag_append (plain : PlainName name) (other rest : Text) :
    contains (tag name) (tag other ++ rest) =
      (contains (tag name) (tag other) || contains (tag name) rest) :=
  contains_closes (tag_ne_nil name) rest (closes_tag plain other)

theorem contains_append_tag (plain : PlainName name) (part other rest : Text) :
    contains (tag name) (part ++ (tag other ++ rest)) =
      (contains (tag name) part || contains (tag name) (tag other ++ rest)) :=
  contains_stops (tag_ne_nil name) part (stops_tag plain other rest)

theorem contains_newline_append (name rest : Text) :
    contains (tag name) (['\n'] ++ rest) = contains (tag name) rest := by
  have here : startsWith (tag name) ('\n' :: rest) = false := startsWith_head_ne (by decide)
  rw [List.singleton_append, contains, here, Bool.false_or]

theorem contains_append_newline (plain : PlainName name) (part : Text) :
    contains (tag name) (part ++ ['\n']) = contains (tag name) part := by
  have ends := contains_stops (tag_ne_nil name) part (stops_newline plain [])
  have alone := contains_newline_append name []
  rw [List.append_nil] at ends alone
  rw [ends, alone, contains_nil (tag_ne_nil name), Bool.or_false]

/-- A tag that is not in front of the place where it stands is found there. -/
theorem find_tag (plain : PlainName name) {front : Text}
    (absent : contains (tag name) front = false) (rest : Text) :
    find (tag name) (front ++ (tag name ++ rest)) = some front.length := by
  refine find_append (tag_ne_nil name) rest absent ?_
  have stops := stops_tag plain name []
  rwa [List.append_nil] at stops

/-! ## One printed call -/

/-- What the parser needs of the name and the text of a call: no tag that it looks for
behind them. -/
structure Fits (name text : Text) : Prop where
  name_close : contains nameClose name = false
  name_open_args : contains argsOpen name = false
  name_close_args : contains argsClose name = false
  name_close_call : contains callClose name = false
  text_close_args : contains argsClose text = false
  text_close_call : contains callClose text = false

/-- What is printed in front of the arguments. -/
def upToArgs (name : Text) : Text :=
  callOpen ++ (['\n'] ++ (nameOpen ++ (name ++ (nameClose ++ ['\n']))))

/-- What is printed in front of the end of the arguments. -/
def upToText (name text : Text) : Text :=
  callOpen ++ (['\n'] ++ (nameOpen ++ (name ++ (nameClose ++ (['\n'] ++ (argsOpen ++
    (['\n'] ++ text ++ ['\n'])))))))

theorem contains_upToText {tagName name text : Text} (plain : PlainName tagName)
    (others : contains (tag tagName) callOpen = false ∧ contains (tag tagName) nameOpen = false ∧
      contains (tag tagName) nameClose = false ∧ contains (tag tagName) argsOpen = false)
    (inName : contains (tag tagName) name = false) (inText : contains (tag tagName) text = false) :
    contains (tag tagName) (upToText name text) = false := by
  obtain ⟨callOpen_ne, nameOpen_ne, nameClose_ne, argsOpen_ne⟩ := others
  rw [upToText, callOpen, contains_tag_append plain, ← callOpen, callOpen_ne,
    contains_newline_append, nameOpen, contains_tag_append plain, ← nameOpen, nameOpen_ne,
    nameClose, contains_append_tag plain, inName, contains_tag_append plain, ← nameClose,
    nameClose_ne, contains_newline_append, argsOpen, contains_tag_append plain, ← argsOpen,
    argsOpen_ne, contains_append_newline plain, contains_newline_append, inText]
  rfl

theorem printCall_split (name text : Text) :
    printCall name text = upToText name text ++ (argsClose ++ (['\n'] ++ callClose)) := by
  simp only [printCall, upToText, List.append_assoc]

/-- The text between two tags that are found is cut out. -/
theorem slice_between {block front inner rest opening : Text}
    (shape : block = front ++ (opening ++ (inner ++ rest))) :
    slice block (front.length + opening.length) (front ++ (opening ++ inner)).length =
      some inner := by
  have cut := slice_append (front ++ opening) inner rest
  rw [List.append_assoc, ← shape, List.length_append] at cut
  simpa only [List.length_append, Nat.add_assoc] using cut

theorem trim_lines (text : Text) : trim (['\n'] ++ text ++ ['\n']) = trim text := by
  rw [trim_append_space (by decide)]
  rfl

theorem extractArguments_printed {read : Text → Option Json} {name text : Text} {value : Json}
    (fits : Fits name text) (reads : read (trim text) = some value) (toolName : Text) :
    extractArguments read (printCall name text) toolName = some value := by
  have shape : printCall name text = upToArgs name ++ (argsOpen ++ ((['\n'] ++ text ++ ['\n']) ++
      (argsClose ++ (['\n'] ++ callClose)))) := by
    simp only [upToArgs, printCall, List.append_assoc]
  have upTo : upToText name text = upToArgs name ++ (argsOpen ++ (['\n'] ++ text ++ ['\n'])) := by
    simp only [upToArgs, upToText, List.append_assoc]
  have plainOpen : PlainName "arguments".toList := by decide
  have plainClose : PlainName "/arguments".toList := by decide
  have inFront : contains argsOpen (upToArgs name) = false := by
    have inCallOpen : contains argsOpen callOpen = false := by decide
    have inNameOpen : contains argsOpen nameOpen = false := by decide
    have inNameClose : contains argsOpen nameClose = false := by decide
    have inName := fits.name_open_args
    rw [argsOpen] at inCallOpen inNameOpen inNameClose inName ⊢
    rw [upToArgs, callOpen, contains_tag_append plainOpen, ← callOpen, inCallOpen,
      contains_newline_append, nameOpen, contains_tag_append plainOpen, ← nameOpen, inNameOpen, nameClose,
      contains_append_tag plainOpen, inName, contains_append_newline plainOpen, ← nameClose,
      inNameClose]
    rfl
  have opens : find argsOpen (printCall name text) = some (upToArgs name).length := by
    rw [shape]
    exact find_tag plainOpen inFront _
  have closes : find argsClose (printCall name text) = some (upToText name text).length := by
    rw [printCall_split]
    exact find_tag plainClose (contains_upToText plainClose (by decide) fits.name_close_args
      fits.text_close_args) _
  unfold extractArguments
  rw [opens, closes, upTo]
  have cut := slice_between shape
  simp only [cut, Option.bind_eq_bind, Option.bind_some, trim_lines, reads]

/-- **One call.** A printed call is read as it is, with its name trimmed. -/
theorem parseSingleBlock_printed {read : Text → Option Json} {name text : Text} {value : Json}
    (fits : Fits name text) (reads : read (trim text) = some value) :
    parseSingleBlock read (printCall name text) = some (some ⟨trim name, value⟩) := by
  have shape : printCall name text = (callOpen ++ ['\n']) ++ (nameOpen ++ (name ++ (nameClose ++
      (['\n'] ++ (argsOpen ++ (['\n'] ++ text ++ ['\n'] ++
        (argsClose ++ (['\n'] ++ callClose)))))))) := by
    simp only [printCall, List.append_assoc]
  have plainOpen : PlainName "tool_name".toList := by decide
  have plainClose : PlainName "/tool_name".toList := by decide
  have opens : find nameOpen (printCall name text) = some (callOpen ++ ['\n']).length := by
    rw [shape]
    exact find_tag plainOpen (by decide) _
  have inFront : contains nameClose ((callOpen ++ ['\n']) ++ (nameOpen ++ name)) = false := by
    have inCallOpen : contains nameClose (callOpen ++ ['\n']) = false := by decide
    have inNameOpen : contains nameClose nameOpen = false := by decide
    have inName := fits.name_close
    rw [nameClose] at inCallOpen inNameOpen inName ⊢
    rw [nameOpen, contains_append_tag plainClose, inCallOpen, contains_tag_append plainClose,
      ← nameOpen, inNameOpen, inName]
    rfl
  have closes : find nameClose (printCall name text) =
      some ((callOpen ++ ['\n']) ++ (nameOpen ++ name)).length := by
    have regrouped := shape
    rw [← List.append_assoc nameOpen name, ← List.append_assoc] at regrouped
    rw [regrouped]
    exact find_tag plainClose inFront _
  unfold parseSingleBlock
  rw [opens, closes]
  have cut := slice_between shape
  simp only [cut, Option.bind_eq_bind, Option.bind_some, extractArguments_printed fits reads]

/-! ## Removing code fences -/

/-- A character that is in no fence parts a text into two that are cleaned apart. -/
theorem strip_split {c : Char} (other : ∀ fence ∈ fences, c ∉ fence) (a b : Text) :
    stripMarkdownBlocks (a ++ c :: b) = stripMarkdownBlocks a ++ c :: stripMarkdownBlocks b := by
  have filled : ∀ fence ∈ fences, fence ≠ [] := by decide
  unfold stripMarkdownBlocks
  generalize fences = patterns at other filled
  induction patterns generalizing a b with
  | nil => rfl
  | cons fence patterns ih =>
    simp only [List.foldl_cons]
    rw [replace_split (filled fence List.mem_cons_self) (other fence List.mem_cons_self)]
    exact ih _ _ (fun fence member => other fence (List.mem_cons_of_mem _ member))
      fun fence member => filled fence (List.mem_cons_of_mem _ member)

/-- A tag stays, and what is before and behind it is cleaned apart. -/
theorem strip_tag {name : Text} (plain : stripMarkdownBlocks name = name) (a b : Text) :
    stripMarkdownBlocks (a ++ (tag name ++ b)) =
      stripMarkdownBlocks a ++ (tag name ++ stripMarkdownBlocks b) := by
  have shape : tag name ++ b = '<' :: (name ++ '>' :: b) := by simp [tag]
  rw [shape, strip_split (by decide), strip_split (by decide), plain]
  simp [tag]

theorem contains_longer {p q s : Text} (found : contains (p ++ q) s = true) :
    contains p s = true := by
  have shorter : ∀ s, startsWith (p ++ q) s = true → startsWith p s = true := by
    intro s here
    obtain ⟨rest, shape⟩ := startsWith_iff.mp here
    exact startsWith_iff.mpr ⟨q ++ rest, by rw [shape, List.append_assoc]⟩
  induction s with
  | nil => exact shorter [] found
  | cons c s ih =>
    rw [contains, Bool.or_eq_true] at found ⊢
    exact found.imp (shorter _) ih

/-- A text without a fence is left as it is. -/
theorem strip_absent {s : Text} (absent : contains "```".toList s = false) :
    stripMarkdownBlocks s = s := by
  have longer : ∀ fence ∈ fences, ∃ more, fence = "```".toList ++ more := by
    intro fence member
    refine ⟨fence.drop 3, ?_⟩
    revert fence
    decide
  unfold stripMarkdownBlocks
  generalize fences = patterns at longer
  induction patterns with
  | nil => rfl
  | cons fence patterns ih =>
    obtain ⟨more, shape⟩ := longer fence List.mem_cons_self
    have gone : contains fence s = false := by
      rw [← Bool.not_eq_true, shape]
      intro found
      rw [contains_longer found] at absent
      cases absent
    rw [List.foldl_cons, replace_absent gone]
    exact ih fun other member => longer other (List.mem_cons_of_mem _ member)

theorem strip_lines {text : Text} (absent : contains "```".toList text = false) :
    stripMarkdownBlocks (['\n'] ++ text ++ ['\n']) = ['\n'] ++ text ++ ['\n'] := by
  refine strip_absent ?_
  have here : startsWith "```".toList ('\n' :: (text ++ ['\n'])) = false :=
    startsWith_head_ne (by decide)
  have ends : contains "```".toList (text ++ ['\n']) = false := by
    rw [contains_stops (by decide) text (by rintro c ⟨⟩; decide), absent]
    decide
  rw [List.singleton_append, List.cons_append, contains, here, ends]
  rfl

/-- A printed call stays one, with its name cleaned. -/
theorem strip_printCall {text : Text} (absent : contains "```".toList text = false)
    (name before behind : Text) :
    stripMarkdownBlocks (before ++ (printCall name text ++ behind)) =
      stripMarkdownBlocks before ++
        (printCall (stripMarkdownBlocks name) text ++ stripMarkdownBlocks behind) := by
  have newline : stripMarkdownBlocks ['\n'] = ['\n'] := by decide
  simp only [printCall, List.append_assoc]
  rw [callOpen, strip_tag (by decide), nameOpen, strip_tag (by decide), newline, nameClose,
    strip_tag (by decide), argsOpen, strip_tag (by decide), newline]
  have regrouped : ∀ rest, ['\n'] ++ (text ++ (['\n'] ++ rest)) =
      (['\n'] ++ text ++ ['\n']) ++ rest := by simp
  rw [regrouped, argsClose, strip_tag (by decide), strip_lines absent, callClose,
    strip_tag (by decide), newline]
  simp only [List.append_assoc]

/-! ## Whole answers -/

/-- Whether calls are found again: no tag of a call is in the text around them, once the
fences are gone; no fence is in the arguments, and no tag that closes a part too early in a
name or in the arguments. Where there are no calls, the text has none in another format. -/
structure Readable (read : Text → Option Json) (before : Text) (calls : List Printed) : Prop where
  start : contains callOpen (stripMarkdownBlocks before) = false
  between : ∀ c ∈ calls, contains callOpen (stripMarkdownBlocks c.behind) = false
  fenceless : ∀ c ∈ calls, contains "```".toList c.text = false
  fits : ∀ c ∈ calls, Fits (stripMarkdownBlocks c.call.name) c.text
  other : calls = [] → contains nameOpen (stripMarkdownBlocks before) = false ∧
    parseOther read (stripMarkdownBlocks before) = []

/-- A call as it is read: its name is cleaned and trimmed. -/
def asRead (call : ToolCall) : ToolCall := ⟨trim (stripMarkdownBlocks call.name), call.arguments⟩

theorem strip_embed {calls : List Printed}
    (fenceless : ∀ c ∈ calls, contains "```".toList c.text = false) (before : Text) :
    stripMarkdownBlocks (embed before calls) = stripMarkdownBlocks before ++ calls.flatMap
      fun c => printCall (stripMarkdownBlocks c.call.name) c.text ++ stripMarkdownBlocks c.behind := by
  induction calls generalizing before with
  | nil => simp [embed]
  | cons c calls ih =>
    have later := ih (fun other member => fenceless other (List.mem_cons_of_mem _ member)) c.behind
    rw [embed] at later ⊢
    rw [List.flatMap_cons, List.append_assoc,
      strip_printCall (fenceless c List.mem_cons_self), later, List.flatMap_cons,
      List.append_assoc]

/-- A printed call ends where it is printed to end. -/
theorem ends_printCall {name text : Text} (fits : Fits name text) (rest : Text) :
    endsAt callClose (printCall name text ++ rest) = some (printCall name text).length := by
  have plain : PlainName "/tool_call".toList := by decide
  have shape : printCall name text ++ rest =
      (upToText name text ++ (argsClose ++ ['\n'])) ++ (callClose ++ rest) := by
    rw [printCall_split]
    simp only [List.append_assoc]
  have inFront : contains callClose (upToText name text ++ (argsClose ++ ['\n'])) = false := by
    have inArgsClose : contains callClose argsClose = false := by decide
    have upTo := contains_upToText plain (by decide) fits.name_close_call fits.text_close_call
    rw [callClose] at inArgsClose ⊢
    rw [argsClose, contains_append_tag plain, upTo, ← argsClose, contains_append_newline plain,
      inArgsClose]
    rfl
  rw [endsAt, shape, callClose, find_tag plain inFront, printCall_split, callClose]
  simp only [Option.map_some, List.length_append, Nat.add_assoc]

theorem stops_printCall (name text rest : Text) : Stops callOpen (printCall name text ++ rest) := by
  have stops := stops_tag (by decide : PlainName "tool_call".toList) "tool_call".toList
  rw [printCall, List.append_assoc]
  exact stops _

theorem printCall_opens (name text : Text) : startsWith callOpen (printCall name text) = true :=
  startsWith_append callOpen _

/-- The blocks that are cut out of a cleaned answer are its calls. -/
theorem cutOut_calls {calls : List Printed} {before : Text}
    (start : contains callOpen before = false)
    (between : ∀ c ∈ calls, contains callOpen (stripMarkdownBlocks c.behind) = false)
    (fits : ∀ c ∈ calls, Fits (stripMarkdownBlocks c.call.name) c.text) :
    cutOut callOpen (endsAt callClose) 0 (before ++ calls.flatMap fun c =>
        printCall (stripMarkdownBlocks c.call.name) c.text ++ stripMarkdownBlocks c.behind) =
      calls.map fun c => printCall (stripMarkdownBlocks c.call.name) c.text := by
  induction calls generalizing before with
  | nil =>
    rw [List.flatMap_nil, List.append_nil]
    exact cutOut_absent start
  | cons c calls ih =>
    have later := ih (between c List.mem_cons_self)
      (fun other member => between other (List.mem_cons_of_mem _ member))
      (fun other member => fits other (List.mem_cons_of_mem _ member))
    have opened : printCall (stripMarkdownBlocks c.call.name) c.text ≠ [] := List.cons_ne_nil _ _
    rw [List.flatMap_cons, List.append_assoc, cutOut_behind start (stops_printCall _ _ _),
      cutOut_piece opened (printCall_opens _ _) (ends_printCall (fits c List.mem_cons_self) _),
      later, List.map_cons]

theorem looksLikeToolResult_printed (name text : Text) :
    looksLikeToolResult (printCall name text) = false := by
  have plain : PlainName "tool_name".toList := by decide
  have named : contains nameOpen (printCall name text) = true := by
    have itself : contains nameOpen nameOpen = true := by decide
    rw [nameOpen] at itself
    rw [printCall, nameOpen, callOpen, contains_tag_append plain, contains_newline_append,
      contains_tag_append plain, itself, Bool.true_or, Bool.or_true]
  simp only [looksLikeToolResult, named, Bool.not_true, Bool.false_and]

theorem parseBlocks_map {α : Type} {read : Text → Option Json} {items : List α}
    {block : α → Text} {call : α → ToolCall}
    (each : ∀ item ∈ items, parseSingleBlock read (block item) = some (some (call item))) :
    parseBlocks read (items.map block) = some (items.map call) := by
  have found : (items.map block).mapM (parseSingleBlock read) =
      some (items.map fun item => some (call item)) := by
    rw [List.mapM_map]
    exact mapM_each each
  rw [parseBlocks, found, Option.map_some, List.filterMap_map, Function.comp_def]
  exact congrArg some (congrFun List.filterMap_eq_map' items)

theorem parse_printed {read : Text → Option Json} {before : Text} {calls : List Printed}
    (reads : ∀ c ∈ calls, read (trim c.text) = some c.call.arguments)
    (readable : Readable read before calls) :
    parse read (embed before calls) = some (calls.map fun c => asRead c.call) := by
  unfold parse
  dsimp only
  rw [strip_embed readable.fenceless,
    cutOut_calls readable.start readable.between readable.fits]
  have kept : (calls.map fun c => printCall (stripMarkdownBlocks c.call.name) c.text).filter
      (fun block => !looksLikeToolResult block) =
      calls.map fun c => printCall (stripMarkdownBlocks c.call.name) c.text := by
    refine List.filter_eq_self.mpr fun block member => ?_
    obtain ⟨c, -, rfl⟩ := List.mem_map.mp member
    rw [looksLikeToolResult_printed]
    rfl
  have wrapped := @parseBlocks_map _ read calls _ (fun c => asRead c.call) fun c member =>
    parseSingleBlock_printed (readable.fits c member) (reads c member)
  rw [kept, wrapped]
  cases calls with
  | cons c calls => rfl
  | nil =>
    obtain ⟨unnamed, none⟩ := readable.other rfl
    have nothing : cutOut nameOpen bareEnd 0 (stripMarkdownBlocks before) = [] :=
      cutOut_absent unnamed
    simp only [List.flatMap_nil, List.append_nil, List.map_nil, nothing, none]
    rfl

/-- **Tool calls.** Calls printed between text are read back in order, with their names
cleaned and trimmed. -/
theorem parse_embed {read : Text → Option Json} {before : Text} {calls : List Printed}
    (reads : ∀ c ∈ calls, read (trim c.text) = some c.call.arguments)
    (readable : Readable read before calls) :
    parse read (embed before calls) = some (calls.map fun c => asRead c.call) :=
  parse_printed reads readable

/-- The arguments of a call that reads a file. -/
def readArguments : Text := "\x7b\"path\": \"src/main.rs\"\x7d".toList

/-- The arguments of a call that writes a fence, and the same once it is cleaned. -/
def fenceArguments : Text := "\x7b\"content\": \"```\"\x7d".toList
def cleanedArguments : Text := "\x7b\"content\": \"\"\x7d".toList

/-- A call in the other format. -/
def jsonCall : Text := "\x7b\"name\": \"ocr\", \"arguments\": 1\x7d".toList

/-- `serde_json::from_str` on these four texts. -/
def sampleRead (text : Text) : Option Json :=
  if text = readArguments then
    some (.object [("path".toList, .string "src/main.rs".toList)])
  else if text = fenceArguments then some (.object [("content".toList, .string "```".toList)])
  else if text = cleanedArguments then some (.object [("content".toList, .string [])])
  else if text = jsonCall then
    some (.object [("arguments".toList, .unsigned 1), ("name".toList, .string "ocr".toList)])
  else none

def sampleCall : Printed where
  call := ⟨"file_read".toList, .object [("path".toList, .string "src/main.rs".toList)]⟩
  text := readArguments
  behind := "\n\nLet me check the contents.".toList

theorem sampleCall_read :
    parse sampleRead (embed "I'll read that file for you.\n\n".toList [sampleCall]) =
      some [asRead sampleCall.call] := by
  refine @parse_embed sampleRead _ [sampleCall] ?_ ⟨by decide +kernel, ?_, ?_, ?_, ?_⟩
  · refine List.forall_mem_singleton.mpr ?_
    have trimmed : trim sampleCall.text = readArguments := by decide +kernel
    rw [trimmed, sampleRead, if_pos rfl]
    rfl
  · exact List.forall_mem_singleton.mpr (by decide +kernel)
  · exact List.forall_mem_singleton.mpr (by decide +kernel)
  · exact List.forall_mem_singleton.mpr ⟨by decide +kernel, by decide +kernel, by decide +kernel,
      by decide +kernel, by decide +kernel, by decide +kernel⟩
  · rintro ⟨⟩

/-- What is asked: the calls come back as they were. -/
def RoundTrips (read : Text → Option Json) (before : Text) (calls : List Printed) : Prop :=
  parse read (embed before calls) = some (calls.map (·.call))

def fenceCall : Printed where
  call := ⟨"file_write".toList, .object [("content".toList, .string "```".toList)]⟩
  text := fenceArguments
  behind := []

/-- An object in a text without calls is taken for one, and a fence in an argument is
lost. -/
theorem text_read_as_call :
    ¬ RoundTrips sampleRead jsonCall [] ∧ ¬ RoundTrips sampleRead [] [fenceCall] := by
  constructor
  · intro back
    have counted : (parse sampleRead (embed jsonCall [])).map List.length = some 1 := by
      decide +kernel
    rw [back] at counted
    cases counted
  · intro back
    have written : (parse sampleRead (embed [] [fenceCall])).map (fun calls => calls.map fun call =>
        (call.arguments.get "content".toList).bind Json.asStr) = some [some []] := by
      decide +kernel
    rw [back] at written
    exact absurd written (by decide +kernel)

end DevItFormatParser

end Devit
