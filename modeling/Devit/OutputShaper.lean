import Devit.Library.Json
import Devit.Library.Path
import Devit.Library.Search
import Devit.Library.Utf8

/-! The output shaper. The output of a command that is longer than a threshold is summarized in
the first format that it looks like, and a summary that is still too long is cut. Each slice of
a text panics where it ends inside a character. -/
namespace Devit
open Text

/-- What the shapers use: `serde_json::from_str` with the text of its error,
`str::to_uppercase`, and the order in which a hash map is walked. -/
structure ShaperCrates where
  fromStr : Text → Except Text Json
  toUppercase : Text → Text
  order : List (Text × Nat) → List (Text × Nat)

inductive IntentHint where
  | auto
  | debug
  | explore
  | verbose
  | raw
  deriving DecidableEq

inductive OutputFormat where
  | gccClang
  | rustCargo
  | python
  | json
  | directoryTree
  | logFile
  | plain
  deriving DecidableEq

structure OutputMetadata where
  errorCount : Nat := 0
  warningCount : Nat := 0
  lineCount : Nat := 0
  truncated : Bool := false

structure ShapedOutput where
  compact : Text
  rawPath : Option PathBuf
  format : OutputFormat
  originalSize : Nat
  compactSize : Nat
  metadata : OutputMetadata

/-- A format. Shaping gives nothing where a slice panics. -/
structure FormatShaper where
  detect : Text → Bool
  shape : Text → IntentHint → Option (Text × OutputMetadata)
  format : OutputFormat

structure OutputShaper where
  shapers : List FormatShaper
  threshold : Nat
  maxCompactSize : Nat

namespace OutputShaper

def has (pat : String) (s : Text) : Bool := contains pat.toList s

def begins (pat : String) (s : Text) : Bool := startsWith pat.toList s

def ends (pat : String) (s : Text) : Bool := (stripSuffix pat.toList s).isSome

/-- A line that gives a number. -/
def countLine (label : String) (n : Nat) : Text := label.toList ++ printNat n ++ ['\n']

def moreLine (n : Nat) (label : String) : Text := "... and ".toList ++ printNat n ++ label.toList

/-! ## GCC and Clang -/

namespace GccClang

def detect (output : Text) : Bool :=
  has ": error:" output || has ": warning:" output || has ": fatal error:" output

def isError (line : Text) : Bool := has ": error:" line || has ": fatal error:" line

def isWarning (line : Text) : Bool := !isError line && has ": warning:" line

def isOther (line : Text) : Bool :=
  !isError line && !isWarning line && (has "error:" line || begins "make:" line)

def errorPart (errors : List Text) : Text :=
  if errors = [] then []
  else
    "### Errors\n```\n".toList ++
      ((errors.take 10).zipIdx.flatMap fun (err, i) =>
        printNat (i + 1) ++ ". ".toList ++ err ++ ['\n']) ++
      (if errors.length > 10 then moreLine (errors.length - 10) " more errors\n" else []) ++
      "```\n\n".toList

def warningPart (warnings : List Text) : Text :=
  if warnings = [] then []
  else
    "### Warnings (first 5)\n```\n".toList ++ unlines (warnings.take 5) ++
      (if warnings.length > 5 then moreLine (warnings.length - 5) " more warnings\n" else []) ++
      "```\n".toList

def otherPart (others : List Text) : Text :=
  if others = [] then []
  else "\n### Build System\n```\n".toList ++ unlines (others.take 5) ++ "```\n".toList

def shape (output : Text) (hint : IntentHint) : Text × OutputMetadata :=
  let errors := (lines output).filter isError
  let warnings := (lines output).filter isWarning
  let others := (lines output).filter isOther
  let compact := "## Compilation Summary\n".toList ++ countLine "- Errors: " errors.length ++
    countLine "- Warnings: " warnings.length ++ ['\n'] ++ errorPart errors ++
    (if hint = .verbose ∨ errors = [] then warningPart warnings else []) ++ otherPart others
  (compact, {
    errorCount := errors.length
    warningCount := warnings.length
    lineCount := (lines output).length
    truncated := errors.length > 10 ∨ warnings.length > 5 })

end GccClang

/-! ## Cargo -/

namespace RustCargo

def detect (output : Text) : Bool :=
  has "error[E" output || (has "warning:" output && has "-->" output) ||
    has "Compiling " output || has "cargo " output

/-- The blocks of lines read so far, and the one under way. -/
structure Blocks where
  errors : List Text
  warnings : List Text
  currentBlock : Text
  inError : Bool
  inWarning : Bool

def Blocks.close (s : Blocks) : Blocks :=
  if s.inError then { s with errors := s.errors ++ [s.currentBlock] }
  else if s.inWarning then { s with warnings := s.warnings ++ [s.currentBlock] }
  else s

def Blocks.closeFilled (s : Blocks) : Blocks := if s.currentBlock ≠ [] then s.close else s

def step (s : Blocks) (line : Text) : Blocks :=
  if begins "error[E" line || begins "error:" line then
    { s.closeFilled with currentBlock := line, inError := true, inWarning := false }
  else if begins "warning:" line then
    { s.closeFilled with currentBlock := line, inError := false, inWarning := true }
  else if s.inError || s.inWarning then
    if begins "   " line || begins " -->" line || trim line = [] then
      { s with currentBlock := s.currentBlock ++ '\n' :: line }
    else if begins "For more information" line || begins "Some errors" line then
      { s.close with currentBlock := [], inError := false, inWarning := false }
    else s
  else s

def blocks (output : Text) : Blocks :=
  ((lines output).foldl step ⟨[], [], [], false, false⟩).closeFilled

def errorPart (errors : List Text) : Text :=
  if errors = [] then []
  else
    "### Errors\n".toList ++
      ((errors.take 5).zipIdx.flatMap fun (err, i) =>
        countLine "#### Error " (i + 1) ++ "```\n".toList ++ err ++ "\n```\n\n".toList) ++
      (if errors.length > 5 then
        moreLine (errors.length - 5) " more errors (see raw output)\n\n" else [])

def warningPart (warnings : List Text) : Text :=
  if warnings = [] then []
  else
    "### Warnings (first 3)\n".toList ++
      (warnings.take 3).flatMap fun warn => "```\n".toList ++ warn ++ "\n```\n".toList

def shape (output : Text) (hint : IntentHint) : Text × OutputMetadata :=
  let errors := (blocks output).errors
  let warnings := (blocks output).warnings
  let compact := "## Cargo Build Summary\n".toList ++ countLine "- Errors: " errors.length ++
    countLine "- Warnings: " warnings.length ++ ['\n'] ++ errorPart errors ++
    (if hint = .verbose then warningPart warnings else [])
  (compact, {
    errorCount := errors.length
    warningCount := warnings.length
    lineCount := (lines output).length
    truncated := errors.length > 5 })

end RustCargo

/-! ## Tallies -/

/-- The entries of a map that counts keys. -/
def tally (keys : List Text) : List (Text × Nat) :=
  keys.dedup.map fun key => (key, keys.count key)

/-- The entries of the map, those with the greatest counts first. -/
def ranked (crates : ShaperCrates) (keys : List Text) : List (Text × Nat) :=
  (crates.order (tally keys)).mergeSort fun a b => b.2 ≤ a.2

/-! ## Python -/

namespace PythonTraceback

def header : String := "Traceback (most recent call last):"

def detect (output : Text) : Bool :=
  has header output || (has "  File \"" output && has "\", line " output) ||
    has "SyntaxError:" output || has "IndentationError:" output ||
    has "ModuleNotFoundError:" output || has "ImportError:" output

/-- The tracebacks read so far, the one under way, and the types of errors as they came. -/
structure Tracebacks where
  tracebacks : List Text
  currentTb : Text
  inTraceback : Bool
  errorTypes : List Text

/-- `line[..colon_pos]`, if there is a colon. -/
def beforeColon (line : Text) : Option (Option Text) :=
  match find [':'] line with
  | none => some none
  | some i => (sliceTo (byteLen (line.take i)) line).map some

def isErrorType (name : Text) : Bool :=
  !contains [' '] name || ends "Error" name || ends "Exception" name

def step (s : Tracebacks) (line : Text) : Option Tracebacks :=
  if has header line then
    let tracebacks := if s.currentTb ≠ [] then s.tracebacks ++ [s.currentTb] else s.tracebacks
    some { s with tracebacks := tracebacks, currentTb := line, inTraceback := true }
  else if s.inTraceback then
    let current := s.currentTb ++ '\n' :: line
    if !begins " " line && line ≠ [] && !begins "Traceback" line then
      (beforeColon line).map fun errorType =>
        { tracebacks := s.tracebacks ++ [current]
          currentTb := []
          inTraceback := false
          errorTypes := s.errorTypes ++ errorType.toList }
    else some { s with currentTb := current }
  else if has "Error:" line || has "Exception:" line || has "Warning:" line then
    (beforeColon line).map fun found =>
      match (found.map trim).filter isErrorType with
      | some errorType =>
        { s with
          tracebacks := s.tracebacks ++ [line]
          errorTypes := s.errorTypes ++ [errorType] }
      | none => s
  else some s

def collect (output : Text) : Option Tracebacks :=
  (lines output).foldlM step ⟨[], [], false, []⟩

def typePart (crates : ShaperCrates) (errorTypes : List Text) : Text :=
  if errorTypes = [] then []
  else
    "- Error types:\n".toList ++
      ((ranked crates errorTypes).take 5).flatMap fun (errType, count) =>
        "  - ".toList ++ errType ++ countLine ": " count

def tracebackPart (tracebacks : List Text) (maxTracebacks : Nat) : Text :=
  if tracebacks = [] then []
  else
    "### Tracebacks\n".toList ++
      ((tracebacks.take maxTracebacks).zipIdx.flatMap fun (tb, i) =>
        countLine "#### Exception " (i + 1) ++ "```python\n".toList ++ tb ++
          "\n```\n\n".toList) ++
      (if tracebacks.length > maxTracebacks then
        moreLine (tracebacks.length - maxTracebacks) " more tracebacks (see raw output)\n" else [])

def shape (crates : ShaperCrates) (output : Text) (hint : IntentHint) :
    Option (Text × OutputMetadata) :=
  (collect output).map fun found =>
    let compact := "## Python Error Summary\n".toList ++
      countLine "- Total exceptions: " found.tracebacks.length ++
      typePart crates found.errorTypes ++ ['\n'] ++
      tracebackPart found.tracebacks (if hint = .verbose then 5 else 3)
    (compact, {
      errorCount := found.tracebacks.length
      lineCount := (lines output).length
      truncated := found.tracebacks.length > 3 })

end PythonTraceback

/-! ## JSON -/

namespace JsonShaper

def detect (output : Text) : Bool :=
  let trimmed := trim output
  (trimmed.head? = some '{' ∧ trimmed.getLast? = some '}') ∨
    (trimmed.head? = some '[' ∧ trimmed.getLast? = some ']')

def indent (depth : Nat) : Text := List.replicate (depth * 2) ' '

/-- `summarize_json` at a depth with so many levels left. -/
def summarizeLevels : Nat → Nat → Json → Option Text
  | 0, _, _ => some "...".toList
  | left + 1, depth, .object fields => do
    let shown ← (fields.take 10).mapM fun (key, value) => do
      let summary ← summarizeLevels left (depth + 1) value
      some (indent depth ++ '"' :: key ++ "\": ".toList ++ summary)
    let more := if fields.length > 10 then
      ",\n".toList ++ indent depth ++ moreFields (fields.length - 10) else []
    some ("\x7b\n".toList ++ join ",\n".toList shown ++ more ++ '\n' :: indent (depth - 1) ++ ['}'])
  | _ + 1, _, .array [] => some "[]".toList
  | left + 1, depth, .array (first :: items) => do
    let summary ← summarizeLevels left (depth + 1) first
    some ('[' :: printNat (items.length + 1) ++ " items, first: ".toList ++ summary ++ [']'])
  | _ + 1, _, .string s =>
    if byteLen s > 50 then (sliceTo 47 s).map fun front => '"' :: front ++ "...\"".toList
    else some (Json.string s).render
  | _ + 1, _, value => some value.render
where
  moreFields (n : Nat) : Text := "... ".toList ++ printNat n ++ " more fields".toList

def summarizeJson (value : Json) (depth maxDepth : Nat) : Option Text :=
  summarizeLevels (maxDepth - depth) depth value

def shape (crates : ShaperCrates) (output : Text) : Option (Text × OutputMetadata) :=
  let metadata := { lineCount := (lines output).length }
  match crates.fromStr output with
  | .ok value => do
    let summary ← summarizeJson value 0 3
    some ("## JSON Output\n- Valid: ✓\n- Structure:\n```json\n".toList ++ summary ++
      "\n```".toList, metadata)
  | .error e => do
    let first ← sliceTo (min (byteLen output) 500) output
    some ("## JSON Output\n- Valid: ✗\n- Parse error: ".toList ++ e ++
      "\n- First 500 chars:\n```\n".toList ++ first ++ "\n```".toList, metadata)

end JsonShaper

/-! ## Directories -/

namespace DirectoryShaper

def detect (output : Text) : Bool :=
  let all := lines output
  let pathLike := all.countP fun l => contains ['/'] l || ends ":" l
  -- the quotient of the two counts is more than 0.5
  20 ≤ all.length ∧ all.length < 2 * pathLike

/-- The pieces between separators that are not components. -/
def blank (piece : Text) : Bool := piece = [] || piece = ['.']

/-- `Path::parent`, as it is spelled in the path: only the separators and dots behind it go
with the last component. -/
def parentText (path : Text) : Option Text :=
  let front := if begins "/" path then ['/']
    else if path = ['.'] || begins "./" path then ['.'] else []
  match (splitOn (· == '/') (path.drop front.length)).reverse.dropWhile blank with
  | [] => if front = ['.'] then some [] else none
  | _ :: before => some (front ++ join ['/'] (before.dropWhile blank).reverse)

def shape (crates : ShaperCrates) (output : Text) : Text × OutputMetadata :=
  let all := lines output
  let total := all.length
  let paths := all.map trim
  let dirs := (paths.filterMap parentText).dedup
  let extensions := paths.filterMap fun path => Path.extension ⟨path⟩
  let compact := countLine "## Directory Listing Summary\n- Total entries: " total ++
    countLine "- Unique directories: " dirs.length ++ "\n### File types:\n".toList ++
    (((ranked crates extensions).take 10).flatMap fun (ext, count) =>
      "- .".toList ++ ext ++ ": ".toList ++ printNat count ++ " files\n".toList) ++
    "\n### First 20 entries:\n```\n".toList ++ unlines (all.take 20) ++ "```\n".toList ++
    (if total > 20 then '\n' :: moreLine (total - 20) " more entries (see raw output)\n" else [])
  (compact, { lineCount := total, truncated := total > 50 })

end DirectoryShaper

/-! ## Logs -/

namespace LogShaper

def logPatterns : List String := ["ERROR", "WARN", "INFO", "DEBUG", "[error]", "[warn]", "[info]"]

def detect (output : Text) : Bool := 2 ≤ logPatterns.countP fun pat => has pat output

inductive Level where
  | error
  | warn
  | info
  | debug
  deriving DecidableEq

def level (crates : ShaperCrates) (line : Text) : Option Level :=
  let upper := crates.toUppercase line
  if has "ERROR" upper || has "[ERROR]" upper then some .error
  else if has "WARN" upper || has "[WARN]" upper then some .warn
  else if has "INFO" upper || has "[INFO]" upper then some .info
  else if has "DEBUG" upper || has "[DEBUG]" upper then some .debug
  else none

def errorPart (errors : List Text) : Text :=
  if errors = [] then []
  else
    "### Errors (last 10)\n```\n".toList ++ unlines (errors.reverse.take 10) ++ "```\n\n".toList

def warningPart (warnings : List Text) : Text :=
  if warnings = [] then []
  else
    "### Warnings (last 5)\n```\n".toList ++ unlines (warnings.reverse.take 5) ++ "```\n".toList

def shape (crates : ShaperCrates) (output : Text) (hint : IntentHint) : Text × OutputMetadata :=
  let leveled := fun l => (lines output).filter fun line => level crates line = some l
  let errors := leveled .error
  let warnings := leveled .warn
  let compact := countLine "## Log Summary\n- Errors: " errors.length ++
    countLine "- Warnings: " warnings.length ++ countLine "- Info: " (leveled .info).length ++
    countLine "- Debug: " (leveled .debug).length ++ ['\n'] ++ errorPart errors ++
    (if hint = .verbose ∨ errors = [] then warningPart warnings else [])
  (compact, {
    errorCount := errors.length
    warningCount := warnings.length
    lineCount := (lines output).length
    truncated := errors.length > 20 })

end LogShaper

/-! ## The shaper -/

def formats (crates : ShaperCrates) : List FormatShaper :=
  [⟨GccClang.detect, fun output hint => some (GccClang.shape output hint), .gccClang⟩,
    ⟨RustCargo.detect, fun output hint => some (RustCargo.shape output hint), .rustCargo⟩,
    ⟨PythonTraceback.detect, PythonTraceback.shape crates, .python⟩,
    ⟨JsonShaper.detect, fun output _ => JsonShaper.shape crates output, .json⟩,
    ⟨DirectoryShaper.detect, fun output _ => some (DirectoryShaper.shape crates output),
      .directoryTree⟩,
    ⟨LogShaper.detect, fun output hint => some (LogShaper.shape crates output hint), .logFile⟩]

def new (crates : ShaperCrates) : OutputShaper := ⟨formats crates, 4096, 8192⟩

def withThreshold (s : OutputShaper) (threshold : Nat) : OutputShaper :=
  { s with threshold := threshold }

/-- The output, without the middle of more than a hundred lines. -/
def plainText (output : Text) : Text :=
  let all := lines output
  if all.length > 100 then
    join ['\n'] (all.take 50) ++ "\n\n[... ".toList ++ printNat (all.length - 100) ++
      " lines omitted ...]\n\n".toList ++ join ['\n'] (all.drop (all.length - 50))
  else output

def detectAndShape (s : OutputShaper) (output : Text) (hint : IntentHint) :
    Option (OutputFormat × Text × OutputMetadata) :=
  match s.shapers.find? fun shaper => shaper.detect output with
  | some shaper => (shaper.shape output hint).map fun shaped => (shaper.format, shaped)
  | none =>
    some (.plain, plainText output, { lineCount := (lines output).length, truncated := true })

def truncationNote : Text := "\n\n[... truncated, see raw_path for full output ...]".toList

/-- `compact[..max_compact_size]` with the note, for a text that is longer. -/
def truncate (s : OutputShaper) (compact : Text) : Option Text :=
  if byteLen compact > s.maxCompactSize then
    (sliceTo s.maxCompactSize compact).map (· ++ truncationNote)
  else some compact

/-- Nothing where a slice panics. `saved` is the file that the output was written to, if it
could be written. -/
def shape (s : OutputShaper) (saved : Option PathBuf) (output : Text) (hint : IntentHint) :
    Option ShapedOutput :=
  let originalSize := byteLen output
  if hint = .raw ∨ originalSize ≤ s.threshold then
    some {
      compact := output
      rawPath := none
      format := .plain
      originalSize := originalSize
      compactSize := originalSize
      metadata := { lineCount := (lines output).length } }
  else do
    let (format, compact, metadata) ← s.detectAndShape output hint
    let compact ← s.truncate compact
    some {
      compact := compact
      rawPath := saved
      format := format
      originalSize := originalSize
      compactSize := byteLen compact
      metadata := metadata }

end OutputShaper

end Devit
