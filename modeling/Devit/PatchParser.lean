import Devit.Errors

/-! The unified diff parser. The source walks an index over the lines of the
diff; here a function takes the lines from its index on and returns the lines
after what it read. `total` is the number of lines of the whole diff, from which
the line numbers in errors are computed. -/
namespace Devit
open Text

inductive PatchLine where
  | context (text : Text)
  | add (text : Text)
  | remove (text : Text)
  deriving DecidableEq, Repr

structure PatchHunk where
  oldStart : Nat
  oldCount : Nat
  newStart : Nat
  newCount : Nat
  lines : List PatchLine
  noTrailingNewline : Bool
  deriving DecidableEq, Repr

structure FilePatch where
  oldPath : Option PathBuf
  newPath : Option PathBuf
  hunks : List PatchHunk
  isNewFile : Bool
  isDeletedFile : Bool
  oldMode : Option Nat
  newMode : Option Nat
  addsExecBit : Bool
  isBinary : Bool
  noTrailingNewline : Bool
  deriving DecidableEq, Repr

structure ParsedPatch where
  files : List FilePatch
  deriving DecidableEq, Repr

/-- The line survives into the old side of its hunk. -/
def PatchLine.isOld : PatchLine → Bool
  | .add _ => false
  | _ => true

/-- The line is on the new side of its hunk. -/
def PatchLine.isNew : PatchLine → Bool
  | .remove _ => false
  | _ => true

namespace PatchParser

/-- The number of the first of the remaining lines, counted from one. -/
def lineNumber (total : Nat) (rest : List Text) : Nat := total - rest.length + 1

def parseMode (value : Text) (lineNumber : Nat) : DevItResult (Option Nat) :=
  if value = [] then .ok none
  else
    match parseUnsigned 8 (2 ^ 32 - 1) value with
    | some mode => .ok (some mode)
    | none =>
      .error (.invalidDiff ("Invalid file mode '".toList ++ value ++ "'".toList) (some lineNumber))

def execMask : Nat := 0o111

def modeAddsExec : Option Nat → Option Nat → Bool
  | some old, some new => new &&& execMask ≠ 0 ∧ old &&& execMask = 0
  | none, some new => new &&& execMask ≠ 0
  | _, _ => false

def parseRange (range : Text) : DevItResult (Nat × Nat) :=
  match splitFirst ',' range with
  | some (before, after) =>
    match parseUsize before with
    | none => .error (.invalidDiff ("Invalid range start: ".toList ++ range) none)
    | some start =>
      match parseUsize after with
      | none => .error (.invalidDiff ("Invalid range count: ".toList ++ range) none)
      | some count => .ok (start, count)
  | none =>
    match parseUsize range with
    | none => .error (.invalidDiff ("Invalid range: ".toList ++ range) none)
    | some start => .ok (start, 1)

/-- `&part[1..]`, a panic when the first character is not one byte long. -/
def dropFirstByte : Text → DevItResult Text
  | [] => .error .panic
  | c :: cs => if c.toNat < 128 then .ok cs else .error .panic

/-- Whether a line starts the next file of a plain unified diff. -/
def startsPlainFile (line : Text) (rest : List Text) : Bool :=
  startsWith "--- ".toList line &&
    match rest with
    | [] => false
    | next :: _ => startsWith "+++ ".toList next

/-- The loop over a hunk's lines: what it collected, whether a
`\ No newline at end of file` marker was seen, and where it stopped. -/
def collectHunkLines : List Text → List PatchLine × Bool × List Text
  | [] => ([], false, [])
  | line :: rest =>
    if startsWith "@@".toList line || startsWith "diff --git".toList line then
      ([], false, line :: rest)
    else if startsPlainFile line rest then ([], false, line :: rest)
    else
      let (collected, marked, after) := collectHunkLines rest
      match line with
      | ' ' :: text => (.context text :: collected, marked, after)
      | '+' :: text => (.add text :: collected, marked, after)
      | '-' :: text => (.remove text :: collected, marked, after)
      | '\\' :: _ => (collected, true, after)
      | _ => ([], false, line :: rest)

/-- A hunk from its header line on. The counts of the header are read, and
replaced by those of the lines found. -/
def parseHunk (total : Nat) (hunkHeader : Text) (rest : List Text) :
    DevItResult (PatchHunk × List Text) := do
  let number := lineNumber total (hunkHeader :: rest)
  let hunkContent := (beforeLast "@@".toList hunkHeader).getD hunkHeader
  match splitWhitespace hunkContent with
  | _ :: oldPart :: newPart :: _ =>
    let oldRange ← dropFirstByte oldPart
    let newRange ← dropFirstByte newPart
    let (oldStart, _) ← parseRange oldRange
    let (newStart, _) ← parseRange newRange
    let (hunkLines, noTrailingNewline, after) := collectHunkLines rest
    if hunkLines = [] then
      .error (.invalidDiff ("Empty hunk at line ".toList ++ printNat number) (some number))
    else
      .ok (⟨oldStart, hunkLines.countP (·.isOld), newStart, hunkLines.countP (·.isNew), hunkLines,
        noTrailingNewline⟩, after)
  | _ => .error (.invalidDiff ("Invalid hunk header: ".toList ++ hunkHeader) (some number))

/-- What the header loop of a file section has read so far. -/
structure Header where
  oldPath : Option PathBuf
  newPath : Option PathBuf
  isNewFile : Bool
  isDeletedFile : Bool
  oldMode : Option Nat
  newMode : Option Nat
  isBinary : Bool
  deriving DecidableEq, Repr

def Header.empty : Header := ⟨none, none, false, false, none, none, false⟩

/-- The path on a `---` or `+++` line, without its timestamp and without the
repository prefix, or none for `/dev/null`. -/
def headerPath (repoPrefix line : Text) : Option PathBuf :=
  let pathStr := (line.drop 4).takeWhile (· ≠ '\t')
  if pathStr = "/dev/null".toList then none else some ⟨trimStartMatches repoPrefix pathStr⟩

/-- The header loop: it stops at a hunk, after a `Binary files` line, or at the
end of the diff, and at nothing else. -/
def parseHeader (total : Nat) : Header → List Text → DevItResult (Header × List Text)
  | h, [] => .ok (h, [])
  | h, line :: rest =>
    if startsWith "@@".toList line then .ok (h, line :: rest)
    else
      match stripPrefix "old mode ".toList line with
      | some value => do
        let mode ← parseMode (trim value) (lineNumber total (line :: rest))
        parseHeader total { h with oldMode := mode } rest
      | none =>
        match stripPrefix "new mode ".toList line with
        | some value => do
          let mode ← parseMode (trim value) (lineNumber total (line :: rest))
          parseHeader total { h with newMode := mode } rest
        | none =>
          if startsWith "--- ".toList line then
            parseHeader total { h with oldPath := headerPath "a/".toList line <|> h.oldPath } rest
          else if startsWith "+++ ".toList line then
            parseHeader total { h with newPath := headerPath "b/".toList line <|> h.newPath } rest
          else if contains "new file mode".toList line then
            parseHeader total { h with isNewFile := true } rest
          else if contains "deleted file mode".toList line then
            parseHeader total { h with isDeletedFile := true } rest
          else if startsWith "Binary files ".toList line then
            .ok ({ h with isBinary := true }, rest)
          else parseHeader total h rest

/-- The hunks of a file section, one after the other. A hunk takes at least its
header line, so `fuel` need not exceed the number of lines. -/
def parseHunks (total : Nat) : Nat → List Text → DevItResult (List PatchHunk × List Text)
  | 0, lines => .ok ([], lines)
  | _ + 1, [] => .ok ([], [])
  | fuel + 1, line :: rest =>
    if startsWith "@@".toList line then do
      let (hunk, after) ← parseHunk total line rest
      let (hunks, last) ← parseHunks total fuel after
      .ok (hunk :: hunks, last)
    else .ok ([], line :: rest)

/-- One file section from its first header line on. A path missing on one side
makes the file new or deleted. -/
def parseFilePatch (total : Nat) (lines : List Text) : DevItResult (FilePatch × List Text) := do
  let (h, body) ← parseHeader total .empty lines
  let (hunks, after) ← parseHunks total body.length body
  .ok ({
    oldPath := h.oldPath
    newPath := h.newPath
    hunks := hunks
    isNewFile := h.isNewFile || (h.oldPath.isNone && h.newPath.isSome)
    isDeletedFile := h.isDeletedFile || (h.newPath.isNone && h.oldPath.isSome)
    oldMode := h.oldMode
    newMode := h.newMode
    addsExecBit := modeAddsExec h.oldMode h.newMode
    isBinary := h.isBinary
    noTrailingNewline := (hunks.getLast?.map (·.noTrailingNewline)).getD false }, after)

/-- The scan for sections that begin at a line chosen by `begins`. -/
def parseSections (begins : Text → List Text → Bool) (total : Nat) :
    Nat → List Text → DevItResult (List FilePatch)
  | 0, _ => .ok []
  | _ + 1, [] => .ok []
  | fuel + 1, line :: rest =>
    if begins line rest then do
      let (file, after) ← parseFilePatch total (line :: rest)
      let files ← parseSections begins total fuel after
      .ok (file :: files)
    else parseSections begins total fuel rest

/-- Whether a line is a git file header. -/
def startsGitFile (line : Text) (_ : List Text) : Bool := startsWith "diff --git ".toList line

def parsePlainUnified (lines : List Text) : DevItResult (List FilePatch) :=
  parseSections startsPlainFile lines.length lines.length lines

/-- Git headers are looked for first, and plain unified sections when there are
none. -/
def fromDiff (diffContent : Text) : DevItResult ParsedPatch := do
  let ls := lines diffContent
  let files ← parseSections startsGitFile ls.length ls.length ls
  if files = [] then do
    let plain ← parsePlainUnified ls
    .ok ⟨plain⟩
  else .ok ⟨files⟩

/-! ## The scans end

Every loop moves forward, so the bound on its rounds is never what stops it. -/

theorem collectHunkLines_length (ls : List Text) : (collectHunkLines ls).2.2.length ≤ ls.length := by
  induction ls with
  | nil => exact Nat.le_refl _
  | cons line rest ih =>
    rw [collectHunkLines]
    split
    · exact Nat.le_refl _
    · split
      · exact Nat.le_refl _
      · revert ih
        generalize collectHunkLines rest = collected
        intro ih
        dsimp only
        split <;> first | exact Nat.le_succ_of_le ih | exact Nat.le_refl _

/-- A hunk takes its header line. -/
theorem parseHunk_length {total : Nat} {hunkHeader : Text} {rest after : List Text}
    {hunk : PatchHunk} (read : parseHunk total hunkHeader rest = .ok (hunk, after)) :
    after.length ≤ rest.length := by
  unfold parseHunk at read
  dsimp only at read
  split at read
  · obtain ⟨oldRange, -, read⟩ := Except.bind_eq_ok read
    obtain ⟨newRange, -, read⟩ := Except.bind_eq_ok read
    obtain ⟨old, -, read⟩ := Except.bind_eq_ok read
    obtain ⟨new, -, read⟩ := Except.bind_eq_ok read
    split at read
    · cases read
    · cases read
      exact collectHunkLines_length rest
  · cases read

/-- The loop over hunks in one round, with as many rounds as there are lines. -/
theorem parseHunks_fuel {total fuel : Nat} {lines : List Text} (enough : lines.length ≤ fuel) :
    parseHunks total fuel lines = parseHunks total lines.length lines := by
  induction fuel using Nat.strongRecOn generalizing lines with
  | ind fuel ih =>
    cases lines with
    | nil => cases fuel <;> rfl
    | cons line rest =>
      cases fuel with
      | zero => simp at enough
      | succ fuel =>
        simp only [List.length_cons, Nat.add_le_add_iff_right] at enough
        simp only [List.length_cons, parseHunks]
        split
        · cases read : parseHunk total line rest with
          | error e => rfl
          | ok pair =>
            have shorter := parseHunk_length read
            simp only [bind, Except.bind]
            rw [ih fuel (by omega) (by omega)]
            rcases Nat.lt_or_ge rest.length (fuel + 1) with less | more
            · rw [ih rest.length (by omega) shorter]
            · omega
        · rfl

end PatchParser

end Devit
