import Devit.HunkSplicing

/-! Unified diffs as they are written: what a hunk looks like in print, and when
a list of hunks describes how one file becomes another. Nothing here is taken
from the patcher; the numbering is the standard one, in which an empty range is
numbered by the line before it. -/
namespace Devit
open Text

/-- A hunk to be printed. Each line says whether the marker of a missing final
newline follows it, and a count of one may be left out of either range. -/
structure DiffHunk where
  oldStart : Nat
  newStart : Nat
  body : List (PatchLine × Bool)
  shortOld : Bool
  shortNew : Bool
  heading : Text
  deriving DecidableEq, Repr

/-- The lines of the hunk. -/
def DiffHunk.lines (h : DiffHunk) : List PatchLine := h.body.map Prod.fst

namespace UnifiedDiff
open HunkSplicing

/-! ## Print -/

def printLine : PatchLine → Text
  | .context text => ' ' :: text
  | .add text => '+' :: text
  | .remove text => '-' :: text

def missingNewline : Text := "\\ No newline at end of file".toList

def printBody (body : List (PatchLine × Bool)) : List Text :=
  body.flatMap fun (line, marked) =>
    printLine line :: if marked then [missingNewline] else []

def printRange (short : Bool) (start count : Nat) : Text :=
  if short ∧ count = 1 then printNat start else printNat start ++ ',' :: printNat count

def printHeader (h : DiffHunk) : Text :=
  "@@".toList ++ ' ' :: ('-' :: printRange h.shortOld h.oldStart (oldSide h.lines).length) ++
    ' ' :: ('+' :: printRange h.shortNew h.newStart (newSide h.lines).length) ++
    ' ' :: ("@@".toList ++ h.heading)

def printHunk (h : DiffHunk) : List Text := printHeader h :: printBody h.body

def printHunks (hs : List DiffHunk) : List Text := hs.flatMap printHunk

/-! ## Meaning -/

/-- The number a range of `count` lines gets after `before` lines. -/
def startNumber (before count : Nat) : Nat := if count = 0 then before else before + 1

/-- The hunks turn the old lines into the new ones, both read from the given
offsets on: lines are kept up to a hunk, and the hunk's sides follow. -/
inductive Diff : Nat → Nat → List DiffHunk → List Text → List Text → Prop where
  | done {oldAt newAt : Nat} (same : List Text) : Diff oldAt newAt [] same same
  | hunk {oldAt newAt : Nat} {hs : List DiffHunk} {old new : List Text} (keep : List Text)
      (h : DiffHunk) (filled : h.body ≠ [])
      (oldNumber : h.oldStart = startNumber (oldAt + keep.length) (oldSide h.lines).length)
      (newNumber : h.newStart = startNumber (newAt + keep.length) (newSide h.lines).length)
      (rest : Diff (oldAt + keep.length + (oldSide h.lines).length)
        (newAt + keep.length + (newSide h.lines).length) hs old new) :
      Diff oldAt newAt (h :: hs) (keep ++ oldSide h.lines ++ old) (keep ++ newSide h.lines ++ new)

/-- A valid unified diff of two whole files. -/
abbrev ValidDiff (hs : List DiffHunk) (old new : List Text) : Prop := Diff 0 0 hs old new

/-- A file of the given lines, with or without a newline at its end. -/
def fileText (trailingNewline : Bool) (ls : List Text) : Text :=
  if trailingNewline then unlines ls else join ['\n'] ls

theorem Diff.length {oldAt newAt : Nat} {hs : List DiffHunk} {old new : List Text}
    (valid : Diff oldAt newAt hs old new) :
    new.length + (hs.flatMap fun h => oldSide h.lines).length =
      old.length + (hs.flatMap fun h => newSide h.lines).length := by
  induction valid with
  | done => rfl
  | hunk keep h filled oldNumber newNumber rest ih =>
    simp only [List.flatMap_cons, List.length_append] at *
    omega

/-- The new side of every hunk is in the new file. -/
theorem Diff.newSide_subset {oldAt newAt : Nat} {hs : List DiffHunk} {old new : List Text}
    (valid : Diff oldAt newAt hs old new) {h : DiffHunk} (member : h ∈ hs) :
    newSide h.lines ⊆ new := by
  induction valid with
  | done => cases member
  | hunk keep first filled oldNumber newNumber rest ih =>
    intro line inside
    rcases List.mem_cons.mp member with rfl | member
    · simp [inside]
    · simp [ih member inside]

/-- The numbers of a hunk fit the reader's integers. -/
structure Fits (h : DiffHunk) : Prop where
  oldStart : h.oldStart ≤ usizeMax
  newStart : h.newStart ≤ usizeMax
  oldCount : (oldSide h.lines).length ≤ usizeMax
  newCount : (newSide h.lines).length ≤ usizeMax

private theorem startNumber_le {before count total : Nat} (inside : before + count ≤ total) :
    startNumber before count ≤ total := by
  unfold startNumber
  split <;> omega

/-- Files whose lines can be counted have hunks whose numbers can be read. -/
theorem Diff.fits {oldAt newAt : Nat} {hs : List DiffHunk} {old new : List Text}
    (valid : Diff oldAt newAt hs old new) (oldFits : oldAt + old.length ≤ usizeMax)
    (newFits : newAt + new.length ≤ usizeMax) {h : DiffHunk} (member : h ∈ hs) :
    Fits h ∧ h.body ≠ [] := by
  induction valid with
  | done => cases member
  | hunk keep first filled oldNumber newNumber rest ih =>
    simp only [List.length_append] at oldFits newFits
    rcases List.mem_cons.mp member with rfl | member
    · refine ⟨⟨?_, ?_, by omega, by omega⟩, filled⟩
      · rw [oldNumber]
        exact startNumber_le (by omega)
      · rw [newNumber]
        exact startNumber_le (by omega)
    · exact ih (by omega) (by omega) member

/-! ## Reading a printed hunk -/

theorem digit_not_whitespace {c : Char} (digit : c.isDigit = true) : isWhitespace c = false := by
  simp only [Char.isDigit, Bool.and_eq_true, decide_eq_true_eq, ge_iff_le,
    UInt32.le_iff_toNat_le] at digit
  have low : 48 ≤ c.toNat := digit.1
  have high : c.toNat ≤ 57 := digit.2
  simp only [isWhitespace, decide_eq_false_iff_not]
  omega

theorem mem_printRange {short : Bool} {start count : Nat} {c : Char}
    (member : c ∈ printRange short start count) : c.isDigit = true ∨ c = ',' := by
  unfold printRange at member
  split at member
  · exact .inl (printNat_isDigit member)
  · simp only [List.mem_append, List.mem_cons] at member
    rcases member with digit | rfl | digit
    · exact .inl (printNat_isDigit digit)
    · exact .inr rfl
    · exact .inl (printNat_isDigit digit)

theorem printRange_not_whitespace {short : Bool} {start count : Nat} {c : Char}
    (member : c ∈ printRange short start count) : isWhitespace c = false := by
  rcases mem_printRange member with digit | rfl
  · exact digit_not_whitespace digit
  · decide

theorem comma_not_mem_printNat (n : Nat) : ',' ∉ printNat n := by
  intro member
  exact absurd (printNat_isDigit member) (by decide)

/-- A printed range reads back as its start and count. -/
theorem parseRange_printRange (short : Bool) {start count : Nat} (startFits : start ≤ usizeMax)
    (countFits : count ≤ usizeMax) :
    PatchParser.parseRange (printRange short start count) = .ok (start, count) := by
  by_cases one : short = true ∧ count = 1
  · obtain ⟨rfl, rfl⟩ := one
    simp only [printRange, and_self, ↓reduceIte, PatchParser.parseRange,
      splitFirst_none (comma_not_mem_printNat start), parseUsize_printNat startFits]
  · simp only [printRange, if_neg one, PatchParser.parseRange,
      splitFirst_append _ (comma_not_mem_printNat start), parseUsize_printNat startFits,
      parseUsize_printNat countFits]

private theorem word_clean {c : Char} {word : Text} (mark : isWhitespace c = false)
    (clean : ∀ d ∈ word, isWhitespace d = false) : ∀ d ∈ c :: word, isWhitespace d = false := by
  intro d member
  rcases List.mem_cons.mp member with rfl | member
  · exact mark
  · exact clean d member

/-- A printed header is read as its two ranges, whatever heading it carries, and
the lines decide about the rest. -/
theorem parseHunk_header (total : Nat) {h : DiffHunk} (fits : Fits h) (ls : List Text) :
    ∃ number, PatchParser.parseHunk total (printHeader h) ls =
      match PatchParser.collectHunkLines ls with
      | (hunkLines, marked, after) =>
        if hunkLines = [] then
          .error (.invalidDiff ("Empty hunk at line ".toList ++ printNat number) (some number))
        else
          .ok (⟨h.oldStart, hunkLines.countP (·.isOld), h.newStart, hunkLines.countP (·.isNew),
            hunkLines, marked⟩, after) := by
  refine ⟨PatchParser.lineNumber total (printHeader h :: ls), ?_⟩
  let oldWord := '-' :: printRange h.shortOld h.oldStart (oldSide h.lines).length
  let newWord := '+' :: printRange h.shortNew h.newStart (newSide h.lines).length
  have shape : printHeader h = ("@@".toList ++ ' ' :: (oldWord ++ ' ' :: (newWord ++ [' ']))) ++
      ("@@".toList ++ h.heading) := by
    simp [printHeader, oldWord, newWord]
  obtain ⟨more, content⟩ := beforeLast_append "@@".toList
    ("@@".toList ++ ' ' :: (oldWord ++ ' ' :: (newWord ++ [' ']))) h.heading
  have words : splitWhitespace (("@@".toList ++ ' ' :: (oldWord ++ ' ' :: (newWord ++ [' ']))) ++ more)
      = "@@".toList :: oldWord :: newWord :: splitWhitespace more := by
    simp only [List.append_assoc, List.cons_append, List.nil_append]
    rw [splitWhitespace_word _ (by decide) (by simp [isWhitespace]) (by decide),
      splitWhitespace_word _ (by decide)
        (word_clean (by decide) fun _ => printRange_not_whitespace) (by simp),
      splitWhitespace_word _ (by decide)
        (word_clean (by decide) fun _ => printRange_not_whitespace) (by simp)]
  have oldRange := parseRange_printRange h.shortOld fits.oldStart fits.oldCount
  have newRange := parseRange_printRange h.shortNew fits.newStart fits.newCount
  have minus : PatchParser.dropFirstByte oldWord = .ok oldWord.tail := rfl
  have plus : PatchParser.dropFirstByte newWord = .ok newWord.tail := rfl
  unfold PatchParser.parseHunk
  rw [← shape] at content
  simp only [content, Option.getD_some, words, minus, plus, bind, Except.bind]
  simp only [oldWord, newWord, List.tail_cons, oldRange, newRange]

end UnifiedDiff

end Devit
