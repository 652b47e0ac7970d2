import Devit.DiffSections

/-! Printing hunks and parsing them again. The parser does not count the lines of a hunk,
and it takes the text line by line in a way that does not keep a carriage return at the
end of one. What it reads is what was printed exactly when no lines look like the header
of another file, none ends in a carriage return, and every file but the last has hunks. -/
namespace Devit
open Text

/-- A file patch to be printed. Only git's form has the first two fields. -/
structure DiffFile where
  names : Text
  extended : List Text
  oldName : Text
  newName : Text
  hunks : List DiffHunk

/-- The standard form of a unified diff, or git's. -/
inductive DiffForm where
  | plain
  | git
  deriving DecidableEq

namespace DiffRoundTrip
open HunkSplicing UnifiedDiff PatchParser PatchCorrectness DiffSections

def frontOf (form : DiffForm) (f : DiffFile) : List Text :=
  let labels := ["--- ".toList ++ f.oldName, "+++ ".toList ++ f.newName]
  match form with
  | .plain => labels
  | .git => ("diff --git ".toList ++ f.names) :: (f.extended ++ labels)

def printFile (form : DiffForm) (f : DiffFile) : List Text := frontOf form f ++ printHunks f.hunks

def printFiles (form : DiffForm) (files : List DiffFile) : List Text :=
  files.flatMap (printFile form)

def printDiff (form : DiffForm) (files : List DiffFile) : Text := unlines (printFiles form files)

/-- The hunks of a file, line for line, as the parser keeps them. -/
def keptHunks (f : DiffFile) : List PatchHunk :=
  f.hunks.map fun h => readHunk h h.lines (h.body.any Prod.snd)

/-- The printed diff is parsed, and gives the hunks of every file back. -/
def ParsesBack (form : DiffForm) (files : List DiffFile) : Prop :=
  ∃ parsed, fromDiff (printDiff form files) = .ok ⟨parsed⟩ ∧
    parsed.map (·.hunks) = files.map keptHunks

/-- What is printed on a line is one, the numbers of the hunks fit, and no hunk is empty. -/
structure FileFormed (f : DiffFile) : Prop where
  names : '\n' ∉ f.names
  extended : ∀ line ∈ f.extended, ExtendedLine line ∧ '\n' ∉ line
  oldName : '\n' ∉ f.oldName
  newName : '\n' ∉ f.newName
  hunks : ∀ h ∈ f.hunks, Fits h ∧ h.body ≠ [] ∧ '\n' ∉ h.heading ∧ ∀ line ∈ h.lines, '\n' ∉ line.text

/-! ## Files one after the other -/

/-- How a section of a form is found. -/
def begins : DiffForm → Text → List Text → Bool
  | .plain => startsPlainFile
  | .git => startsGitFile

/-- What the parser asks of a file: its header is passed over, and its hunks can be read. -/
structure Readable (form : DiffForm) (f : DiffFile) : Prop where
  front : ∀ line ∈ frontOf form f, PassedOver line
  hunks : ∀ h ∈ f.hunks, Fits h ∧ h.body ≠ []

theorem front_begins (form : DiffForm) (f : DiffFile) :
    ∃ line lines, frontOf form f = line :: lines ∧ startsWith "@@".toList line = false ∧
      ∀ rest, begins form line (lines ++ rest) = true := by
  cases form with
  | plain =>
    refine ⟨_, _, rfl, rfl, fun rest => ?_⟩
    have minus := startsWith_append "--- ".toList f.oldName
    have plus := startsWith_append "+++ ".toList f.newName
    exact Bool.and_eq_true_iff.mpr ⟨minus, plus⟩
  | git => exact ⟨_, _, rfl, rfl, fun rest => startsWith_append "diff --git ".toList f.names⟩

theorem printFiles_cons (form : DiffForm) (f : DiffFile) (files : List DiffFile) :
    printFiles form (f :: files) = frontOf form f ++ (printHunks f.hunks ++ printFiles form files) := by
  rw [printFiles, List.flatMap_cons, printFile, List.append_assoc]
  rfl

/-- The next file ends the hunks of the one before. -/
theorem printFiles_ended (form : DiffForm) (files : List DiffFile) :
    Ended (printFiles form files) ∧ NoHunk (printFiles form files) := by
  cases files with
  | nil => exact ⟨ended_nil, noHunk_nil⟩
  | cons f files =>
    rw [printFiles_cons]
    cases form with
    | git =>
      have at_section : AtSection (frontOf .git f ++ (printHunks f.hunks ++ printFiles .git files)) := by
        intro line first
        cases first
        exact startsWith_append _ _
      exact ⟨at_section.ended, at_section.noHunk⟩
    | plain =>
      refine ⟨⟨?_, ?_⟩, ?_⟩
      · have minus := startsWith_append "--- ".toList f.oldName
        have plus := startsWith_append "+++ ".toList f.newName
        have hunk : startsWith "@@".toList ("--- ".toList ++ f.oldName) = false := rfl
        have file : startsWith "diff --git".toList ("--- ".toList ++ f.oldName) = false := rfl
        have starts : startsPlainFile ("--- ".toList ++ f.oldName) (("+++ ".toList ++ f.newName) ::
            (printHunks f.hunks ++ printFiles .plain files)) = true :=
          Bool.and_eq_true_iff.mpr ⟨minus, plus⟩
        change collectHunkLines (("--- ".toList ++ f.oldName) :: ("+++ ".toList ++ f.newName) ::
          (printHunks f.hunks ++ printFiles .plain files)) = _
        rw [collectHunkLines, hunk, file, starts]
        rfl
      · intro line first
        cases first
        rfl
      · intro line first
        cases first
        rfl

/-- The scan goes on behind a file that was parsed. -/
theorem scan_file {form : DiffForm} {f : DiffFile} {file : FilePatch} {behind after : List Text}
    {total fuel : Nat}
    (read : parseFilePatch total (frontOf form f ++ behind) = .ok (file, after))
    (enough : (frontOf form f ++ behind).length ≤ fuel) :
    ∃ fuel', after.length ≤ fuel' ∧
      parseSections (begins form) total fuel (frontOf form f ++ behind) =
        (parseSections (begins form) total fuel' after).map (file :: ·) := by
  obtain ⟨line, lines, shape, header, chosen⟩ := front_begins form f
  rw [shape, List.cons_append] at read enough ⊢
  exact parseSections_section (chosen behind) header enough read

theorem scan_file_ok {form : DiffForm} {f : DiffFile} {behind : List Text} {total fuel : Nat}
    {files : List FilePatch} (enough : (frontOf form f ++ behind).length ≤ fuel)
    (scanned : parseSections (begins form) total fuel (frontOf form f ++ behind) = .ok files) :
    ∃ file after others fuel', parseFilePatch total (frontOf form f ++ behind) = .ok (file, after) ∧
      after.length ≤ fuel' ∧ parseSections (begins form) total fuel' after = .ok others ∧
      files = file :: others := by
  cases read : parseFilePatch total (frontOf form f ++ behind) with
  | error e =>
    obtain ⟨line, lines, shape, header, chosen⟩ := front_begins form f
    rw [shape, List.cons_append] at read enough scanned
    cases (parseSections_error (chosen behind) enough read).symm.trans scanned
  | ok pair =>
    obtain ⟨file, after⟩ := pair
    obtain ⟨fuel', room, onward⟩ := scan_file read enough
    obtain ⟨others, rest, same⟩ := map_cons_ok (onward.symm.trans scanned)
    exact ⟨file, after, others, fuel', rfl, room, rest, same⟩

theorem parse_front {form : DiffForm} {f : DiffFile} (readable : Readable form f) (total : Nat)
    (h : Header) (rest : List Text) :
    parseFrom total h (frontOf form f ++ rest) =
      parseFrom total (readFront h (frontOf form f)) rest :=
  parseFrom_front readable.front total h rest

/-- The hunks of a file are parsed, or not, whatever files follow. -/
theorem parse_hunks {form : DiffForm} {f : DiffFile} (filled : f.hunks ≠ []) (total : Nat)
    (h : Header) (files : List DiffFile) {hunks : List PatchHunk} {left : List Text}
    (parsed : ∀ total fuel rest, Ended rest → NoHunk rest → (printHunks f.hunks).length ≤ fuel →
      parseHunks total fuel (printHunks f.hunks ++ rest) = .ok (hunks, left ++ rest)) :
    parseFrom total h (printHunks f.hunks ++ printFiles form files) =
      .ok (fileOf h hunks, left ++ printFiles form files) := by
  obtain ⟨ended, none_left⟩ := printFiles_ended form files
  rw [parseFrom_hunks filled, parsed total _ _ ended none_left
    (by rw [List.length_append]; exact Nat.le_add_right _ _)]
  rfl

theorem parse_hunks_error {form : DiffForm} {f : DiffFile} (filled : f.hunks ≠ []) (total : Nat)
    (h : Header) (files : List DiffFile)
    (failed : ∀ total fuel rest, Ended rest → NoHunk rest → (printHunks f.hunks).length ≤ fuel →
      ∃ e, parseHunks total fuel (printHunks f.hunks ++ rest) = .error e) :
    ∃ e, parseFrom total h (printHunks f.hunks ++ printFiles form files) = .error e := by
  obtain ⟨ended, none_left⟩ := printFiles_ended form files
  obtain ⟨e, error⟩ := failed total (printHunks f.hunks ++ printFiles form files).length _ ended
    none_left (by rw [List.length_append]; exact Nat.le_add_right _ _)
  exact ⟨e, by rw [parseFrom_hunks filled, error]; rfl⟩

/-! ## Reading all of it -/

/-- Every file but the last has hunks. -/
def AllFilled (files : List DiffFile) : Prop := ∀ f ∈ files.dropLast, f.hunks ≠ []

theorem allFilled_cons {f : DiffFile} {files : List DiffFile} (more : files ≠ []) :
    AllFilled (f :: files) ↔ f.hunks ≠ [] ∧ AllFilled files := by
  rw [AllFilled, List.dropLast_cons_of_ne_nil more, List.forall_mem_cons]
  rfl

theorem allFilled_singleton (f : DiffFile) : AllFilled [f] := by
  rintro g ⟨⟩

/-- No hunk of a file looks like it holds a file header. -/
def Honest (f : DiffFile) : Prop := ∀ h ∈ f.hunks, ¬ FakesFileHeader h.body

/-- Files that are apart and honest are parsed as they were printed. -/
theorem scan_whole {form : DiffForm} {files : List DiffFile}
    (readable : ∀ f ∈ files, Readable form f) (filled : AllFilled files)
    (honest : ∀ f ∈ files, Honest f) (total : Nat) {fuel : Nat}
    (enough : (printFiles form files).length ≤ fuel) :
    ∃ parsed, parseSections (begins form) total fuel (printFiles form files) = .ok parsed ∧
      parsed.map (·.hunks) = files.map keptHunks := by
  induction files generalizing fuel with
  | nil => exact ⟨[], parseSections_nil _ _ _, rfl⟩
  | cons f files ih =>
    have own := readable f List.mem_cons_self
    rw [printFiles_cons] at enough ⊢
    by_cases some_hunk : f.hunks = []
    · -- only the last file has no hunks
      have last : files = [] := by
        by_contra more
        exact ((allFilled_cons more).mp filled).1 some_hunk
      subst last
      have read : parseFilePatch total (frontOf form f ++ (printHunks f.hunks ++ printFiles form [])) =
          .ok (fileOf (readFront .empty (frontOf form f)) [], []) := by
        rw [parseFilePatch_eq, parse_front own, some_hunk]
        rfl
      obtain ⟨fuel', -, onward⟩ := scan_file read enough
      rw [parseSections_nil] at onward
      refine ⟨_, onward, ?_⟩
      rw [List.map_singleton, List.map_singleton, keptHunks, some_hunk]
      rfl
    · have read : parseFilePatch total
          (frontOf form f ++ (printHunks f.hunks ++ printFiles form files)) =
          .ok (fileOf (readFront .empty (frontOf form f)) (keptHunks f), printFiles form files) := by
        rw [parseFilePatch_eq, parse_front own]
        exact @parse_hunks form f some_hunk total _ files (keptHunks f) []
          fun total fuel rest ended none_left room =>
            parse_whole own.hunks ended none_left room (honest f List.mem_cons_self)
      obtain ⟨fuel', room, onward⟩ := scan_file read enough
      have others : AllFilled files := by
        by_cases more : files = []
        · rw [more]
          rintro g ⟨⟩
        · exact ((allFilled_cons more).mp filled).2
      obtain ⟨parsed, rest, same⟩ := ih (fun g member => readable g (List.mem_cons_of_mem _ member))
        others (fun g member => honest g (List.mem_cons_of_mem _ member)) room
      rw [rest] at onward
      exact ⟨_, onward, by rw [List.map_cons, List.map_cons, same]; rfl⟩

/-! ## Reading less of it -/

/-- A header without hunks is read on, up to some hunks or to the end. -/
theorem parseFrom_onward {form : DiffForm} {files : List DiffFile}
    (readable : ∀ f ∈ files, Readable form f) {total : Nat} {h : Header} {file : FilePatch}
    {after : List Text} (read : parseFrom total h (printFiles form files) = .ok (file, after)) :
    file.hunks ≠ [] ∨ after = [] := by
  induction files generalizing h with
  | nil =>
    cases read
    exact .inr rfl
  | cons f files ih =>
    have own := readable f List.mem_cons_self
    rw [printFiles_cons, parse_front own] at read
    by_cases some_hunk : f.hunks = []
    · rw [some_hunk] at read
      exact ih (fun g member => readable g (List.mem_cons_of_mem _ member)) read
    · cases parse_printHunks own.hunks with
      | reads hunks left _ reading _ _ parsed =>
        rw [parse_hunks some_hunk total _ files parsed] at read
        cases read
        exact .inl (reading.filled some_hunk)
      | refuses _ failed =>
        obtain ⟨e, error⟩ := @parse_hunks_error form f some_hunk total
          (readFront h (frontOf form f)) files failed
        cases error.symm.trans read

/-- Where as many lines were read as there are, the files are apart and honest. -/
theorem scan_sizes {form : DiffForm} {files : List DiffFile}
    (readable : ∀ f ∈ files, Readable form f) {total fuel : Nat}
    (enough : (printFiles form files).length ≤ fuel) {parsed : List FilePatch}
    (scanned : parseSections (begins form) total fuel (printFiles form files) = .ok parsed)
    (sizes : parsed.map (fun file => file.hunks.map (·.lines.length)) =
      files.map fun f => f.hunks.map (·.body.length)) :
    AllFilled files ∧ ∀ f ∈ files, Honest f := by
  induction files generalizing fuel parsed with
  | nil =>
    constructor
    · rintro f ⟨⟩
    · rintro f ⟨⟩
  | cons f files ih =>
    have own := readable f List.mem_cons_self
    have below : ∀ g ∈ files, Readable form g := fun g member =>
      readable g (List.mem_cons_of_mem _ member)
    rw [printFiles_cons] at enough scanned
    obtain ⟨file, after, others, fuel', read, room, rest, rfl⟩ := scan_file_ok enough scanned
    obtain ⟨same, later⟩ := List.cons.inj sizes
    dsimp only at same
    rw [parseFilePatch_eq, parse_front own] at read
    by_cases some_hunk : f.hunks = []
    · have honest : Honest f := by
        intro h member
        rw [some_hunk] at member
        cases member
      by_cases more : files = []
      · subst more
        refine ⟨allFilled_singleton f, fun g member => ?_⟩
        cases List.mem_singleton.mp member
        exact honest
      · -- the hunks of a later file are taken for those of this one, or none is left for it
        rw [some_hunk] at read same
        rcases parseFrom_onward below read with taken | none_left
        · exact absurd (List.map_eq_nil_iff.mp same) taken
        · rw [none_left, parseSections_nil] at rest
          cases rest
          exact absurd (List.map_eq_nil_iff.mp later.symm) more
    · cases parse_printHunks own.hunks with
      | reads hunks left _ reading _ whole parsed =>
        rw [parse_hunks some_hunk total _ files parsed] at read
        cases read
        have honest := reading.honest_of_sizes same
        rw [whole honest, List.nil_append] at room rest
        obtain ⟨filled, all⟩ := ih below room rest later
        constructor
        · by_cases more : files = []
          · rw [more]
            exact allFilled_singleton f
          · exact (allFilled_cons more).mpr ⟨some_hunk, filled⟩
        · intro g member
          rcases List.mem_cons.mp member with rfl | inside
          · exact honest
          · exact all g inside
      | refuses _ failed =>
        obtain ⟨e, error⟩ := @parse_hunks_error form f some_hunk total
          (readFront .empty (frontOf form f)) files failed
        cases error.symm.trans read

/-! ## Line by line

The text of a diff is cut into lines, which takes a carriage return off the end of each. -/

/-- The line without a carriage return at its end. -/
def chopPatchLine : PatchLine → PatchLine
  | .context text => .context (chopCr text)
  | .add text => .add (chopCr text)
  | .remove text => .remove (chopCr text)

def chopHunk (h : DiffHunk) : DiffHunk :=
  { h with
    body := h.body.map fun entry => (chopPatchLine entry.1, entry.2)
    heading := chopCr h.heading }

def chopFile (f : DiffFile) : DiffFile where
  names := chopCr f.names
  extended := f.extended.map chopCr
  oldName := chopCr f.oldName
  newName := chopCr f.newName
  hunks := f.hunks.map chopHunk

theorem chopHunk_lines (h : DiffHunk) : (chopHunk h).lines = h.lines.map chopPatchLine := by
  simp [DiffHunk.lines, chopHunk]

theorem oldSide_chop (ls : List PatchLine) :
    (oldSide (ls.map chopPatchLine)).length = (oldSide ls).length := by
  induction ls with
  | nil => rfl
  | cons line ls ih => cases line <;> simp [chopPatchLine, ih]

theorem newSide_chop (ls : List PatchLine) :
    (newSide (ls.map chopPatchLine)).length = (newSide ls).length := by
  induction ls with
  | nil => rfl
  | cons line ls ih => cases line <;> simp [chopPatchLine, ih]

theorem printLine_chop (line : PatchLine) :
    printLine (chopPatchLine line) = chopCr (printLine line) := by
  cases line with
  | context text => exact (@chopCr_append [' '] text (by decide)).symm
  | add text => exact (@chopCr_append ['+'] text (by decide)).symm
  | remove text => exact (@chopCr_append ['-'] text (by decide)).symm

theorem printBody_chop (h : DiffHunk) :
    printBody (chopHunk h).body = (printBody h.body).map chopCr := by
  simp only [printBody, chopHunk, List.flatMap_map, List.map_flatMap]
  refine List.flatMap_congr fun entry _ => ?_
  obtain ⟨line, marked⟩ := entry
  rw [List.map_cons, printLine_chop]
  cases marked with
  | true =>
    have kept : chopCr missingNewline = missingNewline := by decide
    rw [if_pos rfl, List.map_singleton, kept]
  | false => rfl

/-- The ranges of a hunk header have no carriage return in them. -/
theorem printRange_no_cr (short : Bool) (start count : Nat) : '\r' ∉ printRange short start count := by
  intro member
  rcases mem_printRange member with digit | comma
  · exact absurd digit (by decide)
  · exact absurd comma (by decide)

theorem printHeader_chop (h : DiffHunk) : printHeader (chopHunk h) = chopCr (printHeader h) := by
  have oldCount := oldSide_chop h.lines
  have newCount := newSide_chop h.lines
  have shape : printHeader h = ("@@".toList ++ ' ' :: ('-' :: printRange h.shortOld h.oldStart
      (oldSide h.lines).length) ++ ' ' :: ('+' :: printRange h.shortNew h.newStart
      (newSide h.lines).length) ++ ' ' :: "@@".toList) ++ h.heading := by
    simp [printHeader]
  have clean : '\r' ∉ ("@@".toList ++ ' ' :: ('-' :: printRange h.shortOld h.oldStart
      (oldSide h.lines).length) ++ ' ' :: ('+' :: printRange h.shortNew h.newStart
      (newSide h.lines).length) ++ ' ' :: "@@".toList) := by
    simp [printRange_no_cr]
  rw [shape, chopCr_append clean, printHeader, chopHunk_lines, oldCount, newCount]
  simp [chopHunk]

theorem printHunks_chop (hs : List DiffHunk) :
    printHunks (hs.map chopHunk) = (printHunks hs).map chopCr := by
  induction hs with
  | nil => rfl
  | cons h hs ih =>
    rw [List.map_cons, printHunks_cons, printHunks_cons, printHeader_chop, printBody_chop, ih]
    simp

theorem frontOf_chop (form : DiffForm) (f : DiffFile) :
    frontOf form (chopFile f) = (frontOf form f).map chopCr := by
  have minus := @chopCr_append "--- ".toList f.oldName (by decide)
  have plus := @chopCr_append "+++ ".toList f.newName (by decide)
  have file := @chopCr_append "diff --git ".toList f.names (by decide)
  cases form with
  | plain =>
    simp only [frontOf, chopFile, List.map_cons, List.map_nil]
    rw [minus, plus]
  | git =>
    simp only [frontOf, chopFile, List.map_cons, List.map_append, List.map_nil]
    rw [minus, plus, file]

theorem printFiles_chop (form : DiffForm) (files : List DiffFile) :
    printFiles form (files.map chopFile) = (printFiles form files).map chopCr := by
  induction files with
  | nil => rfl
  | cons f files ih =>
    rw [List.map_cons, printFiles_cons, printFiles_cons, frontOf_chop, ih,
      show (chopFile f).hunks = f.hunks.map chopHunk from rfl, printHunks_chop]
    simp only [List.map_append]

theorem startsWith_chop {pat line : Text} (other : startsWith pat line = false) :
    startsWith pat (chopCr line) = false := by
  rw [Bool.eq_false_iff]
  intro begins
  obtain ⟨more, shape⟩ := startsWith_iff.mp begins
  obtain ⟨rest, whole, -⟩ := chopCr_rest line
  rw [whole, shape, List.append_assoc, startsWith_append] at other
  cases other

theorem modeReads_chop {line : Text} (reads : ModeReads line) : ModeReads (chopCr line) := by
  intro value mode
  obtain ⟨rest, whole, none_or_cr⟩ := chopCr_rest line
  have same : trim (value ++ rest) = trim value := by
    rcases none_or_cr with rfl | rfl
    · rw [List.append_nil]
    · exact trim_append_space (by decide) value
  have found := reads (value ++ rest) <| mode.imp
    (fun old => by rw [whole, stripPrefix_eq_some old, List.append_assoc, stripPrefix_append])
    fun new => by rw [whole, stripPrefix_eq_some new, List.append_assoc, stripPrefix_append]
  rwa [readMode, same] at found

theorem ExtendedLine.chop {line : Text} (extended : ExtendedLine line) :
    ExtendedLine (chopCr line) :=
  ⟨startsWith_chop extended.hunk, startsWith_chop extended.file, startsWith_chop extended.notice,
    modeReads_chop extended.mode⟩

theorem readable_chop (form : DiffForm) {f : DiffFile} (formed : FileFormed f) :
    Readable form (chopFile f) := by
  have minus : PassedOver ("--- ".toList ++ chopCr f.oldName) := passed_label '-' (.inl rfl) _
  have plus : PassedOver ("+++ ".toList ++ chopCr f.newName) := passed_label '+' (.inr rfl) _
  constructor
  · intro line member
    cases form with
    | plain =>
      simp only [frontOf, chopFile, List.mem_cons, List.not_mem_nil, or_false] at member
      rcases member with rfl | rfl
      · exact minus
      · exact plus
    | git =>
      simp only [frontOf, chopFile, List.mem_cons, List.mem_append, List.mem_map,
        List.not_mem_nil, or_false] at member
      rcases member with rfl | ⟨own, inside, rfl⟩ | rfl | rfl
      · exact passed_section_line _
      · exact (ExtendedLine.chop (formed.extended own inside).1).passed
      · exact minus
      · exact plus
  · intro g member
    obtain ⟨h, inside, rfl⟩ := List.mem_map.mp member
    obtain ⟨fits, filled, -⟩ := formed.hunks h inside
    refine ⟨⟨fits.oldStart, fits.newStart, ?_, ?_⟩, ?_⟩
    · rw [chopHunk_lines, oldSide_chop]
      exact fits.oldCount
    · rw [chopHunk_lines, newSide_chop]
      exact fits.newCount
    · exact fun empty => filled (List.map_eq_nil_iff.mp empty)

/-- A line end is on a line of a printed hunk only where a line of the file has it. -/
theorem printHunk_one_line {h : DiffHunk} {c : Char} (control : c = '\n' ∨ c = '\r')
    (heading : c ∉ h.heading) (clean : ∀ line ∈ h.lines, c ∉ line.text) :
    ∀ line ∈ printHunk h, c ∉ line := by
  intro line member
  have ranges (short : Bool) (start count : Nat) : c ∉ printRange short start count := by
    intro inside
    rcases mem_printRange inside with digit | comma
    · rcases control with rfl | rfl <;> exact absurd digit (by decide)
    · rcases control with rfl | rfl <;> exact absurd comma (by decide)
  rcases List.mem_cons.mp member with rfl | inside
  · rcases control with rfl | rfl <;> simp [printHeader, ranges, heading]
  · obtain ⟨⟨entry, marked⟩, there, own⟩ := List.mem_flatMap.mp inside
    have text : c ∉ entry.text := clean entry (List.mem_map.mpr ⟨_, there, rfl⟩)
    rcases List.mem_cons.mp own with rfl | marker
    · rcases control with rfl | rfl <;>
        cases entry <;> simpa [printLine, PatchLine.text] using text
    · cases marked with
      | true =>
        cases List.mem_singleton.mp marker
        rcases control with rfl | rfl <;> decide
      | false => cases marker

theorem printFiles_one_line (form : DiffForm) {files : List DiffFile}
    (formed : ∀ f ∈ files, FileFormed f) : ∀ line ∈ printFiles form files, '\n' ∉ line := by
  intro line member
  obtain ⟨f, listed, inside⟩ := List.mem_flatMap.mp member
  have own := formed f listed
  rcases List.mem_append.mp inside with front | hunk
  · cases form with
    | plain =>
      simp only [frontOf, List.mem_cons, List.not_mem_nil, or_false] at front
      rcases front with rfl | rfl
      · simp [own.oldName]
      · simp [own.newName]
    | git =>
      simp only [frontOf, List.mem_cons, List.mem_append, List.not_mem_nil, or_false] at front
      rcases front with rfl | extended | rfl | rfl
      · simp [own.names]
      · exact (own.extended line extended).2
      · simp [own.oldName]
      · simp [own.newName]
  · obtain ⟨h, there, printed⟩ := List.mem_flatMap.mp hunk
    obtain ⟨-, -, heading, clean⟩ := own.hunks h there
    exact printHunk_one_line (.inl rfl) heading clean line printed

/-- The lines of a printed diff are those of the files without carriage returns. -/
theorem lines_printDiff (form : DiffForm) {files : List DiffFile}
    (formed : ∀ f ∈ files, FileFormed f) :
    lines (printDiff form files) = printFiles form (files.map chopFile) := by
  rw [printDiff, lines_unlines (printFiles_one_line form formed), printFiles_chop]

/-- Where no line begins a section of git's, the plain ones are looked for. -/
theorem fromDiff_plain {text : Text}
    (elsewhere : ∀ line ∈ lines text, ∀ rest, startsGitFile line rest = false) :
    fromDiff text = (parseSections startsPlainFile (lines text).length (lines text).length
      (lines text)).map ParsedPatch.mk := by
  obtain ⟨fuel', -, skipped⟩ := parseSections_skip elsewhere (lines text).length
    (lines text).length [] (by rw [List.append_nil])
  rw [List.append_nil, parseSections_nil] at skipped
  unfold fromDiff
  dsimp only
  rw [skipped]
  cases plain : parseSections startsPlainFile (lines text).length (lines text).length
      (lines text) with
  | error e =>
    have same : parsePlainUnified (lines text) = .error e := plain
    simp only [bind, Except.bind, ↓reduceIte, same]
    rfl
  | ok found =>
    have same : parsePlainUnified (lines text) = .ok found := plain
    simp only [bind, Except.bind, ↓reduceIte, same]
    rfl

/-- The scan for the sections of a form is what the text is read by. -/
theorem fromDiff_form {form : DiffForm} {files : List DiffFile} {text : Text}
    (split : lines text = printFiles form files) :
    fromDiff text = (parseSections (begins form) (printFiles form files).length
      (printFiles form files).length (printFiles form files)).map ParsedPatch.mk := by
  cases form with
  | git =>
    unfold fromDiff
    dsimp only
    rw [split]
    cases scanned : parseSections startsGitFile (printFiles .git files).length
        (printFiles .git files).length (printFiles .git files) with
    | error e =>
      rw [show begins .git = startsGitFile from rfl, scanned]
      rfl
    | ok found =>
      rw [show begins .git = startsGitFile from rfl, scanned]
      by_cases none_there : found = []
      · cases files with
        | nil =>
          subst none_there
          rfl
        | cons f files =>
          rw [printFiles_cons] at scanned
          obtain ⟨file, after, others, fuel', -, -, -, shape⟩ :=
            @scan_file_ok .git f _ _ _ _ (Nat.le_refl _) scanned
          rw [none_there] at shape
          cases shape
      · simp only [bind, Except.bind, if_neg none_there]
        rfl
  | plain =>
    have elsewhere : ∀ line ∈ printFiles .plain files, ∀ rest, startsGitFile line rest = false := by
      intro line member rest
      obtain ⟨f, -, inside⟩ := List.mem_flatMap.mp member
      rcases List.mem_append.mp inside with front | hunk
      · simp only [frontOf, List.mem_cons, List.not_mem_nil, or_false] at front
        rcases front with rfl | rfl <;> rfl
      · exact printHunks_not_section f.hunks line hunk
    rw [← split] at elsewhere ⊢
    exact fromDiff_plain elsewhere

/-! ## There and back -/

/-- No line of a hunk ends in a carriage return. -/
def NoCr (h : DiffHunk) : Prop := ∀ line ∈ h.lines, line.text.getLast? ≠ some '\r'

theorem chopPatchLine_eq_self {line : PatchLine} :
    chopPatchLine line = line ↔ line.text.getLast? ≠ some '\r' := by
  rw [← chopCr_eq_self]
  cases line <;> simp [chopPatchLine, PatchLine.text]

/-- A hunk whose lines are kept has none with a carriage return at its end. -/
theorem chopHunk_body {h : DiffHunk} : (chopHunk h).body = h.body ↔ NoCr h := by
  constructor
  · intro same line member
    obtain ⟨entry, inside, rfl⟩ := List.mem_map.mp member
    have kept := List.map_inj_left.mp (same.trans (List.map_id h.body).symm) entry inside
    exact chopPatchLine_eq_self.mp (congrArg Prod.fst kept)
  · intro clean
    refine (List.map_congr_left fun entry inside => ?_).trans (List.map_id h.body)
    have kept := chopPatchLine_eq_self.mpr (clean entry.1 (List.mem_map.mpr ⟨entry, inside, rfl⟩))
    exact Prod.ext kept rfl

theorem sizes_keptHunks (files : List DiffFile) :
    (files.map keptHunks).map (fun hunks => hunks.map (·.lines.length)) =
      files.map fun f => f.hunks.map (·.body.length) := by
  simp [keptHunks, readHunk, DiffHunk.lines, Function.comp_def]

theorem sizes_chop (files : List DiffFile) :
    (files.map chopFile).map (fun f => f.hunks.map (·.body.length)) =
      files.map fun f => f.hunks.map (·.body.length) := by
  simp [chopFile, chopHunk, Function.comp_def]

theorem allFilled_chop {files : List DiffFile} :
    AllFilled (files.map chopFile) ↔ AllFilled files := by
  simp [AllFilled, ← List.map_dropLast, chopFile]

/-- Hunks that are kept line for line have no carriage returns. -/
theorem keptHunks_chop {f : DiffFile} :
    keptHunks (chopFile f) = keptHunks f ↔ ∀ h ∈ f.hunks, NoCr h := by
  have shape : keptHunks (chopFile f) =
      f.hunks.map fun h => readHunk (chopHunk h) (chopHunk h).lines ((chopHunk h).body.any Prod.snd) := by
    simp [keptHunks, chopFile, Function.comp_def]
  rw [shape, keptHunks, List.map_inj_left]
  refine forall₂_congr fun h _ => ?_
  rw [← chopHunk_body]
  constructor
  · intro same
    have texts : (chopHunk h).lines = h.lines := congrArg PatchHunk.lines same
    refine (List.map_congr_left fun entry inside => ?_).trans (List.map_id h.body)
    rw [chopHunk_lines] at texts
    have kept := List.map_inj_left.mp (texts.trans (List.map_id h.lines).symm) entry.1
      (List.mem_map.mpr ⟨entry, inside, rfl⟩)
    exact Prod.ext kept rfl
  · intro same
    have texts : (chopHunk h).lines = h.lines := congrArg (List.map Prod.fst) same
    rw [texts, same]
    rfl

/-- **Parsing gives back what was printed**, in both forms, exactly when every file but
the last has hunks, no hunk looks like it holds a file header, and no line ends in a
carriage return. -/
theorem parsesBack_iff (form : DiffForm) {files : List DiffFile}
    (formed : ∀ f ∈ files, FileFormed f) :
    ParsesBack form files ↔ (∀ f ∈ files.dropLast, f.hunks ≠ []) ∧
      ∀ f ∈ files, ∀ h ∈ f.hunks, ¬ FakesFileHeader h.body ∧ NoCr h := by
  have readable : ∀ g ∈ files.map chopFile, Readable form g := by
    intro g member
    obtain ⟨f, listed, rfl⟩ := List.mem_map.mp member
    exact readable_chop form (formed f listed)
  have read := fromDiff_form (lines_printDiff form formed)
  constructor
  · rintro ⟨parsed, ok, same⟩
    rw [read] at ok
    cases scanned : parseSections (begins form) (printFiles form (files.map chopFile)).length
        (printFiles form (files.map chopFile)).length (printFiles form (files.map chopFile)) with
    | error e =>
      rw [scanned] at ok
      cases ok
    | ok found =>
      rw [scanned] at ok
      have equal : parsed = found := by
        cases ok
        rfl
      subst equal
      have sizes : parsed.map (fun file => file.hunks.map (·.lines.length)) =
          (files.map chopFile).map fun f => f.hunks.map (·.body.length) := by
        rw [sizes_chop, ← sizes_keptHunks, ← same, List.map_map]
        rfl
      obtain ⟨filled, honest⟩ := scan_sizes readable (Nat.le_refl _) scanned sizes
      obtain ⟨read_again, again, kept⟩ := scan_whole readable filled honest _ (Nat.le_refl _)
      cases scanned.symm.trans again
      rw [same, List.map_map] at kept
      have clean (f : DiffFile) (listed : f ∈ files) : ∀ h ∈ f.hunks, NoCr h :=
        keptHunks_chop.mp (List.map_inj_left.mp kept f listed).symm
      refine ⟨allFilled_chop.mp filled, fun f listed h inside => ⟨?_, clean f listed h inside⟩⟩
      have own := honest (chopFile f) (List.mem_map_of_mem listed) (chopHunk h)
        (List.mem_map_of_mem inside)
      rwa [chopHunk_body.mpr (clean f listed h inside)] at own
  · rintro ⟨filled, each⟩
    have honest : ∀ g ∈ files.map chopFile, Honest g := by
      intro g member h inside
      obtain ⟨f, listed, rfl⟩ := List.mem_map.mp member
      obtain ⟨own, there, rfl⟩ := List.mem_map.mp inside
      rw [chopHunk_body.mpr (each f listed own there).2]
      exact (each f listed own there).1
    obtain ⟨parsed, scanned, kept⟩ :=
      scan_whole readable (allFilled_chop.mpr filled) honest _ (Nat.le_refl _)
    refine ⟨parsed, by rw [read, scanned]; rfl, ?_⟩
    rw [kept, List.map_map]
    refine List.map_congr_left fun f listed => ?_
    exact keptHunks_chop.mpr fun h inside => (each f listed h inside).2

/-- A query in which a comment is replaced by what is a comment in no language. -/
def replaceComment : DiffFile where
  names := "a/q.sql b/q.sql".toList
  extended := []
  oldName := "a/q.sql".toList
  newName := "b/q.sql".toList
  hunks := [{
    oldStart := 1
    newStart := 1
    body := [(.context "c".toList, false), (.remove "-- x".toList, false),
      (.add "++ y".toList, false)]
    shortOld := false
    shortNew := false
    heading := [] }]

theorem replaceComment_formed : FileFormed replaceComment := by
  refine ⟨by decide, by rintro line ⟨⟩, by decide, by decide, ?_⟩
  intro h member
  cases List.mem_singleton.mp member
  exact ⟨⟨by decide, by decide, by decide, by decide⟩, List.cons_ne_nil _ _, by decide, by decide⟩

/-- The two lines are taken for the header of another file. -/
theorem replaceComment_misread :
    FileFormed replaceComment ∧
    printDiff .plain [replaceComment] =
      "--- a/q.sql\n+++ b/q.sql\n@@ -1,2 +1,2 @@\n c\n--- x\n+++ y\n".toList ∧
    ((fromDiff (printDiff .plain [replaceComment])).toOption.map fun parsed =>
        parsed.files.map fun file => (file.newPath, file.hunks)) =
      some [(some ⟨"q.sql".toList⟩, [⟨1, 1, 1, 1, [.context "c".toList], false⟩]),
        (some ⟨"y".toList⟩, [])] ∧
    ¬ ParsesBack .plain [replaceComment] := by
  have read : ((fromDiff (printDiff .plain [replaceComment])).toOption.map fun parsed =>
        parsed.files.map fun file => (file.newPath, file.hunks)) =
      some [(some ⟨"q.sql".toList⟩, [⟨1, 1, 1, 1, [.context "c".toList], false⟩]),
        (some ⟨"y".toList⟩, [])] := by
    decide +kernel
  refine ⟨replaceComment_formed, by decide +kernel, read, ?_⟩
  rintro ⟨parsed, ok, same⟩
  rw [ok] at read
  have lengths := congrArg (List.length ∘ List.map Prod.fst) (Option.some.inj read)
  have expected := congrArg List.length same
  simp at lengths expected
  omega

/-- A file with the line of a query replaced. -/
def replaceQuery : DiffFile :=
  { replaceComment with hunks := [replaceLine] }

theorem replaceQuery_back :
    FileFormed replaceQuery ∧ ParsesBack .git [replaceQuery, replaceQuery] := by
  have own : FileFormed replaceQuery := by
    refine ⟨by decide, by rintro line ⟨⟩, by decide, by decide, ?_⟩
    intro h member
    cases List.mem_singleton.mp member
    exact ⟨⟨by decide, by decide, by decide, by decide⟩, List.cons_ne_nil _ _, by decide, by decide⟩
  refine ⟨own, (parsesBack_iff .git ?_).mpr ⟨?_, ?_⟩⟩
  · intro f member
    have same : f = replaceQuery := by simpa using member
    rw [same]
    exact own
  · intro f member
    cases List.mem_singleton.mp member
    exact List.cons_ne_nil _ _
  · intro f member h inside
    have same : f = replaceQuery := by simpa using member
    rw [same] at inside
    cases List.mem_singleton.mp inside
    constructor
    · rintro ⟨before, old, new, marked, after, shape, minus, -⟩
      have removed : (PatchLine.remove old, false) ∈ replaceLine.body := by rw [shape]; simp
      have isA : old = "a".toList := by simpa [replaceLine] using removed
      rw [isA] at minus
      cases minus
    · intro line there
      have one : line = .remove "a".toList ∨ line = .add "b".toList := by
        simpa [replaceLine, DiffHunk.lines] using there
      rcases one with rfl | rfl <;> decide

end DiffRoundTrip

end Devit
