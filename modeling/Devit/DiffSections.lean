import Devit.HunkReading
import Mathlib.Data.List.Forall2

/-! A git diff section by section. The loop over a section's header stops at a hunk or at
a notice about binary files, and not at the header of the next section. So a section that
has neither is read together with those behind it, and the others are read as if each
were alone. -/
namespace Devit
open Text

/-- What a section of a git diff holds behind its header: nothing but the header tells of
a change of mode, a rename, or an empty file that comes or goes. -/
inductive SectionContent where
  | nothing
  | binary (names : Text)
  | hunks (oldName newName : Text) (hs : List DiffHunk)

structure GitSection where
  names : Text
  extended : List Text
  content : SectionContent

namespace DiffSections
open UnifiedDiff PatchParser PatchCorrectness

def noticeLine (names : Text) : Text := "Binary files ".toList ++ names

def printContent : SectionContent → List Text
  | .nothing => []
  | .binary names => [noticeLine names]
  | .hunks oldName newName hs =>
    ("--- ".toList ++ oldName) :: ("+++ ".toList ++ newName) :: printHunks hs

def printSection (s : GitSection) : List Text :=
  ("diff --git ".toList ++ s.names) :: (s.extended ++ printContent s.content)

def printSections (sections : List GitSection) : List Text := sections.flatMap printSection

/-- A mode as it is read, if there is one. -/
def readMode (value : Text) : Option Nat := parseUnsigned 8 (2 ^ 32 - 1) (trim value)

/-- A line with a mode, if it is one, has one that can be read. -/
def ModeReads (line : Text) : Prop :=
  ∀ value, stripPrefix "old mode ".toList line = some value ∨
    stripPrefix "new mode ".toList line = some value → trim value = [] ∨ (readMode value).isSome

/-- A line of an extended header. -/
structure ExtendedLine (line : Text) : Prop where
  hunk : startsWith "@@".toList line = false
  file : startsWith "diff --git ".toList line = false
  notice : startsWith "Binary files ".toList line = false
  mode : ModeReads line

/-- The section is one that git writes: its modes are numbers, and its hunks hold lines
and have numbers that fit. -/
structure Formed (s : GitSection) : Prop where
  extended : ∀ line ∈ s.extended, ExtendedLine line
  hunks : ∀ oldName newName hs, s.content = .hunks oldName newName hs →
    ∀ h ∈ hs, Fits h ∧ h.body ≠ []

/-! ## Reading a header -/

/-- What one line of a header changes. -/
def headerStep (h : Header) (line : Text) : Header :=
  match stripPrefix "old mode ".toList line with
  | some value => { h with oldMode := readMode value }
  | none =>
    match stripPrefix "new mode ".toList line with
    | some value => { h with newMode := readMode value }
    | none =>
      if startsWith "--- ".toList line then
        { h with oldPath := headerPath "a/".toList line <|> h.oldPath }
      else if startsWith "+++ ".toList line then
        { h with newPath := headerPath "b/".toList line <|> h.newPath }
      else if contains "new file mode".toList line then { h with isNewFile := true }
      else if contains "deleted file mode".toList line then { h with isDeletedFile := true }
      else h

/-- A notice about binary files that is taken for one: what it names is not taken for a
line about a mode. -/
def IsNotice (line : Text) : Prop :=
  startsWith "Binary files ".toList line = true ∧
    contains "new file mode".toList line = false ∧ contains "deleted file mode".toList line = false

/-- The header loop goes on behind the line. -/
structure PassedOver (line : Text) : Prop where
  hunk : startsWith "@@".toList line = false
  notice : ¬ IsNotice line
  mode : ModeReads line

theorem parseMode_reads {value : Text} (reads : trim value = [] ∨ (readMode value).isSome)
    (number : Nat) : parseMode (trim value) number = .ok (readMode value) := by
  unfold parseMode
  split
  · rename_i empty
    rw [readMode, empty]
    rfl
  · rename_i filled
    obtain ⟨mode, found⟩ := Option.isSome_iff_exists.mp (reads.resolve_left filled)
    rw [found]
    rw [readMode] at found
    rw [found]

theorem parseHeader_line {line : Text} (passed : PassedOver line) (total : Nat) (h : Header)
    (rest : List Text) :
    parseHeader total h (line :: rest) = parseHeader total (headerStep h line) rest := by
  rw [parseHeader, headerStep, passed.hunk]
  simp only [Bool.false_eq_true, ↓reduceIte]
  cases oldMode : stripPrefix "old mode ".toList line with
  | some value =>
    dsimp only
    rw [parseMode_reads (passed.mode value (.inl oldMode))]
    rfl
  | none =>
    dsimp only
    cases newMode : stripPrefix "new mode ".toList line with
    | some value =>
      dsimp only
      rw [parseMode_reads (passed.mode value (.inr newMode))]
      rfl
    | none =>
      dsimp only
      split
      · rfl
      split
      · rfl
      split
      · rfl
      split
      · rfl
      · rename_i created deleted
        have other : startsWith "Binary files ".toList line = false := by
          rw [Bool.eq_false_iff]
          exact fun notice => passed.notice ⟨notice, Bool.eq_false_iff.mpr created,
            Bool.eq_false_iff.mpr deleted⟩
        rw [other]
        rfl

/-- The lines of a header, one after the other. -/
def readFront (h : Header) (front : List Text) : Header := front.foldl headerStep h

/-- The file patch of a header and the hunks behind it. -/
def fileOf (h : Header) (hunks : List PatchHunk) : FilePatch where
  oldPath := h.oldPath
  newPath := h.newPath
  hunks := hunks
  isNewFile := h.isNewFile || (h.oldPath.isNone && h.newPath.isSome)
  isDeletedFile := h.isDeletedFile || (h.newPath.isNone && h.oldPath.isSome)
  oldMode := h.oldMode
  newMode := h.newMode
  addsExecBit := modeAddsExec h.oldMode h.newMode
  isBinary := h.isBinary
  noTrailingNewline := (hunks.getLast?.map (·.noTrailingNewline)).getD false

/-- `parseFilePatch` with some of the header read. -/
def parseFrom (total : Nat) (h : Header) (lines : List Text) :
    DevItResult (FilePatch × List Text) := do
  let (h', body) ← parseHeader total h lines
  let (hunks, after) ← parseHunks total body.length body
  .ok (fileOf h' hunks, after)

theorem parseFilePatch_eq (total : Nat) (lines : List Text) :
    parseFilePatch total lines = parseFrom total .empty lines := rfl

theorem parseFrom_front {front : List Text} (passed : ∀ line ∈ front, PassedOver line)
    (total : Nat) (h : Header) (rest : List Text) :
    parseFrom total h (front ++ rest) = parseFrom total (readFront h front) rest := by
  induction front generalizing h with
  | nil => rfl
  | cons line front ih =>
    have first := parseHeader_line (passed line List.mem_cons_self) total h (front ++ rest)
    have others := ih (fun l member => passed l (List.mem_cons_of_mem _ member)) (headerStep h line)
    rw [List.cons_append, parseFrom, first]
    exact others

theorem parseFrom_nil (total : Nat) (h : Header) :
    parseFrom total h [] = .ok (fileOf h [], []) := rfl

theorem parseHeader_hunk {line : Text} (hunk : startsWith "@@".toList line = true) (total : Nat)
    (h : Header) (rest : List Text) :
    parseHeader total h (line :: rest) = .ok (h, line :: rest) := by
  rw [parseHeader, if_pos hunk]

theorem startsWith_printHeader (h : DiffHunk) : startsWith "@@".toList (printHeader h) = true := by
  rw [printHeader, List.append_assoc]
  exact startsWith_append _ _

/-- Hunks end the header. -/
theorem parseFrom_hunks {hs : List DiffHunk} (filled : hs ≠ []) (total : Nat) (h : Header)
    (rest : List Text) :
    parseFrom total h (printHunks hs ++ rest) = (do
      let (hunks, after) ←
        parseHunks total (printHunks hs ++ rest).length (printHunks hs ++ rest)
      .ok (fileOf h hunks, after)) := by
  cases hs with
  | nil => exact absurd rfl filled
  | cons first hs =>
    rw [printHunks_cons, List.cons_append, parseFrom,
      parseHeader_hunk (startsWith_printHeader first)]
    rfl

/-- What the header loop does with one line. -/
theorem parseHeader_cases (total : Nat) (h : Header) (line : Text) (rest : List Text) :
    startsWith "@@".toList line = true ∧ parseHeader total h (line :: rest) = .ok (h, line :: rest) ∨
    startsWith "@@".toList line = false ∧
      ((∃ e, parseHeader total h (line :: rest) = .error e) ∨
        (∃ h', parseHeader total h (line :: rest) = parseHeader total h' rest) ∨
        parseHeader total h (line :: rest) = .ok ({ h with isBinary := true }, rest)) := by
  cases hunk : startsWith "@@".toList line with
  | true => exact .inl ⟨rfl, parseHeader_hunk hunk total h rest⟩
  | false =>
    refine .inr ⟨rfl, ?_⟩
    rw [parseHeader, hunk]
    simp only [Bool.false_eq_true, ↓reduceIte]
    split
    · rename_i value _
      cases mode : parseMode (trim value) (lineNumber total (line :: rest)) with
      | error e => exact .inl ⟨e, rfl⟩
      | ok mode => exact .inr (.inl ⟨_, rfl⟩)
    split
    · rename_i value _
      cases mode : parseMode (trim value) (lineNumber total (line :: rest)) with
      | error e => exact .inl ⟨e, rfl⟩
      | ok mode => exact .inr (.inl ⟨_, rfl⟩)
    · split_ifs
      · exact .inr (.inl ⟨_, rfl⟩)
      · exact .inr (.inl ⟨_, rfl⟩)
      · exact .inr (.inl ⟨_, rfl⟩)
      · exact .inr (.inl ⟨_, rfl⟩)
      · exact .inr (.inr rfl)
      · exact .inr (.inl ⟨_, rfl⟩)

theorem parseHeader_notice {line : Text} (notice : IsNotice line) (total : Nat) (h : Header)
    (rest : List Text) :
    parseHeader total h (line :: rest) = .ok ({ h with isBinary := true }, rest) := by
  obtain ⟨begins, created, deleted⟩ := notice
  obtain ⟨names, rfl⟩ := startsWith_iff.mp begins
  have oldMode : stripPrefix "old mode ".toList ("Binary files ".toList ++ names) = none := rfl
  have newMode : stripPrefix "new mode ".toList ("Binary files ".toList ++ names) = none := rfl
  have hunk : startsWith "@@".toList ("Binary files ".toList ++ names) = false := rfl
  have minus : startsWith "--- ".toList ("Binary files ".toList ++ names) = false := rfl
  have plus : startsWith "+++ ".toList ("Binary files ".toList ++ names) = false := rfl
  rw [parseHeader, hunk, oldMode, newMode, minus, plus, created, deleted, begins]
  rfl

/-- A notice ends the header, and its section. -/
theorem parseFrom_notice {line : Text} (notice : IsNotice line) (total : Nat) (h : Header)
    {rest : List Text} (none_left : NoHunk rest) :
    parseFrom total h (line :: rest) = .ok (fileOf { h with isBinary := true } [], rest) := by
  rw [parseFrom, parseHeader_notice notice]
  have none_read := parseHunks_none total rest.length none_left
  simp only [bind, Except.bind, none_read]

/-! ## Moving on -/

theorem parseHeader_length {total : Nat} {h h' : Header} {lines body : List Text}
    (read : parseHeader total h lines = .ok (h', body)) : body.length ≤ lines.length := by
  induction lines generalizing h with
  | nil =>
    cases read
    exact Nat.le_refl _
  | cons line rest ih =>
    rcases parseHeader_cases total h line rest with
      ⟨-, stopped⟩ | ⟨-, ⟨e, failed⟩ | ⟨h'', onward⟩ | ended⟩
    · rw [stopped] at read
      cases read
      exact Nat.le_refl _
    · rw [failed] at read
      cases read
    · rw [onward] at read
      exact Nat.le_succ_of_le (ih read)
    · rw [ended] at read
      cases read
      exact Nat.le_succ _

theorem parseHunks_length {total fuel : Nat} {lines after : List Text} {hunks : List PatchHunk}
    (read : parseHunks total fuel lines = .ok (hunks, after)) : after.length ≤ lines.length := by
  induction fuel generalizing lines hunks with
  | zero =>
    cases read
    exact Nat.le_refl _
  | succ fuel ih =>
    cases lines with
    | nil =>
      cases read
      exact Nat.le_refl _
    | cons line rest =>
      rw [parseHunks] at read
      split at read
      · obtain ⟨⟨hunk, between⟩, first, read⟩ := Except.bind_eq_ok read
        obtain ⟨⟨later, last⟩, others, read⟩ := Except.bind_eq_ok read
        cases read
        exact Nat.le_succ_of_le (Nat.le_trans (ih others) (parseHunk_length first))
      · cases read
        exact Nat.le_refl _

/-- A section takes at least its first line. -/
theorem parseFilePatch_length {total : Nat} {line : Text} {rest after : List Text}
    {file : FilePatch} (header : startsWith "@@".toList line = false)
    (read : parseFilePatch total (line :: rest) = .ok (file, after)) :
    after.length ≤ rest.length := by
  obtain ⟨⟨h, body⟩, front, read⟩ := Except.bind_eq_ok read
  obtain ⟨⟨hunks, last⟩, behind, read⟩ := Except.bind_eq_ok read
  cases read
  have shorter : body.length ≤ rest.length := by
    rcases parseHeader_cases total .empty line rest with
      ⟨stopped, -⟩ | ⟨-, ⟨e, failed⟩ | ⟨h', onward⟩ | ended⟩
    · rw [header] at stopped
      cases stopped
    · rw [failed] at front
      cases front
    · rw [onward] at front
      exact parseHeader_length front
    · rw [ended] at front
      cases front
      exact Nat.le_refl _
  exact Nat.le_trans (parseHunks_length behind) shorter

/-- Lines at which no section begins are passed over. -/
theorem parseSections_skip {begins : Text → List Text → Bool} {left : List Text}
    (other : ∀ line ∈ left, ∀ rest, begins line rest = false) (total fuel : Nat)
    (rest : List Text) (enough : (left ++ rest).length ≤ fuel) :
    ∃ fuel', rest.length ≤ fuel' ∧
      parseSections begins total fuel (left ++ rest) = parseSections begins total fuel' rest := by
  induction left generalizing fuel with
  | nil => exact ⟨fuel, enough, rfl⟩
  | cons line left ih =>
    rw [List.cons_append, List.length_cons] at enough
    obtain ⟨fuel, rfl⟩ : ∃ n, fuel = n + 1 := ⟨fuel - 1, by omega⟩
    obtain ⟨fuel', room, same⟩ :=
      ih (fun l member => other l (List.mem_cons_of_mem _ member)) fuel (by omega)
    refine ⟨fuel', room, ?_⟩
    rw [List.cons_append, parseSections, other line List.mem_cons_self]
    exact same

/-- One section, and the lines behind it. -/
theorem parseSections_section {begins : Text → List Text → Bool} {total fuel : Nat} {line : Text}
    {lines after : List Text} {file : FilePatch} (chosen : begins line lines = true)
    (header : startsWith "@@".toList line = false) (enough : (line :: lines).length ≤ fuel)
    (read : parseFilePatch total (line :: lines) = .ok (file, after)) :
    ∃ fuel', after.length ≤ fuel' ∧ parseSections begins total fuel (line :: lines) =
      (parseSections begins total fuel' after).map (file :: ·) := by
  rw [List.length_cons] at enough
  obtain ⟨fuel, rfl⟩ : ∃ n, fuel = n + 1 := ⟨fuel - 1, by omega⟩
  have shorter := parseFilePatch_length header read
  refine ⟨fuel, by omega, ?_⟩
  rw [parseSections, if_pos chosen, read]
  cases others : parseSections begins total fuel after with
  | error e =>
    simp only [bind, Except.bind, others]
    rfl
  | ok files =>
    simp only [bind, Except.bind, others]
    rfl

theorem parseSections_error {begins : Text → List Text → Bool} {total fuel : Nat} {line : Text}
    {lines : List Text} {e : DevItError} (chosen : begins line lines = true)
    (enough : (line :: lines).length ≤ fuel)
    (failed : parseFilePatch total (line :: lines) = .error e) :
    parseSections begins total fuel (line :: lines) = .error e := by
  rw [List.length_cons] at enough
  obtain ⟨fuel, rfl⟩ : ∃ n, fuel = n + 1 := ⟨fuel - 1, by omega⟩
  rw [parseSections, if_pos chosen, failed]
  rfl

/-! ## The sections of a diff -/

/-- The content ends the header loop. -/
def Stops : SectionContent → Prop
  | .nothing => False
  | .binary names => IsNotice (noticeLine names)
  | .hunks _ _ hs => hs ≠ []

/-- The section ends with an error: of its hunks that look like they hold a file header,
the first begins with it. -/
def RefusedContent : SectionContent → Prop
  | .hunks _ _ hs => Refused hs
  | _ => False

/-- What the next section begins with, if there is one. -/
def AtSection (rest : List Text) : Prop :=
  ∀ line, rest.head? = some line → startsWith "diff --git ".toList line = true

theorem AtSection.ended {rest : List Text} (at_section : AtSection rest) : Ended rest := by
  constructor
  · cases rest with
    | nil => rfl
    | cons line rest =>
      obtain ⟨names, rfl⟩ := startsWith_iff.mp (at_section line rfl)
      have file : startsWith "diff --git".toList ("diff --git ".toList ++ names) = true := rfl
      rw [collectHunkLines, file, Bool.or_true]
      rfl
  · intro line first
    obtain ⟨names, rfl⟩ := startsWith_iff.mp (at_section line first)
    rfl

theorem AtSection.noHunk {rest : List Text} (at_section : AtSection rest) : NoHunk rest := by
  intro line first
  obtain ⟨names, rfl⟩ := startsWith_iff.mp (at_section line first)
  rfl

theorem atSection_nil : AtSection [] := by
  rintro line ⟨⟩

theorem printSections_at (sections : List GitSection) : AtSection (printSections sections) := by
  intro line first
  cases sections with
  | nil => cases first
  | cons s sections =>
    cases first
    exact startsWith_append _ _

/-- A line that is neither a hunk's nor a notice, nor about a mode. -/
theorem passed_plain {line : Text} (hunk : startsWith "@@".toList line = false)
    (notice : startsWith "Binary files ".toList line = false)
    (oldMode : stripPrefix "old mode ".toList line = none)
    (newMode : stripPrefix "new mode ".toList line = none) : PassedOver line := by
  refine ⟨hunk, ?_, ?_⟩
  · rintro ⟨begins, -⟩
    rw [notice] at begins
    cases begins
  · rintro value (mode | mode)
    · rw [oldMode] at mode
      cases mode
    · rw [newMode] at mode
      cases mode

theorem passed_section_line (names : Text) : PassedOver ("diff --git ".toList ++ names) :=
  passed_plain rfl rfl rfl rfl

theorem passed_label (sign : Char) (known : sign = '-' ∨ sign = '+') (name : Text) :
    PassedOver (sign :: sign :: sign :: ' ' :: name) := by
  rcases known with rfl | rfl <;> exact passed_plain rfl rfl rfl rfl

theorem ExtendedLine.passed {line : Text} (extended : ExtendedLine line) : PassedOver line := by
  refine ⟨extended.hunk, ?_, extended.mode⟩
  rintro ⟨begins, -⟩
  rw [extended.notice] at begins
  cases begins

/-- The lines of a section before its hunks or its notice. -/
def frontLines (s : GitSection) : List Text :=
  ("diff --git ".toList ++ s.names) :: (s.extended ++
    match s.content with
    | .hunks oldName newName _ => ["--- ".toList ++ oldName, "+++ ".toList ++ newName]
    | _ => [])

/-- Its hunks or its notice. -/
def tailLines : SectionContent → List Text
  | .nothing => []
  | .binary names => [noticeLine names]
  | .hunks _ _ hs => printHunks hs

theorem printSection_eq (s : GitSection) : printSection s = frontLines s ++ tailLines s.content := by
  rw [printSection, frontLines, List.cons_append, List.append_assoc]
  cases s.content <;> rfl

theorem passed_front {s : GitSection} (formed : Formed s) :
    ∀ line ∈ frontLines s, PassedOver line := by
  intro line member
  rcases List.mem_cons.mp member with rfl | member
  · exact passed_section_line s.names
  · rcases List.mem_append.mp member with extended | label
    · exact (formed.extended line extended).passed
    · cases content : s.content with
      | nothing => simp [content] at label
      | binary names => simp [content] at label
      | hunks oldName newName hs =>
        rw [content] at label
        simp only [List.mem_cons, List.not_mem_nil, or_false] at label
        rcases label with rfl | rfl
        · exact passed_label '-' (.inl rfl) oldName
        · exact passed_label '+' (.inr rfl) newName

/-- A section that does not end the header loop is passed over to its end. -/
theorem passed_whole {s : GitSection} (formed : Formed s) (onward : ¬ Stops s.content) :
    ∀ line ∈ printSection s, PassedOver line := by
  intro line member
  rw [printSection_eq] at member
  rcases List.mem_append.mp member with front | tail
  · exact passed_front formed line front
  · cases content : s.content with
    | nothing => simp [content, tailLines] at tail
    | binary names =>
      rw [content] at tail onward
      cases List.mem_singleton.mp tail
      refine ⟨rfl, onward, ?_⟩
      rintro value (mode | mode) <;> cases mode
    | hunks oldName newName hs =>
      rw [content] at tail onward
      have none_there : hs = [] := not_not.mp onward
      rw [none_there] at tail
      cases tail

theorem printHunks_not_section (hs : List DiffHunk) :
    ∀ line ∈ printHunks hs, startsWith "diff --git ".toList line = false := by
  intro line member
  obtain ⟨h, -, inside⟩ := List.mem_flatMap.mp member
  rcases List.mem_cons.mp inside with rfl | inside
  · rfl
  · obtain ⟨⟨entry, marked⟩, -, own⟩ := List.mem_flatMap.mp inside
    rcases List.mem_cons.mp own with rfl | marker
    · cases entry <;> rfl
    · cases marked with
      | true =>
        cases List.mem_singleton.mp marker
        rfl
      | false => cases marker

/-- What is parsed of a section that ends the header loop: a file patch, with nothing but
lines of its hunks left, or an error, whatever sections follow. -/
inductive SectionParse (s : GitSection) : Prop where
  | reads (file : FilePatch) (left : List Text) (kept : ¬ RefusedContent s.content)
      (inside : ∀ line ∈ left, startsWith "diff --git ".toList line = false)
      (parsed : ∀ total h rest, AtSection rest →
        ∃ file, parseFrom total h (printSection s ++ rest) = .ok (file, left ++ rest))
      (alone : ∀ total rest, AtSection rest →
        parseFilePatch total (printSection s ++ rest) = .ok (file, left ++ rest)) : SectionParse s
  | refuses (refused : RefusedContent s.content)
      (failed : ∀ total h rest, AtSection rest →
        ∃ e, parseFrom total h (printSection s ++ rest) = .error e) : SectionParse s

theorem parse_section {s : GitSection} (formed : Formed s) (stops : Stops s.content) :
    SectionParse s := by
  have front (total : Nat) (h : Header) (rest : List Text) :
      parseFrom total h (printSection s ++ rest) =
        parseFrom total (readFront h (frontLines s)) (tailLines s.content ++ rest) := by
    rw [printSection_eq, List.append_assoc]
    exact parseFrom_front (passed_front formed) total h _
  cases content : s.content with
  | nothing =>
    rw [content] at stops
    exact stops.elim
  | binary names =>
    rw [content] at stops
    have parsed (total : Nat) (h : Header) (rest : List Text) (at_section : AtSection rest) :
        parseFrom total h (printSection s ++ rest) =
          .ok (fileOf { readFront h (frontLines s) with isBinary := true } [], rest) := by
      rw [front, content]
      exact parseFrom_notice stops total _ at_section.noHunk
    refine .reads (fileOf { readFront .empty (frontLines s) with isBinary := true } []) []
      (by rw [content]; exact id) (by simp) (fun total h rest at_section => ?_)
      fun total rest at_section => parsed total .empty rest at_section
    exact ⟨_, parsed total h rest at_section⟩
  | hunks oldName newName hs =>
    rw [content] at stops
    have body (total : Nat) (h : Header) (rest : List Text) :
        parseFrom total h (printSection s ++ rest) = (do
          let (hunks, after) ← parseHunks total (printHunks hs ++ rest).length (printHunks hs ++ rest)
          .ok (fileOf (readFront h (frontLines s)) hunks, after)) := by
      rw [front, content]
      exact parseFrom_hunks stops total _ rest
    have room (rest : List Text) : (printHunks hs).length ≤ (printHunks hs ++ rest).length := by
      rw [List.length_append]
      exact Nat.le_add_right _ _
    cases parse_printHunks (formed.hunks oldName newName hs content) with
    | reads hunks left kept reading inside whole parsed =>
      have read (total : Nat) (h : Header) (rest : List Text) (at_section : AtSection rest) :
          parseFrom total h (printSection s ++ rest) =
            .ok (fileOf (readFront h (frontLines s)) hunks, left ++ rest) := by
        rw [body, parsed total _ rest at_section.ended at_section.noHunk (room rest)]
        rfl
      refine .reads (fileOf (readFront .empty (frontLines s)) hunks) left
        (by rw [content]; exact kept)
        (fun line member => printHunks_not_section hs line (inside member))
        (fun total h rest at_section => ⟨_, read total h rest at_section⟩)
        fun total rest at_section => read total .empty rest at_section
    | refuses refused failed =>
      refine .refuses (by rw [content]; exact refused) fun total h rest at_section => ?_
      obtain ⟨e, error⟩ :=
        failed total _ rest at_section.ended at_section.noHunk (room rest)
      exact ⟨e, by rw [body, error]; rfl⟩

/-! ## One after the other -/

/-- All sections but the last end the header loop. -/
def Separated (sections : List GitSection) : Prop := ∀ s ∈ sections.dropLast, Stops s.content

theorem separated_cons {s : GitSection} {sections : List GitSection} (more : sections ≠ []) :
    Separated (s :: sections) ↔ Stops s.content ∧ Separated sections := by
  rw [Separated, List.dropLast_cons_of_ne_nil more, List.forall_mem_cons]
  rfl

/-- A section that is alone, or stops, is parsed with nothing but lines of its own left. -/
theorem parse_kept {s : GitSection} (formed : Formed s) (kept : ¬ RefusedContent s.content) :
    ∃ file left, (∀ line ∈ left, startsWith "diff --git ".toList line = false) ∧
      ∀ total rest, AtSection rest → rest = [] ∨ Stops s.content →
        parseFilePatch total (printSection s ++ rest) = .ok (file, left ++ rest) := by
  by_cases stops : Stops s.content
  · cases parse_section formed stops with
    | reads file left _ inside _ alone =>
      exact ⟨file, left, inside, fun total rest at_section _ => alone total rest at_section⟩
    | refuses refused _ => exact absurd refused kept
  · refine ⟨fileOf (readFront .empty (printSection s)) [], [], by simp, ?_⟩
    rintro total rest - (rfl | stopping)
    · have whole := parseFrom_front (passed_whole formed stops) total .empty []
      rw [parseFilePatch_eq, whole, parseFrom_nil]
      rfl
    · exact absurd stopping stops

/-- One section of the scan. -/
theorem scan_section {s : GitSection} {file : FilePatch} {behind left rest : List Text}
    {total fuel : Nat} (inside : ∀ line ∈ left, startsWith "diff --git ".toList line = false)
    (read : parseFilePatch total (printSection s ++ behind) = .ok (file, left ++ rest))
    (enough : (printSection s ++ behind).length ≤ fuel) :
    ∃ fuel', rest.length ≤ fuel' ∧
      parseSections startsGitFile total fuel (printSection s ++ behind) =
        (parseSections startsGitFile total fuel' rest).map (file :: ·) := by
  have chosen : startsGitFile ("diff --git ".toList ++ s.names)
      (s.extended ++ printContent s.content ++ behind) = true := startsWith_append _ _
  have elsewhere : ∀ line ∈ left, ∀ rest, startsGitFile line rest = false :=
    fun line member _ => inside line member
  obtain ⟨fuel₁, room₁, first⟩ := parseSections_section chosen rfl enough read
  obtain ⟨fuel₂, room₂, skipped⟩ := parseSections_skip elsewhere total fuel₁ rest room₁
  refine ⟨fuel₂, room₂, ?_⟩
  rw [← skipped]
  exact first

theorem parseSections_nil (begins : Text → List Text → Bool) (total fuel : Nat) :
    parseSections begins total fuel [] = .ok [] := by
  cases fuel <;> rfl

/-- Sections that are apart are parsed one by one, each as if it were alone. -/
theorem scan_sections {sections : List GitSection} (formed : ∀ s ∈ sections, Formed s)
    (separated : Separated sections) (kept : ∀ s ∈ sections, ¬ RefusedContent s.content) :
    ∃ files,
      (∀ total fuel, (printSections sections).length ≤ fuel →
        parseSections startsGitFile total fuel (printSections sections) = .ok files) ∧
      List.Forall₂ (fun s file => ∀ total fuel, (printSection s).length ≤ fuel →
        parseSections startsGitFile total fuel (printSection s) = .ok [file]) sections files := by
  induction sections with
  | nil => exact ⟨[], fun total fuel _ => parseSections_nil _ total fuel, .nil⟩
  | cons s sections ih =>
    have stops : printSections sections = [] ∨ Stops s.content := by
      by_cases more : sections = []
      · exact .inl (by rw [more]; rfl)
      · exact .inr ((separated_cons more).mp separated).1
    have others : Separated sections := by
      by_cases more : sections = []
      · rw [more]
        rintro t ⟨⟩
      · exact ((separated_cons more).mp separated).2
    obtain ⟨files, scanned, each⟩ := ih (fun t member => formed t (List.mem_cons_of_mem _ member))
      others fun t member => kept t (List.mem_cons_of_mem _ member)
    obtain ⟨file, left, inside, read⟩ :=
      parse_kept (formed s List.mem_cons_self) (kept s List.mem_cons_self)
    refine ⟨file :: files, fun total fuel enough => ?_, .cons (fun total fuel enough => ?_) each⟩
    · obtain ⟨fuel', room, onward⟩ := scan_section inside
        (read total _ (printSections_at sections) stops) enough
      rw [scanned total fuel' room] at onward
      exact onward
    · have alone := read total [] atSection_nil (.inl rfl)
      have room : (printSection s ++ []).length ≤ fuel := by rwa [List.append_nil]
      obtain ⟨fuel', -, onward⟩ := scan_section inside alone room
      rw [parseSections_nil, List.append_nil] at onward
      exact onward

/-! ## Counting -/

/-- What a section takes when its header is read on into those behind it. -/
theorem parseFrom_takes {sections : List GitSection} (formed : ∀ s ∈ sections, Formed s)
    (filled : sections ≠ []) {total : Nat} {h : Header} {file : FilePatch} {after : List Text}
    (read : parseFrom total h (printSections sections) = .ok (file, after)) :
    ∃ front back left, sections = front ++ back ∧ front ≠ [] ∧
      after = left ++ printSections back ∧
      ∀ line ∈ left, startsWith "diff --git ".toList line = false := by
  induction sections generalizing h with
  | nil => exact absurd rfl filled
  | cons s sections ih =>
    have shape : printSections (s :: sections) = printSection s ++ printSections sections := rfl
    rw [shape] at read
    by_cases stops : Stops s.content
    · cases parse_section (formed s List.mem_cons_self) stops with
      | reads _ left _ inside parsed _ =>
        obtain ⟨own, same⟩ := parsed total h _ (printSections_at sections)
        rw [same] at read
        cases read
        exact ⟨[s], sections, left, rfl, List.cons_ne_nil _ _, rfl, inside⟩
      | refuses _ failed =>
        obtain ⟨e, error⟩ := failed total h _ (printSections_at sections)
        rw [error] at read
        cases read
    · rw [parseFrom_front (passed_whole (formed s List.mem_cons_self) stops)] at read
      by_cases more : sections = []
      · rw [more] at read
        cases read
        exact ⟨[s], [], [], by rw [more]; rfl, List.cons_ne_nil _ _, rfl, by simp⟩
      · obtain ⟨front, back, left, split, _, behind, inside⟩ :=
          ih (fun t member => formed t (List.mem_cons_of_mem _ member)) more read
        exact ⟨s :: front, back, left, by rw [split]; rfl, List.cons_ne_nil _ _, behind, inside⟩

/-- The first section is parsed if the scan succeeds. -/
theorem scan_first {s : GitSection} {behind : List Text} {total fuel : Nat} {files : List FilePatch}
    (enough : (printSection s ++ behind).length ≤ fuel)
    (scanned : parseSections startsGitFile total fuel (printSection s ++ behind) = .ok files) :
    ∃ file after, parseFilePatch total (printSection s ++ behind) = .ok (file, after) := by
  cases read : parseFilePatch total (printSection s ++ behind) with
  | error e =>
    have chosen : startsGitFile ("diff --git ".toList ++ s.names)
        (s.extended ++ printContent s.content ++ behind) = true := startsWith_append _ _
    have failed := parseSections_error chosen enough read
    cases failed.symm.trans scanned
  | ok pair => exact ⟨pair.1, pair.2, rfl⟩

theorem map_cons_ok {result : DevItResult (List FilePatch)} {file : FilePatch}
    {files : List FilePatch} (ok : result.map (file :: ·) = .ok files) :
    ∃ others, result = .ok others ∧ files = file :: others := by
  cases result with
  | error e => cases ok
  | ok others =>
    cases ok
    exact ⟨others, rfl, rfl⟩

/-- There are at most as many file patches as sections, and fewer when they are not apart. -/
theorem scan_count {sections : List GitSection} (formed : ∀ s ∈ sections, Formed s)
    {total fuel : Nat} (enough : (printSections sections).length ≤ fuel) {files : List FilePatch}
    (scanned : parseSections startsGitFile total fuel (printSections sections) = .ok files) :
    files.length ≤ sections.length ∧ (files.length = sections.length → Separated sections) := by
  generalize count : sections.length = n
  induction n using Nat.strongRecOn generalizing sections fuel files with
  | ind n ih =>
    cases sections with
    | nil =>
      have none_there : parseSections startsGitFile total fuel (printSections []) = .ok [] :=
        parseSections_nil _ _ _
      cases none_there.symm.trans scanned
      refine ⟨Nat.zero_le _, fun _ => ?_⟩
      rintro s ⟨⟩
    | cons s sections =>
      rw [List.length_cons] at count
      have below : ∀ t ∈ sections, Formed t := fun t member => formed t (List.mem_cons_of_mem _ member)
      obtain ⟨file, after, read⟩ := scan_first enough scanned
      by_cases stops : Stops s.content
      · -- the section is parsed as it is, and the others are counted
        cases parse_section (formed s List.mem_cons_self) stops with
        | reads own left _ inside _ alone =>
          have here := alone total _ (printSections_at sections)
          obtain ⟨fuel', room, onward⟩ := scan_section inside here enough
          obtain ⟨others, rest, rfl⟩ := map_cons_ok (onward.symm.trans scanned)
          obtain ⟨most, apart⟩ := ih sections.length (by omega) below room rest rfl
          rw [List.length_cons]
          refine ⟨by omega, fun same => ?_⟩
          by_cases more : sections = []
          · rw [more]
            rintro t ⟨⟩
          · exact (separated_cons more).mpr ⟨stops, apart (by omega)⟩
        | refuses _ failed =>
          obtain ⟨e, error⟩ := failed total .empty _ (printSections_at sections)
          cases error.symm.trans read
      · by_cases more : sections = []
        · subst more
          refine ⟨?_, fun _ => ?_⟩
          · have whole := parseFrom_front (passed_whole (formed s List.mem_cons_self) stops) total
              .empty []
            have all : parseFilePatch total (printSection s ++ []) =
                .ok (fileOf (readFront .empty (printSection s)) [], [] ++ []) :=
              whole.trans (parseFrom_nil _ _)
            obtain ⟨fuel', -, onward⟩ := scan_section (by simp) all enough
            rw [parseSections_nil] at onward
            obtain ⟨others, rest, rfl⟩ := map_cons_ok (onward.symm.trans scanned)
            cases rest
            rw [List.length_singleton]
            omega
          · rintro t ⟨⟩
        · -- the section runs on into one behind it, or more
          have on_into : parseFrom total (readFront .empty (printSection s))
              (printSections sections) = .ok (file, after) :=
            (parseFrom_front (passed_whole (formed s List.mem_cons_self) stops) total .empty
              (printSections sections)).symm.trans read
          obtain ⟨front, back, left, split, some_taken, behind, inside⟩ :=
            parseFrom_takes below more on_into
          rw [behind] at read
          obtain ⟨fuel', room, onward⟩ := scan_section inside read enough
          obtain ⟨others, rest, rfl⟩ := map_cons_ok (onward.symm.trans scanned)
          have taken := List.length_pos_iff.mpr some_taken
          have lengths := congrArg List.length split
          rw [List.length_append] at lengths
          have formedBack : ∀ t ∈ back, Formed t := fun t member =>
            below t (by rw [split]; exact List.mem_append_right _ member)
          obtain ⟨most, -⟩ := ih back.length (by omega) formedBack room rest rfl
          rw [List.length_cons]
          exact ⟨by omega, fun same => by omega⟩

/-! ## One file patch for each section -/

/-- The text is read as one file patch for each section, the same that any text of that
section alone is read as. -/
def OnePerSection (text : Text) (sections : List GitSection) : Prop :=
  ∃ files, fromDiff text = .ok ⟨files⟩ ∧
    List.Forall₂ (fun s file => ∀ alone, lines alone = printSection s →
      fromDiff alone = .ok ⟨[file]⟩) sections files

/-- Where the scan for git sections finds some, or fails, it decides. -/
theorem fromDiff_scan {text : Text} {files : List FilePatch} (some_file : files ≠ [])
    (scanned : parseSections startsGitFile (lines text).length (lines text).length (lines text) =
      .ok files) : fromDiff text = .ok ⟨files⟩ := by
  unfold fromDiff
  dsimp only
  rw [scanned]
  simp only [bind, Except.bind, if_neg some_file]

theorem scan_of_fromDiff {text : Text} {parsed : ParsedPatch} (ok : fromDiff text = .ok parsed) :
    ∃ files, parseSections startsGitFile (lines text).length (lines text).length (lines text) =
      .ok files ∧ (files ≠ [] → parsed = ⟨files⟩) := by
  obtain ⟨files, scanned, ok⟩ := Except.bind_eq_ok ok
  refine ⟨files, scanned, fun some_file => ?_⟩
  rw [if_neg some_file] at ok
  cases ok
  rfl

/-- The scan finds a section where one begins. -/
theorem scan_filled {sections : List GitSection} (filled : sections ≠ []) {total fuel : Nat}
    (enough : (printSections sections).length ≤ fuel) {files : List FilePatch}
    (scanned : parseSections startsGitFile total fuel (printSections sections) = .ok files) :
    files ≠ [] := by
  cases sections with
  | nil => exact absurd rfl filled
  | cons s sections =>
    obtain ⟨file, after, read⟩ := scan_first enough scanned
    have chosen : startsGitFile ("diff --git ".toList ++ s.names)
        (s.extended ++ printContent s.content ++ printSections sections) = true :=
      startsWith_append _ _
    obtain ⟨fuel', -, onward⟩ := parseSections_section chosen rfl enough read
    obtain ⟨others, -, rfl⟩ := map_cons_ok (onward.symm.trans scanned)
    exact List.cons_ne_nil _ _

theorem related_left {α β : Type} {related : α → β → Prop} {as : List α} {bs : List β}
    (all : List.Forall₂ related as bs) : ∀ a ∈ as, ∃ b, related a b := by
  induction all with
  | nil => rintro a ⟨⟩
  | cons first _ ih =>
    intro a member
    rcases List.mem_cons.mp member with rfl | later
    · exact ⟨_, first⟩
    · exact ih a later

/-- A section that is refused is not read, also when it is alone. -/
theorem refused_alone {s : GitSection} (formed : Formed s) (refused : RefusedContent s.content)
    {text : Text} (alone : lines text = printSection s) {parsed : ParsedPatch} :
    fromDiff text ≠ .ok parsed := by
  intro ok
  have stops : Stops s.content := by
    cases content : s.content with
    | nothing => rw [content] at refused; exact refused
    | binary names => rw [content] at refused; exact refused.elim
    | hunks oldName newName hs =>
      rw [content] at refused
      rintro rfl
      cases refused
  obtain ⟨files, scanned, -⟩ := scan_of_fromDiff ok
  rw [alone, ← List.append_nil (printSection s)] at scanned
  obtain ⟨file, after, read⟩ := scan_first (Nat.le_refl _) scanned
  cases parse_section formed stops with
  | reads _ _ kept _ _ _ => exact kept refused
  | refuses _ failed =>
    obtain ⟨e, error⟩ := failed (printSection s ++ []).length .empty [] atSection_nil
    cases error.symm.trans read

/-- **One file patch for each section**, exactly when every section but the last has a
hunk or a notice, and none is refused. -/
theorem onePerSection_iff {text : Text} {sections : List GitSection}
    (split : lines text = printSections sections) (formed : ∀ s ∈ sections, Formed s) :
    OnePerSection text sections ↔
      (∀ s ∈ sections.dropLast, Stops s.content) ∧
        ∀ s ∈ sections, ¬ RefusedContent s.content := by
  constructor
  · rintro ⟨files, ok, each⟩
    constructor
    · obtain ⟨found, scanned, decided⟩ := scan_of_fromDiff ok
      rw [split] at scanned
      by_cases filled : sections = []
      · rw [filled]
        rintro s ⟨⟩
      · cases decided (scan_filled filled (Nat.le_refl _) scanned)
        exact (scan_count formed (Nat.le_refl _) scanned).2 each.length_eq.symm
    · intro s member refused
      obtain ⟨file, alone⟩ := related_left each s member
      have clean : ∀ line ∈ printSection s, '\n' ∉ line := fun line inside =>
        not_mem_lines (s := text) (by rw [split]; exact List.mem_flatMap.mpr ⟨s, member, inside⟩)
      have own := lines_crlf clean
      exact refused_alone (formed s member) refused own (alone _ own)
  · rintro ⟨separated, kept⟩
    obtain ⟨files, scanned, each⟩ := scan_sections formed separated kept
    have whole := scanned (lines text).length (lines text).length (by rw [split])
    refine ⟨files, ?_, each.imp fun s file scan alone same => ?_⟩
    · by_cases filled : sections = []
      · subst filled
        cases each
        unfold fromDiff
        rw [split]
        rfl
      · have some_file := scan_filled filled (by rw [split]) whole
        rw [← split] at whole
        exact fromDiff_scan some_file whole
    · refine fromDiff_scan (List.cons_ne_nil _ _) ?_
      rw [same]
      exact scan _ _ (Nat.le_refl _)

/-- One line of a file replaced. -/
def replaceLine : DiffHunk where
  oldStart := 1
  newStart := 1
  body := [(.remove "a".toList, false), (.add "b".toList, false)]
  shortOld := true
  shortNew := true
  heading := []

/-- A file that is made executable. -/
def modeChange : GitSection where
  names := "a/x b/x".toList
  extended := ["old mode 100644".toList, "new mode 100755".toList]
  content := .nothing

/-- A file of which a line is replaced. -/
def contentChange : GitSection where
  names := "a/y b/y".toList
  extended := []
  content := .hunks "a/y".toList "b/y".toList [replaceLine]

theorem modeChange_formed : Formed modeChange := by
  constructor
  · intro line member
    rcases List.mem_pair.mp member with rfl | rfl
    · refine ⟨rfl, rfl, rfl, ?_⟩
      rintro value (mode | mode)
      · cases mode
        exact .inr (by decide +kernel)
      · cases mode
    · refine ⟨rfl, rfl, rfl, ?_⟩
      rintro value (mode | mode)
      · cases mode
      · cases mode
        exact .inr (by decide +kernel)
  · intro oldName newName hs content
    cases content

theorem contentChange_formed : Formed contentChange := by
  constructor
  · rintro line ⟨⟩
  · intro oldName newName hs content h member
    cases content
    cases List.mem_singleton.mp member
    exact ⟨⟨by decide, by decide, by decide, by decide⟩, List.cons_ne_nil _ _⟩

/-- A change of mode behind a change of lines. -/
theorem change_then_mode :
    lines ("diff --git a/y b/y\n--- a/y\n+++ b/y\n@@ -1 +1 @@\n-a\n+b\n" ++
      "diff --git a/x b/x\nold mode 100644\nnew mode 100755\n").toList =
        printSections [contentChange, modeChange] ∧
    OnePerSection ("diff --git a/y b/y\n--- a/y\n+++ b/y\n@@ -1 +1 @@\n-a\n+b\n" ++
      "diff --git a/x b/x\nold mode 100644\nnew mode 100755\n").toList
        [contentChange, modeChange] := by
  have split : lines ("diff --git a/y b/y\n--- a/y\n+++ b/y\n@@ -1 +1 @@\n-a\n+b\n" ++
      "diff --git a/x b/x\nold mode 100644\nnew mode 100755\n").toList =
        printSections [contentChange, modeChange] := by
    decide +kernel
  refine ⟨split, (onePerSection_iff split ?_).mpr ⟨?_, ?_⟩⟩
  · intro s member
    simp only [List.mem_cons, List.not_mem_nil, or_false] at member
    rcases member with rfl | rfl
    · exact contentChange_formed
    · exact modeChange_formed
  · intro s member
    cases List.mem_singleton.mp member
    exact List.cons_ne_nil _ _
  · intro s member refused
    simp only [List.mem_cons, List.not_mem_nil, or_false] at member
    rcases member with rfl | rfl
    · obtain ⟨h, inside, before, old, new, marked, after, shape, minus, -⟩ := refused.fakes
      cases List.mem_singleton.mp inside
      have removed : (PatchLine.remove old, false) ∈ replaceLine.body := by rw [shape]; simp
      have isA : old = "a".toList := by simpa [replaceLine] using removed
      rw [isA] at minus
      cases minus
    · exact refused

/-- The other way round, the change of mode is lost in the change of lines, which makes
its file executable. -/
theorem mode_then_change :
    (∀ s ∈ [modeChange, contentChange], Formed s) ∧
    lines ("diff --git a/x b/x\nold mode 100644\nnew mode 100755\n" ++
      "diff --git a/y b/y\n--- a/y\n+++ b/y\n@@ -1 +1 @@\n-a\n+b\n").toList =
        printSections [modeChange, contentChange] ∧
    fromDiff ("diff --git a/x b/x\nold mode 100644\nnew mode 100755\n" ++
      "diff --git a/y b/y\n--- a/y\n+++ b/y\n@@ -1 +1 @@\n-a\n+b\n").toList =
        .ok ⟨[{
          oldPath := some ⟨"y".toList⟩
          newPath := some ⟨"y".toList⟩
          hunks := [⟨1, 1, 1, 1, [.remove "a".toList, .add "b".toList], false⟩]
          isNewFile := false
          isDeletedFile := false
          oldMode := some 0o100644
          newMode := some 0o100755
          addsExecBit := true
          isBinary := false
          noTrailingNewline := false }]⟩ ∧
    ¬ OnePerSection ("diff --git a/x b/x\nold mode 100644\nnew mode 100755\n" ++
      "diff --git a/y b/y\n--- a/y\n+++ b/y\n@@ -1 +1 @@\n-a\n+b\n").toList
        [modeChange, contentChange] := by
  have read : fromDiff ("diff --git a/x b/x\nold mode 100644\nnew mode 100755\n" ++
      "diff --git a/y b/y\n--- a/y\n+++ b/y\n@@ -1 +1 @@\n-a\n+b\n").toList =
        .ok ⟨[{
          oldPath := some ⟨"y".toList⟩
          newPath := some ⟨"y".toList⟩
          hunks := [⟨1, 1, 1, 1, [.remove "a".toList, .add "b".toList], false⟩]
          isNewFile := false
          isDeletedFile := false
          oldMode := some 0o100644
          newMode := some 0o100755
          addsExecBit := true
          isBinary := false
          noTrailingNewline := false }]⟩ := by
    decide +kernel
  refine ⟨?_, by decide +kernel, read, ?_⟩
  · intro s member
    simp only [List.mem_cons, List.not_mem_nil, or_false] at member
    rcases member with rfl | rfl
    · exact modeChange_formed
    · exact contentChange_formed
  · rintro ⟨files, ok, each⟩
    rw [read] at ok
    cases ok
    cases each.length_eq

end DiffSections

end Devit
