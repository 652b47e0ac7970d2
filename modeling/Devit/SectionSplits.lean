import Devit.DiffSections

/-! The sections of any diff, cut at the lines where one begins. The parser takes a section
for a file exactly where it has a hunk or a notice about binary files; one that has neither
is read together with the next one. -/
namespace Devit
open Text

namespace SectionSplits
open PatchParser DiffSections

section
variable (begins : Text → List Text → Bool)

/-- The lines in front of the next section. -/
def upTo : List Text → List Text
  | [] => []
  | line :: rest => if begins line rest then [] else line :: upTo rest

/-- The sections of a diff, each with the line where it begins. -/
def sections : List Text → List (List Text)
  | [] => []
  | line :: rest =>
    if begins line rest then (line :: upTo begins rest) :: sections rest else sections rest

end

/-- A line that ends the header of a section. -/
def endsHeader (line : Text) : Bool :=
  startsWith "@@".toList line || startsWith "Binary files ".toList line &&
    !contains "new file mode".toList line && !contains "deleted file mode".toList line

/-- The lines of a section in front of its hunks and its notice. -/
def headerLines (s : List Text) : List Text := s.takeWhile fun line => !endsHeader line

/-- The section has a hunk or a notice. -/
def Closed (s : List Text) : Prop := ∃ line ∈ s, endsHeader line = true

/-- What begins a section is no header of a hunk and no notice, and ends every hunk. -/
structure Marker (begins : Text → List Text → Bool) : Prop where
  header : ∀ line rest, begins line rest = true → endsHeader line = false
  hunk : ∀ line rest, begins line rest = true →
    startsWith "diff --git".toList line = true ∨ startsPlainFile line rest = true

/-- A file is that of a section: its modes are what the header of the section says. -/
def ReadsModes (s : List Text) (file : FilePatch) : Prop :=
  file.oldMode = (readFront .empty (headerLines s)).oldMode ∧
    file.newMode = (readFront .empty (headerLines s)).newMode ∧
      file.addsExecBit = modeAddsExec file.oldMode file.newMode

/-- The sections and the files that were read from them: a section that is not closed takes
the next one with it. -/
inductive Scanned : List (List Text) → List FilePatch → Prop where
  | done : Scanned [] []
  | own {s : List Text} {later : List (List Text)} {file : FilePatch} {files : List FilePatch}
      (kept : Closed s ∨ later = []) (reads : ReadsModes s file) (rest : Scanned later files) :
      Scanned (s :: later) (file :: files)
  | merged {s next : List Text} {later left : List (List Text)} {file : FilePatch}
      {files : List FilePatch} (open_end : ¬ Closed s) (behind : left <:+ later)
      (rest : Scanned left files) : Scanned (s :: next :: later) (file :: files)

variable {begins : Text → List Text → Bool} {rest front back : List Text}

/-! ## Cutting -/

theorem marker_git : Marker startsGitFile := by
  refine ⟨fun line rest chosen => ?_, fun line rest chosen => .inl ?_⟩
  · obtain ⟨names, rfl⟩ := startsWith_iff.mp chosen
    rfl
  · obtain ⟨names, rfl⟩ := startsWith_iff.mp chosen
    rfl

theorem marker_plain : Marker startsPlainFile := by
  refine ⟨fun line rest chosen => ?_, fun line rest chosen => .inr chosen⟩
  unfold startsPlainFile at chosen
  rw [Bool.and_eq_true] at chosen
  obtain ⟨names, rfl⟩ := startsWith_iff.mp chosen.1
  rfl

/-- Passing over lines in front of the next section loses none. -/
theorem sections_drop (split : rest = front ++ back)
    (short : front.length ≤ (upTo begins rest).length) :
    sections begins back = sections begins rest := by
  induction front generalizing rest with
  | nil => rw [split, List.nil_append]
  | cons line front ih =>
    subst split
    rw [List.cons_append, upTo] at short
    rw [List.cons_append, sections]
    split at short
    · simp at short
    · rename_i other
      rw [if_neg other]
      exact ih rfl (by simpa using short)

theorem sections_suffix (suffix : back <:+ rest) :
    sections begins back <:+ sections begins rest := by
  obtain ⟨front, rfl⟩ := suffix
  induction front with
  | nil => exact List.suffix_refl _
  | cons line front ih =>
    rw [List.cons_append, sections]
    split
    · exact ih.trans (List.suffix_cons _ _)
    · exact ih

/-- Behind the lines in front of the next section comes that section or nothing. -/
theorem upTo_split (begins : Text → List Text → Bool) (rest : List Text) :
    ∃ more, rest = upTo begins rest ++ more ∧
      (more = [] ∨ ∃ line later, more = line :: later ∧ begins line later = true) := by
  induction rest with
  | nil => exact ⟨[], rfl, .inl rfl⟩
  | cons line rest ih =>
    rw [upTo]
    split
    · rename_i chosen
      exact ⟨line :: rest, rfl, .inr ⟨line, rest, rfl, chosen⟩⟩
    · obtain ⟨more, split, ended⟩ := ih
      exact ⟨more, congrArg (line :: ·) split, ended⟩

/-! ## Hunks -/

/-- The lines of a hunk begin no section. -/
theorem collect_sections (marker : Marker begins) (ls : List Text) :
    sections begins (collectHunkLines ls).2.2 = sections begins ls := by
  induction ls with
  | nil => rfl
  | cons line rest ih =>
    rw [collectHunkLines]
    split
    · rfl
    · rename_i other
      split
      · rfl
      · rename_i apart
        have inside : begins line rest = false := by
          rw [Bool.eq_false_iff]
          intro chosen
          rcases marker.hunk line rest chosen with git | plain
          · exact other (by rw [git, Bool.or_true])
          · exact apart plain
        have passed : sections begins (line :: rest) = sections begins rest := by
          rw [sections, inside]
          rfl
        revert ih
        generalize collectHunkLines rest = collected
        intro ih
        dsimp only
        split <;> first | exact ih.trans passed.symm | rfl

theorem parseHunk_sections (marker : Marker begins) {total : Nat} {line : Text} {after : List Text}
    {hunk : PatchHunk} (read : parseHunk total line rest = .ok (hunk, after)) :
    sections begins after = sections begins rest := by
  unfold parseHunk at read
  dsimp only at read
  split at read
  · obtain ⟨oldRange, -, read⟩ := Except.bind_eq_ok read
    obtain ⟨newRange, -, read⟩ := Except.bind_eq_ok read
    obtain ⟨old, -, read⟩ := Except.bind_eq_ok read
    obtain ⟨new, -, read⟩ := Except.bind_eq_ok read
    split at read
    · cases read
    · cases read
      exact collect_sections marker rest
  · cases read

/-- Reading hunks leaves the sections behind them. -/
theorem parseHunks_sections (marker : Marker begins) {total fuel : Nat} {ls after : List Text}
    {hunks : List PatchHunk} (read : parseHunks total fuel ls = .ok (hunks, after)) :
    sections begins after = sections begins ls := by
  induction fuel generalizing ls hunks with
  | zero =>
    cases read
    rfl
  | succ fuel ih =>
    cases ls with
    | nil =>
      cases read
      rfl
    | cons line rest =>
      rw [parseHunks] at read
      split at read
      · rename_i header
        obtain ⟨⟨hunk, between⟩, first, read⟩ := Except.bind_eq_ok read
        obtain ⟨⟨later, last⟩, others, read⟩ := Except.bind_eq_ok read
        cases read
        have inside : begins line rest = false := by
          rw [Bool.eq_false_iff]
          intro chosen
          have none := marker.header line rest chosen
          rw [endsHeader, header] at none
          cases none
        rw [ih others, parseHunk_sections marker first, sections, inside]
        rfl
      · cases read
        rfl

/-! ## Headers -/

theorem endsHeader_iff {line : Text} :
    endsHeader line = true ↔ startsWith "@@".toList line = true ∨ IsNotice line := by
  unfold endsHeader IsNotice
  simp only [Bool.or_eq_true, Bool.and_eq_true, Bool.not_eq_true', and_assoc]

/-- A mode that is read is one that can be. -/
theorem readMode_of_ok {value : Text} {number : Nat} {mode : Option Nat}
    (read : parseMode (trim value) number = .ok mode) :
    trim value = [] ∨ (readMode value).isSome := by
  by_cases empty : trim value = []
  · exact .inl empty
  · refine .inr ?_
    rw [parseMode, if_neg empty] at read
    unfold readMode
    cases found : parseUnsigned 8 (2 ^ 32 - 1) (trim value) with
    | some mode => rfl
    | none =>
      rw [found] at read
      cases read

/-- What the header loop gets past has modes that can be read. -/
theorem modeReads_of_ok {total : Nat} {h : Header} {line : Text} {result : Header × List Text}
    (hunk : startsWith "@@".toList line = false)
    (read : parseHeader total h (line :: rest) = .ok result) : ModeReads line := by
  rw [parseHeader, hunk] at read
  simp only [Bool.false_eq_true, ↓reduceIte] at read
  intro value prefixed
  rcases prefixed with old | new
  · rw [old] at read
    obtain ⟨mode, parsed, -⟩ := Except.bind_eq_ok read
    exact readMode_of_ok parsed
  · cases old : stripPrefix "old mode ".toList line with
    | some other =>
      rw [stripPrefix_eq_some old] at new
      cases new
    | none =>
      rw [old, new] at read
      obtain ⟨mode, parsed, -⟩ := Except.bind_eq_ok read
      exact readMode_of_ok parsed

/-- The header loop reads the lines of the header and stops at a hunk, behind a notice, or at
the end. -/
theorem parseHeader_span {total : Nat} {h h' : Header} {ls body : List Text}
    (read : parseHeader total h ls = .ok (h', body)) :
    ∃ stopped taken, ls = headerLines ls ++ taken ++ body ∧
      stopped = readFront h (headerLines ls) ∧
      h'.oldMode = stopped.oldMode ∧ h'.newMode = stopped.newMode ∧
      taken.length ≤ 1 ∧ (∀ line ∈ taken, endsHeader line = true) ∧
      (taken = [] → ∀ line, body.head? = some line → endsHeader line = true) := by
  induction ls generalizing h with
  | nil =>
    cases read
    exact ⟨_, [], rfl, rfl, rfl, rfl, Nat.zero_le _, List.forall_mem_nil _, nofun⟩
  | cons line rest ih =>
    cases hunk : startsWith "@@".toList line with
    | true =>
      rw [parseHeader_hunk hunk] at read
      cases read
      have ends : endsHeader line = true := endsHeader_iff.mpr (.inl hunk)
      have none : headerLines (line :: rest) = [] := by
        rw [headerLines, List.takeWhile_cons, ends]
        rfl
      rw [none]
      refine ⟨_, [], rfl, rfl, rfl, rfl, Nat.zero_le _, List.forall_mem_nil _,
        fun _ other first => ?_⟩
      cases first
      exact ends
    | false =>
      have mode := modeReads_of_ok hunk read
      by_cases notice : IsNotice line
      · have ends : endsHeader line = true := endsHeader_iff.mpr (.inr notice)
        have none : headerLines (line :: rest) = [] := by
          rw [headerLines, List.takeWhile_cons, ends]
          rfl
        rw [parseHeader_notice notice] at read
        cases read
        rw [none]
        exact ⟨_, [line], rfl, rfl, rfl, rfl, Nat.le_refl _,
          List.forall_mem_singleton.mpr ends, nofun⟩
      · have passes : endsHeader line = false := by
          rw [Bool.eq_false_iff, ne_eq, endsHeader_iff, hunk]
          simpa using notice
        have more : headerLines (line :: rest) = line :: headerLines rest := by
          rw [headerLines, List.takeWhile_cons, passes]
          rfl
        rw [parseHeader_line ⟨hunk, notice, mode⟩] at read
        obtain ⟨stopped, taken, split, reads, old, new, few, ends, stops⟩ := ih read
        rw [more]
        exact ⟨stopped, taken, congrArg (line :: ·) split, reads, old, new, few, ends, stops⟩

/-- A closed section ends its header within itself. -/
theorem headerLines_closed {s more : List Text} (closed : Closed s) :
    headerLines (s ++ more) = headerLines s ∧ (headerLines s).length < s.length := by
  obtain ⟨line, inside, ends⟩ := closed
  induction s with
  | nil => cases inside
  | cons first s ih =>
    rw [List.cons_append, headerLines, headerLines, List.takeWhile_cons, List.takeWhile_cons]
    cases stops : endsHeader first with
    | true => exact ⟨rfl, Nat.succ_pos _⟩
    | false =>
      have later : line ∈ s := by
        rcases List.mem_cons.mp inside with rfl | later
        · rw [stops] at ends
          cases ends
        · exact later
      obtain ⟨same, short⟩ := ih later
      refine ⟨congrArg (first :: ·) same, ?_⟩
      simpa [headerLines] using short

/-- A section that is not closed is all header. -/
theorem headerLines_open {s : List Text} (open_end : ¬ Closed s) (more : List Text) :
    headerLines (s ++ more) = s ++ headerLines more := by
  refine List.takeWhile_append_of_pos fun line inside => ?_
  rw [Bool.not_eq_true', Bool.eq_false_iff]
  exact fun ends => open_end ⟨line, inside, ends⟩

/-! ## Scanning -/

/-- What the parser makes of a section: a file for itself where it is closed or the last one,
and else one for it and the next one. -/
theorem parse_one (marker : Marker begins) {total : Nat} {line : Text} {after : List Text}
    {file : FilePatch} (chosen : begins line rest = true)
    (read : parseFilePatch total (line :: rest) = .ok (file, after)) :
    (ReadsModes (line :: upTo begins rest) file ∧
      (Closed (line :: upTo begins rest) ∨ sections begins rest = []) ∧
        sections begins after = sections begins rest) ∨
    (¬ Closed (line :: upTo begins rest) ∧ ∃ next later,
      sections begins rest = next :: later ∧ sections begins after <:+ later) := by
  obtain ⟨⟨h, body⟩, header, read⟩ := Except.bind_eq_ok read
  obtain ⟨⟨hunks, last⟩, others, read⟩ := Except.bind_eq_ok read
  cases read
  obtain ⟨stopped, taken, split, reads, old, new, few, -, -⟩ := parseHeader_span header
  obtain ⟨more, whole, next⟩ := upTo_split begins rest
  have left := parseHunks_sections marker others
  have shape : line :: rest = (line :: upTo begins rest) ++ more := congrArg (line :: ·) whole
  have modes : ReadsModes (line :: rest) (fileOf h hunks) := by
    refine ⟨?_, ?_, rfl⟩
    · rw [← reads]
      exact old
    · rw [← reads]
      exact new
  by_cases closed : Closed (line :: upTo begins rest)
  · obtain ⟨same, short⟩ := @headerLines_closed _ more closed
    rw [← shape] at same
    have passes := marker.header line rest chosen
    obtain ⟨own, first⟩ : ∃ own, headerLines (line :: rest) = line :: own := by
      rw [headerLines, List.takeWhile_cons, passes]
      exact ⟨_, rfl⟩
    refine .inl ⟨?_, .inl closed, ?_⟩
    · rwa [ReadsModes, same] at modes
    · rw [left]
      rw [first, List.append_assoc] at split
      refine @sections_drop _ _ (own ++ taken) _ ?_ ?_
      · rw [List.append_assoc]
        exact (List.cons.inj split).2
      · rw [← same, first, List.length_cons, List.length_cons] at short
        rw [List.length_append]
        omega
  · have header_is := headerLines_open closed more
    rw [← shape] at header_is
    have behind : sections begins more = sections begins rest := sections_drop whole (Nat.le_refl _)
    rw [header_is] at split
    rcases next with rfl | ⟨first, later, rfl, begun⟩
    · have nothing : taken ++ body = [] := by
        have sizes := congrArg List.length (shape.symm.trans split)
        simp only [List.length_append, headerLines, List.takeWhile_nil, List.append_nil] at sizes
        refine List.eq_nil_of_length_eq_zero ?_
        rw [List.length_append]
        omega
      obtain ⟨-, rfl⟩ := List.append_eq_nil_iff.mp nothing
      refine .inl ⟨?_, .inr behind.symm, ?_⟩
      · rw [List.append_nil] at shape
        rwa [← shape]
      · rw [left, ← behind]
    · have passes := marker.header first later begun
      obtain ⟨own, head⟩ : ∃ own, headerLines (first :: later) = first :: own := by
        rw [headerLines, List.takeWhile_cons, passes]
        exact ⟨_, rfl⟩
      refine .inr ⟨closed, first :: upTo begins later, sections begins later, ?_, ?_⟩
      · rw [← behind, sections, if_pos begun]
      · rw [left]
        refine sections_suffix ⟨own ++ taken, ?_⟩
        rw [shape, head] at split
        simp only [List.append_assoc, List.cons_append] at split
        rw [List.append_assoc]
        exact ((List.cons.inj (List.append_cancel_left (List.cons.inj split).2)).2).symm

/-- **Scanning.** Every section that is closed, and the last one, is read as a file; every
other one is read together with the next one. -/
theorem scanned (marker : Marker begins) {total fuel : Nat} {ls : List Text}
    {files : List FilePatch} (enough : ls.length ≤ fuel)
    (read : parseSections begins total fuel ls = .ok files) :
    Scanned (sections begins ls) files := by
  induction fuel generalizing ls files with
  | zero =>
    obtain rfl := List.eq_nil_of_length_eq_zero (Nat.le_zero.mp enough)
    cases read
    exact .done
  | succ fuel ih =>
    cases ls with
    | nil =>
      cases read
      exact .done
    | cons line rest =>
      rw [List.length_cons] at enough
      rw [parseSections] at read
      rw [sections]
      split at read
      · rename_i chosen
        obtain ⟨⟨file, after⟩, first, read⟩ := Except.bind_eq_ok read
        obtain ⟨others, behind, read⟩ := Except.bind_eq_ok read
        cases read
        have header : startsWith "@@".toList line = false := by
          have passes := marker.header line rest chosen
          rw [Bool.eq_false_iff, ne_eq, endsHeader_iff, not_or] at passes
          simpa using passes.1
        have shorter := parseFilePatch_length header first
        have later := ih (by omega) behind
        rw [if_pos chosen]
        rcases parse_one marker chosen first with
          ⟨reads, kept, left⟩ | ⟨open_end, next, more, rest_is, left⟩
        · rw [left] at later
          exact .own kept reads later
        · rw [rest_is]
          exact .merged open_end left later
      · rename_i other
        rw [if_neg other]
        exact ih (by omega) read

end SectionSplits

end Devit
