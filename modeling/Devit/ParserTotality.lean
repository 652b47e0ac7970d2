import Devit.SectionSplits

/-! Where the parser breaks off with a panic. It takes the sign off the two ranges in the
header of a hunk by cutting off one byte, so a range that begins with a longer character is
cut within it. All else that it reads is accepted or refused. -/
namespace Devit
open Text

namespace ParserTotality
open PatchParser DiffSections SectionSplits

/-- What the parser reads as something that may be at fault: the mode on a line of a header,
and the header of a hunk, with the lines behind it. -/
inductive Reading where
  | mode (value : Text)
  | hunk (header : Text) (behind : List Text)

inductive Fault where
  | refused
  | broken
  deriving DecidableEq, Repr

/-- The word begins with a character of more than one byte. -/
def wide (word : Text) : Bool := word.head?.any fun c => 128 ≤ c.toNat

/-- A mode is octal, and a hunk has two ranges in its header, each behind one byte, and
lines. -/
def Reading.fault : Reading → Option Fault
  | .mode value => if trim value = [] ∨ (readMode value).isSome then none else some .refused
  | .hunk header behind =>
    match splitWhitespace ((beforeLast "@@".toList header).getD header) with
    | _ :: oldPart :: newPart :: _ =>
      if wide oldPart || wide newPart then some .broken
      else if (parseRange oldPart.tail).isOk && (parseRange newPart.tail).isOk &&
          decide ((collectHunkLines behind).1 ≠ []) then none
      else some .refused
    | _ => some .refused

/-- The mode on a line, if it is one of the lines whose mode is read. -/
def modeReading (line : Text) : Option Reading :=
  (["old mode ".toList, "new mode ".toList].findSome? fun start => stripPrefix start line).map .mode

/-- What is behind a header: the hunks, or what follows the notice. -/
def behindHeader (ls : List Text) : List Text :=
  match ls.dropWhile fun line => !endsHeader line with
  | line :: rest => if startsWith "@@".toList line then line :: rest else rest
  | [] => []

/-- The headers of hunks that follow one another, and the lines behind the last hunk. -/
def hunkReadings : Nat → List Text → List Reading × List Text
  | 0, ls => ([], ls)
  | _ + 1, [] => ([], [])
  | fuel + 1, line :: rest =>
    if startsWith "@@".toList line then
      ((.hunk line rest :: (hunkReadings fuel (collectHunkLines rest).2.2).1),
        (hunkReadings fuel (collectHunkLines rest).2.2).2)
    else ([], line :: rest)

/-- The readings of one section and the lines behind it. -/
def sectionReadings (ls : List Text) : List Reading × List Text :=
  ((headerLines ls).filterMap modeReading ++
      (hunkReadings (behindHeader ls).length (behindHeader ls)).1,
    (hunkReadings (behindHeader ls).length (behindHeader ls)).2)

/-- The readings of all sections. -/
def allReadings (begins : Text → List Text → Bool) : Nat → List Text → List Reading
  | 0, _ => []
  | _ + 1, [] => []
  | fuel + 1, line :: rest =>
    if begins line rest then
      (sectionReadings (line :: rest)).1 ++
        allReadings begins fuel (sectionReadings (line :: rest)).2
    else allReadings begins fuel rest

/-- What the parser reads in a diff, in its order: by git headers, or else by pairs of file
headers. -/
def readings (diffContent : Text) : List Reading :=
  let ls := lines diffContent
  if sections startsGitFile ls = [] then allReadings startsPlainFile ls.length ls
  else allReadings startsGitFile ls.length ls

/-- The first thing that is at fault. -/
def firstFault (diffContent : Text) : Option Fault :=
  (readings diffContent).findSome? Reading.fault

/-! ## Results -/

/-- A result is as the first fault has it. -/
def Agrees {α : Type} (result : DevItResult α) : Option Fault → Prop
  | none => ∃ a, result = .ok a
  | some .refused => ∃ e, e ≠ .panic ∧ result = .error e
  | some .broken => result = .error .panic

theorem Agrees.bind {α β : Type} {result : DevItResult α} {next : α → DevItResult β}
    {fault later : Option Fault} (first : Agrees result fault)
    (others : ∀ a, result = .ok a → Agrees (next a) later) :
    Agrees (result >>= next) (fault.or later) := by
  match fault, first with
  | none, ⟨a, ok⟩ =>
    rw [ok, Option.none_or]
    exact others a ok
  | some .refused, ⟨e, other, failed⟩ =>
    rw [failed]
    exact ⟨e, other, rfl⟩
  | some .broken, failed =>
    rw [show result = .error .panic from failed]
    rfl

theorem findSome?_cons_or {α β : Type} (f : α → Option β) (a : α) (later : List α) :
    (a :: later).findSome? f = (f a).or (later.findSome? f) := by
  rw [List.findSome?_cons]
  cases f a <;> rfl

theorem Agrees.ok {α : Type} (a : α) : Agrees (.ok a : DevItResult α) none := ⟨a, rfl⟩

theorem Agrees.refused {α : Type} {e : DevItError} (other : e ≠ .panic) :
    Agrees (.error e : DevItResult α) (some .refused) := ⟨e, other, rfl⟩

/-- What is done with a result that is there cannot fail. -/
theorem Agrees.map {α β : Type} {result : DevItResult α} {fault : Option Fault}
    (first : Agrees result fault) (f : α → β) :
    Agrees (result >>= fun a => .ok (f a)) fault := by
  have whole : Agrees (result >>= fun a => .ok (f a)) (fault.or none) :=
    first.bind fun a _ => .ok (f a)
  rwa [Option.or_none] at whole

/-! ## Hunks -/

theorem dropFirstByte_agrees {word : Text} (filled : word ≠ []) :
    Agrees (dropFirstByte word) (if wide word then some .broken else none) := by
  obtain ⟨c, cs, rfl⟩ := List.exists_cons_of_ne_nil filled
  unfold dropFirstByte wide
  by_cases short : c.toNat < 128
  · have narrow : ¬ 128 ≤ c.toNat := by omega
    simpa [short, narrow] using .ok cs
  · have long : 128 ≤ c.toNat := by omega
    simp [short, long, Agrees]

theorem dropFirstByte_ok {word rest : Text} (cut : dropFirstByte word = .ok rest) :
    rest = word.tail := by
  unfold dropFirstByte at cut
  split at cut
  · cases cut
  · split at cut
    · cases cut
      rfl
    · cases cut

theorem parseRange_error {range : Text} {e : DevItError} (failed : parseRange range = .error e) :
    e ≠ .panic := by
  unfold parseRange at failed
  split at failed
  · split at failed
    · cases failed
      nofun
    · split at failed
      · cases failed
        nofun
      · cases failed
  · split at failed
    · cases failed
      nofun
    · cases failed

theorem parseRange_agrees (range : Text) : Agrees (parseRange range)
    (if (parseRange range).isOk then none else some .refused) := by
  cases read : parseRange range with
  | ok pair => exact .ok pair
  | error e => exact .refused (parseRange_error read)

theorem words_filled {s word : Text} (inside : word ∈ splitWhitespace s) : word ≠ [] := by
  rw [splitWhitespace, List.mem_filter] at inside
  simpa using inside.2

/-- The first of two cuts that fails breaks off. -/
theorem broken_or (a b : Bool) (later : Option Fault) :
    (if a || b then some Fault.broken else later) =
      (if a then some .broken else none).or ((if b then some .broken else none).or later) := by
  cases a <;> cases b <;> rfl

/-- The first of three checks that fails refuses. -/
theorem refused_or (a b c : Bool) :
    (if a && b && c then none else some Fault.refused) =
      (if a then none else some .refused).or
        ((if b then none else some .refused).or (if c then none else some .refused)) := by
  cases a <;> cases b <;> cases c <;> rfl

theorem parseHunk_agrees (total : Nat) (header : Text) (behind : List Text) :
    Agrees (parseHunk total header behind) (Reading.hunk header behind).fault := by
  unfold parseHunk Reading.fault
  dsimp only
  rcases words : splitWhitespace ((beforeLast "@@".toList header).getD header) with
    _ | ⟨first, _ | ⟨oldPart, _ | ⟨newPart, more⟩⟩⟩
  · exact .refused (by rintro ⟨⟩)
  · exact .refused (by rintro ⟨⟩)
  · exact .refused (by rintro ⟨⟩)
  · have filled : ∀ word ∈ first :: oldPart :: newPart :: more, word ≠ [] :=
      fun word inside => words_filled (words.symm ▸ inside)
    dsimp only
    rw [broken_or, refused_or]
    refine (dropFirstByte_agrees (filled oldPart (by simp))).bind fun oldRange old => ?_
    refine (dropFirstByte_agrees (filled newPart (by simp))).bind fun newRange new => ?_
    obtain rfl := dropFirstByte_ok old
    obtain rfl := dropFirstByte_ok new
    refine (parseRange_agrees _).bind fun _ _ => (parseRange_agrees _).bind fun _ _ => ?_
    by_cases nothing : (collectHunkLines behind).1 = []
    · rw [if_pos nothing, nothing]
      exact .refused (by rintro ⟨⟩)
    · rw [if_neg nothing, decide_eq_true nothing]
      exact .ok _

/-- What a hunk leaves is behind its lines. -/
theorem parseHunk_after {total : Nat} {header : Text} {behind after : List Text} {hunk : PatchHunk}
    (read : parseHunk total header behind = .ok (hunk, after)) :
    after = (collectHunkLines behind).2.2 := by
  unfold parseHunk at read
  dsimp only at read
  split at read
  · obtain ⟨oldRange, -, read⟩ := Except.bind_eq_ok read
    obtain ⟨newRange, -, read⟩ := Except.bind_eq_ok read
    obtain ⟨old, -, read⟩ := Except.bind_eq_ok read
    obtain ⟨new, -, read⟩ := Except.bind_eq_ok read
    split at read
    · cases read
    · cases read
      rfl
  · cases read

/-- What the hunks leave is behind the last one. -/
theorem parseHunks_after {total fuel : Nat} {ls after : List Text} {hunks : List PatchHunk}
    (read : parseHunks total fuel ls = .ok (hunks, after)) : after = (hunkReadings fuel ls).2 := by
  induction fuel generalizing ls hunks with
  | zero =>
    cases read
    rfl
  | succ fuel ih =>
    cases ls with
    | nil =>
      cases read
      rfl
    | cons line rest =>
      rw [parseHunks] at read
      rw [hunkReadings]
      split at read
      · rename_i header
        obtain ⟨⟨hunk, between⟩, first, read⟩ := Except.bind_eq_ok read
        obtain ⟨⟨later, last⟩, others, read⟩ := Except.bind_eq_ok read
        cases read
        obtain rfl := parseHunk_after first
        rw [if_pos header]
        exact ih others
      · rename_i other
        cases read
        rw [if_neg other]

theorem parseHunks_agrees (total fuel : Nat) (ls : List Text) :
    Agrees (parseHunks total fuel ls) ((hunkReadings fuel ls).1.findSome? Reading.fault) := by
  induction fuel generalizing ls with
  | zero => exact .ok _
  | succ fuel ih =>
    cases ls with
    | nil => exact .ok _
    | cons line rest =>
      rw [parseHunks, hunkReadings]
      split
      · rw [findSome?_cons_or]
        refine (parseHunk_agrees total line rest).bind ?_
        rintro ⟨hunk, after⟩ read
        obtain rfl := parseHunk_after read
        exact (ih _).map _
      · exact .ok _

/-! ## Headers -/

theorem parseMode_agrees (value : Text) (number : Nat) :
    Agrees (parseMode (trim value) number) (Reading.mode value).fault := by
  rw [Reading.fault]
  split
  · rename_i reads
    rw [parseMode_reads reads]
    exact .ok _
  · rename_i other
    obtain ⟨filled, unread⟩ := not_or.mp other
    rw [Option.not_isSome_iff_eq_none, readMode] at unread
    rw [parseMode, if_neg filled, unread]
    exact .refused (by rintro ⟨⟩)

/-- Of a line with a mode, the mode is read first, then the lines behind it. -/
theorem parseHeader_mode {line : Text} {reading : Reading} (read : modeReading line = some reading)
    (hunk : startsWith "@@".toList line = false) (total : Nat) (h : Header) (rest : List Text) :
    ∃ (value : Text) (next : Option Nat → Header), reading = .mode value ∧
      parseHeader total h (line :: rest) = (do
        let mode ← parseMode (trim value) (lineNumber total (line :: rest))
        parseHeader total (next mode) rest) := by
  rw [parseHeader, hunk, if_neg Bool.false_ne_true]
  simp only [modeReading, List.findSome?_cons, List.findSome?_nil] at read
  cases old : stripPrefix "old mode ".toList line with
  | some value =>
    rw [old] at read
    cases read
    exact ⟨value, fun mode => { h with oldMode := mode }, rfl, rfl⟩
  | none =>
    rw [old] at read
    cases new : stripPrefix "new mode ".toList line with
    | some value =>
      rw [new] at read
      cases read
      exact ⟨value, fun mode => { h with newMode := mode }, rfl, rfl⟩
    | none =>
      rw [new] at read
      cases read

/-- A line whose mode is not read has none that could not be. -/
theorem modeReads_of_none {line : Text} (read : modeReading line = none) : ModeReads line := by
  simp only [modeReading, List.findSome?_cons, List.findSome?_nil] at read
  rintro value (old | new)
  · rw [old] at read
    cases read
  · rw [new] at read
    split at read <;> cases read

theorem headerLines_cons {line : Text} (passes : endsHeader line = false) (rest : List Text) :
    headerLines (line :: rest) = line :: headerLines rest := by
  rw [headerLines, List.takeWhile_cons, passes]
  rfl

theorem headerLines_ends {line : Text} (ends : endsHeader line = true) (rest : List Text) :
    headerLines (line :: rest) = [] := by
  rw [headerLines, List.takeWhile_cons, ends]
  rfl

theorem parseHeader_agrees (total : Nat) (h : Header) (ls : List Text) :
    Agrees (parseHeader total h ls)
      (((headerLines ls).filterMap modeReading).findSome? Reading.fault) := by
  induction ls generalizing h with
  | nil => exact .ok _
  | cons line rest ih =>
    cases hunk : startsWith "@@".toList line with
    | true =>
      rw [parseHeader_hunk hunk, headerLines_ends (endsHeader_iff.mpr (.inl hunk))]
      exact .ok _
    | false =>
      by_cases notice : IsNotice line
      · rw [parseHeader_notice notice, headerLines_ends (endsHeader_iff.mpr (.inr notice))]
        exact .ok _
      · have passes : endsHeader line = false := by
          rw [Bool.eq_false_iff, ne_eq, endsHeader_iff, hunk]
          simpa using notice
        rw [headerLines_cons passes, List.filterMap_cons]
        cases read : modeReading line with
        | some reading =>
          obtain ⟨value, next, rfl, onward⟩ := parseHeader_mode read hunk total h rest
          dsimp only
          rw [onward, findSome?_cons_or]
          exact (parseMode_agrees value _).bind fun _ _ => ih _
        | none =>
          rw [parseHeader_line ⟨hunk, notice, modeReads_of_none read⟩]
          exact ih _

/-- The header loop stops where the header of the section ends. -/
theorem parseHeader_behind {total : Nat} {h h' : Header} {ls body : List Text}
    (read : parseHeader total h ls = .ok (h', body)) : body = behindHeader ls := by
  induction ls generalizing h with
  | nil =>
    cases read
    rfl
  | cons line rest ih =>
    cases hunk : startsWith "@@".toList line with
    | true =>
      rw [parseHeader_hunk hunk] at read
      cases read
      rw [behindHeader, List.dropWhile_cons, endsHeader_iff.mpr (.inl hunk)]
      exact (if_pos hunk).symm
    | false =>
      have mode := modeReads_of_ok hunk read
      by_cases notice : IsNotice line
      · rw [parseHeader_notice notice] at read
        cases read
        rw [behindHeader, List.dropWhile_cons, endsHeader_iff.mpr (.inr notice)]
        exact (if_neg (Bool.eq_false_iff.mp hunk)).symm
      · have passes : endsHeader line = false := by
          rw [Bool.eq_false_iff, ne_eq, endsHeader_iff, hunk]
          simpa using notice
        rw [parseHeader_line ⟨hunk, notice, mode⟩] at read
        rw [behindHeader, List.dropWhile_cons, passes]
        exact ih read

/-! ## Sections -/

theorem parseFilePatch_agrees (total : Nat) (ls : List Text) :
    Agrees (parseFilePatch total ls) ((sectionReadings ls).1.findSome? Reading.fault) := by
  rw [sectionReadings, List.findSome?_append]
  refine (parseHeader_agrees total .empty ls).bind fun ⟨h, body⟩ read => ?_
  obtain rfl := parseHeader_behind read
  exact (parseHunks_agrees total _ _).map _

theorem parseFilePatch_after {total : Nat} {ls after : List Text} {file : FilePatch}
    (read : parseFilePatch total ls = .ok (file, after)) : after = (sectionReadings ls).2 := by
  obtain ⟨⟨h, body⟩, header, read⟩ := Except.bind_eq_ok read
  obtain ⟨⟨hunks, last⟩, others, read⟩ := Except.bind_eq_ok read
  cases read
  obtain rfl := parseHeader_behind header
  exact parseHunks_after others

theorem parseSections_agrees (begins : Text → List Text → Bool) (total fuel : Nat)
    (ls : List Text) :
    Agrees (parseSections begins total fuel ls)
      ((allReadings begins fuel ls).findSome? Reading.fault) := by
  induction fuel generalizing ls with
  | zero => exact .ok _
  | succ fuel ih =>
    cases ls with
    | nil => exact .ok _
    | cons line rest =>
      rw [parseSections, allReadings]
      split
      · rw [List.findSome?_append]
        refine (parseFilePatch_agrees total (line :: rest)).bind ?_
        rintro ⟨file, after⟩ read
        obtain rfl := parseFilePatch_after read
        exact (ih _).map _
      · exact ih rest

/-- Where no section begins, no file is read. -/
theorem parseSections_none {begins : Text → List Text → Bool} {ls : List Text}
    (none : sections begins ls = []) (total fuel : Nat) :
    parseSections begins total fuel ls = .ok [] := by
  induction fuel generalizing ls with
  | zero => rfl
  | succ fuel ih =>
    cases ls with
    | nil => rfl
    | cons line rest =>
      rw [sections] at none
      rw [parseSections]
      split at none
      · cases none
      · rename_i other
        rw [if_neg other]
        exact ih none

/-- Where a section begins, a file is read. -/
theorem files_ne_nil {begins : Text → List Text → Bool} (marker : Marker begins) {total : Nat}
    {ls : List Text} {files : List FilePatch} (some : sections begins ls ≠ [])
    (read : parseSections begins total ls.length ls = .ok files) : files ≠ [] := by
  rintro rfl
  have reads := scanned marker (Nat.le_refl _) read
  generalize sections begins ls = left at reads some
  cases reads
  exact some rfl

theorem fromDiff_agrees (diffContent : Text) :
    Agrees (fromDiff diffContent) (firstFault diffContent) := by
  unfold fromDiff firstFault readings
  dsimp only
  split
  · rename_i plain
    rw [parseSections_none plain]
    exact (parseSections_agrees startsPlainFile _ _ _).map _
  · rename_i git
    rw [← Option.or_none (o := List.findSome? _ _)]
    refine (parseSections_agrees startsGitFile _ _ _).bind fun files read => ?_
    rw [if_neg (files_ne_nil marker_git git read)]
    exact .ok _

/-- **Totality.** The parser breaks off exactly where the first thing at fault is the header
of a hunk whose second or third word begins with a character of more than one byte. -/
theorem parser_total_iff (diffContent : Text) :
    fromDiff diffContent ≠ .error .panic ↔ firstFault diffContent ≠ some .broken := by
  have agrees := fromDiff_agrees diffContent
  match fault : firstFault diffContent, agrees with
  | none, ⟨patch, read⟩ => simp [read]
  | some .refused, ⟨e, other, failed⟩ => simp [failed, other]
  | some .broken, failed => simp [show fromDiff diffContent = .error .panic from failed]

/-- A range behind a minus sign that is not the hyphen. -/
def wideSign : Text := "--- a/x\n+++ b/x\n@@ −1 +1 @@\n-a\n+b\n".toList

theorem wide_sign_breaks : fromDiff wideSign = .error .panic := by decide +kernel

end ParserTotality

end Devit
