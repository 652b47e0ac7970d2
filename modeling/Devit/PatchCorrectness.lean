import Devit.HunkReading

/-! When applying a printed diff gives the new file. The parser cuts a hunk short
where a removed and an added line look like the header of another file, and the
patcher puts the lines of a hunk without old lines in front of the line the hunk
is numbered by, not after it. Everything else in a valid diff is applied as the
standard says. -/
namespace Devit
open Text

namespace PatchCorrectness
open HunkSplicing UnifiedDiff AtomicPatcher PatchParser

/-! ## One hunk in its place -/

/-- Appending the same lines in front of `x` or behind it is the same only when
they all are `x`. -/
theorem rotate_iff {α : Type} {x : α} {new rest tail : List α} :
    new ++ rest = x :: (new ++ tail) ↔ (∀ line ∈ new, line = x) ∧ rest = x :: tail := by
  induction new generalizing x with
  | nil => simp
  | cons first new ih =>
    simp only [List.cons_append, List.cons.injEq, List.mem_cons, forall_eq_or_imp]
    constructor
    · rintro ⟨rfl, same⟩
      obtain ⟨all, shape⟩ := ih.mp same
      exact ⟨⟨rfl, all⟩, shape⟩
    · rintro ⟨⟨rfl, all⟩, shape⟩
      exact ⟨rfl, ih.mpr ⟨all, shape⟩⟩

/-- A hunk that starts where it should replaces its old side. -/
theorem apply_at_start {hunk : PatchHunk} {before after lines : List Text}
    (start : startIdx hunk = before.length) :
    applyHunkToLines lines hunk = .ok (before ++ newSide hunk.lines ++ after) ↔
      lines = before ++ oldSide hunk.lines ++ after := by
  rw [applyHunkToLines_ok_iff, start]
  constructor
  · rintro ⟨fits, ⟨rest, there⟩, out⟩
    have lengths : before.length = (lines.take before.length).length := by
      rw [List.length_take]
      omega
    rw [List.append_assoc, List.append_assoc] at out
    obtain ⟨front, back⟩ := List.append_inj out lengths
    have tail : rest = after := by
      rw [List.append_cancel_left back, ← List.drop_drop, ← there, List.drop_left]
    rw [← List.take_append_drop before.length lines, ← front, ← there, tail, List.append_assoc]
  · rintro rfl
    refine ⟨by simp, by simp, ?_⟩
    rw [List.append_assoc before (oldSide _), List.take_left, ← List.drop_drop, List.drop_left,
      List.drop_left]

/-- A hunk that starts one line early and has no old side puts its lines in front
of that line. -/
theorem apply_one_early {hunk : PatchHunk} {before after lines : List Text} {last : Text}
    (start : startIdx hunk = before.length) (empty : oldSide hunk.lines = []) :
    applyHunkToLines lines hunk = .ok (before ++ [last] ++ newSide hunk.lines ++ after) ↔
      lines = before ++ [last] ++ after ∧ ∀ line ∈ newSide hunk.lines, line = last := by
  rw [applyHunkToLines_ok_iff, start, empty]
  simp only [List.length_nil, Nat.add_zero, List.nil_prefix, true_and, List.append_assoc,
    List.cons_append, List.nil_append]
  constructor
  · rintro ⟨fits, out⟩
    have lengths : before.length = (lines.take before.length).length := by
      rw [List.length_take]
      omega
    obtain ⟨front, back⟩ := List.append_inj out lengths
    obtain ⟨all, rest⟩ := rotate_iff.mp back.symm
    refine ⟨?_, all⟩
    rw [← List.take_append_drop before.length lines, ← front, rest]
  · rintro ⟨rfl, all⟩
    refine ⟨by simp, ?_⟩
    rw [List.take_left, List.drop_left, rotate_iff.mpr ⟨all, rfl⟩]

/-- A hunk numbered by the standard gives the new lines exactly when it is given
the old ones, and a hunk without old lines only repeats the line before it. -/
theorem apply_numbered {hunk : PatchHunk} {before after lines : List Text}
    (numbered : hunk.oldStart = startNumber before.length (oldSide hunk.lines).length) :
    applyHunkToLines lines hunk = .ok (before ++ newSide hunk.lines ++ after) ↔
      lines = before ++ oldSide hunk.lines ++ after ∧
        (oldSide hunk.lines = [] → 0 < hunk.oldStart →
          ∀ line ∈ newSide hunk.lines, before[hunk.oldStart - 1]? = some line) := by
  by_cases empty : oldSide hunk.lines = []
  · simp only [startNumber, empty, List.length_nil, ↓reduceIte] at numbered
    rcases List.eq_nil_or_concat before with rfl | ⟨front, last, rfl⟩
    · have start : startIdx hunk = ([] : List Text).length := by simp [startIdx, numbered]
      rw [apply_at_start start]
      simp [numbered]
    · have start : startIdx hunk = front.length := by simp [startIdx, numbered]
      rw [List.concat_eq_append, apply_one_early start empty, empty]
      simp [numbered, eq_comm]
  · have positive : (oldSide hunk.lines).length ≠ 0 := by simpa using empty
    simp only [startNumber, positive, ↓reduceIte] at numbered
    have start : startIdx hunk = before.length := by simp [startIdx, numbered]
    rw [apply_at_start start]
    simp [empty]

/-! ## All hunks -/

/-- Every hunk without old lines that is not at the top repeats the line it is
numbered by. -/
def InsertsRepeat (old : List Text) (hs : List DiffHunk) : Prop :=
  ∀ h ∈ hs, oldSide h.lines = [] → 0 < h.oldStart →
    ∀ line ∈ newSide h.lines, old[h.oldStart - 1]? = some line

theorem inserts_repeat_cons {old : List Text} {h : DiffHunk} {hs : List DiffHunk} :
    InsertsRepeat old (h :: hs) ↔ (oldSide h.lines = [] → 0 < h.oldStart →
      ∀ line ∈ newSide h.lines, old[h.oldStart - 1]? = some line) ∧ InsertsRepeat old hs :=
  List.forall_mem_cons

/-- Applied whole, a valid diff gives the new lines exactly when its insertions
repeat the line before them. -/
theorem apply_whole_iff {oldAt newAt : Nat} {hs : List DiffHunk} {old new : List Text}
    (valid : Diff oldAt newAt hs old new) (before : List Text) (offset : before.length = oldAt) :
    applyHunks (hs.map fun h => readHunk h h.lines (h.body.any Prod.snd)) (before ++ old) =
      .ok (before ++ new) ↔ InsertsRepeat (before ++ old) hs := by
  induction valid generalizing before with
  | done same => simp [applyHunks, InsertsRepeat]
  | @hunk oldAt newAt hs old new keep h filled oldNumber newNumber rest ih =>
    let read := readHunk h h.lines (h.body.any Prod.snd)
    have numbered : read.oldStart =
        startNumber (before ++ keep).length (oldSide read.lines).length := by
      simpa [read, readHunk, offset] using oldNumber
    have below := ih (before ++ keep ++ oldSide h.lines) (by simp [offset, Nat.add_assoc])
    rw [inserts_repeat_cons]
    simp only [List.map_cons, ← List.append_assoc] at below ⊢
    have here (line : Text) (empty : oldSide h.lines = []) (positive : 0 < h.oldStart) :
        (before ++ keep ++ oldSide h.lines ++ old)[h.oldStart - 1]? = some line ↔
          (before ++ keep)[h.oldStart - 1]? = some line := by
      have inside : h.oldStart - 1 < (before ++ keep).length := by
        simp only [startNumber, empty, List.length_nil, ↓reduceIte] at oldNumber
        simp only [List.length_append]
        omega
      rw [empty, List.append_nil, List.getElem?_append_left inside]
    constructor
    · intro applied
      obtain ⟨later, first, last⟩ := applyHunks_cons_ok applied
      obtain ⟨rfl, repeats⟩ := (apply_numbered numbered).mp last
      refine ⟨fun empty positive line member => ?_, below.mp first⟩
      exact (here line empty positive).mpr (repeats empty positive line member)
    · rintro ⟨repeats, others⟩
      rw [applyHunks, below.mpr others]
      exact (apply_numbered numbered).mpr ⟨rfl, fun empty positive line member =>
        (here line empty positive).mp (repeats empty positive line member)⟩

/-- A hunk that is cut short leaves the line that faked the header where the new
file has the added one. -/
theorem cut_apart {h : DiffHunk} {front after : List (PatchLine × Bool)} {removed added : Text}
    {marked : Bool} {out before old new : List Text}
    (shape : h.body = front ++ (.remove removed, false) :: (.add added, marked) :: after)
    (minus : startsWith "-- ".toList removed = true) (plus : startsWith "++ ".toList added = true)
    (seen : Bool) (number : h.oldStart = startNumber before.length (oldSide h.lines).length)
    (applied : applyHunkToLines (before ++ oldSide h.lines ++ old)
      (readHunk h (front.map Prod.fst) seen) = .ok out) :
    ¬ before ++ newSide h.lines ++ new <+: out := by
  have lines : h.lines = front.map Prod.fst ++ .remove removed :: .add added ::
      after.map Prod.fst := by
    simp [DiffHunk.lines, shape]
  have start : startIdx (readHunk h (front.map Prod.fst) seen) = before.length := by
    simp [startIdx, readHunk, number, startNumber, lines]
  rw [applyHunkToLines_ok_iff, start] at applied
  obtain ⟨-, -, rfl⟩ := applied
  rintro ⟨behind, out⟩
  simp only [readHunk, lines, oldSide_append, newSide_append, oldSide_remove, newSide_remove,
    oldSide_add, newSide_add, List.append_assoc, List.cons_append] at out
  rw [List.take_left, ← List.drop_drop, List.drop_left, List.drop_left] at out
  have same : added = removed :=
    (List.cons.inj (List.append_cancel_left (List.append_cancel_left out))).1
  rw [same] at plus
  obtain ⟨tail, rfl⟩ := startsWith_iff.mp minus
  exact absurd plus (ne_of_eq_of_ne (startsWith_head_ne (by decide)) (by decide))

theorem apply_cut_ne {oldAt newAt : Nat} {hs : List DiffHunk} {old new : List Text}
    {hunks : List PatchHunk} (valid : Diff oldAt newAt hs old new) (reading : Reading hs hunks)
    (faked : ∃ h ∈ hs, FakesFileHeader h.body) (before : List Text)
    (offset : before.length = oldAt) : applyHunks hunks (before ++ old) ≠ .ok (before ++ new) := by
  induction valid generalizing hunks before with
  | done same => simp at faked
  | @hunk oldAt newAt hs old new keep h filled oldNumber newNumber rest ih =>
    intro applied
    simp only [← List.append_assoc] at applied
    have lengths : (before ++ keep).length = oldAt + keep.length := by simp [offset]
    cases reading with
    | @whole _ _ hunks honest later =>
      obtain ⟨mid, first, last⟩ := applyHunks_cons_ok applied
      have numbered : (readHunk h h.lines (h.body.any Prod.snd)).oldStart =
          startNumber (before ++ keep).length (oldSide h.lines).length := by
        rw [lengths]
        exact oldNumber
      obtain ⟨rfl, -⟩ := (apply_numbered numbered).mp last
      simp only [List.mem_cons, exists_eq_or_imp, honest, false_or] at faked
      exact ih later faked (before ++ keep ++ oldSide h.lines)
        (by simp [offset, Nat.add_assoc]) first
    | @cut _ _ front after removed added marked seen shape minus plus =>
      obtain ⟨mid, first, last⟩ := applyHunks_cons_ok applied
      cases first
      rw [← lengths] at oldNumber
      have apart := @cut_apart _ _ _ _ _ _ _ (before ++ keep) old new shape minus plus seen
        oldNumber last
      exact apart (List.prefix_refl _)

/-! ## The text of the new file -/

/-- What the patcher writes for the lines it arrived at. -/
def writtenText (trailingNewline : Bool) (ls : List Text) : Text :=
  if trailingNewline ∧ join ['\n'] ls ≠ [] then join ['\n'] ls ++ ['\n'] else join ['\n'] ls

theorem unlines_of_join {ls : List Text} (some_text : join ['\n'] ls ≠ []) :
    join ['\n'] ls ++ ['\n'] = unlines ls :=
  join_newline_append fun none => some_text (by rw [none]; rfl)

/-- The text of a file that is not empty tells its lines. -/
private theorem lines_of_writtenText {trailingNewline : Bool} {out new : List Text}
    (outClean : ∀ line ∈ out, '\n' ∉ line) (newClean : ∀ line ∈ new, '\n' ∉ line)
    (some_text : join ['\n'] new ≠ [])
    (same : writtenText trailingNewline out = fileText trailingNewline new) : out = new := by
  refine unlines_injective outClean newClean ?_
  unfold writtenText fileText at same
  cases trailingNewline with
  | true =>
    simp only [true_and, ↓reduceIte] at same
    split at same
    · rename_i written
      rwa [unlines_of_join written] at same
    · rename_i empty
      rw [not_not.mp empty, ← unlines_of_join some_text] at same
      simp at same
  | false =>
    simp only [Bool.false_eq_true, false_and, ↓reduceIte] at same
    rw [← unlines_of_join some_text, ← same, unlines_of_join (same ▸ some_text)]

/-- Two lists of as many lines have the same text only when they are the same,
and one empty line with its newline cannot be written. -/
private theorem writtenText_eq_iff {trailingNewline : Bool} {out new : List Text}
    (outClean : ∀ line ∈ out, '\n' ∉ line) (newClean : ∀ line ∈ new, '\n' ∉ line)
    (lengths : out.length = new.length) :
    writtenText trailingNewline out = fileText trailingNewline new ↔
      out = new ∧ ¬ (trailingNewline = true ∧ new = [[]]) := by
  by_cases written : join ['\n'] new = []
  · rcases join_newline_eq_nil.mp written with rfl | rfl
    · rw [List.length_nil, List.length_eq_zero_iff] at lengths
      subst lengths
      cases trailingNewline <;> simp [writtenText, fileText, join, unlines]
    · obtain ⟨line, rfl⟩ := List.length_eq_one_iff.mp lengths
      cases trailingNewline with
      | false => simp [writtenText, fileText, join]
      | true =>
        by_cases empty : line = []
        · simp [writtenText, fileText, join, unlines, empty]
        · simp [writtenText, fileText, join, unlines, empty]
  · constructor
    · intro same
      refine ⟨lines_of_writtenText outClean newClean written same, ?_⟩
      rintro ⟨-, rfl⟩
      exact written rfl
    · rintro ⟨rfl, -⟩
      cases trailingNewline with
      | false => simp [writtenText, fileText]
      | true => simp [writtenText, fileText, written, unlines_of_join written]

theorem buildNewContent_ok_iff {hunks : List PatchHunk} {old : List Text} {trailingNewline : Bool}
    {text : Text} : buildNewContent hunks old trailingNewline = .ok text ↔
      ∃ out, applyHunks hunks old = .ok out ∧ text = writtenText trailingNewline out := by
  unfold buildNewContent writtenText
  cases applyHunks hunks old with
  | error e => simp [bind, Except.bind]
  | ok out =>
    constructor
    · intro built
      exact ⟨out, rfl, (Except.ok.inj built).symm⟩
    · rintro ⟨_, ⟨⟩, rfl⟩
      rfl

/-- What is read has no lines that were not printed. -/
theorem Reading.newSide {hs : List DiffHunk} {hunks : List PatchHunk} (reading : Reading hs hunks)
    {hunk : PatchHunk} (member : hunk ∈ hunks) {line : Text} (inside : line ∈ newSide hunk.lines) :
    ∃ h ∈ hs, line ∈ newSide h.lines := by
  induction reading with
  | done => cases member
  | @whole h hs hunks honest rest ih =>
    rcases List.mem_cons.mp member with rfl | member
    · exact ⟨h, List.mem_cons_self, inside⟩
    · obtain ⟨other, listed, there⟩ := ih member
      exact ⟨other, List.mem_cons_of_mem _ listed, there⟩
  | @cut h hs before after old new marked seen shape minus plus =>
    obtain rfl := List.mem_singleton.mp member
    refine ⟨h, List.mem_cons_self, ?_⟩
    simp only [DiffHunk.lines, shape, List.map_append, newSide_append]
    exact List.mem_append_left _ inside

/-- The new file as the patcher writes it from the printed diff and the old
lines. -/
def rebuilt (total : Nat) (hs : List DiffHunk) (old : List Text) (trailingNewline : Bool) :
    DevItResult Text := do
  let (hunks, _) ← parseHunks total (printHunks hs).length (printHunks hs)
  buildNewContent hunks old trailingNewline

/-- **Patch correctness.** A valid diff of two files rebuilds the new one exactly
when every insertion without context repeats the line before it, no removed and
added lines fake a file header, and the new file is not one empty line. -/
theorem rebuilt_eq_iff {hs : List DiffHunk} {old new : List Text} (valid : ValidDiff hs old new)
    (oldClean : ∀ line ∈ old, '\n' ∉ line) (newClean : ∀ line ∈ new, '\n' ∉ line)
    (oldFits : old.length ≤ usizeMax) (newFits : new.length ≤ usizeMax) (total : Nat)
    (trailingNewline : Bool) :
    rebuilt total hs old trailingNewline = .ok (fileText trailingNewline new) ↔
      InsertsRepeat old hs ∧ (∀ h ∈ hs, ¬ FakesFileHeader h.body) ∧
        ¬ (trailingNewline = true ∧ new = [[]]) := by
  have good (h : DiffHunk) (member : h ∈ hs) : Fits h ∧ h.body ≠ [] :=
    Diff.fits valid (by omega) (by omega) member
  have whole := apply_whole_iff valid [] rfl
  simp only [List.nil_append] at whole
  constructor
  · intro ran
    obtain ⟨⟨hunks, rest⟩, read, built⟩ := Except.bind_eq_ok ran
    obtain ⟨out, applied, text⟩ := buildNewContent_ok_iff.mp built
    have reading := reading_of_parse good (Nat.le_refl _) read
    have outClean (line : Text) (member : line ∈ out) : '\n' ∉ line := by
      rcases mem_applyHunks applied member with inOld | ⟨hunk, listed, inNew⟩
      · exact oldClean line inOld
      · obtain ⟨h, printed, there⟩ := reading.newSide listed inNew
        exact newClean line (valid.newSide_subset printed there)
    by_cases faked : ∃ h ∈ hs, FakesFileHeader h.body
    · obtain ⟨h, printed, before, removed, added, marked, after, shape, minus, plus⟩ := faked
      have inNew : added ∈ new := by
        refine valid.newSide_subset printed ?_
        simp [DiffHunk.lines, shape]
      have some_text : join ['\n'] new ≠ [] := by
        intro empty
        rcases join_newline_eq_nil.mp empty with rfl | rfl
        · cases inNew
        · rw [List.mem_singleton.mp inNew] at plus
          cases plus
      rw [lines_of_writtenText outClean newClean some_text text.symm] at applied
      exact absurd applied (apply_cut_ne valid reading
        ⟨h, printed, before, removed, added, marked, after, shape, minus, plus⟩ [] rfl)
    · have honest : ∀ h ∈ hs, ¬ FakesFileHeader h.body := by simpa using faked
      have parsed := @parse_whole total _ hs [] good ended_nil noHunk_nil (Nat.le_refl _) honest
      rw [List.append_nil, read] at parsed
      cases parsed
      have lengths : out.length = new.length := by
        have counted := applyHunks_length applied
        have expected := valid.length
        simp only [List.flatMap_map] at counted
        exact Nat.add_right_cancel (counted.trans expected.symm)
      obtain ⟨rfl, notEmpty⟩ := (writtenText_eq_iff outClean newClean lengths).mp text.symm
      exact ⟨whole.mp applied, honest, notEmpty⟩
  · rintro ⟨repeats, honest, notEmpty⟩
    have built := buildNewContent_ok_iff.mpr ⟨new, whole.mpr repeats,
      ((writtenText_eq_iff newClean newClean rfl).mpr ⟨rfl, notEmpty⟩).symm⟩
    have parsed := @parse_whole total _ hs [] good ended_nil noHunk_nil (Nat.le_refl _) honest
    rw [List.append_nil] at parsed
    rw [rebuilt, parsed]
    exact built

/-- Inserting a line after the first of two, without context. -/
def insertAfterFirst : DiffHunk where
  oldStart := 1
  newStart := 2
  body := [(.add "x".toList, false)]
  shortOld := false
  shortNew := true
  heading := []

theorem insertAfterFirst_valid : ValidDiff [insertAfterFirst] ["a".toList, "b".toList]
    ["a".toList, "x".toList, "b".toList] :=
  Diff.hunk ["a".toList] insertAfterFirst (by decide) (by decide) (by decide) (.done ["b".toList])

/-- The inserted line comes before the line it was to follow. -/
theorem insertion_lands_early :
    ValidDiff [insertAfterFirst] ["a".toList, "b".toList] ["a".toList, "x".toList, "b".toList] ∧
      printHunks [insertAfterFirst] = ["@@ -1,0 +2 @@".toList, "+x".toList] ∧
      rebuilt 2 [insertAfterFirst] ["a".toList, "b".toList] true = .ok "x\na\nb\n".toList ∧
      fileText true ["a".toList, "x".toList, "b".toList] = "a\nx\nb\n".toList :=
  ⟨insertAfterFirst_valid, by decide +kernel, by decide +kernel, by decide +kernel⟩

/-- The same file with the line replaced, with context around it. -/
def replaceSecond : DiffHunk where
  oldStart := 1
  newStart := 1
  body := [(.context "a".toList, false), (.remove "b".toList, false), (.add "x".toList, false)]
  shortOld := false
  shortNew := false
  heading := " fn main()".toList

theorem replaceSecond_rebuilt :
    rebuilt 4 [replaceSecond] ["a".toList, "b".toList] true =
      .ok (fileText true ["a".toList, "x".toList]) := by
  have valid : ValidDiff [replaceSecond] ["a".toList, "b".toList] ["a".toList, "x".toList] :=
    Diff.hunk [] replaceSecond (by decide) (by decide) (by decide) (.done [])
  refine (rebuilt_eq_iff valid (by decide) (by decide) (by decide) (by decide) 4 true).mpr
    ⟨?_, ?_, by decide⟩
  · intro h member empty
    rw [List.mem_singleton.mp member] at empty
    exact absurd empty (by decide)
  · intro h member faked
    rw [List.mem_singleton.mp member] at faked
    obtain ⟨before, old, new, marked, after, shape, minus, -⟩ := faked
    have removed : (PatchLine.remove old, false) ∈ replaceSecond.body := by rw [shape]; simp
    have isB : old = "b".toList := by simpa [replaceSecond] using removed
    rw [isB] at minus
    exact absurd minus (by decide)

end PatchCorrectness

end Devit
