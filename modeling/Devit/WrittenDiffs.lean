import Devit.DiffWriter
import Devit.PatchCorrectness

/-! What the patcher makes of a diff the project wrote. It reads the hunk of the first group and
no other, and applies it where it belongs. So the new text comes back when that is the only
group, has lines of both texts, and does not end the text in a newline it did not have. -/
namespace Devit
open Text

namespace DiffWriter
open HunkSplicing UnifiedDiff AtomicPatcher PatchParser PatchCorrectness DiffSections DiffRoundTrip

variable {diff : TextDiff}

/-! ## Reading it -/

/-- The file whose header is written. -/
def written (filePath : Text) : DiffFile where
  names := []
  extended := []
  oldName := "a/".toList ++ filePath
  newName := "b/".toList ++ filePath
  hunks := []

theorem written_readable (filePath : Text) : Readable .plain (written filePath) := by
  refine ⟨fun line member => ?_, nofun⟩
  rcases List.mem_cons.mp member with rfl | later
  · exact passed_label '-' (.inl rfl) _
  · obtain rfl := List.mem_singleton.mp later
    exact passed_label '+' (.inr rfl) _

/-- The path is one line. -/
def Plain (filePath : Text) : Prop := '\n' ∉ filePath ∧ '\r' ∉ filePath

/-- What is written for a diff of some groups. -/
def diffText (diff : TextDiff) (filePath : Text) (groups : List (List DiffOp)) : Text :=
  "--- a/".toList ++ filePath ++ '\n' :: ("+++ b/".toList ++ filePath ++
    '\n' :: unlines (hunkLines diff 0 groups))

theorem label_clean {c : Char} {sign side filePath : Text} (inSign : c ∉ sign) (inSide : c ∉ side)
    (free : c ∉ filePath) : c ∉ sign ++ (side ++ filePath) := by
  simp [inSign, inSide, free]

theorem unlines_labels {minus plus oldSide newSide filePath : Text} {rest : List Text} :
    unlines ([minus ++ (oldSide ++ filePath), plus ++ (newSide ++ filePath)] ++ rest) =
      (minus ++ oldSide) ++ filePath ++ '\n' :: ((plus ++ newSide) ++ filePath ++
        '\n' :: unlines rest) := by
  simp [unlines]

/-- The lines of a written diff are its labels and the hunks of its groups. -/
theorem Groups.lines_written {i j : Nat} {groups : List (List DiffOp)} {old new : List Text}
    (turns : Groups diff i j groups old new)
    (pieces : ∀ value, value ∈ old ∨ value ∈ new → Piece value)
    {filePath : Text} (plain : Plain filePath) :
    lines (diffText diff filePath groups) =
      frontOf .plain (written filePath) ++ hunkLines diff 0 groups := by
  have clean {c : Char} (control : c = '\n' ∨ c = '\r') :
      ∀ line ∈ frontOf .plain (written filePath) ++ hunkLines diff 0 groups, c ∉ line := by
    have free : c ∉ filePath := by
      rcases control with rfl | rfl
      · exact plain.1
      · exact plain.2
    intro line member
    rcases List.mem_append.mp member with front | body
    · have labels : line = "--- ".toList ++ ("a/".toList ++ filePath) ∨
          line = "+++ ".toList ++ ("b/".toList ++ filePath) := by
        simpa [frontOf, written] using front
      have fixed : c ∉ "--- ".toList ∧ c ∉ "+++ ".toList ∧ c ∉ "a/".toList ∧ c ∉ "b/".toList := by
        rcases control with rfl | rfl <;> decide
      obtain ⟨minus, plus, a, b⟩ := fixed
      rcases labels with rfl | rfl
      · exact label_clean minus a free
      · exact label_clean plus b free
    · rcases mem_hunkLines body with rfl | ⟨group, listed, inside⟩
      · exact List.not_mem_nil
      · obtain ⟨i', j', gone, added, ops, olds, news⟩ := turns.ops_mem listed
        have own : ∀ value, value ∈ gone ∨ value ∈ added → Piece value :=
          fun value side => pieces value (side.imp (@olds value) (@news value))
        exact ops.hunk_clean own control line inside
  have shape : diffText diff filePath groups =
      unlines (frontOf .plain (written filePath) ++ hunkLines diff 0 groups) := by
    have minus : "--- a/".toList = "--- ".toList ++ "a/".toList := by decide +kernel
    have plus : "+++ b/".toList = "+++ ".toList ++ "b/".toList := by decide +kernel
    have apart := congrArg₂ (fun old new : Text => old ++ filePath ++ '\n' :: (new ++ filePath ++
      '\n' :: unlines (hunkLines diff 0 groups))) minus plus
    exact apart.trans unlines_labels.symm
  rw [shape, lines_unlines (clean (.inl rfl))]
  refine (List.map_congr_left fun line member => ?_).trans (List.map_id _)
  exact chopCr_eq_self.mpr fun last => clean (.inr rfl) line member (List.mem_of_getLast? last)

theorem not_section {filePath : Text} {idx : Nat} {groups : List (List DiffOp)} {text : Text}
    (split : lines text = frontOf .plain (written filePath) ++ hunkLines diff idx groups) :
    ∀ line ∈ lines text, ∀ rest, startsGitFile line rest = false := by
  intro line member rest
  rw [split] at member
  rcases List.mem_append.mp member with front | body
  · simp only [frontOf, List.mem_cons, List.not_mem_nil, or_false] at front
    rcases front with rfl | rfl <;> rfl
  · rcases mem_hunkLines body with rfl | ⟨group, listed, inside⟩
    · rfl
    · exact printHunks_not_section [hunkOf diff group] line (by simpa [printHunks] using inside)

/-- The empty line in front of another hunk is none of this one. -/
theorem hunkLines_ended (diff : TextDiff) (idx : Nat) (groups : List (List DiffOp)) :
    Ended (hunkLines diff (idx + 1) groups) ∧ NoHunk (hunkLines diff (idx + 1) groups) := by
  cases groups with
  | nil => exact ⟨ended_nil, noHunk_nil⟩
  | cons group groups =>
    refine ⟨⟨rfl, ?_⟩, ?_⟩
    · rintro line ⟨⟩
      rfl
    · rintro line ⟨⟩
      rfl

/-- The first file is that of the header, with a reading of the hunk in front. -/
theorem read_first {filePath : Text} {h : DiffHunk} {behind : List Text} {text : Text}
    {parsed : ParsedPatch} (good : Fits h ∧ h.body ≠ []) (ended : Ended behind)
    (none_left : NoHunk behind)
    (elsewhere : ∀ line ∈ lines text, ∀ rest, startsGitFile line rest = false)
    (split : lines text = frontOf .plain (written filePath) ++ (printHunk h ++ behind))
    (read : fromDiff text = .ok parsed) :
    ∃ hunks others, PatchCorrectness.Reading [h] hunks ∧
      parsed.files =
        fileOf (readFront .empty (frontOf .plain (written filePath))) hunks :: others := by
  have all_good : ∀ g ∈ [h], Fits g ∧ g.body ≠ [] := by
    intro g member
    rw [List.mem_singleton.mp member]
    exact good
  have alone : printHunk h ++ behind = printHunks [h] ++ behind := by simp [printHunks]
  rw [fromDiff_plain elsewhere, split, alone] at read
  generalize size : (frontOf .plain (written filePath) ++ (printHunks [h] ++ behind)).length = total
    at read
  have room := Nat.le_of_eq size
  obtain ⟨file, after, others, fuel, own, -, -, shape⟩ : ∃ file after others fuel,
      parseFilePatch total (frontOf .plain (written filePath) ++ (printHunks [h] ++ behind)) =
        .ok (file, after) ∧ after.length ≤ fuel ∧
      parseSections (begins .plain) total fuel after = .ok others ∧
        parsed.files = file :: others := by
    cases scanned : parseSections startsPlainFile total total
        (frontOf .plain (written filePath) ++ (printHunks [h] ++ behind)) with
    | error e =>
      rw [scanned] at read
      cases read
    | ok files =>
      rw [scanned] at read
      cases read
      exact @scan_file_ok .plain (written filePath) _ total total files room scanned
  rw [parseFilePatch_eq, parse_front (written_readable filePath),
    parseFrom_hunks (List.cons_ne_nil h [])] at own
  have enough : (printHunks [h]).length ≤ (printHunks [h] ++ behind).length := by
    rw [List.length_append]
    exact Nat.le_add_right _ _
  cases parse_printHunks all_good with
  | reads hunks left _ reading _ _ parsedHunks =>
    rw [parsedHunks _ _ _ ended none_left enough] at own
    cases own
    exact ⟨hunks, others, reading, shape⟩
  | refuses _ failed =>
    obtain ⟨e, error⟩ := failed total _ behind ended none_left enough
    rw [error] at own
    cases own

/-- A diff of one hunk that fakes no header, or of none, is read as it is. -/
theorem read_whole {filePath : Text} {hs : List DiffHunk} {text : Text}
    (good : ∀ h ∈ hs, Fits h ∧ h.body ≠ []) (honest : ∀ h ∈ hs, ¬ FakesFileHeader h.body)
    (elsewhere : ∀ line ∈ lines text, ∀ rest, startsGitFile line rest = false)
    (split : lines text = frontOf .plain (written filePath) ++ printHunks hs) :
    fromDiff text = .ok ⟨[fileOf (readFront .empty (frontOf .plain (written filePath)))
      (hs.map fun h => readHunk h h.lines (h.body.any Prod.snd))]⟩ := by
  rw [fromDiff_plain elsewhere, split]
  generalize size : (frontOf .plain (written filePath) ++ printHunks hs).length = total
  have own : parseFilePatch total (frontOf .plain (written filePath) ++ printHunks hs) =
      .ok (fileOf (readFront .empty (frontOf .plain (written filePath)))
        (hs.map fun h => readHunk h h.lines (h.body.any Prod.snd)), []) := by
    rw [parseFilePatch_eq, parse_front (written_readable filePath)]
    by_cases none : hs = []
    · rw [none]
      rfl
    · have whole := parseFrom_hunks none total
        (readFront .empty (frontOf .plain (written filePath))) []
      rw [List.append_nil] at whole
      have parsed := @parse_whole total (printHunks hs).length hs [] good ended_nil noHunk_nil
        (Nat.le_refl _) honest
      rw [List.append_nil] at parsed
      rw [whole, parsed]
      rfl
  obtain ⟨fuel, -, scanned⟩ := scan_file own (Nat.le_of_eq size)
  rw [parseSections_nil] at scanned
  exact congrArg (Except.map ParsedPatch.mk) scanned

/-! ## The text that comes out -/

theorem map_chopCr {ls : List Text} (noCr : ∀ line ∈ ls, '\r' ∉ line) : ls.map chopCr = ls := by
  refine (List.map_congr_left fun line member => ?_).trans (List.map_id ls)
  exact chopCr_eq_self.mpr fun last => noCr line member (List.mem_of_getLast? last)

/-- A text of whole lines is its lines, and one with the rest of a line has that behind them. -/
theorem exists_lines {text : Text} (noCr : '\r' ∉ text) :
    (∃ ls, text = unlines ls ∧ lines text = ls ∧ (text.getLast? = some '\n' ↔ ls ≠ [])) ∨
      ∃ ls last, text = unlines ls ++ last ∧ lines text = ls ++ [last] ∧ last ≠ [] ∧
        text.getLast? ≠ some '\n' := by
  obtain ⟨ls, last, rfl, clean, free⟩ := exists_unlines text
  have own : ∀ line ∈ ls, '\r' ∉ line := by
    intro line member inside
    refine noCr (List.mem_append_left _ (List.mem_flatMap.mpr ⟨line, member, ?_⟩))
    exact List.mem_append_left _ inside
  have split := lines_unlines_append clean last
  rw [map_chopCr own] at split
  by_cases none : last = []
  · subst none
    refine .inl ⟨ls, List.append_nil _, by rw [split]; exact List.append_nil ls, ?_⟩
    rcases List.eq_nil_or_concat ls with rfl | ⟨front, line, rfl⟩
    · simp [unlines]
    · rw [List.append_nil, List.concat_eq_append, unlines, List.flatMap_append,
        List.flatMap_singleton, ← List.append_assoc]
      simp
  · refine .inr ⟨ls, last, rfl, by rw [split, lines_last free none], none, fun ends => free ?_⟩
    rw [List.getLast?_append_of_ne_nil _ none] at ends
    exact List.mem_of_getLast? ends

/-- A text is written from its lines again, but for an empty line. -/
theorem writtenText_lines {text : Text} (noCr : '\r' ∉ text) :
    writtenText (text.getLast? = some '\n') (lines text) = text ↔ text ≠ ['\n'] := by
  rcases exists_lines noCr with ⟨ls, shape, split, ends⟩ | ⟨ls, last, shape, split, filled, ends⟩
  · by_cases none : ls = []
    · simp [shape, none, unlines, writtenText, join, lines, splitInclusive]
    · rw [split, writtenText, decide_eq_true (ends.mpr none)]
      by_cases empty : join ['\n'] ls = []
      · obtain rfl := (join_newline_eq_nil.mp empty).resolve_left none
        simp [shape, join, unlines]
      · rw [if_pos ⟨rfl, empty⟩, join_newline_append none, shape]
        refine ⟨fun _ same => empty ?_, fun _ => rfl⟩
        rw [← join_newline_append none] at same
        exact List.append_left_eq_self.mp same
  · rw [split, writtenText, if_neg (by simp [ends]), join_newline_concat, shape]
    refine ⟨fun _ same => ends ?_, fun _ => rfl⟩
    rw [shape, same]
    rfl

/-- A final newline is not written unless it is asked for. -/
theorem writtenText_false_ne {text : Text} (noCr : '\r' ∉ text) (ends : text.getLast? = some '\n') :
    writtenText false (lines text) ≠ text := by
  rcases exists_lines noCr with ⟨ls, shape, split, whole⟩ | ⟨ls, last, -, -, -, bare⟩
  · have some_line := whole.mp ends
    rw [split, writtenText, if_neg (by simp), shape, ← join_newline_append some_line]
    exact fun same => List.cons_ne_nil _ _ (List.self_eq_append_right.mp same)
  · exact absurd ends bare

/-- Of the lines that are written, a text has all but an empty last one. -/
theorem lines_writtenText {trailing : Bool} {out : List Text}
    (clean : ∀ line ∈ out, '\n' ∉ line ∧ '\r' ∉ line) :
    lines (writtenText trailing out) <+: out := by
  have kept {ls : List Text} (inside : ls ⊆ out) : ls.map chopCr = ls :=
    map_chopCr fun line member => (clean line (inside member)).2
  unfold writtenText
  split
  · rename_i written
    have same : lines (join ['\n'] out ++ ['\n']) = out := by
      rw [unlines_of_join written.2, lines_unlines fun line member => (clean line member).1,
        kept (List.Subset.refl _)]
    exact ⟨[], (List.append_nil _).trans same⟩
  · rcases List.eq_nil_or_concat out with rfl | ⟨front, last, rfl⟩
    · exact List.nil_prefix
    · rw [List.concat_eq_append] at clean kept ⊢
      have front_clean : ∀ line ∈ front, '\n' ∉ line := fun line member =>
        (clean line (List.mem_append_left _ member)).1
      rw [join_newline_concat, lines_unlines_append front_clean, kept (List.subset_append_left _ _)]
      by_cases none : last = []
      · rw [none, lines, splitInclusive, List.map_nil, List.append_nil]
        exact List.prefix_append _ _
      · have own := lines_last (clean last (by simp)).1 none
        exact ⟨[], (List.append_nil _).trans (congrArg (front ++ ·) own)⟩

/-- A text ends as its last pieces do. -/
theorem getLast_pieces {text : Text} {front back : List Text}
    (pieces : splitInclusive text = front ++ back) (more : back ≠ []) :
    text.getLast? = back.flatten.getLast? := by
  have filled : back.flatten ≠ [] := by
    intro none
    have own := splitInclusive_back pieces
    rw [none] at own
    exact more own.symm
  have whole := flatten_splitInclusive text
  rw [pieces, List.flatten_append] at whole
  rw [← whole, List.getLast?_append_of_ne_nil _ filled]

/-- Pieces in front of others end in a newline, and all do of a text that does. -/
theorem ended_front {text value : Text} {front back : List Text}
    (pieces : splitInclusive text = front ++ back) (more : back ≠ []) (member : value ∈ front) :
    value.getLast? = some '\n' := by
  obtain ⟨ls, -, rfl⟩ := splitInclusive_front pieces more
  obtain ⟨line, -, rfl⟩ := List.mem_map.mp member
  exact List.getLast?_concat

theorem ended_text {text value : Text} (ends : text.getLast? = some '\n')
    (member : value ∈ splitInclusive text) : value.getLast? = some '\n' := by
  obtain ⟨front, back, split⟩ := List.append_of_mem member
  by_cases last : back = []
  · subst last
    have own := getLast_pieces split (List.cons_ne_nil _ _)
    rw [List.flatten_singleton] at own
    rw [← own, ends]
  · have before : splitInclusive text = (front ++ [value]) ++ back := by
      rw [split, List.append_assoc, List.singleton_append]
    exact ended_front before last (List.mem_append_right _ List.mem_cons_self)

theorem returns_pieces {text value : Text} (noCr : '\r' ∉ text)
    (member : value ∈ splitInclusive text) : '\r' ∉ value := by
  intro inside
  apply noCr
  rw [← flatten_splitInclusive text]
  exact List.mem_flatten_of_mem member inside

/-! ## What the patcher does with it -/

/-- The first group of a diff of two texts, with the lines around it. -/
structure FirstGroup (diff : TextDiff) (original modified : Text) (group : List DiffOp)
    (keep old new oldRest newRest : List Text) : Prop where
  ops : Ops diff keep.length keep.length group old new
  olds : splitInclusive original = keep ++ (old ++ oldRest)
  news : splitInclusive modified = keep ++ (new ++ newRest)
  sides : TwoSided group
  oldReturns : '\r' ∉ original
  newReturns : '\r' ∉ modified
  oldFits : keep.length + old.length < usizeMax
  newFits : keep.length + new.length < usizeMax

variable {original modified : Text} {group : List DiffOp} {keep old new oldRest newRest : List Text}

theorem FirstGroup.some_lines
    (first : FirstGroup diff original modified group keep old new oldRest newRest) :
    old ≠ [] ∧ new ≠ [] :=
  ⟨first.ops.sides.1.mp first.sides.1, first.ops.sides.2.mp first.sides.2⟩

theorem FirstGroup.oldLines
    (first : FirstGroup diff original modified group keep old new oldRest newRest) :
    lines original =
      keep.map chopLine ++ oldSide (hunkOf diff group).lines ++ oldRest.map chopLine := by
  rw [lines, first.olds, first.ops.hunk_sides.1, List.map_append, List.map_append,
    List.append_assoc]

theorem FirstGroup.newLines
    (first : FirstGroup diff original modified group keep old new oldRest newRest) :
    lines modified =
      keep.map chopLine ++ newSide (hunkOf diff group).lines ++ newRest.map chopLine := by
  rw [lines, first.news, first.ops.hunk_sides.2, List.map_append, List.map_append,
    List.append_assoc]

theorem FirstGroup.numbers
    (first : FirstGroup diff original modified group keep old new oldRest newRest) :
    (hunkOf diff group).oldStart = keep.length + 1 ∧
      (hunkOf diff group).newStart = keep.length + 1 :=
  first.ops.hunk_numbers first.oldFits first.newFits first.sides

theorem FirstGroup.good
    (first : FirstGroup diff original modified group keep old new oldRest newRest) :
    Fits (hunkOf diff group) ∧ (hunkOf diff group).body ≠ [] := by
  obtain ⟨oldStart, newStart⟩ := first.numbers
  obtain ⟨olds, news⟩ := first.ops.hunk_sides
  have oldFits := first.oldFits
  have newFits := first.newFits
  have some_old := List.length_pos_iff.mpr first.some_lines.1
  have some_new := List.length_pos_iff.mpr first.some_lines.2
  refine ⟨⟨by omega, by omega, ?_, ?_⟩, fun none => first.some_lines.1 ?_⟩
  · rw [olds, List.length_map]
    omega
  · rw [news, List.length_map]
    omega
  · rw [DiffHunk.lines, none] at olds
    exact List.map_eq_nil_iff.mp olds.symm

/-- The hunk is applied where it belongs, and nothing behind it changes. -/
theorem FirstGroup.applied
    (first : FirstGroup diff original modified group keep old new oldRest newRest)
    (marked : Bool) :
    applyHunks [readHunk (hunkOf diff group) (hunkOf diff group).lines marked] (lines original) =
      .ok ((keep ++ (new ++ oldRest)).map chopLine) := by
  have start : startIdx (readHunk (hunkOf diff group) (hunkOf diff group).lines marked) =
      (keep.map chopLine).length := by
    rw [startIdx, readHunk, first.numbers.1, List.length_map]
    rfl
  have done := (apply_at_start start).mpr first.oldLines
  rw [List.map_append, List.map_append, ← first.ops.hunk_sides.2, ← List.append_assoc]
  exact done

/-- A hunk that is cut short does not give the new text. -/
theorem FirstGroup.reads_whole
    (first : FirstGroup diff original modified group keep old new oldRest newRest)
    {hunks : List PatchHunk} (reading : PatchCorrectness.Reading [hunkOf diff group] hunks) {out : List Text}
    {trailing : Bool} (applied : applyHunks hunks (lines original) = .ok out)
    (same : modified = writtenText trailing out) :
    ¬ FakesFileHeader (hunkOf diff group).body ∧
      hunks = [readHunk (hunkOf diff group) (hunkOf diff group).lines
        ((hunkOf diff group).body.any Prod.snd)] := by
  have clean : ∀ line ∈ out, '\n' ∉ line ∧ '\r' ∉ line := by
    intro line member
    rcases mem_applyHunks applied member with inOld | ⟨hunk, listed, inNew⟩
    · obtain ⟨value, inside, rfl⟩ := List.mem_map.mp inOld
      exact (piece_of_text first.oldReturns value inside).chop
    · obtain ⟨h, own, there⟩ := reading.newSide listed inNew
      rw [List.mem_singleton.mp own, first.ops.hunk_sides.2] at there
      obtain ⟨value, inside, rfl⟩ := List.mem_map.mp there
      have listed : value ∈ splitInclusive modified := by
        rw [first.news]
        exact List.mem_append_right _ (List.mem_append_left _ inside)
      exact (piece_of_text first.newReturns value listed).chop
  cases reading with
  | whole honest rest =>
    cases rest
    exact ⟨honest, rfl⟩
  | @cut _ _ front after removed added marked seen shape minus plus =>
    obtain ⟨mid, start, last⟩ := applyHunks_cons_ok applied
    cases start
    have some_old : (oldSide (hunkOf diff group).lines).length ≠ 0 := by
      rw [first.ops.hunk_sides.1, List.length_map]
      exact Nat.ne_of_gt (List.length_pos_iff.mpr first.some_lines.1)
    have number : (hunkOf diff group).oldStart = startNumber (keep.map chopLine).length
        (oldSide (hunkOf diff group).lines).length := by
      rw [startNumber, if_neg some_old, List.length_map, first.numbers.1]
    rw [first.oldLines] at last
    have apart := @cut_apart _ _ _ _ _ _ _ _ _ (newRest.map chopLine) shape minus plus seen
      number last
    have prefixed := @lines_writtenText trailing out clean
    rw [← same, first.newLines] at prefixed
    exact absurd prefixed apart

theorem FirstGroup.old_mem
    (first : FirstGroup diff original modified group keep old new oldRest newRest)
    {value : Text} (member : value ∈ old) : value ∈ splitInclusive original := by
  rw [first.olds]
  exact List.mem_append_right _ (List.mem_append_left _ member)

theorem FirstGroup.new_mem
    (first : FirstGroup diff original modified group keep old new oldRest newRest)
    {value : Text} (member : value ∈ new) : value ∈ splitInclusive modified := by
  rw [first.news]
  exact List.mem_append_right _ (List.mem_append_left _ member)

/-- Whether the patcher ends the text with a newline. -/
def endsWithNewline (marked : Bool) (original : Text) : Bool :=
  if marked then false else original.getLast? = some '\n'

/-- The only group gives the new text, with its end if that is not new. -/
theorem FirstGroup.alone
    (first : FirstGroup diff original modified group keep old new oldRest newRest)
    (only : oldRest = newRest) :
    writtenText (endsWithNewline ((hunkOf diff group).body.any Prod.snd) original)
        (lines modified) = modified ↔
      (modified.getLast? = some '\n' → original.getLast? = some '\n') ∧ modified ≠ ['\n'] := by
  by_cases ends : modified.getLast? = some '\n'
  · by_cases before : original.getLast? = some '\n'
    · have unmarked : (hunkOf diff group).body.any Prod.snd = false := by
        rw [Bool.eq_false_iff]
        intro marks
        obtain ⟨value, inOld | inNew, bare⟩ := first.ops.marked marks
        · exact bare (ended_text before (first.old_mem inOld))
        · exact bare (ended_text ends (first.new_mem inNew))
      have trailing : endsWithNewline ((hunkOf diff group).body.any Prod.snd) original =
          decide (modified.getLast? = some '\n') := by
        simp [endsWithNewline, unmarked, ends, before]
      rw [trailing, writtenText_lines first.newReturns]
      exact (and_iff_right fun _ => before).symm
    · have trailing : endsWithNewline ((hunkOf diff group).body.any Prod.snd) original = false := by
        simp [endsWithNewline, before]
      rw [trailing]
      constructor
      · exact fun same => absurd same (writtenText_false_ne first.newReturns ends)
      · exact fun both => absurd (both.1 ends) before
  · have trailing : endsWithNewline ((hunkOf diff group).body.any Prod.snd) original =
        decide (modified.getLast? = some '\n') := by
      by_cases more : newRest = []
      · -- the last line of the new text is in the group
        obtain ⟨front, value, shape⟩ :=
          (List.eq_nil_or_concat new).resolve_left first.some_lines.2
        rw [List.concat_eq_append] at shape
        have inside : value ∈ new := by simp [shape]
        have pieces : splitInclusive modified = (keep ++ front) ++ [value] := by
          rw [first.news, more, shape, List.append_nil, List.append_assoc]
        have own := getLast_pieces pieces (List.cons_ne_nil _ _)
        rw [List.flatten_singleton] at own
        have marks := first.ops.marks inside
          (piece_of_text first.newReturns value (first.new_mem inside)) (own ▸ ends)
        simp [endsWithNewline, marks, ends]
      · have olds := first.olds
        have news := first.news
        rw [← List.append_assoc] at olds news
        have bare : original.getLast? ≠ some '\n' := by
          rw [getLast_pieces olds (only ▸ more), only, ← getLast_pieces news more]
          exact ends
        simp [endsWithNewline, bare, ends]
    rw [trailing, writtenText_lines first.newReturns]
    exact (and_iff_right fun last => absurd last ends).symm

/-- The first of several groups does not give the new text. -/
theorem FirstGroup.not_more
    (first : FirstGroup diff original modified group keep old new oldRest newRest)
    (some_old : oldRest ≠ []) (some_new : newRest ≠ []) (onward : oldRest ≠ newRest) :
    writtenText (endsWithNewline ((hunkOf diff group).body.any Prod.snd) original)
      ((keep ++ (new ++ oldRest)).map chopLine) ≠ modified := by
  have olds := first.olds
  have news := first.news
  rw [← List.append_assoc] at olds news
  have unmarked : (hunkOf diff group).body.any Prod.snd = false := by
    rw [Bool.eq_false_iff]
    intro marks
    obtain ⟨value, inOld | inNew, bare⟩ := first.ops.marked marks
    · exact bare (ended_front olds some_old (List.mem_append_right _ inOld))
    · exact bare (ended_front news some_new (List.mem_append_right _ inNew))
  -- the text of the new lines of the group and of the old ones behind it
  obtain ⟨ls, clean, front⟩ := splitInclusive_front news some_new
  have pieces : splitInclusive (unlines ls ++ oldRest.flatten) = (keep ++ new) ++ oldRest := by
    rw [splitInclusive_unlines_append clean, splitInclusive_back olds, front]
  have ends : original.getLast? = (unlines ls ++ oldRest.flatten).getLast? := by
    rw [getLast_pieces olds some_old, getLast_pieces pieces some_old]
  have noCr : '\r' ∉ unlines ls ++ oldRest.flatten := by
    rw [← flatten_splitInclusive (unlines ls ++ oldRest.flatten), pieces]
    intro inside
    obtain ⟨value, member, own⟩ := List.mem_flatten.mp inside
    rcases List.mem_append.mp member with inNew | inOld
    · exact returns_pieces first.newReturns (news ▸ List.mem_append_left _ inNew) own
    · exact returns_pieces first.oldReturns (olds ▸ List.mem_append_right _ inOld) own
  have some_lines : unlines ls ++ oldRest.flatten ≠ ['\n'] := by
    intro one
    have count := congrArg List.length pieces
    have newCount := List.length_pos_iff.mpr first.some_lines.2
    have oldCount := List.length_pos_iff.mpr some_old
    rw [one, List.length_append, List.length_append] at count
    have single : (splitInclusive ['\n']).length = 1 := rfl
    omega
  have again := (writtenText_lines noCr).mpr some_lines
  rw [lines, pieces, ← ends] at again
  have trailing : endsWithNewline ((hunkOf diff group).body.any Prod.snd) original =
      decide (original.getLast? = some '\n') := by
    simp [endsWithNewline, unmarked]
  rw [trailing, ← List.append_assoc, again]
  intro same
  rw [same, news] at pieces
  exact onward (List.append_cancel_left pieces).symm

/-! ## There and back -/

/-- The diff of two texts is written, and patches the one to be the other. -/
def Patches (fromLines : Text → Text → TextDiff) (original modified filePath : Text) : Prop :=
  ∃ diffContent, unifiedDiff fromLines original modified filePath = some diffContent ∧
    applyDiff diffContent original = .ok modified

theorem applyDiff_file {diffContent original : Text} {parsed : ParsedPatch} {h : Header}
    {hunks : List PatchHunk} {others : List FilePatch} (read : fromDiff diffContent = .ok parsed)
    (files : parsed.files = fileOf h hunks :: others) :
    applyDiff diffContent original = buildNewContent hunks (lines original)
      (endsWithNewline (fileOf h hunks).noTrailingNewline original) := by
  rw [applyDiff, read]
  simp only [bind, Except.bind, files]
  rfl

variable {fromLines : Text → Text → TextDiff} {filePath : Text}

theorem unifiedDiff_some {groups : List (List DiffOp)} {text : Text}
    (shape : (fromLines original modified).groupedOps = groups)
    (turns : Groups (fromLines original modified) 0 0 groups (splitInclusive original)
      (splitInclusive modified))
    (oldFits : original.length < usizeMax) (newFits : modified.length < usizeMax)
    (pieces : ∀ value, value ∈ splitInclusive original ∨ value ∈ splitInclusive modified →
      Piece value) :
    unifiedDiff fromLines original modified filePath = some text ↔
      (∀ group ∈ groups, TwoSided group) ∧
        text = diffText (fromLines original modified) filePath groups := by
  have oldCount := length_lines_le original
  have newCount := length_lines_le modified
  rw [lines, List.length_map] at oldCount newCount
  rw [unifiedDiff, shape, Option.map_eq_some_iff]
  constructor
  · rintro ⟨body, made, rfl⟩
    obtain ⟨sides, rfl⟩ := (turns.text (by omega) (by omega) pieces 0).mp made
    exact ⟨sides, rfl⟩
  · rintro ⟨sides, rfl⟩
    exact ⟨_, (turns.text (by omega) (by omega) pieces 0).mpr ⟨sides, rfl⟩, rfl⟩

theorem Groups.nil_same {i j : Nat} {old new : List Text} (turns : Groups diff i j [] old new) :
    old = new := by
  cases turns
  rfl

theorem Groups.cons_parts {i j : Nat} {groups : List (List DiffOp)} {olds news : List Text}
    (turns : Groups diff i j (group :: groups) olds news) :
    ∃ keep old new oldRest newRest, olds = keep ++ (old ++ oldRest) ∧
      news = keep ++ (new ++ newRest) ∧
      Ops diff (i + keep.length) (j + keep.length) group old new ∧
      (groups ≠ [] → oldRest ≠ newRest) ∧
      Groups diff (i + keep.length + old.length) (j + keep.length + new.length) groups oldRest
        newRest := by
  cases turns with
  | @group _ _ _ _ old new oldRest newRest keep filled ops onward rest =>
    exact ⟨keep, old, new, oldRest, newRest, rfl, rfl, ops, onward, rest⟩

/-- Behind a group that is not the last one there are lines of both texts. -/
theorem Groups.some_rest {i j : Nat} {groups : List (List DiffOp)} {olds news : List Text}
    (turns : Groups diff i j groups olds news) (more : groups ≠ [])
    (sides : ∀ group ∈ groups, TwoSided group) : olds ≠ [] ∧ news ≠ [] := by
  cases groups with
  | nil => exact absurd rfl more
  | cons group groups =>
    obtain ⟨keep, old, new, oldRest, newRest, rfl, rfl, ops, -, -⟩ := turns.cons_parts
    have own := sides group List.mem_cons_self
    constructor
    · simp [ops.sides.1.mp own.1]
    · simp [ops.sides.2.mp own.2]

/-- Without a group the text comes back, but for an empty line. -/
theorem applyDiff_same (plain : Plain filePath) (oldReturns : '\r' ∉ original) :
    applyDiff (diffText diff filePath []) original = .ok original ↔ original ≠ ['\n'] := by
  have turns : Groups diff 0 0 [] [] [] := .done []
  have pieces : ∀ value : Text, value ∈ [] ∨ value ∈ [] → Piece value := by
    rintro value (none | none) <;> cases none
  have split := turns.lines_written pieces plain
  have read := @read_whole filePath [] _ nofun nofun (not_section split) split
  rw [applyDiff_file read rfl, buildNewContent_ok_iff, ← writtenText_lines oldReturns]
  constructor
  · rintro ⟨out, ⟨⟩, same⟩
    exact same.symm
  · exact fun same => ⟨_, rfl, same.symm⟩

/-- With one, it is the only one, and its hunk is read whole. -/
theorem FirstGroup.applyDiff_iff
    (first : FirstGroup diff original modified group keep old new oldRest newRest)
    {groups : List (List DiffOp)}
    (sides : ∀ other ∈ groups, TwoSided other)
    (onward : groups ≠ [] → oldRest ≠ newRest)
    (rest : Groups diff (0 + keep.length + old.length) (0 + keep.length + new.length) groups oldRest
      newRest)
    (split : lines (diffText diff filePath (group :: groups)) =
      frontOf .plain (written filePath) ++ hunkLines diff 0 (group :: groups)) :
    applyDiff (diffText diff filePath (group :: groups)) original = .ok modified ↔
      groups = [] ∧ ¬ FakesFileHeader (bodyOf diff group) ∧
        (modified.getLast? = some '\n' → original.getLast? = some '\n') ∧ modified ≠ ['\n'] := by
  have elsewhere := not_section split
  have shape : hunkLines diff 0 (group :: groups) =
      printHunk (hunkOf diff group) ++ hunkLines diff 1 groups := rfl
  rw [shape] at split
  constructor
  · intro patched
    obtain ⟨parsed, read, -⟩ := Except.bind_eq_ok patched
    obtain ⟨ended, none_left⟩ := hunkLines_ended diff 0 groups
    obtain ⟨hunks, others, reading, files⟩ :=
      read_first first.good ended none_left elsewhere split read
    rw [applyDiff_file read files, buildNewContent_ok_iff] at patched
    obtain ⟨out, applied, same⟩ := patched
    obtain ⟨honest, rfl⟩ := first.reads_whole reading applied same
    cases (first.applied _).symm.trans applied
    by_cases more : groups = []
    · subst more
      have only := rest.nil_same
      subst only
      have news : (keep ++ (new ++ oldRest)).map chopLine = lines modified := by
        rw [lines, first.news]
      rw [news] at same
      exact ⟨rfl, honest, (first.alone rfl).mp same.symm⟩
    · obtain ⟨some_old, some_new⟩ := rest.some_rest more sides
      exact absurd same.symm (first.not_more some_old some_new (onward more))
  · rintro ⟨rfl, honest, last⟩
    have only := rest.nil_same
    subst only
    have printed : printHunk (hunkOf diff group) ++ hunkLines diff 1 [] =
        printHunks [hunkOf diff group] := by
      simp [printHunks, hunkLines]
    rw [printed] at split
    have read := read_whole
      (fun h member => by rw [List.mem_singleton.mp member]; exact first.good)
      (fun h member => by rw [List.mem_singleton.mp member]; exact honest) elsewhere split
    rw [applyDiff_file read rfl, buildNewContent_ok_iff]
    refine ⟨_, first.applied _, ?_⟩
    rw [← first.news]
    exact ((first.alone rfl).mpr last).symm

/-- Without carriage returns, that is so exactly for a diff that is understood. -/
theorem patches_iff (plain : Plain filePath) (oldReturns : '\r' ∉ original)
    (newReturns : '\r' ∉ modified) (oldFits : original.length < usizeMax)
    (newFits : modified.length < usizeMax)
    (turns : Groups (fromLines original modified) 0 0 (fromLines original modified).groupedOps
      (splitInclusive original) (splitInclusive modified)) :
    Patches fromLines original modified filePath ↔
      Understood (fromLines original modified) original modified := by
  have pieces : ∀ value, value ∈ splitInclusive original ∨ value ∈ splitInclusive modified →
      Piece value := by
    rintro value (inOld | inNew)
    · exact piece_of_text oldReturns value inOld
    · exact piece_of_text newReturns value inNew
  have made := fun text => @unifiedDiff_some _ _ fromLines filePath _ text rfl turns oldFits newFits
    pieces
  have split := turns.lines_written pieces plain
  have patches : Patches fromLines original modified filePath ↔
      (∀ group ∈ (fromLines original modified).groupedOps, TwoSided group) ∧
        applyDiff (diffText (fromLines original modified) filePath
          (fromLines original modified).groupedOps) original = .ok modified := by
    constructor
    · rintro ⟨text, there, applied⟩
      obtain ⟨sides, rfl⟩ := (made text).mp there
      exact ⟨sides, applied⟩
    · rintro ⟨sides, applied⟩
      exact ⟨_, (made _).mpr ⟨sides, rfl⟩, applied⟩
  rw [patches]
  have oldCount := length_lines_le original
  have newCount := length_lines_le modified
  rw [lines, List.length_map] at oldCount newCount
  cases shape : (fromLines original modified).groupedOps with
  | nil =>
    rw [shape] at turns
    have same : original = modified := by
      rw [← flatten_splitInclusive original, turns.nil_same, flatten_splitInclusive]
    rw [← same, applyDiff_same plain oldReturns]
    constructor
    · rintro ⟨-, some_text⟩
      exact ⟨⟨oldReturns, same ▸ newReturns⟩, by rw [← same] at shape; simp [shape],
        by rw [← same] at shape; simp [shape], by rw [← same] at shape; simp [shape], id, some_text⟩
    · exact fun understood => ⟨List.forall_mem_nil _, understood.some_text⟩
  | cons group groups =>
    rw [shape] at turns split
    obtain ⟨keep, old, new, oldRest, newRest, olds, news, ops, onward, rest⟩ := turns.cons_parts
    rw [Nat.zero_add] at ops
    rw [olds, List.length_append, List.length_append] at oldCount
    rw [news, List.length_append, List.length_append] at newCount
    constructor
    · rintro ⟨sides, applied⟩
      obtain ⟨own, others⟩ := List.forall_mem_cons.mp sides
      have first : FirstGroup (fromLines original modified) original modified group keep old new
          oldRest newRest :=
        ⟨ops, olds, news, own, oldReturns, newReturns, by omega, by omega⟩
      obtain ⟨rfl, honest, ending, some_text⟩ :=
        (first.applyDiff_iff others onward rest split).mp applied
      refine ⟨⟨oldReturns, newReturns⟩, by rw [shape]; exact Nat.le_refl 1, shape ▸ sides, ?_,
        ending, some_text⟩
      rw [shape]
      exact List.forall_mem_singleton.mpr honest
    · intro understood
      have one := understood.one
      have sides := understood.sides
      have honest := understood.honest
      rw [shape] at one sides honest
      obtain ⟨own, others⟩ := List.forall_mem_cons.mp sides
      have first : FirstGroup (fromLines original modified) original modified group keep old new
          oldRest newRest :=
        ⟨ops, olds, news, own, oldReturns, newReturns, by omega, by omega⟩
      have alone : groups = [] := List.eq_nil_of_length_eq_zero (by simpa using one)
      exact ⟨sides, (first.applyDiff_iff others onward rest split).mpr
        ⟨alone, honest group List.mem_cons_self, understood.ending, understood.some_text⟩⟩

/-- **There and back.** Operations that turn one text into another are written as a diff that
patches the one to be the other whenever it is understood, and without carriage returns not
otherwise. -/
theorem understood_patches (plain : Plain filePath) (oldFits : original.length < usizeMax)
    (newFits : modified.length < usizeMax)
    (turns : Groups (fromLines original modified) 0 0 (fromLines original modified).groupedOps
      (splitLineEnds original) (splitLineEnds modified)) :
    (Understood (fromLines original modified) original modified →
      Patches fromLines original modified filePath) ∧
      ('\r' ∉ original → '\r' ∉ modified → Patches fromLines original modified filePath →
        Understood (fromLines original modified) original modified) := by
  have exactly (oldReturns : '\r' ∉ original) (newReturns : '\r' ∉ modified) :
      Patches fromLines original modified filePath ↔
        Understood (fromLines original modified) original modified := by
    rw [splitLineEnds_eq oldReturns, splitLineEnds_eq newReturns] at turns
    exact patches_iff plain oldReturns newReturns oldFits newFits turns
  constructor
  · intro understood
    exact (exactly understood.noReturns.1 understood.noReturns.2).mpr understood
  · intro oldReturns newReturns
    exact (exactly oldReturns newReturns).mp

/-- One line of two is replaced. -/
def lineChanged (_ _ : Text) : TextDiff where
  groupedOps := [[.equal 0 0 1, .replace 1 1 1 1]]
  iterChanges := fun op =>
    if op = .equal 0 0 1 then [changeOf .equal "a\n".toList]
    else [changeOf .delete "b\n".toList, changeOf .insert "c\n".toList]

theorem lineChanged_patches :
    Patches lineChanged "a\nb\n".toList "a\nc\n".toList "q.txt".toList := by
  have turns : Groups (lineChanged "a\nb\n".toList "a\nc\n".toList) 0 0
      (lineChanged "a\nb\n".toList "a\nc\n".toList).groupedOps
      (splitLineEnds "a\nb\n".toList) (splitLineEnds "a\nc\n".toList) := by
    have olds : splitLineEnds "a\nb\n".toList =
        [] ++ ((["a\n".toList] ++ (["b\n".toList] ++ [])) ++ []) := by decide
    have news : splitLineEnds "a\nc\n".toList =
        [] ++ ((["a\n".toList] ++ (["c\n".toList] ++ [])) ++ []) := by decide
    rw [olds, news]
    refine .group [] (List.cons_ne_nil _ _) ?_ (fun more => absurd rfl more) (.done [])
    exact .equal ["a\n".toList] (List.cons_ne_nil _ _) rfl (.replace ["b\n".toList] ["c\n".toList]
      ⟨List.cons_ne_nil _ _, List.cons_ne_nil _ _⟩ rfl .done)
  refine (@understood_patches _ _ lineChanged _ ⟨by decide, by decide⟩ (by decide) (by decide)
    turns).1 ⟨⟨by decide, by decide⟩, Nat.le_refl 1, ?_, ?_, fun _ => rfl, by decide⟩
  · exact List.forall_mem_singleton.mpr ⟨rfl, rfl⟩
  · refine List.forall_mem_singleton.mpr ?_
    rintro ⟨before, old, new, marked, after, shape, minus, -⟩
    have removed : (PatchLine.remove old, false) ∈ bodyOf (lineChanged "a\nb\n".toList
        "a\nc\n".toList) [.equal 0 0 1, .replace 1 1 1 1] := by
      rw [shape]
      simp
    have isB : old = chopLine ['b', '\n'] := by
      simpa [bodyOf, lineChanged, patchLine, changeOf] using removed
    rw [isB] at minus
    exact absurd minus (by decide)

/-- The first line of a file that was empty. -/
def lineInserted (_ _ : Text) : TextDiff where
  groupedOps := [[.insert 0 0 1]]
  iterChanges := fun _ => [changeOf .insert "a\n".toList]

/-- A line gets the newline it did not have. -/
def lineEnded (_ _ : Text) : TextDiff where
  groupedOps := [[.replace 0 1 0 1]]
  iterChanges := fun _ => [changeOf .delete "a".toList, changeOf .insert "a\n".toList]

def endedDiff : Text :=
  "--- a/q.txt\n+++ b/q.txt\n@@ -1,1 +1,1 @@\n-a\n\\ No newline at end of file\n+a\n".toList

/-- The old side of an insertion has no number, and the mark of the old line's missing newline
takes the new one's away. -/
theorem insertion_unnumbered :
    Groups (lineInserted [] "a\n".toList) 0 0 (lineInserted [] "a\n".toList).groupedOps
      (splitLineEnds []) (splitLineEnds "a\n".toList) ∧
    unifiedDiff lineInserted [] "a\n".toList "q.txt".toList = none ∧
    Groups (lineEnded "a".toList "a\n".toList) 0 0 (lineEnded "a".toList "a\n".toList).groupedOps
      (splitLineEnds "a".toList) (splitLineEnds "a\n".toList) ∧
    unifiedDiff lineEnded "a".toList "a\n".toList "q.txt".toList =
      some endedDiff ∧
    (applyDiff endedDiff "a".toList).toOption = some "a".toList ∧
    ¬ Patches lineInserted [] "a\n".toList "q.txt".toList ∧
    ¬ Patches lineEnded "a".toList "a\n".toList "q.txt".toList := by
  have unwritten : unifiedDiff lineInserted [] "a\n".toList "q.txt".toList = none := by
    decide +kernel
  have ended : unifiedDiff lineEnded "a".toList "a\n".toList "q.txt".toList =
      some endedDiff := by
    decide +kernel
  have bare : (applyDiff endedDiff "a".toList).toOption = some "a".toList := by
    decide +kernel
  refine ⟨?_, unwritten, ?_, ended, bare, ?_, ?_⟩
  · exact .group [] (List.cons_ne_nil _ _) (.insert ["a\n".toList] (List.cons_ne_nil _ _) rfl .done)
      (fun more => absurd rfl more) (.done [])
  · have replaced : Ops (lineEnded "a".toList "a\n".toList) 0 0 [.replace 0 1 0 1]
        (["a".toList] ++ []) (["a\n".toList] ++ []) :=
      .replace ["a".toList] ["a\n".toList] ⟨List.cons_ne_nil _ _, List.cons_ne_nil _ _⟩ rfl .done
    exact .group [] (List.cons_ne_nil _ _) replaced (fun more => absurd rfl more) (.done [])
  · rintro ⟨diffContent, there, -⟩
    rw [unwritten] at there
    cases there
  · rintro ⟨diffContent, there, patched⟩
    rw [ended, Option.some.injEq] at there
    rw [there, patched] at bare
    exact absurd (Option.some.inj bare) (by decide)

end DiffWriter
end Devit
