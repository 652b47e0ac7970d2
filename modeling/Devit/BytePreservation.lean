import Devit.HunkOrders
import Devit.PatchSections

/-! The bytes of a file that is modified. The patcher takes the lines of the file without
what ends them and ends them all alike again. So the bytes outside the hunks are kept only
where they have no carriage returns before their newlines, and the newline at the end only
where the file had one and the markers of the last hunk say the same. -/
namespace Devit
open Text FileSystem

namespace BytePreservation
open AtomicPatcher PatchSections HunkSplicing UnifiedDiff PatchCorrectness Splices HunkOrders

/-- A line and its bytes, those that end it included. -/
abbrev Item := Text × Text

def Ended (i : Item) : Prop := i.2 = i.1 ++ ['\n']

def Crlf (i : Item) : Prop := i.2 = i.1 ++ ['\r', '\n']

def Bare (i : Item) : Prop := i.2 = i.1

/-- The lines of a file with their bytes. -/
def items (raw : Text) : List Item := (splitInclusive raw).map fun piece => (chopLine piece, piece)

/-- A printed hunk as the parser reads it. -/
def parsed (h : DiffHunk) : PatchHunk := readHunk h h.lines (h.body.any Prod.snd)

/-- The new side of a hunk: a line ends in a newline unless the marker follows it. -/
def newItems (h : DiffHunk) : List Item :=
  (h.body.filter fun entry => entry.1.isNew).map fun entry =>
    (entry.1.text, if entry.2 then entry.1.text else entry.1.text ++ ['\n'])

def itemEdit (h : DiffHunk) : Edit Item := ⟨startIdx (parsed h), stop (parsed h), newItems h⟩

/-- The lines of the new file with the bytes they are to have: those of the file outside the
hunks, and the new sides of the hunks in between. -/
def wanted (raw : Text) (hs : List DiffHunk) : List Item :=
  Splices.perform (hs.map itemEdit) 0 (items raw)

/-- The bytes of lines: one that another one follows ends in a newline. -/
def flow : List Text → Text
  | [] => []
  | [piece] => piece
  | piece :: pieces =>
    (if piece.getLast? = some '\n' then piece else piece ++ ['\n']) ++ flow pieces

/-- The file with its bytes outside the hunks as they were, ending as the patch says. -/
def expected (raw : Text) (hs : List DiffHunk) : Text := flow ((wanted raw hs).map Prod.snd)

/-- The last hunk has a marker, on whichever side: what the parser notes for the file. -/
def marker (hs : List DiffHunk) : Bool :=
  ((hs.map parsed).getLast?.map (·.noTrailingNewline)).getD false

/-- When the bytes are kept. -/
structure KeepsBytes (raw : Text) (hs : List DiffHunk) : Prop where
  noCrlf : ∀ k piece, (splitInclusive raw)[k]? = some piece →
    (∀ h ∈ hs, ¬ (startIdx (parsed h) ≤ k ∧ k < stop (parsed h))) →
      ∀ line, piece ≠ line ++ ['\r', '\n']
  ending : ∀ last, (wanted raw hs).getLast? = some last →
    (Ended last ↔ raw.getLast? = some '\n' ∧ marker hs = false ∧
      (wanted raw hs).map Prod.fst ≠ [[]])

variable {raw : Text} {hs : List DiffHunk} {i : Item} {P : List Item}

/-! ## Ends of lines -/

/-- A line of a file or of a diff. -/
structure Line (i : Item) : Prop where
  clean : '\n' ∉ i.1
  ends : Ended i ∨ Bare i ∨ Crlf i

theorem line_of_piece {piece : Text} (member : piece ∈ splitInclusive raw) :
    Line (chopLine piece, piece) := by
  obtain ⟨whole, clean, rfl | rfl⟩ := mem_splitInclusive member
  · have last : piece.getLast? ≠ some '\n' := fun last => clean (List.mem_of_getLast? last)
    have same : chopLine piece = piece := by rw [chopLine, stripLast, if_neg last]
    rw [same]
    exact ⟨clean, .inr (.inl rfl)⟩
  · have same : chopLine (whole ++ ['\n']) = chopCr whole := by rw [chopLine, stripLast_append]
    rw [same]
    obtain ⟨rest, shape, rfl | rfl⟩ := chopCr_rest whole
    · refine ⟨fun inside => clean (chopCr_subset whole inside), .inl ?_⟩
      rw [List.append_nil] at shape
      rw [Ended, ← shape]
    · refine ⟨fun inside => clean (chopCr_subset whole inside), .inr (.inr ?_)⟩
      have bytes := congrArg (· ++ ['\n']) shape
      exact bytes.trans (List.append_assoc ..)

theorem crlf_piece (front : Text) :
    Crlf (chopLine (front ++ ['\r', '\n']), front ++ ['\r', '\n']) := by
  have split : front ++ ['\r', '\n'] = front ++ ['\r'] ++ ['\n'] := by simp
  rw [Crlf, split, chopLine, stripLast_append]
  simp [chopCr]

theorem line_of_hunk {h : DiffHunk} (oneLine : ∀ line ∈ h.lines, '\n' ∉ line.text)
    (member : i ∈ newItems h) : Line i ∧ ¬ Crlf i := by
  obtain ⟨entry, listed, rfl⟩ := List.mem_map.mp member
  have inside : entry.1 ∈ h.lines := List.mem_map_of_mem (List.mem_of_mem_filter listed)
  cases marked : entry.2 with
  | true =>
    refine ⟨⟨oneLine _ inside, .inr (.inl rfl)⟩, fun crlf => ?_⟩
    simp [Crlf] at crlf
  | false =>
    refine ⟨⟨oneLine _ inside, .inl rfl⟩, fun crlf => ?_⟩
    simp [Crlf] at crlf

theorem not_ended_of_crlf (crlf : Crlf i) : ¬ Ended i := by
  intro ended
  have same := crlf.symm.trans ended
  simp at same

theorem not_ended_of_bare (bare : Bare i) : ¬ Ended i := by
  intro ended
  have same := bare.symm.trans ended
  simp at same

/-- The last line gets its bytes exactly if it is to end as it does. -/
theorem last_iff (line : Line i) (newline : Bool) :
    i.1 ++ (if newline then ['\n'] else []) = i.2 ↔ ¬ Crlf i ∧ (Ended i ↔ newline = true) := by
  rcases line.ends with ended | bare | crlf
  · have other : ¬ Crlf i := fun crlf => not_ended_of_crlf crlf ended
    rw [and_iff_right other, iff_true_left ended, ended]
    cases newline <;> simp
  · have other : ¬ Crlf i := by
      intro crlf
      have same := bare.symm.trans crlf
      simp at same
    rw [and_iff_right other, iff_false_left (not_ended_of_bare bare), bare]
    cases newline <;> simp
  · refine iff_of_false ?_ fun both => both.1 crlf
    rw [crlf]
    cases newline <;> simp

/-- A line that another one follows gets its bytes exactly if it has no carriage return. -/
theorem front_iff (line : Line i) {text text' : Text} :
    i.1 ++ '\n' :: text =
        (if i.2.getLast? = some '\n' then i.2 else i.2 ++ ['\n']) ++ text' ↔
      ¬ Crlf i ∧ text = text' := by
  rcases line.ends with ended | bare | crlf
  · have other : ¬ Crlf i := fun crlf => not_ended_of_crlf crlf ended
    rw [and_iff_right other, ended, if_pos List.getLast?_concat]
    simp
  · have other : ¬ Crlf i := by
      intro crlf
      have same := bare.symm.trans crlf
      simp at same
    have last : i.1.getLast? ≠ some '\n' := fun last => line.clean (List.mem_of_getLast? last)
    rw [and_iff_right other, bare, if_neg last]
    simp
  · have last : i.2.getLast? = some '\n' := by
      rw [crlf]
      simp
    refine iff_of_false ?_ fun both => both.1 crlf
    rw [if_pos last, crlf]
    simp

/-- Lines with their newlines are those bytes exactly if none has a carriage return and the
last one ends as it is to. -/
theorem join_eq_flow_iff (line : ∀ i ∈ P, Line i) (some_line : P ≠ []) (newline : Bool) :
    join ['\n'] (P.map Prod.fst) ++ (if newline then ['\n'] else []) = flow (P.map Prod.snd) ↔
      (∀ i ∈ P, ¬ Crlf i) ∧ ∀ last, P.getLast? = some last → (Ended last ↔ newline = true) := by
  induction P with
  | nil => exact absurd rfl some_line
  | cons i rest ih =>
    obtain ⟨own, line⟩ := List.forall_mem_cons.mp line
    cases rest with
    | nil =>
      refine (last_iff own newline).trans ?_
      simp
    | cons next rest =>
      have below := ih line (List.cons_ne_nil _ _)
      have first : join ['\n'] ((i :: next :: rest).map Prod.fst) ++
          (if newline then ['\n'] else []) = i.1 ++ '\n' ::
            (join ['\n'] ((next :: rest).map Prod.fst) ++ (if newline then ['\n'] else [])) := by
        simp [join]
      rw [first]
      refine (front_iff own).trans ?_
      rw [below, ← and_assoc, List.getLast?_cons_cons]
      exact and_congr_left' (List.forall_mem_cons (p := fun i => ¬ Crlf i)).symm

/-! ## The new file -/

theorem newItems_fst (h : DiffHunk) : (newItems h).map Prod.fst = newSide h.lines := by
  unfold newItems newSide DiffHunk.lines
  rw [List.map_map, List.filter_map, List.map_map]
  rfl

theorem items_fst (raw : Text) : (items raw).map Prod.fst = lines raw := by
  rw [items, List.map_map]
  rfl

/-- Without their ends the wanted lines are those that the patcher arrives at. -/
theorem wanted_fst (raw : Text) (hs : List DiffHunk) :
    (wanted raw hs).map Prod.fst = spliced (hs.map parsed) (lines raw) := by
  have edits : (hs.map parsed).map edit = (hs.map itemEdit).map (Edit.map Prod.fst) := by
    rw [List.map_map, List.map_map]
    refine List.map_congr_left fun h _ => ?_
    exact congrArg (Edit.mk (startIdx (parsed h)) (stop (parsed h))) (newItems_fst h).symm
  rw [wanted, spliced, edits, ← items_fst, perform_map]

theorem covered_false_iff {k : Nat} : covered (hs.map itemEdit) k = false ↔
    ∀ h ∈ hs, ¬ (startIdx (parsed h) ≤ k ∧ k < stop (parsed h)) := by
  rw [covered, List.any_map, List.any_eq_false]
  refine forall₂_congr fun h _ => ?_
  exact not_congr decide_eq_true_iff

theorem line_of_wanted (oneLine : ∀ h ∈ hs, ∀ line ∈ h.lines, '\n' ∉ line.text) :
    ∀ i ∈ wanted raw hs, Line i := by
  intro i member
  rcases mem_perform member with kept | ⟨e, listed, new⟩
  · obtain ⟨piece, inside, rfl⟩ := List.mem_map.mp kept
    exact line_of_piece inside
  · obtain ⟨h, inside, rfl⟩ := List.mem_map.mp listed
    exact (line_of_hunk (oneLine h inside) new).1

/-- No wanted line has a carriage return exactly if no line outside the hunks has one. -/
theorem noCrlf_iff (oneLine : ∀ h ∈ hs, ∀ line ∈ h.lines, '\n' ∉ line.text) :
    (∀ i ∈ wanted raw hs, ¬ Crlf i) ↔ ∀ k piece, (splitInclusive raw)[k]? = some piece →
      (∀ h ∈ hs, ¬ (startIdx (parsed h) ≤ k ∧ k < stop (parsed h))) →
        ∀ line, piece ≠ line ++ ['\r', '\n'] := by
  constructor
  · rintro none k piece found outside line rfl
    have listed : (items raw)[k]? =
        some (chopLine (line ++ ['\r', '\n']), line ++ ['\r', '\n']) := by
      rw [items, List.getElem?_map, found]
      rfl
    have kept : covered (hs.map itemEdit) (0 + k) = false := by
      rw [Nat.zero_add]
      exact covered_false_iff.mpr outside
    exact none _ (kept_mem_perform listed kept) (crlf_piece line)
  · intro none i member crlf
    rcases mem_perform_cases member with ⟨k, listed, kept⟩ | ⟨e, inside, new⟩
    · rw [items, List.getElem?_map] at listed
      obtain ⟨piece, found, rfl⟩ := Option.map_eq_some_iff.mp listed
      rw [Nat.zero_add] at kept
      exact none k piece found (covered_false_iff.mp kept) _ crlf
    · obtain ⟨h, listed, rfl⟩ := List.mem_map.mp inside
      exact (line_of_hunk (oneLine h listed) new).2 crlf

theorem writtenText_eq (trailingNewline : Bool) (ls : List Text) : writtenText trailingNewline ls =
    join ['\n'] ls ++ (if trailingNewline ∧ join ['\n'] ls ≠ [] then ['\n'] else []) := by
  unfold writtenText
  split
  · rfl
  · exact (List.append_nil _).symm

/-- **Bytes.** Modifying a file with hunks that stand in it, in its order, keeps the bytes
outside them and ends the file as the new side says exactly if no line outside the hunks
ends in a carriage return and a newline, and the last line of the new file is to end in a
newline exactly if the file did, the last hunk has no marker on either side, and the new
file is not one empty line. -/
theorem bytes_preserved_iff {d : Disk} {fullPath : PathBuf}
    (present : pathExists d fullPath = true) (reads : readToString d fullPath = .ok raw)
    (ordered : InOrder (hs.map parsed)) (stands : ∀ h ∈ hs, Stands (lines raw) (parsed h))
    (oneLine : ∀ h ∈ hs, ∀ line ∈ h.lines, '\n' ∉ line.text) :
    modifiedText d fullPath (hs.map parsed) (marker hs) = .ok (expected raw hs) ↔
      KeepsBytes raw hs := by
  obtain ⟨inPlace, same⟩ := ordered.inPlace
  have made : applyHunks (hs.map parsed) (lines raw) = .ok ((wanted raw hs).map Prod.fst) := by
    refine (applyHunks_iff inPlace).mpr ⟨List.forall_mem_map.mpr stands, ?_⟩
    rw [same, wanted_fst]
  have current : currentLines d fullPath = .ok (lines raw, decide (raw.getLast? = some '\n')) := by
    rw [currentLines, if_pos present, reads]
  have built : modifiedText d fullPath (hs.map parsed) (marker hs) =
      .ok (writtenText (if marker hs then false else raw.getLast? = some '\n')
        ((wanted raw hs).map Prod.fst)) := by
    rw [modifiedText, current]
    exact buildNewContent_ok_iff.mpr ⟨_, made, rfl⟩
  rw [built, Except.ok.injEq, writtenText_eq, expected]
  by_cases empty : wanted raw hs = []
  · refine iff_of_true (by rw [empty]; simp [join, flow]) ⟨(noCrlf_iff oneLine).mp ?_, ?_⟩
    · rw [empty]
      exact List.forall_mem_nil _
    · rw [empty]
      rintro last ⟨⟩
  · have written := join_eq_flow_iff (line_of_wanted oneLine) empty
      (decide ((if marker hs then false else decide (raw.getLast? = some '\n')) = true ∧
        join ['\n'] ((wanted raw hs).map Prod.fst) ≠ []))
    simp only [decide_eq_true_eq] at written
    rw [written, noCrlf_iff oneLine]
    have ends (last : Item) (is_last : (wanted raw hs).getLast? = some last) :
        ((if marker hs then false else decide (raw.getLast? = some '\n')) = true ∧
          join ['\n'] ((wanted raw hs).map Prod.fst) ≠ []) ↔
        raw.getLast? = some '\n' ∧ marker hs = false ∧ (wanted raw hs).map Prod.fst ≠ [[]] := by
      rw [ne_eq, join_newline_eq_nil, List.map_eq_nil_iff, or_iff_right empty]
      cases marker hs <;> simp
    constructor
    · rintro ⟨noCrlf, ending⟩
      exact ⟨noCrlf, fun last is_last => (ending last is_last).trans (ends last is_last)⟩
    · rintro ⟨noCrlf, ending⟩
      exact ⟨noCrlf, fun last is_last => (ending last is_last).trans (ends last is_last).symm⟩

/-! ## Files -/

/-- A disk with one file. -/
def fileDisk (raw : Text) : Disk where
  tree := Files.put (fun _ => none) ["f".toList] (some (.file (.utf8 raw)))
  cwd := []
  touched := []

/-- The second of two lines is changed. -/
def changeSecond : DiffHunk where
  oldStart := 1
  newStart := 1
  body := [(.context "a".toList, false), (.remove "b".toList, false), (.add "x".toList, false)]
  shortOld := false
  shortNew := false
  heading := []

theorem changeSecond_preserves :
    modifiedText (fileDisk "a\nb\n".toList) ⟨"f".toList⟩ [parsed changeSecond] false =
      .ok (expected "a\nb\n".toList [changeSecond]) := by
  refine (@bytes_preserved_iff "a\nb\n".toList [changeSecond] _ ⟨"f".toList⟩ (by decide +kernel)
    (by decide +kernel) (List.pairwise_singleton _ _) ?_ (by decide)).mpr ⟨?_, ?_⟩
  · intro h member
    rw [List.mem_singleton.mp member]
    exact stands_iff.mpr (by decide +kernel)
  · rintro k piece found - line rfl
    have none : ∀ piece ∈ splitInclusive "a\nb\n".toList, '\r' ∉ piece := by decide +kernel
    exact none _ (List.mem_of_getElem? found) (by simp)
  · have last : (wanted "a\nb\n".toList [changeSecond]).getLast? =
        some ("x".toList, "x\n".toList) := by decide +kernel
    rintro item is_last
    obtain rfl := Option.some.inj (last.symm.trans is_last)
    exact iff_of_true rfl (by decide +kernel)

/-- The file gets a newline at its end: the marker follows the removed line only. -/
def endLine : DiffHunk where
  oldStart := 1
  newStart := 1
  body := [(.remove "a".toList, true), (.add "a".toList, false)]
  shortOld := true
  shortNew := true
  heading := []

/-- A carriage return outside of a hunk is lost, and so is a newline at the end that the
new side has. -/
theorem bytes_lost :
    (modifiedText (fileDisk "a\nb\nc\r\n".toList) ⟨"f".toList⟩ [parsed changeSecond] false =
        .ok "a\nx\nc\n".toList ∧
      expected "a\nb\nc\r\n".toList [changeSecond] = "a\nx\nc\r\n".toList) ∧
    (modifiedText (fileDisk "a".toList) ⟨"f".toList⟩ [parsed endLine] (marker [endLine]) =
        .ok "a".toList ∧
      expected "a".toList [endLine] = "a\n".toList) := by
  decide +kernel

end BytePreservation

end Devit
