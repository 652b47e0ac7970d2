import Devit.AtomicPatcher

/-! What splicing a hunk into lines does, apart from its two cursor loops: the
hunk's old side must stand where the hunk begins, and its new side replaces it. -/
namespace Devit

/-- The text of a line without its mark. -/
def PatchLine.text : PatchLine → Text
  | .context text => text
  | .add text => text
  | .remove text => text

namespace HunkSplicing
open AtomicPatcher

/-- The lines a hunk expects. -/
def oldSide (ls : List PatchLine) : List Text := (ls.filter (·.isOld)).map (·.text)

/-- The lines a hunk leaves. -/
def newSide (ls : List PatchLine) : List Text := (ls.filter (·.isNew)).map (·.text)

@[simp] theorem oldSide_nil : oldSide [] = [] := rfl

@[simp] theorem newSide_nil : newSide [] = [] := rfl

@[simp] theorem oldSide_context (line : Text) (ls : List PatchLine) :
    oldSide (.context line :: ls) = line :: oldSide ls := rfl

@[simp] theorem oldSide_remove (line : Text) (ls : List PatchLine) :
    oldSide (.remove line :: ls) = line :: oldSide ls := rfl

@[simp] theorem oldSide_add (line : Text) (ls : List PatchLine) :
    oldSide (.add line :: ls) = oldSide ls := rfl

@[simp] theorem newSide_context (line : Text) (ls : List PatchLine) :
    newSide (.context line :: ls) = line :: newSide ls := rfl

@[simp] theorem newSide_remove (line : Text) (ls : List PatchLine) :
    newSide (.remove line :: ls) = newSide ls := rfl

@[simp] theorem newSide_add (line : Text) (ls : List PatchLine) :
    newSide (.add line :: ls) = line :: newSide ls := rfl

@[simp] theorem oldSide_append (ls more : List PatchLine) :
    oldSide (ls ++ more) = oldSide ls ++ oldSide more := by simp [oldSide]

@[simp] theorem newSide_append (ls more : List PatchLine) :
    newSide (ls ++ more) = newSide ls ++ newSide more := by simp [newSide]

/-- The line a hunk's number points at. -/
def startIdx (hunk : PatchHunk) : Nat := if hunk.oldStart > 0 then hunk.oldStart - 1 else 0

theorem rewriteLines_eq (oldIdx : Nat) (ls : List PatchLine) :
    rewriteLines oldIdx ls = (newSide ls, oldIdx + (oldSide ls).length) := by
  induction ls generalizing oldIdx with
  | nil => rfl
  | cons line ls ih =>
    cases line with
    | context text => simp [rewriteLines, ih]; omega
    | add text => simp [rewriteLines, ih]
    | remove text => simp [rewriteLines, ih]; omega

private theorem validate_step {α : Type} {found line : Text} {checked : DevItResult α} {a : α}
    {e : DevItError} : (if found ≠ line then .error e else checked) = .ok a ↔
      line = found ∧ checked = .ok a := by
  split
  · rename_i other
    simp [Ne.symm other]
  · rename_i same
    simp [not_not.mp same]

/-- Within the file, the first loop passes exactly when the old side is there. -/
theorem validateLines_ok_iff {lines : List Text} {oldIdx : Nat} {ls : List PatchLine}
    (fits : oldIdx + (oldSide ls).length ≤ lines.length) :
    validateLines lines oldIdx ls = .ok () ↔ oldSide ls <+: lines.drop oldIdx := by
  induction ls generalizing oldIdx with
  | nil => simp [validateLines]
  | cons line ls ih =>
    cases line with
    | add text => exact ih fits
    | context text =>
      simp only [oldSide_context, List.length_cons] at fits
      have inside : oldIdx < lines.length := by omega
      simp only [validateLines, List.getElem?_eq_getElem inside, validate_step, oldSide_context,
        List.drop_eq_getElem_cons inside, List.cons_prefix_cons]
      rw [ih (by omega)]
    | remove text =>
      simp only [oldSide_remove, List.length_cons] at fits
      have inside : oldIdx < lines.length := by omega
      simp only [validateLines, List.getElem?_eq_getElem inside, validate_step, oldSide_remove,
        List.drop_eq_getElem_cons inside, List.cons_prefix_cons]
      rw [ih (by omega)]

/-- **Splicing.** A hunk applies exactly when its old side stands at its start,
and its new side then stands there instead. -/
theorem applyHunkToLines_ok_iff {lines out : List Text} {hunk : PatchHunk} :
    applyHunkToLines lines hunk = .ok out ↔
      startIdx hunk + (oldSide hunk.lines).length ≤ lines.length ∧
      oldSide hunk.lines <+: lines.drop (startIdx hunk) ∧
      out = lines.take (startIdx hunk) ++ newSide hunk.lines ++
        lines.drop (startIdx hunk + (oldSide hunk.lines).length) := by
  have unfolded : applyHunkToLines lines hunk =
      if startIdx hunk > lines.length then .error (.invalidDiff
        ("Patch context starts at line ".toList ++ Text.printNat hunk.oldStart ++
          " but file has only ".toList ++ Text.printNat lines.length ++ " lines".toList)
        (some hunk.oldStart))
      else validateLines lines (startIdx hunk) hunk.lines >>= fun _ =>
        if startIdx hunk + (oldSide hunk.lines).length > lines.length then
          .error (.invalidDiff ("Patch consumes more lines than available (line ".toList ++
            Text.printNat (startIdx hunk + (oldSide hunk.lines).length + 1) ++
            " in file with ".toList ++ Text.printNat lines.length ++ " lines)".toList)
            (some (startIdx hunk + (oldSide hunk.lines).length + 1)))
        else .ok (lines.take (startIdx hunk) ++ newSide hunk.lines ++
          lines.drop (startIdx hunk + (oldSide hunk.lines).length)) := by
    rw [applyHunkToLines]
    simp only [rewriteLines_eq]
    rfl
  rw [unfolded]
  by_cases fits : startIdx hunk + (oldSide hunk.lines).length ≤ lines.length
  · have reach : ¬ startIdx hunk > lines.length := by omega
    simp only [reach, ↓reduceIte, fits, Nat.not_lt.mpr fits, true_and]
    rw [← validateLines_ok_iff fits]
    cases validateLines lines (startIdx hunk) hunk.lines with
    | error e => simp [bind, Except.bind]
    | ok checked => simp [bind, Except.bind, eq_comm]
  · simp only [fits, false_and, iff_false]
    split
    · simp
    · cases validateLines lines (startIdx hunk) hunk.lines with
      | error e => simp [bind, Except.bind]
      | ok checked =>
        have beyond : startIdx hunk + (oldSide hunk.lines).length > lines.length := by omega
        simp only [bind, Except.bind, beyond, ↓reduceIte, reduceCtorEq, not_false_eq_true]

theorem applyHunks_cons_ok {hunk : PatchHunk} {hunks : List PatchHunk} {lines out : List Text}
    (ran : applyHunks (hunk :: hunks) lines = .ok out) :
    ∃ later, applyHunks hunks lines = .ok later ∧ applyHunkToLines later hunk = .ok out :=
  Except.bind_eq_ok ran

/-- Splicing changes the number of lines by what the hunks add and remove. -/
theorem applyHunks_length {hunks : List PatchHunk} {lines out : List Text}
    (ran : applyHunks hunks lines = .ok out) :
    out.length + (hunks.flatMap fun h => oldSide h.lines).length =
      lines.length + (hunks.flatMap fun h => newSide h.lines).length := by
  induction hunks generalizing out with
  | nil => cases ran; rfl
  | cons hunk hunks ih =>
    obtain ⟨later, before, last⟩ := applyHunks_cons_ok ran
    obtain ⟨fits, -, rfl⟩ := applyHunkToLines_ok_iff.mp last
    have counted := ih before
    simp only [List.flatMap_cons, List.length_append, List.length_take, List.length_drop] at *
    omega

/-- Every line of the result is a line of the file or of a hunk. -/
theorem mem_applyHunks {hunks : List PatchHunk} {lines out : List Text}
    (ran : applyHunks hunks lines = .ok out) {line : Text} (member : line ∈ out) :
    line ∈ lines ∨ ∃ hunk ∈ hunks, line ∈ newSide hunk.lines := by
  induction hunks generalizing out with
  | nil =>
    cases ran
    exact .inl member
  | cons hunk hunks ih =>
    obtain ⟨later, before, last⟩ := applyHunks_cons_ok ran
    obtain ⟨-, -, rfl⟩ := applyHunkToLines_ok_iff.mp last
    have below (inside : line ∈ later) :
        line ∈ lines ∨ ∃ h ∈ hunk :: hunks, line ∈ newSide h.lines := by
      rcases ih before inside with old | ⟨h, listed, new⟩
      · exact .inl old
      · exact .inr ⟨h, List.mem_cons_of_mem _ listed, new⟩
    simp only [List.mem_append] at member
    rcases member with (front | new) | back
    · exact below (List.mem_of_mem_take front)
    · exact .inr ⟨hunk, List.mem_cons_self, new⟩
    · exact below (List.mem_of_mem_drop back)

end HunkSplicing

end Devit
