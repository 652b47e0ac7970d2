import Devit.HunkSplicing
import Devit.ParserTotality

/-! What holds of every file that is parsed from a diff: its flags go with its paths, and its
hunks hold single lines. -/
namespace Devit
open Text Path

namespace ParsedFiles
open PatchParser DiffSections ParserTotality

/-- A section with a path on one side only is marked as one that creates or deletes. -/
structure Marked (file : FilePatch) : Prop where
  created : file.oldPath = none → file.newPath ≠ none → file.isNewFile = true
  deleted : file.newPath = none → file.oldPath ≠ none → file.isDeletedFile = true

/-- The lines of the hunks hold no newline. -/
def SingleLines (file : FilePatch) : Prop :=
  ∀ hunk ∈ file.hunks, ∀ line ∈ hunk.lines, '\n' ∉ line.text

variable {ls after : List Text} {file : FilePatch}

/-! ## Hunks -/

/-- What a hunk collects is in its lines, behind their first characters. -/
theorem collected_text {line : PatchLine} (inside : line ∈ (collectHunkLines ls).1) :
    ∃ sign, sign :: line.text ∈ ls := by
  induction ls with
  | nil => cases inside
  | cons first rest ih =>
    rw [collectHunkLines] at inside
    split at inside
    · cases inside
    · split at inside
      · cases inside
      · revert ih inside
        generalize collectHunkLines rest = collected
        intro ih inside
        have later (member : line ∈ collected.1) : ∃ sign, sign :: line.text ∈ first :: rest := by
          obtain ⟨sign, listed⟩ := ih member
          exact ⟨sign, List.mem_cons_of_mem _ listed⟩
        dsimp only at inside
        split at inside
        · exact (List.mem_cons.mp inside).elim (fun same => ⟨_, by rw [same]; exact .head _⟩) later
        · exact (List.mem_cons.mp inside).elim (fun same => ⟨_, by rw [same]; exact .head _⟩) later
        · exact (List.mem_cons.mp inside).elim (fun same => ⟨_, by rw [same]; exact .head _⟩) later
        · exact later inside
        · cases inside

theorem collect_subset (ls : List Text) : (collectHunkLines ls).2.2 ⊆ ls := by
  induction ls with
  | nil => exact List.Subset.refl _
  | cons line rest ih =>
    rw [collectHunkLines]
    split
    · exact List.Subset.refl _
    · split
      · exact List.Subset.refl _
      · revert ih
        generalize collectHunkLines rest = collected
        intro ih
        dsimp only
        split <;> first | exact List.subset_cons_of_subset _ ih | exact List.Subset.refl _

theorem parseHunk_lines {total : Nat} {header : Text} {rest : List Text} {hunk : PatchHunk}
    (read : parseHunk total header rest = .ok (hunk, after)) :
    hunk.lines = (collectHunkLines rest).1 := by
  unfold parseHunk at read
  dsimp only at read
  split at read
  · obtain ⟨oldRange, -, read⟩ := Except.bind_eq_ok read
    obtain ⟨newRange, -, read⟩ := Except.bind_eq_ok read
    obtain ⟨old, -, read⟩ := Except.bind_eq_ok read
    obtain ⟨new, -, read⟩ := Except.bind_eq_ok read
    split at read
    · cases read
    · cases read
      rfl
  · cases read

/-- The lines of the hunks are among those that are read, behind a sign, and those that are
left are among them. -/
theorem parseHunks_among {total fuel : Nat} {hunks : List PatchHunk}
    (read : parseHunks total fuel ls = .ok (hunks, after)) : after ⊆ ls ∧
      ∀ hunk ∈ hunks, ∀ line ∈ hunk.lines, ∃ sign, sign :: line.text ∈ ls := by
  induction fuel generalizing ls hunks with
  | zero =>
    cases read
    exact ⟨List.Subset.refl _, List.forall_mem_nil _⟩
  | succ fuel ih =>
    cases ls with
    | nil =>
      cases read
      exact ⟨List.Subset.refl _, List.forall_mem_nil _⟩
    | cons first rest =>
      rw [parseHunks] at read
      split at read
      · obtain ⟨⟨hunk, between⟩, one, read⟩ := Except.bind_eq_ok read
        obtain ⟨⟨later, last⟩, others, read⟩ := Except.bind_eq_ok read
        cases read
        obtain ⟨within, signed⟩ := ih others
        obtain rfl := parseHunk_after one
        have below : (collectHunkLines rest).2.2 ⊆ first :: rest :=
          List.subset_cons_of_subset _ (collect_subset rest)
        refine ⟨List.Subset.trans within below,
          List.forall_mem_cons.mpr ⟨fun line inside => ?_, ?_⟩⟩
        · rw [parseHunk_lines one] at inside
          obtain ⟨sign, listed⟩ := collected_text inside
          exact ⟨sign, List.mem_cons_of_mem _ listed⟩
        · intro hunk member line inside
          obtain ⟨sign, listed⟩ := signed hunk member line inside
          exact ⟨sign, below listed⟩
      · cases read
        exact ⟨List.Subset.refl _, List.forall_mem_nil _⟩

/-! ## Sections -/

theorem behindHeader_subset (ls : List Text) : behindHeader ls ⊆ ls := by
  have rest : (ls.dropWhile fun line => !SectionSplits.endsHeader line) ⊆ ls :=
    (List.dropWhile_suffix _).subset
  unfold behindHeader
  split
  · rename_i line behind left
    rw [left] at rest
    split
    · exact rest
    · exact fun other inside => rest (List.mem_cons_of_mem _ inside)
  · exact List.nil_subset _

/-- **One section.** The file is marked as its paths are, its hunks hold single lines, and
what is left was there. -/
theorem parseFilePatch_formed {total : Nat} (single : ∀ line ∈ ls, '\n' ∉ line)
    (read : parseFilePatch total ls = .ok (file, after)) :
    (Marked file ∧ SingleLines file) ∧ after ⊆ ls := by
  obtain ⟨⟨h, body⟩, header, read⟩ := Except.bind_eq_ok read
  obtain ⟨⟨hunks, last⟩, others, read⟩ := Except.bind_eq_ok read
  cases read
  obtain rfl := parseHeader_behind header
  obtain ⟨within, signed⟩ := parseHunks_among others
  have below := behindHeader_subset ls
  refine ⟨⟨⟨?_, ?_⟩, fun hunk member line inside newline => ?_⟩, List.Subset.trans within below⟩
  · intro old new
    have none : h.oldPath = none := old
    have some : h.newPath.isSome = true := Option.isSome_iff_ne_none.mpr new
    simp [none, some]
  · intro new old
    have none : h.newPath = none := new
    have some : h.oldPath.isSome = true := Option.isSome_iff_ne_none.mpr old
    simp [none, some]
  · obtain ⟨sign, listed⟩ := signed hunk member line inside
    exact single _ (below listed) (List.mem_cons_of_mem _ newline)

theorem parseSections_formed {begins : Text → List Text → Bool} {total fuel : Nat}
    {files : List FilePatch} (single : ∀ line ∈ ls, '\n' ∉ line)
    (read : parseSections begins total fuel ls = .ok files) :
    ∀ file ∈ files, Marked file ∧ SingleLines file := by
  induction fuel generalizing ls files with
  | zero =>
    cases read
    exact List.forall_mem_nil _
  | succ fuel ih =>
    cases ls with
    | nil =>
      cases read
      exact List.forall_mem_nil _
    | cons line rest =>
      rw [parseSections] at read
      split at read
      · obtain ⟨⟨file, behind⟩, one, read⟩ := Except.bind_eq_ok read
        obtain ⟨later, others, read⟩ := Except.bind_eq_ok read
        cases read
        obtain ⟨formed, within⟩ := parseFilePatch_formed single one
        exact List.forall_mem_cons.mpr
          ⟨formed, ih (fun other inside => single other (within inside)) others⟩
      · exact ih (fun other inside => single other (List.mem_cons_of_mem _ inside)) read

/-- **What is parsed.** Every file of a diff is marked as its paths are, and its hunks hold
single lines. -/
theorem fromDiff_formed {diffContent : Text} {parsed : ParsedPatch}
    (read : fromDiff diffContent = .ok parsed) :
    ∀ file ∈ parsed.files, Marked file ∧ SingleLines file := by
  have single : ∀ line ∈ lines diffContent, '\n' ∉ line := fun _ inside => not_mem_lines inside
  obtain ⟨files, first, read⟩ := Except.bind_eq_ok read
  split at read
  · obtain ⟨plain, second, read⟩ := Except.bind_eq_ok read
    cases read
    exact parseSections_formed single second
  · cases read
    exact parseSections_formed single first

end ParsedFiles

end Devit
