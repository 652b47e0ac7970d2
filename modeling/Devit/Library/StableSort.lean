import Mathlib.Data.List.Basic

/-! What a stable sort puts first: of the elements that come before all others, the one that
stands first. -/
namespace Devit.StableSort

variable {α : Type} {le : α → α → Bool}

/-- The first of the elements that come before all others. -/
def First (le : α → α → Bool) (xs : List α) (x : α) : Prop :=
  ∃ front back, xs = front ++ x :: back ∧ (∀ y ∈ front, le y x = false) ∧ ∀ y ∈ back, le x y = true

theorem First.mem {xs : List α} {x : α} (first : First le xs x) : x ∈ xs := by
  obtain ⟨front, back, rfl, -⟩ := first
  exact List.mem_append_right _ List.mem_cons_self

theorem First.unique {xs : List α} {x y : α} (first : First le xs x) (first' : First le xs y) :
    x = y := by
  obtain ⟨front, back, rfl, before, after⟩ := first
  obtain ⟨front', back', same, before', after'⟩ := first'
  rcases List.append_eq_append_iff.mp same with ⟨more, rfl, split⟩ | ⟨more, rfl, split⟩
  · cases more with
    | nil => exact (List.cons.inj split).1
    | cons z more =>
      obtain ⟨rfl, rfl⟩ := List.cons.inj split
      have low := before' x (List.mem_append_right _ List.mem_cons_self)
      have high := after y (List.mem_append_right _ List.mem_cons_self)
      rw [low] at high
      cases high
  · cases more with
    | nil => exact (List.cons.inj split).1.symm
    | cons z more =>
      obtain ⟨rfl, rfl⟩ := List.cons.inj split
      have low := before y (List.mem_append_right _ List.mem_cons_self)
      have high := after' x (List.mem_append_right _ List.mem_cons_self)
      rw [low] at high
      cases high

/-- **The head** of a list that is sorted stably. -/
theorem first_of_mergeSort (trans : ∀ a b c, le a b = true → le b c = true → le a c = true)
    (total : ∀ a b, (le a b || le b a) = true) {xs rest : List α} {x : α}
    (sorted : xs.mergeSort le = x :: rest) : First le xs x := by
  induction xs generalizing x rest with
  | nil => simp at sorted
  | cons a xs ih =>
    obtain ⟨earlier, later, whole, others, smaller⟩ := List.mergeSort_cons trans total a xs
    have ordered := List.pairwise_mergeSort trans total (a :: xs)
    rw [whole] at sorted ordered
    cases earlier with
    | nil =>
      cases sorted
      rw [List.nil_append] at others ordered
      refine ⟨[], xs, rfl, fun y none => (List.not_mem_nil none).elim, fun y member => ?_⟩
      refine List.rel_of_pairwise_cons ordered ?_
      rw [← others]
      exact List.mem_mergeSort.mpr member
    | cons b earlier =>
      cases sorted
      obtain ⟨front, back, rfl, before, after⟩ := ih others
      refine ⟨a :: front, back, rfl, ?_, after⟩
      rintro y (_ | ⟨_, member⟩)
      · simpa using smaller x List.mem_cons_self
      · exact before y member

end Devit.StableSort
