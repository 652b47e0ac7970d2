import Mathlib.Data.Multiset.Lattice

/-! Judging a list by the strictest answer that any rule gives for any item. Such a
judgement does not depend on the order of the items, grows with the list, and splits
over the rules. -/
namespace Devit.Joins

variable {ι β : Type}

section
variable [SemilatticeSup β] [OrderBot β]

/-- The join of what is said of each item. -/
def join (f : ι → β) (items : List ι) : β := ((items.map f : List β) : Multiset β).sup

/-- What is due if something holds. -/
def dueIf (holds : Bool) (b : β) : β := if holds then b else ⊥

@[simp] theorem dueIf_true (b : β) : dueIf true b = b := rfl

@[simp] theorem dueIf_false (b : β) : dueIf false b = ⊥ := rfl

theorem dueIf_or (p q : Bool) (b : β) : dueIf (p || q) b = dueIf p b ⊔ dueIf q b := by
  cases p <;> cases q <;> simp

theorem dueIf_le (holds : Bool) (b : β) : dueIf holds b ≤ b := by
  cases holds with
  | false => exact bot_le
  | true => exact le_rfl

theorem dueIf_eq_bot_iff {holds : Bool} {b : β} (due : b ≠ ⊥) :
    dueIf holds b = ⊥ ↔ holds = false := by
  cases holds with
  | false => simp
  | true => simp [due]

@[simp] theorem join_nil (f : ι → β) : join f [] = ⊥ := rfl

@[simp] theorem join_cons (f : ι → β) (item : ι) (items : List ι) :
    join f (item :: items) = f item ⊔ join f items := rfl

theorem join_map {κ : Type} (f : ι → β) (g : κ → ι) (items : List κ) :
    join f (items.map g) = join (fun item => f (g item)) items := by
  unfold join
  rw [List.map_map]
  rfl

theorem join_le_iff {f : ι → β} {items : List ι} {b : β} :
    join f items ≤ b ↔ ∀ item ∈ items, f item ≤ b := by
  induction items with
  | nil => simp
  | cons item items ih => simp [ih]

/-- Two rules may be joined item by item or list by list. -/
theorem join_sup (f g : ι → β) (items : List ι) :
    join (fun item => f item ⊔ g item) items = join f items ⊔ join g items := by
  induction items with
  | nil => simp
  | cons item items ih =>
    rw [join_cons, join_cons, join_cons, ih]
    exact sup_sup_sup_comm ..

/-- A rule with one answer asks whether any item is met. -/
theorem join_dueIf (p : ι → Bool) (b : β) (items : List ι) :
    join (fun item => dueIf (p item) b) items = dueIf (items.any p) b := by
  induction items with
  | nil => rfl
  | cons item items ih => rw [join_cons, List.any_cons, dueIf_or, ih]

theorem join_congr {f g : ι → β} {items : List ι} (same : ∀ item ∈ items, f item = g item) :
    join f items = join g items := by
  unfold join
  rw [List.map_congr_left same]

end

/-- In a chain, a part makes no difference when it is the same or outweighed. -/
theorem sup_left_inj_iff [LinearOrder β] {rest a b : β} :
    rest ⊔ a = rest ⊔ b ↔ a = b ∨ a ≤ rest ∧ b ≤ rest := by
  constructor
  · intro same
    rcases le_total a rest with below | above
    · rw [sup_of_le_left below] at same
      exact .inr ⟨below, sup_eq_left.mp same.symm⟩
    · rw [sup_of_le_right above] at same
      rcases le_total b rest with below | beyond
      · rw [sup_of_le_left below] at same
        exact .inr ⟨same.le, below⟩
      · rw [sup_of_le_right beyond] at same
        exact .inl same
  · rintro (rfl | ⟨left, right⟩)
    · rfl
    · rw [sup_of_le_left left, sup_of_le_left right]

end Devit.Joins
