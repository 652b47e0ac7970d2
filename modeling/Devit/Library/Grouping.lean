import Mathlib.Data.List.Nodup

/-! Grouping a list by keys that are gone through in a fixed order. The groups, one after the
other, come in the order of their keys, and are the list again where it was in that order. -/
namespace Devit.Grouping

variable {α κ : Type} [DecidableEq κ] {key : α → κ} {keys : List κ}

/-- The keys come in the order of the list of keys. -/
def Ordered (keys : List κ) (key : α → κ) (l : List α) : Prop :=
  l.Pairwise fun x y => keys.idxOf (key x) ≤ keys.idxOf (key y)

/-- Whatever is made for each key has that key, so that all of it is in order. -/
theorem ordered_flatMap {f : κ → List α} (distinct : keys.Nodup)
    (each : ∀ k ∈ keys, ∀ x ∈ f k, key x = k) : Ordered keys key (keys.flatMap f) := by
  induction keys with
  | nil => exact .nil
  | cons k keys ih =>
    obtain ⟨own, later⟩ := List.forall_mem_cons.mp each
    obtain ⟨fresh, distinct⟩ := List.nodup_cons.mp distinct
    have behind : ∀ y ∈ keys.flatMap f, key y ≠ k := by
      intro y member same
      obtain ⟨k', listed, inside⟩ := List.mem_flatMap.mp member
      rw [later k' listed y inside] at same
      exact fresh (same ▸ listed)
    rw [Ordered, List.flatMap_cons, List.pairwise_append]
    refine ⟨?_, ?_, ?_⟩
    · refine List.pairwise_of_forall_mem_list fun x here y there => ?_
      exact Nat.le_of_eq (by rw [own x here, own y there])
    · refine (ih distinct later).imp_of_mem fun {x y} inX inY before => ?_
      rw [List.idxOf_cons_ne keys (behind x inX).symm, List.idxOf_cons_ne keys (behind y inY).symm]
      exact Nat.succ_le_succ before
    · intro x here y _
      rw [own x here, List.idxOf_cons_self]
      exact Nat.zero_le _

/-- In an ordered list, those with the first key come first. -/
theorem ordered_cons {k : κ} {l : List α} (ordered : Ordered (k :: keys) key l) :
    l.filter (key · = k) ++ l.filter (key · ≠ k) = l := by
  induction l with
  | nil => rfl
  | cons x l ih =>
    obtain ⟨first, rest⟩ := List.pairwise_cons.mp ordered
    by_cases here : key x = k
    · rw [List.filter_cons_of_pos (by simpa using here),
        List.filter_cons_of_neg (by simpa using here), List.cons_append, ih rest]
    · -- none with the first key is left behind another one
      have other : ∀ y ∈ l, key y ≠ k := by
        intro y member same
        have before := first y member
        rw [same, List.idxOf_cons_self, List.idxOf_cons_ne keys (Ne.symm here)] at before
        exact absurd before (Nat.not_succ_le_zero _)
      rw [List.filter_eq_nil_iff.mpr fun y member => ?_, List.nil_append, List.filter_eq_self]
      · intro y member
        rcases List.mem_cons.mp member with rfl | later
        · simpa using here
        · simpa using other y later
      · rcases List.mem_cons.mp member with rfl | later
        · simpa using here
        · simpa using other y later

/-- **Groups.** The groups of an ordered list, one after the other, are the list. -/
theorem flatMap_filter (distinct : keys.Nodup) {l : List α} (keyed : ∀ x ∈ l, key x ∈ keys)
    (ordered : Ordered keys key l) : keys.flatMap (fun k => l.filter (key · = k)) = l := by
  induction keys generalizing l with
  | nil =>
    cases l with
    | nil => rfl
    | cons x l => cases keyed x List.mem_cons_self
  | cons k keys ih =>
    obtain ⟨fresh, distinct⟩ := List.nodup_cons.mp distinct
    have left := @ih distinct (l.filter (key · ≠ k)) ?_ ?_
    · rw [List.flatMap_cons]
      refine Eq.trans (congrArg (l.filter (key · = k) ++ ·) ?_) (ordered_cons ordered)
      refine (List.flatMap_congr fun k' listed => ?_).trans left
      rw [List.filter_filter]
      refine List.filter_congr fun x _ => ?_
      by_cases same : key x = k'
      · have apart : key x ≠ k := by
          rintro here
          rw [← here, same] at fresh
          exact fresh listed
        simp [same, same ▸ apart]
      · simp [same]
    · intro x member
      obtain ⟨inside, apart⟩ := List.mem_filter.mp member
      exact List.mem_of_ne_of_mem (by simpa using apart) (keyed x inside)
    · refine (ordered.filter _).imp_of_mem fun {x y} inX inY before => ?_
      have apartX : key x ≠ k := by simpa using (List.mem_filter.mp inX).2
      have apartY : key y ≠ k := by simpa using (List.mem_filter.mp inY).2
      rw [List.idxOf_cons_ne keys apartX.symm, List.idxOf_cons_ne keys apartY.symm] at before
      exact Nat.le_of_succ_le_succ before

end Devit.Grouping
