import Devit.Library.Json

/-! The fields of a JSON object as a sorted map: each key once, in the order of the keys. Such
fields are told by what is found under each key, and inserting keeps them so. -/
namespace Devit.Json
open Text

/-- Fields as a map has them. -/
def Mapped (fields : List (Text × Json)) : Prop := fields.Pairwise fun a b => a.1 < b.1

theorem lex_iff {a b : Text} : List.lex a b (fun c d => decide (c < d)) = true ↔ a < b :=
  List.lex_eq_true_iff_lt

theorem mem_insertField {key : Text} {value : Json} {fields : List (Text × Json)}
    {field : Text × Json} (member : field ∈ insertField key value fields) :
    field = (key, value) ∨ field ∈ fields := by
  induction fields with
  | nil => exact .inl (List.mem_singleton.mp member)
  | cons first fields ih =>
    obtain ⟨k, v⟩ := first
    rw [insertField] at member
    split at member
    · rcases List.mem_cons.mp member with here | later
      · exact .inl here
      · exact .inr (List.mem_cons_of_mem _ later)
    · split at member
      · exact List.mem_cons.mp member
      · rcases List.mem_cons.mp member with rfl | later
        · exact .inr List.mem_cons_self
        · exact (ih later).imp_right (List.mem_cons_of_mem _)

theorem mapped_insertField {fields : List (Text × Json)} (mapped : Mapped fields) (key : Text)
    (value : Json) : Mapped (insertField key value fields) := by
  induction fields with
  | nil => exact List.pairwise_singleton _ _
  | cons first fields ih =>
    obtain ⟨k, v⟩ := first
    obtain ⟨below, later⟩ := List.pairwise_cons.mp mapped
    rw [insertField]
    split
    · rename_i same
      subst same
      exact List.pairwise_cons.mpr ⟨below, later⟩
    · rename_i other
      split
      · rename_i before
        have less : key < k := lex_iff.mp before
        refine List.pairwise_cons.mpr ⟨fun field member => ?_, mapped⟩
        rcases List.mem_cons.mp member with rfl | inside
        · exact less
        · exact List.lt_trans less (below field inside)
      · rename_i behind
        have less : k < key := by
          by_contra not_less
          exact other (List.le_antisymm not_less fun before => behind (lex_iff.mpr before))
        refine List.pairwise_cons.mpr ⟨fun field member => ?_, ih later⟩
        rcases mem_insertField member with rfl | inside
        · exact less
        · exact below field inside

/-- Nothing is found below the first key. -/
theorem find_below {fields : List (Text × Json)} {key : Text}
    (below : ∀ field ∈ fields, key < field.1) : fields.find? (·.1 == key) = none := by
  refine List.find?_eq_none.mpr fun field member => ?_
  rw [beq_iff_eq]
  rintro rfl
  exact List.lt_irrefl _ (below field member)

theorem find_first (key : Text) (value : Json) (fields : List (Text × Json)) :
    ((key, value) :: fields).find? (·.1 == key) = some (key, value) :=
  List.find?_cons_of_pos (beq_self_eq_true key)

/-- **Maps are told by what is found in them.** -/
theorem mapped_ext {fields others : List (Text × Json)} (mapped : Mapped fields)
    (mapped' : Mapped others)
    (same : ∀ key, fields.find? (·.1 == key) = others.find? (·.1 == key)) : fields = others := by
  induction fields generalizing others with
  | nil =>
    cases others with
    | nil => rfl
    | cons other others =>
      have found := same other.1
      rw [find_first] at found
      cases found
  | cons field fields ih =>
    obtain ⟨k, v⟩ := field
    obtain ⟨below, later⟩ := List.pairwise_cons.mp mapped
    cases others with
    | nil =>
      have found := same k
      rw [find_first] at found
      cases found
    | cons other others =>
      obtain ⟨k', v'⟩ := other
      obtain ⟨below', later'⟩ := List.pairwise_cons.mp mapped'
      have not_less : ¬ k < k' := by
        intro less
        have found := same k
        rw [find_first, find_below fun field member => ?_] at found
        · cases found
        · rcases List.mem_cons.mp member with rfl | inside
          · exact less
          · exact List.lt_trans less (below' field inside)
      have not_more : ¬ k' < k := by
        intro less
        have found := same k'
        rw [find_first, find_below fun field member => ?_] at found
        · cases found
        · rcases List.mem_cons.mp member with rfl | inside
          · exact less
          · exact List.lt_trans less (below field inside)
      obtain rfl : k = k' := List.le_antisymm not_more not_less
      have value := same k
      rw [find_first, find_first] at value
      cases value
      refine congrArg ((k, v) :: ·) (ih later later' fun key => ?_)
      by_cases here : k = key
      · subst here
        rw [find_below below, find_below below']
      · have whole := same key
        rwa [List.find?_cons_of_neg (by simpa using here),
          List.find?_cons_of_neg (by simpa using here)] at whole

end Devit.Json
