import Mathlib.Order.Lattice

/-! Tables as lists in the order of their keys, for maps whose entries are read in that
order. An entry is changed in place, or put where its key belongs. -/
namespace Devit.OrderedTable

variable {K α : Type} [LinearOrder K]

/-- The entry at a key is changed; one that is not there is first put in. -/
def upsert (start : α) (key : K) (change : α → α) : List (K × α) → List (K × α)
  | [] => [(key, change start)]
  | (k, a) :: rest =>
    if key < k then (key, change start) :: (k, a) :: rest
    else if key = k then (k, change a) :: rest
    else (k, a) :: upsert start key change rest

def get (key : K) : List (K × α) → Option α
  | [] => none
  | (k, a) :: rest => if key = k then some a else get key rest

def Ordered (table : List (K × α)) : Prop := table.Pairwise (·.1 < ·.1)

variable {start : α} {key : K} {change : α → α} {table : List (K × α)}

theorem mem_upsert {entry : K × α} (member : entry ∈ upsert start key change table) :
    entry.1 = key ∨ entry ∈ table := by
  induction table with
  | nil => exact .inl (by rw [List.mem_singleton.mp member])
  | cons first rest ih =>
    obtain ⟨k, a⟩ := first
    rw [upsert] at member
    split at member
    · rcases List.mem_cons.mp member with rfl | later
      · exact .inl rfl
      · exact .inr later
    split at member
    · rename_i same
      rcases List.mem_cons.mp member with rfl | later
      · exact .inl same.symm
      · exact .inr (List.mem_cons_of_mem _ later)
    · rcases List.mem_cons.mp member with rfl | later
      · exact .inr List.mem_cons_self
      · exact (ih later).imp id (List.mem_cons_of_mem _)

theorem upsert_ordered (ordered : Ordered table) : Ordered (upsert start key change table) := by
  induction table with
  | nil => exact List.pairwise_singleton _ _
  | cons first rest ih =>
    obtain ⟨k, a⟩ := first
    obtain ⟨above, later⟩ := List.pairwise_cons.mp ordered
    rw [upsert]
    split
    · rename_i below
      refine List.pairwise_cons.mpr ⟨?_, ordered⟩
      intro entry member
      rcases List.mem_cons.mp member with rfl | behind
      · exact below
      · exact lt_trans below (above entry behind)
    split
    · exact List.pairwise_cons.mpr ⟨above, later⟩
    · rename_i not_below other
      refine List.pairwise_cons.mpr ⟨?_, ih later⟩
      intro entry member
      rcases mem_upsert member with same | behind
      · rw [same]
        exact lt_of_le_of_ne (not_lt.mp not_below) (Ne.symm other)
      · exact above entry behind

theorem get_of_absent (absent : ∀ entry ∈ table, key ≠ entry.1) : get key table = none := by
  induction table with
  | nil => rfl
  | cons first rest ih =>
    obtain ⟨here, later⟩ := List.forall_mem_cons.mp absent
    rw [get, if_neg here, ih later]

theorem get_of_below (above : ∀ entry ∈ table, key < entry.1) : get key table = none :=
  get_of_absent fun entry member => ne_of_lt (above entry member)

theorem get_upsert (ordered : Ordered table) (other : K) :
    get other (upsert start key change table) =
      if other = key then some (change ((get key table).getD start)) else get other table := by
  induction table with
  | nil => rfl
  | cons first rest ih =>
    obtain ⟨k, a⟩ := first
    obtain ⟨above, later⟩ := List.pairwise_cons.mp ordered
    rw [upsert]
    split
    · rename_i below
      have absent : get key ((k, a) :: rest) = none := get_of_below fun entry member => by
        rcases List.mem_cons.mp member with rfl | behind
        · exact below
        · exact lt_trans below (above entry behind)
      rw [absent, get]
      rfl
    split
    · rename_i same
      subst same
      simp only [get, if_true, Option.getD_some]
      split <;> rfl
    · rename_i different
      simp only [get, ih later, if_neg different]
      by_cases here : other = k
      · have apart : other ≠ key := fun same => different (same ▸ here)
        rw [if_pos here, if_neg apart, if_pos here]
      · rw [if_neg here, if_neg here]

/-- An entry of an ordered table is the one at its key. -/
theorem get_of_mem (ordered : Ordered table) {entry : K × α} (member : entry ∈ table) :
    get entry.1 table = some entry.2 := by
  induction table with
  | nil => cases member
  | cons first rest ih =>
    obtain ⟨above, later⟩ := List.pairwise_cons.mp ordered
    rcases List.mem_cons.mp member with rfl | behind
    · rw [get, if_pos rfl]
    · rw [get, if_neg (ne_of_gt (above entry behind)), ih later behind]

/-- **An ordered table is told by its entries at keys.** -/
theorem ordered_ext {other : List (K × α)} (ordered : Ordered table) (ordered' : Ordered other)
    (same : ∀ key, get key table = get key other) : table = other := by
  induction table generalizing other with
  | nil =>
    cases other with
    | nil => rfl
    | cons entry rest =>
      have absent := same entry.1
      rw [get_of_mem ordered' List.mem_cons_self] at absent
      cases absent
  | cons first rest ih =>
    cases other with
    | nil =>
      have absent := same first.1
      rw [get_of_mem ordered List.mem_cons_self] at absent
      cases absent
    | cons first' rest' =>
      obtain ⟨k, a⟩ := first
      obtain ⟨k', a'⟩ := first'
      obtain ⟨above, later⟩ := List.pairwise_cons.mp ordered
      obtain ⟨above', later'⟩ := List.pairwise_cons.mp ordered'
      have keys : k = k' := by
        rcases lt_trichotomy k k' with below | equal | below
        · have first := same k
          rw [get, if_pos rfl, get_of_below fun entry member => ?_] at first
          · cases first
          · rcases List.mem_cons.mp member with rfl | behind
            · exact below
            · exact lt_trans below (above' entry behind)
        · exact equal
        · have first := same k'
          rw [get_of_below fun entry member => ?_, get, if_pos rfl] at first
          · cases first
          · rcases List.mem_cons.mp member with rfl | behind
            · exact below
            · exact lt_trans below (above entry behind)
      subst keys
      have values := same k
      rw [get, get, if_pos rfl, if_pos rfl] at values
      cases values
      refine congrArg _ (ih later later' fun key => ?_)
      by_cases here : key = k
      · rw [here, get_of_below above, get_of_below above']
      · have behind := same key
        rwa [get, get, if_neg here, if_neg here] at behind

end Devit.OrderedTable
