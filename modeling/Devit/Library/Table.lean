import Devit.Library.Text
import Mathlib.Data.List.AList

/-! Hash maps with texts as keys, as association lists with distinct keys, and what
is found in one after an update. -/
namespace Devit

/-- A hash map with texts as keys. The order of its entries means nothing. -/
abbrev Table (V : Type) := AList fun _ : Text => V

namespace Table

variable {V : Type} {t : Table V}

theorem lookup_insert_if (key other : Text) (v : V) :
    (t.insert key v).lookup other = if other = key then some v else t.lookup other := by
  by_cases same : other = key
  · subst same
    rw [AList.lookup_insert, if_pos rfl]
  · rw [AList.lookup_insert_ne same, if_neg same]

theorem lookup_erase_if (key other : Text) :
    (t.erase key).lookup other = if other = key then none else t.lookup other := by
  by_cases same : other = key
  · subst same
    rw [AList.lookup_erase, if_pos rfl]
  · rw [AList.lookup_erase_ne same, if_neg same]

/-- Erasing some keys, one after the other. -/
theorem lookup_foldl_erase (keys : List Text) (t : Table V) (other : Text) :
    (keys.foldl (fun kept key => kept.erase key) t).lookup other =
      if other ∈ keys then none else t.lookup other := by
  induction keys generalizing t with
  | nil => rw [List.foldl_nil, if_neg List.not_mem_nil]
  | cons key keys ih =>
    rw [List.foldl_cons, ih, lookup_erase_if]
    by_cases later : other ∈ keys
    · rw [if_pos later, if_pos (List.mem_cons_of_mem _ later)]
    · by_cases same : other = key
      · rw [if_neg later, if_pos same, if_pos (by rw [same]; exact List.mem_cons_self)]
      · rw [if_neg later, if_neg same, if_neg (by simp [later, same])]

theorem keys_erase (key : Text) : (t.erase key).keys = t.keys.erase key := by
  rw [AList.keys_erase, lawful_beq_subsingleton (instBEqOfDecidableEq (α := Text)) List.instBEq]

theorem keys_insert (key : Text) (v : V) : (t.insert key v).keys = key :: t.keys.erase key := by
  rw [AList.keys_insert, lawful_beq_subsingleton (instBEqOfDecidableEq (α := Text)) List.instBEq]

theorem exists_lookup {key : Text} (member : key ∈ t.keys) : ∃ v, t.lookup key = some v :=
  Option.isSome_iff_exists.mp (AList.lookup_isSome.mpr (AList.mem_keys.mpr member))

/-- Erasing a key that is not there. -/
theorem erase_of_none {key : Text} (absent : t.lookup key = none) : t.erase key = t := by
  apply AList.ext
  refine List.kerase_of_notMem_keys fun member => ?_
  obtain ⟨v, found⟩ := exists_lookup (t := t) member
  rw [absent] at found
  cases found

/-- Erasing a key that was just inserted. -/
theorem erase_insert_of_none {key : Text} {v : V} (absent : t.lookup key = none) :
    (t.insert key v).erase key = t := by
  apply AList.ext
  have fresh : key ∉ t := by
    intro member
    obtain ⟨v, found⟩ := exists_lookup (t := t) (AList.mem_keys.mp member)
    rw [absent] at found
    cases found
  change List.kerase key (t.insert key v).entries = t.entries
  rw [AList.entries_insert_of_notMem fresh]
  exact List.kerase_cons_eq rfl

/-- The entries whose values are to be kept. -/
def retain (keep : V → Bool) (t : Table V) : Table V :=
  ⟨t.entries.filter fun entry => keep entry.2, t.nodupKeys.sublist List.filter_sublist⟩

theorem lookup_retain_eq_some {keep : V → Bool} {key : Text} {v : V} :
    (t.retain keep).lookup key = some v ↔ t.lookup key = some v ∧ keep v = true := by
  rw [← Option.mem_def, ← Option.mem_def, AList.mem_lookup_iff, AList.mem_lookup_iff]
  exact List.mem_filter

/-- The values, in the order in which the map is gone through. -/
def values (order : List Text → List Text) (t : Table V) : List V :=
  (order t.keys).filterMap t.lookup

theorem mem_values {order : List Text → List Text} (ordered : ∀ keys, (order keys).Perm keys)
    {v : V} : v ∈ t.values order ↔ ∃ key, t.lookup key = some v := by
  rw [values, List.mem_filterMap]
  refine exists_congr fun key => and_iff_right_of_imp fun found => ?_
  rw [(ordered t.keys).mem_iff]
  exact AList.mem_keys.mp (AList.lookup_isSome.mp (by rw [found]; rfl))

end Table

end Devit
