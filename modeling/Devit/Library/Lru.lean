import Devit.Library.Runs
import Mathlib.Data.List.Nodup
import Mathlib.Data.List.Perm.Basic

/-! Maps that hold so many entries at most and drop the one that was used longest ago.
The entries stand in the order of their last use, which is told by the history alone:
the keys are the last ones of all that were ever used. -/
namespace Devit.Recency

variable {K V : Type} [BEq K] [LawfulBEq K]

/-! ## The order of last use -/

/-- The key is used now. -/
def move (order : List K) (key : K) : List K := order.erase key ++ [key]

/-- The keys of a history, the one that was used longest ago first. -/
def recent (history : List K) : List K := history.foldl move []

/-- The other key is used after the last use of the key. -/
def UsedSince (history : List K) (key other : K) : Prop :=
  ∃ later, (key :: later) <:+ history ∧ key ∉ later ∧ other ∈ later

omit [LawfulBEq K] in
theorem recent_concat (history : List K) (key : K) :
    recent (history ++ [key]) = move (recent history) key := by
  rw [recent, List.foldl_append]
  rfl

theorem mem_move {order : List K} {key other : K} :
    other ∈ move order key ↔ other = key ∨ other ∈ order := by
  rw [move, List.mem_append, List.mem_singleton]
  constructor
  · rintro (before | same)
    · exact .inr (List.mem_of_mem_erase before)
    · exact .inl same
  · rintro (same | before)
    · exact .inr same
    · by_cases same : other = key
      · exact .inr same
      · exact .inl ((List.mem_erase_of_ne same).mpr before)

theorem move_nodup {order : List K} (distinct : order.Nodup) (key : K) :
    (move order key).Nodup := by
  rw [move, List.nodup_append]
  refine ⟨distinct.erase key, List.nodup_singleton key, ?_⟩
  rintro other before last member rfl
  rw [List.mem_singleton.mp member] at before
  exact distinct.not_mem_erase before

theorem mem_recent {history : List K} {key : K} : key ∈ recent history ↔ key ∈ history := by
  induction history using List.reverseRecOn with
  | nil => rfl
  | append_singleton history last ih =>
    rw [recent_concat, mem_move, ih, List.mem_append, List.mem_singleton, or_comm]

theorem recent_nodup (history : List K) : (recent history).Nodup := by
  induction history using List.reverseRecOn with
  | nil => exact List.nodup_nil
  | append_singleton history last ih =>
    rw [recent_concat]
    exact move_nodup ih last

omit [BEq K] [LawfulBEq K] in
theorem exists_last_use {history : List K} {key : K} (member : key ∈ history) :
    ∃ later, (key :: later) <:+ history ∧ key ∉ later := by
  induction history with
  | nil => cases member
  | cons first history ih =>
    by_cases again : key ∈ history
    · obtain ⟨later, suffix, last⟩ := ih again
      exact ⟨later, suffix.trans (List.suffix_cons first history), last⟩
    · cases (List.mem_cons.mp member).resolve_right again
      exact ⟨history, List.suffix_refl _, again⟩

omit [BEq K] [LawfulBEq K] in
theorem UsedSince.concat {history : List K} {key other last : K}
    (since : UsedSince history key other) (apart : key ≠ last) :
    UsedSince (history ++ [last]) key other := by
  obtain ⟨later, ⟨before, rfl⟩, none, used⟩ := since
  refine ⟨later ++ [last], ⟨before, ?_⟩, ?_, List.mem_append_left _ used⟩
  · rw [List.append_assoc, List.cons_append]
  · rw [List.mem_append, List.mem_singleton]
    exact not_or.mpr ⟨none, apart⟩

/-- **The order of last use.** Of two keys the later one was used since. -/
theorem recent_pairwise (history : List K) :
    (recent history).Pairwise (UsedSince history) := by
  induction history using List.reverseRecOn with
  | nil => exact List.Pairwise.nil
  | append_singleton history last ih =>
    have other_than : ∀ key ∈ (recent history).erase last, key ≠ last := by
      rintro key member rfl
      exact (recent_nodup history).not_mem_erase member
    rw [recent_concat, move, List.pairwise_append]
    refine ⟨?_, List.pairwise_singleton _ _, fun key member other same => ?_⟩
    · refine List.Pairwise.imp_of_mem ?_ (ih.sublist List.erase_sublist)
      intro key other member _ since
      exact since.concat (other_than key member)
    · rw [List.mem_singleton.mp same]
      obtain ⟨later, ⟨before, shape⟩, none⟩ :=
        exists_last_use (mem_recent.mp (List.mem_of_mem_erase member))
      refine ⟨later ++ [last], ⟨before, ?_⟩, ?_, by simp⟩
      · rw [← shape, List.append_assoc, List.cons_append]
      · rw [List.mem_append, List.mem_singleton]
        exact not_or.mpr ⟨none, other_than key member⟩

/-- Keys at the end of the order stay there when one is used. -/
theorem suffix_move {keys order : List K} {key : K} (distinct : order.Nodup)
    (suffix : keys <:+ order) : move keys key <:+ move order key := by
  obtain ⟨front, rfl⟩ := suffix
  unfold move
  by_cases here : key ∈ keys
  · have ahead : key ∉ front := fun member =>
      (List.nodup_append.mp distinct).2.2 key member key here rfl
    rw [List.erase_append_right _ ahead, List.append_assoc]
    exact List.suffix_append front _
  · rw [List.erase_of_not_mem here]
    by_cases ahead : key ∈ front
    · rw [List.erase_append_left _ ahead, List.append_assoc]
      exact List.suffix_append _ _
    · rw [List.erase_of_not_mem (by simp [ahead, here]), List.append_assoc]
      exact List.suffix_append _ _

/-! ## The map -/

/-- The value at a key. -/
def find (key : K) (entries : List (K × V)) : Option V :=
  (entries.find? fun e => e.1 == key).map Prod.snd

/-- The entries, with the one of the key moved to the end and given a value. -/
def replace (key : K) (v : V) (entries : List (K × V)) : List (K × V) :=
  entries.filter (fun e => e.1 != key) ++ [(key, v)]

theorem replace_keys {key : K} {v : V} {entries : List (K × V)}
    (distinct : (entries.map Prod.fst).Nodup) :
    (replace key v entries).map Prod.fst = move (entries.map Prod.fst) key := by
  rw [replace, move, distinct.erase_eq_filter, List.map_append, List.filter_map]
  rfl

theorem find_isSome {key : K} {entries : List (K × V)} :
    (find key entries).isSome = true ↔ key ∈ entries.map Prod.fst := by
  rw [find, Option.isSome_map, List.find?_isSome, List.mem_map]
  simp

/-- With distinct keys an entry is what is found under its key. -/
theorem find_eq_some {key : K} {v : V} {entries : List (K × V)}
    (distinct : (entries.map Prod.fst).Nodup) :
    find key entries = some v ↔ (key, v) ∈ entries := by
  induction entries with
  | nil => simp [find]
  | cons first entries ih =>
    obtain ⟨absent, later⟩ := List.nodup_cons.mp distinct
    obtain ⟨k, w⟩ := first
    by_cases same : k = key
    · subst same
      have gone : (k, v) ∉ entries := fun member => absent (List.mem_map.mpr ⟨_, member, rfl⟩)
      simp [find, gone, eq_comm]
    · have behind : find key ((k, w) :: entries) = find key entries := by
        rw [find, List.find?_cons_of_neg (by simpa using same), find]
      rw [behind, ih later, List.mem_cons]
      exact (or_iff_right fun equal => same (congrArg Prod.fst equal).symm).symm

/-- A map with so many entries at most, the one that was used longest ago first. -/
structure Lru (K V : Type) (capacity : Nat) where
  entries : List (K × V)
  distinct : (entries.map Prod.fst).Nodup
  bounded : entries.length ≤ capacity

variable {capacity : Nat}

namespace Lru

def empty (K V : Type) (capacity : Nat) : Lru K V capacity := ⟨[], List.nodup_nil, Nat.zero_le _⟩

def keys (lru : Lru K V capacity) : List K := lru.entries.map Prod.fst

def lookup (lru : Lru K V capacity) (key : K) : Option V := find key lru.entries

/-- The key is used and has the value. What is over the limit is dropped. -/
def place (lru : Lru K V capacity) (key : K) (v : V) : Lru K V capacity where
  entries := (replace key v lru.entries).drop ((replace key v lru.entries).length - capacity)
  distinct := by
    rw [List.map_drop, replace_keys lru.distinct]
    exact (move_nodup lru.distinct key).sublist (List.drop_sublist _ _)
  bounded := by
    rw [List.length_drop]
    omega

end Lru

/-- What a map is asked. -/
inductive Request (K V : Type) where
  | get (key : K)
  | put (key : K) (v : V)

/-- One request: a key that is found is used by it, and so is one that is given a value. -/
def perform (lru : Lru K V capacity) : Request K V → Option V × Lru K V capacity
  | .get key =>
    match lru.lookup key with
    | some v => (some v, lru.place key v)
    | none => (none, lru)
  | .put key v => (none, lru.place key v)

/-- The key that is used by a request with this answer. -/
def used : Request K V × Option V → List K
  | (.get key, answer) => if answer.isSome then [key] else []
  | (.put key _, _) => [key]

/-- The keys that are used by requests with these answers. -/
def uses (requests : List (Request K V)) (answers : List (Option V)) : List K :=
  (requests.zip answers).flatMap used

omit [BEq K] [LawfulBEq K] in
theorem uses_concat {requests : List (Request K V)} {answers : List (Option V)}
    (even : requests.length = answers.length) (request : Request K V) (answer : Option V) :
    uses (requests ++ [request]) (answers ++ [answer]) =
      uses requests answers ++ used (request, answer) := by
  rw [uses, List.zip_append even, List.flatMap_append]
  simp [uses]

theorem place_keys (lru : Lru K V capacity) (key : K) (v : V) :
    (lru.place key v).keys = (move lru.keys key).drop ((move lru.keys key).length - capacity) := by
  have keys := @replace_keys K V _ _ key v _ lru.distinct
  have even : (replace key v lru.entries).length = (move lru.keys key).length := by
    rw [← List.length_map (f := Prod.fst), keys]
    rfl
  rw [Lru.keys, Lru.place, List.map_drop, even, keys]
  rfl

theorem lookup_isSome {lru : Lru K V capacity} {key : K} :
    (lru.lookup key).isSome = true ↔ key ∈ lru.keys := find_isSome

theorem lookup_place (lru : Lru K V capacity) (key : K) (v : V) (other : K) :
    (lru.place key v).lookup other =
      if other ∈ (lru.place key v).keys then if other == key then some v else lru.lookup other
      else none := by
  by_cases kept : other ∈ (lru.place key v).keys
  · rw [if_pos kept]
    obtain ⟨e, inside, rfl⟩ := List.mem_map.mp kept
    have found : (lru.place key v).lookup e.1 = some e.2 :=
      (find_eq_some (lru.place key v).distinct).mpr inside
    rw [found]
    rcases List.mem_append.mp ((List.drop_sublist _ _).subset inside) with before | last
    · obtain ⟨there, apart⟩ := List.mem_filter.mp before
      rw [if_neg (by simpa using apart)]
      exact ((find_eq_some lru.distinct).mpr there).symm
    · rw [List.mem_singleton.mp last, if_pos (BEq.refl key)]
  · rw [if_neg kept, ← Option.not_isSome_iff_eq_none, lookup_isSome]
    exact kept

/-- **Only the history counts.** The keys of a map are the last ones of all that were used. -/
theorem keys_suffix (capacity : Nat) (requests : List (Request K V)) :
    (Runs.final perform (Lru.empty K V capacity) requests).keys <:+
      recent (uses requests (Runs.outputs perform (Lru.empty K V capacity) requests)) := by
  have placed : ∀ (lru : Lru K V capacity) (history : List K) (key : K) (v : V),
      lru.keys <:+ recent history → (lru.place key v).keys <:+ recent (history ++ [key]) := by
    intro lru history key v suffix
    rw [place_keys, recent_concat]
    exact (List.drop_suffix _ _).trans (suffix_move (recent_nodup history) suffix)
  induction requests using List.reverseRecOn with
  | nil => exact List.suffix_refl _
  | append_singleton requests request ih =>
    rw [Runs.final_concat, Runs.outputs_concat, uses_concat (Runs.outputs_length _ requests).symm]
    generalize Runs.final perform (Lru.empty K V capacity) requests = lru at ih ⊢
    cases request with
    | get key =>
      rw [perform]
      cases lru.lookup key with
      | none => simpa [used] using ih
      | some v => exact placed lru _ key v ih
    | put key v => exact placed lru _ key v ih

/-- **What is dropped** was used before all that was there with it. -/
theorem dropped_first {history : List K} {lru : Lru K V capacity} {key gone : K} {v : V}
    (suffix : lru.keys <:+ recent history) (there : gone ∈ lru.keys)
    (dropped : gone ∉ (lru.place key v).keys) :
    ∀ other ∈ lru.keys, other ≠ gone → UsedSince history gone other := by
  have order := (recent_pairwise history).sublist suffix.sublist
  have fits : lru.keys.length ≤ capacity := by
    rw [Lru.keys, List.length_map]
    exact lru.bounded
  rw [place_keys] at dropped
  cases shape : lru.keys with
  | nil => simp
  | cons first rest =>
    rw [shape] at order there dropped fits
    rcases List.mem_cons.mp there with rfl | behind
    · intro other member apart
      exact (List.pairwise_cons.mp order).1 other ((List.mem_cons.mp member).resolve_left apart)
    · -- one key is dropped at most, and it is the first
      exfalso
      refine dropped ?_
      by_cases same : first = key
      · subst same
        have even : (move (first :: rest) first).length - capacity = 0 := by
          simp only [move, List.erase_cons_head, List.length_append, List.length_singleton]
          exact Nat.sub_eq_zero_of_le fits
        rw [even, List.drop_zero]
        exact mem_move.mpr (.inr (List.mem_cons_of_mem _ behind))
      · have moved : move (first :: rest) key = first :: move rest key := by
          rw [move, List.erase_cons_tail (by simpa using same)]
          rfl
        have longer : (move rest key).length ≤ rest.length + 1 := by
          rw [move, List.length_append, List.length_singleton]
          exact Nat.succ_le_succ List.length_erase_le
        have few : (move (first :: rest) key).length - capacity ≤ 1 := by
          rw [moved, List.length_cons]
          rw [List.length_cons] at fits
          omega
        have kept : gone ∈ (move (first :: rest) key).drop 1 := by
          rw [moved]
          exact mem_move.mpr (.inr behind)
        exact (List.drop_sublist_drop_left _ few).subset kept

end Devit.Recency
