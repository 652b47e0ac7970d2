import Devit.Library.Lru
import Devit.SnapshotIds

/-! The cache of snapshot signatures keeps those used last. Its table and its order are
changed one after the other; after every call they hold what a map that drops the entry
used longest ago holds. -/
namespace Devit
open Text

namespace SignatureCache
open SnapshotIds Recency

/-- A call of the cache. -/
inductive Call where
  | get (signature : IndexSignature)
  | insert (signature : IndexSignature) (snapshotId : Text)

section
variable (blake3 : List UInt8 → List UInt8)

def perform (cache : SnapshotSignatureCache) : Call → Option Text × SnapshotSignatureCache
  | .get signature => cache.get blake3 signature
  | .insert signature snapshotId => (none, cache.insert blake3 signature snapshotId)

/-- What the call asks of a map. -/
def request : Call → Request Text Text
  | .get signature => .get (signature.cacheKey blake3)
  | .insert signature snapshotId => .put (signature.cacheKey blake3) snapshotId

/-- The keys that the calls of a run from an empty cache use. -/
def uses (capacity : Nat) (calls : List Call) : List Text :=
  Recency.uses (calls.map (request blake3))
    (Runs.outputs (perform blake3) (.withCapacity capacity) calls)

end

/-- The cache holds what the map holds, in the same order. -/
structure Mirrors {capacity : Nat} (cache : SnapshotSignatureCache) (lru : Lru Text Text capacity) :
    Prop where
  capacity : cache.capacity = capacity
  order : cache.order = lru.keys
  entries : ∀ key, cache.entries.lookup key = lru.lookup key

variable {blake3 : List UInt8 → List UInt8} {capacity : Nat} {cache : SnapshotSignatureCache}
  {lru : Lru Text Text capacity}

theorem mem_keys {entries : Table Text} {key : Text} :
    key ∈ entries.keys ↔ (entries.lookup key).isSome = true := by
  rw [← AList.mem_keys, AList.lookup_isSome]

theorem Mirrors.mem (mirrors : Mirrors cache lru) {key : Text} :
    key ∈ cache.entries ↔ key ∈ cache.order := by
  rw [AList.mem_keys, mem_keys, mirrors.entries, mirrors.order, lookup_isSome]

theorem Mirrors.nodup (mirrors : Mirrors cache lru) : cache.order.Nodup := by
  rw [mirrors.order]
  exact lru.distinct

theorem Mirrors.perm (mirrors : Mirrors cache lru) : cache.order.Perm cache.entries.keys :=
  (List.perm_ext_iff_of_nodup mirrors.nodup cache.entries.nodupKeys).mpr fun _ =>
    mirrors.mem.symm.trans AList.mem_keys

theorem Mirrors.fits (mirrors : Mirrors cache lru) : cache.order.length ≤ capacity := by
  rw [mirrors.order, Lru.keys, List.length_map]
  exact lru.bounded

/-- **Evicting.** What is over the limit goes, from the front of the order. -/
theorem evict_spec {limit : Nat} {order : List Text} {entries : Table Text} (distinct : order.Nodup)
    (same : order.Perm entries.keys) :
    (SnapshotSignatureCache.evict limit order entries).1 = order.drop (order.length - limit) ∧
      ∀ key, (SnapshotSignatureCache.evict limit order entries).2.lookup key =
        if key ∈ order.drop (order.length - limit) then entries.lookup key else none := by
  induction order generalizing entries with
  | nil =>
    rw [List.drop_nil]
    refine ⟨rfl, fun key => ?_⟩
    rw [if_neg List.not_mem_nil, ← Option.not_isSome_iff_eq_none,
      SnapshotSignatureCache.evict, ← mem_keys, ← same.mem_iff]
    exact List.not_mem_nil
  | cons oldest order ih =>
    obtain ⟨absent, later⟩ := List.nodup_cons.mp distinct
    rw [SnapshotSignatureCache.evict, ← same.length_eq]
    split
    · rename_i full
      have rest : order.Perm (entries.erase oldest).keys := by
        rw [Table.keys_erase]
        simpa using same.erase oldest
      have cut : (oldest :: order).length - limit = order.length - limit + 1 := by
        rw [List.length_cons] at full ⊢
        omega
      obtain ⟨kept, found⟩ := ih later rest
      rw [cut, List.drop_succ_cons]
      refine ⟨kept, fun key => (found key).trans ?_⟩
      split
      · rename_i inside
        have apart : key ≠ oldest := by
          rintro rfl
          exact absent ((List.drop_sublist _ _).subset inside)
        rw [Table.lookup_erase_if, if_neg apart]
      · rfl
    · rename_i room
      have none : (oldest :: order).length - limit = 0 := by omega
      rw [none, List.drop_zero]
      refine ⟨rfl, fun key => ?_⟩
      split
      · rfl
      · rename_i outside
        rw [← Option.not_isSome_iff_eq_none, ← mem_keys, ← same.mem_iff]
        exact outside

/-- A key that is found is used. -/
theorem Mirrors.markRecent (mirrors : Mirrors cache lru) {key v : Text}
    (found : lru.lookup key = some v) : Mirrors (cache.markRecent key) (lru.place key v) := by
  have there : key ∈ lru.keys := lookup_isSome.mp (by rw [found]; rfl)
  have even : (move lru.keys key).length = lru.keys.length := by
    rw [move, List.length_append, List.length_erase_of_mem there, List.length_singleton]
    have some_key := List.length_pos_of_mem there
    omega
  have fits := mirrors.fits
  rw [mirrors.order] at fits
  have kept : (lru.place key v).keys = move lru.keys key := by
    rw [place_keys, even, Nat.sub_eq_zero_of_le fits, List.drop_zero]
  refine ⟨mirrors.capacity, ?_, fun other => ?_⟩
  · rw [kept, ← mirrors.order]
    rfl
  · refine (mirrors.entries other).trans ?_
    rw [lookup_place, kept]
    split
    · split
      · rename_i same
        rw [eq_of_beq same, found]
      · rfl
    · rename_i outside
      rw [← Option.not_isSome_iff_eq_none, lookup_isSome]
      exact fun member => outside (mem_move.mpr (.inr member))

/-- A key that is given a value is used, and what is over the limit goes. -/
theorem Mirrors.insert (mirrors : Mirrors cache lru) (signature : IndexSignature)
    (snapshotId : Text) :
    Mirrors (cache.insert blake3 signature snapshotId)
      (lru.place (signature.cacheKey blake3) snapshotId) := by
  generalize keyed : signature.cacheKey blake3 = key
  have moved : cache.insert blake3 signature snapshotId = SnapshotSignatureCache.evictIfNeeded
      ⟨cache.capacity, cache.entries.insert key snapshotId, move cache.order key⟩ := by
    unfold SnapshotSignatureCache.insert
    simp only [keyed]
    split
    · rfl
    · rename_i fresh
      rw [move, List.erase_of_not_mem (fun member => fresh (mirrors.mem.mpr member))]
  have same : (move cache.order key).Perm (cache.entries.insert key snapshotId).keys := by
    rw [Table.keys_insert, move]
    exact List.perm_append_comm.trans ((mirrors.perm.erase key).cons key)
  obtain ⟨order, found⟩ := @evict_spec cache.capacity (move cache.order key)
    (cache.entries.insert key snapshotId) (move_nodup mirrors.nodup key) same
  have kept : (lru.place key snapshotId).keys = (move cache.order key).drop
      ((move cache.order key).length - cache.capacity) := by
    rw [place_keys, mirrors.order, mirrors.capacity]
  rw [moved, SnapshotSignatureCache.evictIfNeeded]
  refine ⟨mirrors.capacity, order.trans kept.symm, fun other => (found other).trans ?_⟩
  rw [lookup_place, kept]
  split
  · simp only [Table.lookup_insert_if, mirrors.entries, beq_iff_eq]
  · rfl

/-- **One call** is answered as the map answers it. -/
theorem perform_mirrors (mirrors : Mirrors cache lru) (call : Call) :
    (perform blake3 cache call).1 = (Recency.perform lru (request blake3 call)).1 ∧
      Mirrors (perform blake3 cache call).2 (Recency.perform lru (request blake3 call)).2 := by
  cases call with
  | get signature =>
    unfold perform request Recency.perform SnapshotSignatureCache.get
    dsimp only
    rw [mirrors.entries]
    cases found : lru.lookup (signature.cacheKey blake3) with
    | none => exact ⟨rfl, mirrors⟩
    | some v => exact ⟨rfl, mirrors.markRecent found⟩
  | insert signature snapshotId => exact ⟨rfl, mirrors.insert signature snapshotId⟩

theorem withCapacity_mirrors (capacity : Nat) : Mirrors
    (SnapshotSignatureCache.withCapacity capacity) (Lru.empty Text Text (max capacity 1)) :=
  ⟨rfl, rfl, fun _ => rfl⟩

theorem run_mirrors (mirrors : Mirrors cache lru) (calls : List Call) :
    Runs.outputs (perform blake3) cache calls =
        Runs.outputs Recency.perform lru (calls.map (request blake3)) ∧
      Mirrors (Runs.final (perform blake3) cache calls)
        (Runs.final Recency.perform lru (calls.map (request blake3))) := by
  induction calls generalizing cache lru with
  | nil => exact ⟨rfl, mirrors⟩
  | cons call calls ih =>
    obtain ⟨answer, next⟩ := @perform_mirrors blake3 _ _ _ mirrors call
    obtain ⟨answers, last⟩ := ih next
    rw [Runs.outputs, List.map_cons, Runs.outputs, answer, answers]
    exact ⟨rfl, last⟩

/-- **The cache keeps what was used last.** After every run of calls its order lists the stored
keys once, no more of them than it may hold; the run was answered as by a map that drops the
entry used longest ago; and what an insertion evicts was used before all else that is stored. -/
theorem signature_cache_lru (blake3 : List UInt8 → List UInt8) (capacity : Nat)
    (calls : List Call) :
    let cache := Runs.final (perform blake3) (.withCapacity capacity) calls
    (cache.order.Nodup ∧ cache.order.Perm cache.entries.keys) ∧
      cache.entries.keys.length ≤ max capacity 1 ∧
      Runs.outputs (perform blake3) (.withCapacity capacity) calls =
        Runs.outputs Recency.perform (Lru.empty Text Text (max capacity 1))
          (calls.map (request blake3)) ∧
      ∀ signature snapshotId, ∀ evicted ∈ cache.entries,
        evicted ∉ (cache.insert blake3 signature snapshotId).entries →
          ∀ other ∈ cache.entries, other ≠ evicted →
            UsedSince (uses blake3 capacity calls) evicted other := by
  obtain ⟨answers, mirrors⟩ := @run_mirrors blake3 _ _ _ (withCapacity_mirrors capacity) calls
  have fits := mirrors.fits
  rw [mirrors.perm.length_eq] at fits
  refine ⟨⟨mirrors.nodup, mirrors.perm⟩, fits, answers, ?_⟩
  intro signature snapshotId evicted there gone other stored apart
  have suffix := keys_suffix (V := Text) (max capacity 1) (calls.map (request blake3))
  rw [← answers] at suffix
  rw [mirrors.mem, mirrors.order] at there stored
  have inserted := @Mirrors.insert blake3 _ _ _ mirrors signature snapshotId
  rw [inserted.mem, inserted.order] at gone
  exact dropped_first suffix there gone other stored apart

end SignatureCache

end Devit
