import Devit.Errors
import Mathlib.Data.List.Nodup

/-! The answers kept for idempotency keys. Keys are the bare texts the caller
gives, and an entry is as good as gone once its time to live has passed. -/
namespace Devit

/-- An answer kept for a key. Times are nanoseconds of a clock that never goes
back. -/
structure IdempotencyEntry where
  response : Text
  createdAt : Nat
  ttl : Nat
  deriving DecidableEq, Repr

/-- The entries of the map, at most one for a key. -/
structure IdempotencyCache where
  entries : List (Text × IdempotencyEntry)
  distinct : (entries.map Prod.fst).Nodup

namespace IdempotencyCache

instance : DecidableEq IdempotencyCache := fun a b =>
  decidable_of_iff (a.entries = b.entries)
    ⟨fun same => by cases a; cases b; cases same; rfl, fun same => by rw [same]⟩

def isExpired (now : Nat) (entry : IdempotencyEntry) : Bool :=
  now - entry.createdAt > entry.ttl

/-- `IdempotencyCache::new`. -/
def empty : IdempotencyCache := ⟨[], List.nodup_nil⟩

/-- The cache with the entries of some keys dropped. -/
def retain (cache : IdempotencyCache) (keep : Text × IdempotencyEntry → Bool) : IdempotencyCache where
  entries := cache.entries.filter keep
  distinct := cache.distinct.sublist (List.filter_sublist.map Prod.fst)

/-- The entry of a key. -/
def find (cache : IdempotencyCache) (key : Text) : Option IdempotencyEntry :=
  (cache.entries.find? (·.1 == key)).map Prod.snd

/-- `cleanup_expired`. -/
def cleanupExpired (cache : IdempotencyCache) (now : Nat) : IdempotencyCache :=
  cache.retain fun pair => !isExpired now pair.2

/-- `get`: an entry that has expired is removed. -/
def get (cache : IdempotencyCache) (now : Nat) (key : Text) :
    Option IdempotencyEntry × IdempotencyCache :=
  match cache.find key with
  | none => (none, cache)
  | some entry =>
    if isExpired now entry then (none, cache.retain (·.1 != key)) else (some entry, cache)

def insert (cache : IdempotencyCache) (now : Nat) (key response : Text) (ttl : Nat) :
    IdempotencyCache where
  entries := (key, ⟨response, now, ttl⟩) :: cache.entries.filter (·.1 != key)
  distinct := by
    refine List.nodup_cons.mpr ⟨fun member => ?_, (cache.retain (·.1 != key)).distinct⟩
    obtain ⟨pair, kept, same⟩ := List.mem_map.mp member
    simp [same] at kept

/-! ## What is found -/

variable {cache : IdempotencyCache} {key : Text} {entry : IdempotencyEntry}

theorem find_iff : cache.find key = some entry ↔ (key, entry) ∈ cache.entries := by
  unfold find
  rw [Option.map_eq_some_iff]
  constructor
  · rintro ⟨⟨other, _⟩, found, rfl⟩
    have same := List.find?_some found
    rw [beq_iff_eq] at same
    subst same
    exact List.mem_of_find?_eq_some found
  · intro member
    refine ⟨(key, entry), ?_, rfl⟩
    obtain ⟨pair, found⟩ : ∃ pair, cache.entries.find? (·.1 == key) = some pair := by
      rw [← Option.isSome_iff_exists, List.find?_isSome]
      exact ⟨_, member, beq_self_eq_true key⟩
    have same := List.find?_some found
    rw [beq_iff_eq] at same
    have listed := List.mem_of_find?_eq_some found
    have equal : pair = (key, entry) :=
      List.inj_on_of_nodup_map cache.distinct listed member same
    rw [found, equal]

theorem find_insert (now : Nat) (other response : Text) (ttl : Nat) :
    (cache.insert now key response ttl).find other =
      if other = key then some ⟨response, now, ttl⟩ else cache.find other := by
  by_cases same : other = key
  · subst same
    simp [find, insert]
  · have apart : (key == other) = false := by simpa using Ne.symm same
    simp only [find, insert, List.find?_cons, apart, same, if_false]
    congr 1
    rw [List.find?_filter]
    refine congrArg (fun p => cache.entries.find? p) (funext fun pair => ?_)
    by_cases here : pair.1 = other
    · simp [here, same]
    · simp [here]

theorem find_cleanup (now : Nat) :
    (cache.cleanupExpired now).find key = some entry ↔
      cache.find key = some entry ∧ isExpired now entry = false := by
  rw [find_iff, find_iff]
  simp [cleanupExpired, retain]

/-- After a clean-up an entry that is found has not expired. -/
theorem get_cleanup (now : Nat) :
    (cache.cleanupExpired now).get now key =
      ((cache.cleanupExpired now).find key, cache.cleanupExpired now) := by
  unfold get
  cases found : (cache.cleanupExpired now).find key with
  | none => rfl
  | some entry => simp [((find_cleanup now).mp found).2]

end IdempotencyCache

end Devit
