import Mathlib.Data.Finset.Card
import Mathlib.Data.List.AList
import Devit.Errors
import Devit.Library.Json
import Devit.Library.Runs

/-! The core engine's journal, which is held in memory. An append under a key that was
used before stores nothing: it is answered like the first one. So the entries, the index
of the keys and the answers are at every time what the first calls made of them. -/
namespace Devit
open Text

abbrev Uuid := BitVec 128

namespace CoreJournal

/-! ## Request identifiers -/

/-- `REQUEST_TRACKER`, which the whole process shares. -/
abbrev RequestTracker := AList fun _ : Uuid => Uuid

/-- `request_id::resolve`; `newV4` is the identifier that is generated if one is needed. -/
def resolve (newV4 : Uuid) (idempotencyKey : Option Uuid) (tracker : RequestTracker) :
    Uuid × RequestTracker :=
  match idempotencyKey with
  | some key =>
    match tracker.lookup key with
    | some known => (known, tracker)
    | none => (newV4, tracker.insert key newV4)
  | none => (newV4, tracker)

/-! ## The journal -/

structure JournalResponse where
  hmac : Text
  offset : Nat
  file : PathBuf
  requestId : Uuid
  deriving DecidableEq

/-- Offsets are `u64`, which the length of a `VecDeque` always fits. -/
structure Journal where
  path : PathBuf
  secret : List UInt8
  entries : List Json
  idempotency : AList fun _ : Uuid => Nat × Uuid

/-- `Journal::new`. -/
def Journal.new (path : PathBuf) (secret : List UInt8) : Journal := ⟨path, secret, [], ∅⟩

/-- `format!("{:016x}", n)`. -/
def hex16 (n : UInt64) : Text :=
  (List.range 16).map fun i => Json.hexDigit (n.toNat / 16 ^ (15 - i) % 16)

/-- What `append` is called with, and what it finds in the tracker. -/
structure Call where
  entry : Json
  idempotencyKey : Option Uuid
  newV4 : Uuid
  tracker : RequestTracker

section
-- `DefaultHasher` over the text of an entry and then the secret.
variable (hasher : Text → List UInt8 → UInt64)

def Journal.computeHmac (journal : Journal) (entry : Json) : Text :=
  hex16 (hasher entry.render journal.secret)

/-- Storing an entry behind the others. -/
def Journal.store (journal : Journal) (call : Call) (requestId : Uuid) :
    JournalResponse × Journal :=
  let offset := journal.entries.length
  (⟨journal.computeHmac hasher call.entry, offset, journal.path, requestId⟩,
    { journal with
      entries := journal.entries ++ [call.entry]
      idempotency :=
        match call.idempotencyKey with
        | some key => journal.idempotency.insert key (offset, requestId)
        | none => journal.idempotency })

/-- `append`. -/
def Journal.append (journal : Journal) (call : Call) : DevItResult JournalResponse × Journal :=
  let requestId := (resolve call.newV4 call.idempotencyKey call.tracker).1
  match call.idempotencyKey.bind journal.idempotency.lookup with
  | some (offset, storedRequestId) =>
    match journal.entries[offset]? with
    | some existing =>
      (.ok ⟨journal.computeHmac hasher existing, offset, journal.path, storedRequestId⟩, journal)
    | none =>
      (.error (.internal "journal".toList "idempotency offset missing".toList), journal)
  | none =>
    let (response, journal') := journal.store hasher call requestId
    (.ok response, journal')

/-- The journal after some calls. -/
def Journal.after (journal : Journal) (calls : List Call) : Journal :=
  Runs.final (Journal.append hasher) journal calls

/-- What some calls are answered. -/
def Journal.answers (journal : Journal) (calls : List Call) : List (DevItResult JournalResponse) :=
  Runs.outputs (Journal.append hasher) journal calls

end

/-! ## First calls -/

/-- The keys that are used. -/
def keysOf (calls : List Call) : List Uuid := calls.filterMap (·.idempotencyKey)

/-- Where a key is used first. -/
def firstUse (key : Uuid) (calls : List Call) : Nat :=
  calls.findIdx fun call => decide (call.idempotencyKey = some key)

theorem mem_keysOf {key : Uuid} {calls : List Call} :
    key ∈ keysOf calls ↔ ∃ call ∈ calls, call.idempotencyKey = some key := List.mem_filterMap

theorem firstUse_lt {key : Uuid} {calls : List Call} (used : key ∈ keysOf calls) :
    firstUse key calls < calls.length := by
  obtain ⟨call, member, named⟩ := mem_keysOf.mp used
  exact List.findIdx_lt_length_of_exists ⟨call, member, by simp [named]⟩

/-- A later call does not change where a key is used first. -/
theorem firstUse_concat {key : Uuid} {calls : List Call} (used : key ∈ keysOf calls) (call : Call) :
    firstUse key (calls ++ [call]) = firstUse key calls := by
  have before := firstUse_lt used
  unfold firstUse at before ⊢
  rw [List.findIdx_append, if_pos before]

theorem firstUse_new {key : Uuid} {calls : List Call} {call : Call} (unused : key ∉ keysOf calls)
    (named : call.idempotencyKey = some key) : firstUse key (calls ++ [call]) = calls.length := by
  have all_others : firstUse key calls = calls.length := by
    refine List.findIdx_eq_length.mpr fun other member => ?_
    rw [decide_eq_false_iff_not]
    exact fun same => unused (mem_keysOf.mpr ⟨other, member, same⟩)
  unfold firstUse at all_others ⊢
  rw [List.findIdx_append, all_others, if_neg (Nat.lt_irrefl _)]
  simp [named]

theorem keysOf_concat (calls : List Call) (call : Call) :
    keysOf (calls ++ [call]) = keysOf calls ++ call.idempotencyKey.toList := by
  rw [keysOf, keysOf, List.filterMap_append]
  cases named : call.idempotencyKey <;> simp [named]

/-! ## Idempotence -/

variable {hasher : Text → List UInt8 → UInt64} {path : PathBuf} {secret : List UInt8}

theorem append_new {journal : Journal} {call : Call}
    (new : call.idempotencyKey.bind journal.idempotency.lookup = none) :
    journal.append hasher call =
      (.ok (journal.store hasher call (resolve call.newV4 call.idempotencyKey call.tracker).1).1,
        (journal.store hasher call (resolve call.newV4 call.idempotencyKey call.tracker).1).2) := by
  simp only [Journal.append, new]

theorem append_known {journal : Journal} {call : Call} {offset : Nat} {requestId : Uuid}
    {existing : Json}
    (known : call.idempotencyKey.bind journal.idempotency.lookup = some (offset, requestId))
    (there : journal.entries[offset]? = some existing) :
    journal.append hasher call =
      (.ok ⟨journal.computeHmac hasher existing, offset, journal.path, requestId⟩, journal) := by
  simp only [Journal.append, known, there]

/-- What is known of a journal and its answers after some calls. -/
structure Idempotent (hasher : Text → List UInt8 → UInt64) (path : PathBuf) (secret : List UInt8)
    (calls : List Call) (journal : Journal) (answers : List (DevItResult JournalResponse)) :
    Prop where
  /-- An entry for each call without a key, and for each key. -/
  stored : journal.entries.length =
    calls.countP (·.idempotencyKey.isNone) + (keysOf calls).toFinset.card
  /-- The index holds the keys that were used. -/
  indexed : ∀ key, (journal.idempotency.lookup key).isSome = true ↔ key ∈ keysOf calls
  /-- An offset is where the entry of the first call with its key is. -/
  pointed : ∀ key offset requestId, journal.idempotency.lookup key = some (offset, requestId) →
    ∃ first, calls[firstUse key calls]? = some first ∧
      journal.entries[offset]? = some first.entry ∧
      answers[firstUse key calls]? =
        some (.ok ⟨hex16 (hasher first.entry.render secret), offset, path, requestId⟩)
  /-- A call is answered like the first one with its key. -/
  repeated : ∀ (i : Nat) (call : Call) key, calls[i]? = some call → call.idempotencyKey = some key →
    answers[i]? = answers[firstUse key calls]?
  /-- Every call is answered. -/
  answered : ∀ answer ∈ answers, ∃ response, answer = .ok response
  owned : journal.path = path ∧ journal.secret = secret

theorem idempotent_new : Idempotent hasher path secret [] (Journal.new path secret) [] where
  stored := rfl
  indexed := fun key => by simp [Journal.new, keysOf]
  pointed := fun key offset requestId found => by simp [Journal.new] at found
  repeated := fun i call key at_i => by simp at at_i
  answered := nofun
  owned := ⟨rfl, rfl⟩

section
variable {calls : List Call} {journal : Journal} {answers : List (DevItResult JournalResponse)}
  {call : Call}

/-- Calls that were answered are answered as before. -/
theorem answer_before {answer : DevItResult JournalResponse} {i : Nat}
    (same_length : answers.length = calls.length) (before : i < calls.length) :
    (answers ++ [answer])[i]? = answers[i]? :=
  List.getElem?_append_left (by rw [same_length]; exact before)

theorem Idempotent.used (held : Idempotent hasher path secret calls journal answers) {key : Uuid}
    {at_key : Nat × Uuid} (found : journal.idempotency.lookup key = some at_key) :
    key ∈ keysOf calls := (held.indexed key).mp (by rw [found]; rfl)

/-- An offset in the index stays right when more is stored. -/
theorem Idempotent.point (held : Idempotent hasher path secret calls journal answers)
    (same_length : answers.length = calls.length) {key requestId : Uuid} {offset : Nat}
    (found : journal.idempotency.lookup key = some (offset, requestId)) (call : Call)
    (answer : DevItResult JournalResponse) (more : List Json) :
    ∃ first, (calls ++ [call])[firstUse key (calls ++ [call])]? = some first ∧
      (journal.entries ++ more)[offset]? = some first.entry ∧
      (answers ++ [answer])[firstUse key (calls ++ [call])]? =
        some (.ok ⟨hex16 (hasher first.entry.render secret), offset, path, requestId⟩) := by
  obtain ⟨first, in_calls, in_entries, answered⟩ := held.pointed key offset requestId found
  have before := firstUse_lt (held.used found)
  refine ⟨first, ?_, ?_, ?_⟩
  · rw [firstUse_concat (held.used found), List.getElem?_append_left before]
    exact in_calls
  · exact List.getElem?_append_left (List.getElem?_eq_some_iff.mp in_entries).1 ▸ in_entries
  · rw [firstUse_concat (held.used found), answer_before same_length before]
    exact answered

/-- An earlier call is still answered like the first one with its key. -/
theorem Idempotent.repeat_before (held : Idempotent hasher path secret calls journal answers)
    (same_length : answers.length = calls.length) {i : Nat} {earlier : Call} {key : Uuid}
    (at_i : calls[i]? = some earlier) (named : earlier.idempotencyKey = some key) (call : Call)
    (answer : DevItResult JournalResponse) :
    (answers ++ [answer])[i]? = (answers ++ [answer])[firstUse key (calls ++ [call])]? := by
  have used : key ∈ keysOf calls :=
    mem_keysOf.mpr ⟨earlier, List.mem_of_getElem? at_i, named⟩
  rw [answer_before same_length (List.getElem?_eq_some_iff.mp at_i).1, firstUse_concat used,
    answer_before same_length (firstUse_lt used)]
  exact held.repeated i earlier key at_i named

/-- A call is one of the earlier ones, or the last. -/
theorem getElem?_concat_cases {i : Nat} {other : Call} (at_i : (calls ++ [call])[i]? = some other) :
    calls[i]? = some other ∨ i = calls.length ∧ other = call := by
  rcases Nat.lt_or_ge i calls.length with before | after
  · rw [List.getElem?_append_left before] at at_i
    exact .inl at_i
  · rw [List.getElem?_append_right after] at at_i
    obtain ⟨only, same⟩ := List.getElem?_eq_some_iff.mp at_i
    simp only [List.length_singleton, Nat.lt_one_iff] at only
    simp only [only, List.getElem_cons_zero] at same
    exact .inr ⟨by omega, same.symm⟩

/-- A call with a new key, or with none, is stored. -/
theorem Idempotent.store (held : Idempotent hasher path secret calls journal answers)
    (same_length : answers.length = calls.length)
    (new : call.idempotencyKey.bind journal.idempotency.lookup = none) (requestId : Uuid) :
    Idempotent hasher path secret (calls ++ [call]) (journal.store hasher call requestId).2
      (answers ++ [.ok (journal.store hasher call requestId).1]) := by
  have unused : ∀ key, call.idempotencyKey = some key → key ∉ keysOf calls := by
    intro key named used
    rw [← held.indexed, Option.isSome_iff_exists] at used
    obtain ⟨at_key, found⟩ := used
    rw [named, Option.bind_some, found] at new
    cases new
  have last : (answers ++ [.ok (journal.store hasher call requestId).1])[calls.length]? =
      some (.ok (journal.store hasher call requestId).1) := by
    rw [← same_length, List.getElem?_concat_length]
  refine ⟨?_, ?_, ?_, ?_, ?_, held.owned⟩
  · rw [Journal.store, List.length_append, List.length_singleton, held.stored, keysOf_concat,
      List.countP_append, List.countP_singleton]
    cases named : call.idempotencyKey with
    | none =>
      simp only [Option.isNone_none, if_true, Option.toList_none, List.append_nil]
      omega
    | some key =>
      have fresh : key ∉ (keysOf calls).toFinset := by
        rw [List.mem_toFinset]
        exact unused key named
      simp only [Option.isNone_some, Bool.false_eq_true, if_false, Option.toList_some,
        List.toFinset_append, List.toFinset_cons, List.toFinset_nil, insert_empty_eq]
      rw [Finset.union_comm, ← Finset.insert_eq, Finset.card_insert_of_notMem fresh]
      omega
  · intro key
    rw [Journal.store, keysOf_concat, List.mem_append, Option.mem_toList]
    cases named : call.idempotencyKey with
    | none => simpa using held.indexed key
    | some own =>
      by_cases same : key = own
      · subst same
        simp only [AList.lookup_insert, Option.isSome_some, or_true]
      · simp [AList.lookup_insert_ne same, held.indexed, Ne.symm same]
  · intro key offset stored found
    have indexed : journal.idempotency.lookup key = some (offset, stored) ∨
        call.idempotencyKey = some key ∧ offset = journal.entries.length ∧ stored = requestId := by
      rw [Journal.store] at found
      cases named : call.idempotencyKey with
      | none =>
        simp only [named] at found
        exact .inl found
      | some own =>
        simp only [named] at found
        by_cases same : key = own
        · rw [same, AList.lookup_insert] at found
          cases found
          exact .inr ⟨by rw [same], rfl, rfl⟩
        · rw [AList.lookup_insert_ne same] at found
          exact .inl found
    rcases indexed with before | ⟨named, rfl, rfl⟩
    · exact held.point same_length before call _ _
    · rw [firstUse_new (unused key named) named]
      refine ⟨call, List.getElem?_concat_length, List.getElem?_concat_length, last.trans ?_⟩
      rw [Journal.store, Journal.computeHmac, held.owned.1, held.owned.2]
  · intro i other key at_i named
    rcases getElem?_concat_cases at_i with before | ⟨rfl, rfl⟩
    · exact held.repeat_before same_length before named call _
    · rw [firstUse_new (unused key named) named]
  · intro answer member
    rcases List.mem_append.mp member with before | here
    · exact held.answered answer before
    · exact ⟨_, List.mem_singleton.mp here⟩

/-- A call with a key that was used stores nothing and is answered like the first one. -/
theorem Idempotent.repeat (held : Idempotent hasher path secret calls journal answers)
    (same_length : answers.length = calls.length) {key requestId : Uuid} {offset : Nat}
    {first : Call} (named : call.idempotencyKey = some key)
    (found : journal.idempotency.lookup key = some (offset, requestId))
    (answered : answers[firstUse key calls]? =
      some (.ok ⟨hex16 (hasher first.entry.render secret), offset, path, requestId⟩)) :
    Idempotent hasher path secret (calls ++ [call]) journal (answers ++
      [.ok ⟨hex16 (hasher first.entry.render secret), offset, path, requestId⟩]) := by
  have used : key ∈ keysOf calls := held.used found
  have same_keys : ∀ k, k ∈ keysOf (calls ++ [call]) ↔ k ∈ keysOf calls := by
    intro k
    rw [keysOf_concat, List.mem_append, Option.mem_toList, named]
    refine ⟨fun either => either.elim id ?_, .inl⟩
    rintro ⟨⟩
    exact used
  refine ⟨?_, ?_, ?_, ?_, ?_, held.owned⟩
  · rw [held.stored, List.countP_append, List.countP_singleton, named]
    have same_set : (keysOf (calls ++ [call])).toFinset = (keysOf calls).toFinset :=
      Finset.ext fun k => by rw [List.mem_toFinset, List.mem_toFinset, same_keys]
    rw [same_set]
    rfl
  · intro k
    rw [held.indexed, same_keys]
  · intro k other stored at_key
    have point := held.point same_length at_key call
      (.ok ⟨hex16 (hasher first.entry.render secret), offset, path, requestId⟩) []
    rwa [List.append_nil] at point
  · intro i other k at_i its
    rcases getElem?_concat_cases at_i with before | ⟨rfl, rfl⟩
    · exact held.repeat_before same_length before its call _
    · rw [named] at its
      cases its
      rw [firstUse_concat used, answer_before same_length (firstUse_lt used), answered,
        ← same_length, List.getElem?_concat_length]
  · intro answer member
    rcases List.mem_append.mp member with before | here
    · exact held.answered answer before
    · exact ⟨_, List.mem_singleton.mp here⟩

/-- One more call. -/
theorem Idempotent.append (held : Idempotent hasher path secret calls journal answers)
    (same_length : answers.length = calls.length) (call : Call) :
    Idempotent hasher path secret (calls ++ [call]) (journal.append hasher call).2
      (answers ++ [(journal.append hasher call).1]) := by
  cases known : call.idempotencyKey.bind journal.idempotency.lookup with
  | none =>
    rw [append_new known]
    exact held.store same_length known _
  | some at_key =>
    obtain ⟨offset, requestId⟩ := at_key
    obtain ⟨key, named, found⟩ := Option.bind_eq_some_iff.mp known
    obtain ⟨first, -, in_entries, answered⟩ := held.pointed key offset requestId found
    rw [append_known known in_entries, Journal.computeHmac, held.owned.1, held.owned.2]
    exact held.repeat same_length named found answered

end

/-- **Idempotence.** After any calls on a new journal, there is an entry for each call
without a key and for each key, a repeated key is answered like its first use, and the
offset of a key is where the entry of its first use is. -/
theorem append_idempotent (hasher : Text → List UInt8 → UInt64) (path : PathBuf)
    (secret : List UInt8) (calls : List Call) :
    Idempotent hasher path secret calls ((Journal.new path secret).after hasher calls)
      ((Journal.new path secret).answers hasher calls) := by
  induction calls using List.reverseRecOn with
  | nil => exact idempotent_new
  | append_singleton calls call ih =>
    rw [Journal.after, Journal.answers, Runs.final_concat, Runs.outputs_concat]
    exact ih.append (Runs.outputs_length _ _) call

end CoreJournal

end Devit
