import Devit.Library.Memo
import Devit.Library.Runs
import Devit.SnapshotIds

/-! Whether the cache of snapshot identifiers can be seen. It is asked under a key made
of the commit and of a summary of the status; an identifier also covers the submodules
and is only made where there is no conflict. The answers are those of the identifier
itself exactly for states that never share a key without sharing the identifier. -/
namespace Devit
open Text Path FileSystem

namespace IdCache
open SnapshotIds

/-- A call with the cache: for the identifier of a state, or to check one. -/
inductive Call where
  | get (gitState : GitState)
  | validate (snapshotId : Text) (repoPath : PathBuf) (d : Disk) (affectedPaths : List PathBuf)
      (gitState : GitState)

def Call.gitState : Call → GitState
  | .get gitState => gitState
  | .validate _ _ _ _ gitState => gitState

inductive Answer where
  | snapshotId (result : DevItResult Text)
  | valid (result : DevItResult Bool)

section
variable (blake3 : List UInt8 → List UInt8) (git : GitCommands)

def call (cache : SnapshotSignatureCache) : Call → Answer × SnapshotSignatureCache
  | .get gitState =>
    let (result, cache) := snapshotGetIn blake3 gitState cache
    (.snapshotId result, cache)
  | .validate snapshotId repoPath d affectedPaths gitState =>
    let (result, cache) :=
      snapshotValidateIn blake3 git snapshotId repoPath d affectedPaths gitState cache
    (.valid result, cache)

/-- In a run from an empty cache every identifier is the one of its state. -/
def Transparent (capacity : Nat) (calls : List Call) : Prop :=
  ∀ done gitState rest, calls = done ++ .get gitState :: rest →
    (snapshotGetIn blake3 gitState
      (Runs.final (call blake3 git) (.withCapacity capacity) done)).1 =
        generateSnapshotIdFromGit blake3 gitState

/-- The hash tells the texts of these states apart. -/
structure Separates (states : GitState → Prop) : Prop where
  signatures : ∀ g g', states g → states g' →
    (signatureOf g).digest blake3 = (signatureOf g').digest blake3 →
    (signatureOf g).headSha.getD [] ++ (signatureOf g).summary =
      (signatureOf g').headSha.getD [] ++ (signatureOf g').summary
  identifiers : ∀ g g', states g → states g' →
    hashText blake3 16 (stateBytes g) = hashText blake3 16 (stateBytes g') →
    stateBytes g = stateBytes g'

end

/-- The states have one cache key, as far as texts are told apart. -/
def SameKey (g g' : GitState) : Prop :=
  (signatureOf g).headComponent = (signatureOf g').headComponent ∧
    (signatureOf g).headSha.getD [] ++ (signatureOf g).summary =
      (signatureOf g').headSha.getD [] ++ (signatureOf g').summary

/-- A state with the key of another that has no conflict has no conflict either, and
the same is hashed for its identifier. -/
def Agrees (g g' : GitState) : Prop :=
  g.inConflict = false → SameKey g g' → g'.inConflict = false ∧ stateBytes g' = stateBytes g

variable {blake3 : List UInt8 → List UInt8} {git : GitCommands} {cache : SnapshotSignatureCache}
  {signature : IndexSignature} {g g' : GitState}

/-! ## The cache -/

theorem evict_lookup {capacity : Nat} {order : List Text} {entries : Table Text} {k v : Text}
    (there : (SnapshotSignatureCache.evict capacity order entries).2.lookup k = some v) :
    entries.lookup k = some v := by
  induction order generalizing entries with
  | nil => exact there
  | cons oldest order ih =>
    rw [SnapshotSignatureCache.evict] at there
    split at there
    · have kept := ih there
      rw [Table.lookup_erase_if] at kept
      split at kept
      · cases kept
      · exact kept
    · exact there

theorem get_answer : (cache.get blake3 signature).1 = cache.entries.lookup (signature.cacheKey blake3) := by
  unfold SnapshotSignatureCache.get
  dsimp only
  split <;> rename_i there <;> rw [there]

theorem get_entries : (cache.get blake3 signature).2.entries = cache.entries := by
  unfold SnapshotSignatureCache.get
  dsimp only
  split <;> rfl

theorem insert_lookup {snapshotId k v : Text}
    (there : (cache.insert blake3 signature snapshotId).entries.lookup k = some v) :
    k = signature.cacheKey blake3 ∧ v = snapshotId ∨ cache.entries.lookup k = some v := by
  have kept : (cache.entries.insert (signature.cacheKey blake3) snapshotId).lookup k = some v := by
    unfold SnapshotSignatureCache.insert SnapshotSignatureCache.evictIfNeeded at there
    dsimp only at there
    split at there <;> exact evict_lookup there
  rw [Table.lookup_insert_if] at kept
  split at kept
  · rename_i same
    exact .inl ⟨same, (Option.some.inj kept).symm⟩
  · exact .inr kept

/-- The first identifier is kept. -/
theorem insert_first (capacity : Nat) (snapshotId : Text) :
    ((SnapshotSignatureCache.withCapacity capacity).insert blake3 signature snapshotId).entries.lookup
      (signature.cacheKey blake3) = some snapshotId := by
  have alone : ((∅ : Table Text).insert (signature.cacheKey blake3) snapshotId).keys.length = 1 := rfl
  have room : ¬ max capacity 1 < 1 := by omega
  have fresh : signature.cacheKey blake3 ∉ (∅ : Table Text) := by simp
  unfold SnapshotSignatureCache.insert SnapshotSignatureCache.evictIfNeeded
  simp only [SnapshotSignatureCache.withCapacity, fresh, ↓reduceIte, List.nil_append,
    SnapshotSignatureCache.evict, alone, room]
  rw [Table.lookup_insert_if, if_pos rfl]

/-! ## What is remembered -/

/-- The key under which the identifier of a state is kept. -/
def stateKey (blake3 : List UInt8 → List UInt8) (gitState : GitState) : Text :=
  (signatureOf gitState).cacheKey blake3

/-- The cache holds identifiers of these states. -/
def Knows (blake3 : List UInt8 → List UInt8) (states : GitState → Prop)
    (cache : SnapshotSignatureCache) : Prop :=
  Memo.Learned (stateKey blake3) (generateSnapshotIdFromGit blake3) states
    fun k => cache.entries.lookup k

variable {states : GitState → Prop}

theorem snapshotGetIn_answer : (snapshotGetIn blake3 g cache).1 =
    Memo.consult (stateKey blake3) (generateSnapshotIdFromGit blake3)
      (fun k => cache.entries.lookup k) g := by
  have answer := @get_answer blake3 cache (signatureOf g)
  unfold snapshotGetIn Memo.consult stateKey
  dsimp only
  rw [← answer]
  cases (cache.get blake3 (signatureOf g)) with
  | mk entry mid =>
    cases entry with
    | some snapshotId => rfl
    | none =>
      dsimp only
      cases generateSnapshotIdFromGit blake3 g <;> rfl

theorem Knows.insert {snapshotId : Text} (knows : Knows blake3 states cache) (here : states g)
    (made : generateSnapshotIdFromGit blake3 g = .ok snapshotId) :
    Knows blake3 states (cache.insert blake3 (signatureOf g) snapshotId) :=
  Memo.Learned.learn knows here made fun _ _ there => insert_lookup there

theorem Knows.get (knows : Knows blake3 states cache) :
    Knows blake3 states (cache.get blake3 signature).2 := by
  unfold Knows
  rw [get_entries]
  exact knows

/-- **One call.** It adds the identifier of its state, if it adds one. -/
theorem call_knows (c : Call) (here : states c.gitState) (knows : Knows blake3 states cache) :
    Knows blake3 states (call blake3 git cache c).2 := by
  cases c with
  | get gitState =>
    have known := @Knows.get blake3 cache (signatureOf gitState) states knows
    unfold call snapshotGetIn
    dsimp only
    cases found : cache.get blake3 (signatureOf gitState) with
    | mk entry mid =>
      rw [found] at known
      cases entry with
      | some snapshotId => exact known
      | none =>
        cases made : generateSnapshotIdFromGit blake3 gitState with
        | error e => exact known
        | ok snapshotId => exact known.insert here made
  | validate snapshotId repoPath d affectedPaths gitState =>
    have known := @Knows.get blake3 cache (signatureOf gitState) states knows
    unfold call snapshotValidateIn
    dsimp only
    split
    · exact knows
    · cases found : cache.get blake3 (signatureOf gitState) with
      | mk entry mid =>
        rw [found] at known
        dsimp only
        split
        · exact known
        · cases made : generateSnapshotIdFromGit blake3 gitState with
          | error e => exact known
          | ok expectedId =>
            dsimp only
            split
            · exact known.insert here made
            · exact known

theorem run_knows (capacity : Nat) {calls : List Call} (all : ∀ c ∈ calls, states c.gitState) :
    Knows blake3 states
      (Runs.final (call blake3 git) (.withCapacity capacity) calls) := by
  refine Runs.invariant_along (fun cache c knows here => call_knows c here knows) ?_
    (fun done c rest shape => all c (by rw [shape]; simp))
  intro k v there
  cases there

/-! ## Keys and identifiers -/

theorem hexEncode_plain (bytes : List UInt8) : ':' ∉ hexEncode bytes := by
  have digit : ∀ n < 16, Json.hexDigit n ≠ ':' := by decide
  intro inside
  obtain ⟨b, -, shown⟩ := List.mem_flatMap.mp inside
  have small : b.toNat / 16 < 16 := by have := b.toNat_lt; omega
  have rest : b.toNat % 16 < 16 := Nat.mod_lt _ (by decide)
  rcases List.mem_cons.mp shown with first | second
  · exact digit _ small first.symm
  · exact digit _ rest (List.mem_singleton.mp second).symm

/-- A text is cut at its last colon in one way only. -/
theorem cut_last {s s' t t' : Text} (plain : ':' ∉ t) (plain' : ':' ∉ t')
    (same : s ++ ':' :: t = s' ++ ':' :: t') : s = s' ∧ t = t' := by
  have flipped := congrArg (splitFirst ':' ∘ List.reverse) same
  simp only [Function.comp_apply, List.reverse_append, List.reverse_cons, List.append_assoc,
    List.singleton_append] at flipped
  rw [splitFirst_append _ (by simpa using plain), splitFirst_append _ (by simpa using plain')] at flipped
  simp only [Option.some.injEq, Prod.mk.injEq, List.reverse_inj] at flipped
  exact ⟨flipped.2, flipped.1⟩

theorem textBytes_append (s t : Text) : textBytes (s ++ t) = textBytes s ++ textBytes t :=
  List.flatMap_append

theorem stateKey_eq_iff (separates : Separates blake3 states) (here : states g) (here' : states g') :
    stateKey blake3 g = stateKey blake3 g' ↔ SameKey g g' := by
  constructor
  · intro same
    obtain ⟨heads, digests⟩ := cut_last (hexEncode_plain _) (hexEncode_plain _) same
    exact ⟨heads, separates.signatures g g' here here' digests⟩
  · rintro ⟨heads, texts⟩
    have digests : (signatureOf g).digest blake3 = (signatureOf g').digest blake3 := by
      rw [IndexSignature.digest, IndexSignature.digest, ← textBytes_append, ← textBytes_append, texts]
    rw [stateKey, stateKey, IndexSignature.cacheKey, IndexSignature.cacheKey, heads, digests]

theorem generate_ok {snapshotId : Text} :
    generateSnapshotIdFromGit blake3 g = .ok snapshotId ↔ g.inConflict = false ∧
      snapshotId = "snap-".toList ++ hashText blake3 16 (stateBytes g) := by
  unfold generateSnapshotIdFromGit
  cases g.inConflict with
  | true => simp
  | false => simp [eq_comm]

theorem generate_same_iff (separates : Separates blake3 states) (here : states g)
    (here' : states g') (clean : g.inConflict = false) :
    generateSnapshotIdFromGit blake3 g' = generateSnapshotIdFromGit blake3 g ↔
      g'.inConflict = false ∧ stateBytes g' = stateBytes g := by
  have made := (@generate_ok blake3 g _).mpr ⟨clean, rfl⟩
  rw [made, generate_ok, List.append_cancel_left_eq]
  refine and_congr_right fun _ => ⟨fun same => ?_, fun same => by rw [same]⟩
  exact separates.identifiers g' g here' here same.symm

theorem shares_iff (separates : Separates blake3 states) (here : states g) (here' : states g') :
    Memo.Shares (stateKey blake3) (generateSnapshotIdFromGit blake3) g g' ↔ Agrees g g' := by
  constructor
  · intro shares clean same
    have made := (@generate_ok blake3 g _).mpr ⟨clean, rfl⟩
    refine (generate_same_iff separates here here' clean).mp ?_
    rw [made]
    exact shares ((stateKey_eq_iff separates here here').mpr same) _ made
  · intro agrees same snapshotId made
    obtain ⟨clean, -⟩ := generate_ok.mp made
    have shared := agrees clean ((stateKey_eq_iff separates here here').mp same)
    rw [(generate_same_iff separates here here' clean).mpr shared, made]

/-- **The cache cannot be seen** in any run over a set of states exactly if every two of
them that have one key share the identifier. -/
theorem transparent_iff (capacity : Nat) (git : GitCommands) (separates : Separates blake3 states) :
    (∀ calls : List Call, (∀ c ∈ calls, states c.gitState) →
      Transparent blake3 git capacity calls) ↔
      ∀ g g', states g → states g' → Agrees g g' := by
  constructor
  · intro transparent g g' here here'
    refine (shares_iff separates here here').mp ?_
    have second := transparent [.get g, .get g'] (by simp [Call.gitState, here, here']) [.get g] g' [] rfl
    rw [snapshotGetIn_answer] at second
    refine Memo.shares_of_consult (fun snapshotId made => ?_) second
    have first : (Runs.final (call blake3 git) (.withCapacity capacity) [.get g]) =
        (SnapshotSignatureCache.withCapacity capacity).insert blake3 (signatureOf g) snapshotId := by
      simp only [Runs.final, call, snapshotGetIn]
      have none_yet : (SnapshotSignatureCache.withCapacity capacity).get blake3 (signatureOf g) =
          (none, .withCapacity capacity) := rfl
      rw [none_yet]
      dsimp only
      rw [made]
    rw [first]
    exact insert_first capacity snapshotId
  · intro agrees calls all done gitState rest shape
    have here : states gitState := all (.get gitState) (by rw [shape]; simp)
    have knows := @run_knows blake3 git states capacity done fun c member => all c (by
      rw [shape]
      exact List.mem_append_left _ member)
    rw [snapshotGetIn_answer]
    exact Memo.Learned.consult_eq knows fun g seen =>
      (shares_iff separates seen here).mpr (agrees g gitState seen here)

/-- The commit `abc` without conflicts. -/
def atCommit (porcelainStatus : String) (submodulesDigest : Option Text) : GitState where
  headSha := some "abc".toList
  porcelainStatus := porcelainStatus.toList
  hasMergeConflict := false
  hasRebaseConflict := false
  submodulesDigest := submodulesDigest

/-- A merge of a state is under way. -/
def merging (gitState : GitState) : GitState := { gitState with hasMergeConflict := true }

/-- Git as it is where there is no repository. -/
def noGit : GitCommands := ⟨fun _ _ => none, fun _ _ => none, fun _ _ _ => none⟩

theorem separates_listed {listed : List GitState}
    (signatures : ∀ g ∈ listed, ∀ g' ∈ listed,
      (signatureOf g).digest blake3 = (signatureOf g').digest blake3 →
      (signatureOf g).headSha.getD [] ++ (signatureOf g).summary =
        (signatureOf g').headSha.getD [] ++ (signatureOf g').summary)
    (identifiers : ∀ g ∈ listed, ∀ g' ∈ listed,
      hashText blake3 16 (stateBytes g) = hashText blake3 16 (stateBytes g') →
      stateBytes g = stateBytes g') : Separates blake3 (· ∈ listed) :=
  ⟨fun g g' here here' => signatures g here g' here',
    fun g g' here here' => identifiers g here g' here'⟩

/-- A clean state, one with a new file and the merge of the clean one. -/
def plainStates : List GitState :=
  [atCommit "" none, atCommit "?? x" none, merging (atCommit "" none)]

/-- They share no key. -/
theorem plainStates_transparent : Separates List.reverse (· ∈ plainStates) ∧
    ∀ calls : List Call, (∀ c ∈ calls, c.gitState ∈ plainStates) →
      Transparent List.reverse noGit 128 calls := by
  have separates : Separates List.reverse (· ∈ plainStates) :=
    separates_listed (by decide +kernel) (by decide +kernel)
  have agree : ∀ g ∈ plainStates, ∀ g' ∈ plainStates, Agrees g g' := by
    unfold Agrees SameKey
    decide +kernel
  exact ⟨separates,
    (transparent_iff 128 noGit separates).mpr fun g g' here here' => agree g here g' here'⟩

/-- Two contents of an edited `.gitmodules`; a new file `xM` and the merge with a new
file `x`. -/
def sharingStates : List GitState :=
  [atCommit " M .gitmodules" (some "aa".toList), atCommit " M .gitmodules" (some "bb".toList),
    atCommit "?? xM" none, merging (atCommit "?? x" none)]

/-- The second of each pair is answered with the identifier of the first. -/
theorem sharing_states_seen : Separates List.reverse (· ∈ sharingStates) ∧
    ¬ Transparent List.reverse noGit 128
      [.get (atCommit " M .gitmodules" (some "aa".toList)),
        .get (atCommit " M .gitmodules" (some "bb".toList))] ∧
    ¬ Transparent List.reverse noGit 128
      [.get (atCommit "?? xM" none), .get (merging (atCommit "?? x" none))] := by
  refine ⟨separates_listed (by decide +kernel) (by decide +kernel), fun transparent => ?_,
    fun transparent => ?_⟩
  · have second := transparent [.get (atCommit " M .gitmodules" (some "aa".toList))] _ [] rfl
    revert second
    decide +kernel
  · have second := transparent [.get (atCommit "?? xM" none)] _ [] rfl
    revert second
    decide +kernel

end IdCache

end Devit
