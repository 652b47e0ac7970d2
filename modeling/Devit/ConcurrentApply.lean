import Devit.PatchReplay

/-! Two calls of `patch_apply` with one key and one patch at the same time. A call
takes three steps, and the steps of the other may come between them. The patch is
applied at most once, and both are answered the same, as long as a call whose
look-up missed does no work of its own after the other has done its work. -/
namespace Devit
open Text Path FileSystem

namespace ConcurrentApply
open PatchApply PatchReplay WorkspaceRoots

inductive Caller where
  | first
  | second
  deriving DecidableEq, Repr

def Caller.other : Caller → Caller
  | .first => .second
  | .second => .first

/-- Two calls with one key and one patch. -/
structure TwoCalls where
  key : Text
  patchContent : Text
  approvalLevel : Caller → ApprovalLevel
  dryRun : Caller → Bool
  moment : Caller → Moment

def TwoCalls.request (calls : TwoCalls) (c : Caller) : PatchRequest :=
  ⟨calls.patchContent, calls.approvalLevel c, calls.dryRun c, some calls.key⟩

/-- How far a call has come. -/
inductive Phase where
  | start
  | missed
  | worked (result : PatchResult)
  | done (answer : DevItResult PatchResult)

/-- What a call is going to answer, once that is settled. -/
def Phase.outcome : Phase → Option (DevItResult PatchResult)
  | .start => none
  | .missed => none
  | .worked result => some (.ok result)
  | .done answer => some answer

structure Pair where
  world : World
  phases : Caller → Phase
  /-- How often the patch was applied to the tree. -/
  applications : Nat

section
variable (services : Services)

/-- The next step of a call. -/
def advance (request : PatchRequest) (moment : Moment) : Phase → World → Phase × World
  | .start, w =>
    match lookUp services request moment w with
    | (some kept, w) => (.done (.ok kept), w)
    | (none, w) => (.missed, w)
  | .missed, w =>
    match perform services request moment w with
    | (.error e, w) => (.done (.error e), w)
    | (.ok result, w) => (.worked result, w)
  | .worked result, w => (.done (.ok result), record services request moment result w)
  | .done answer, w => (.done answer, w)

/-- Whether the work of a call applies the patch to the tree. -/
def appliesPatch (request : PatchRequest) (w : World) : Bool :=
  match judge services w request, (applyStep request w).1 with
  | .ok _, .ok _ => !request.dryRun
  | _, _ => false

def applications (request : PatchRequest) : Phase → World → Nat
  | .missed, w => if appliesPatch services request w then 1 else 0
  | _, _ => 0

variable (calls : TwoCalls)

/-- One caller takes its next step. -/
def step (s : Pair) (c : Caller) : Unit × Pair :=
  let (phase, w) := advance services (calls.request c) (calls.moment c) (s.phases c) s.world
  ((), {
    world := w
    phases := Function.update s.phases c phase
    applications := s.applications + applications services (calls.request c) (s.phases c) s.world })

def begin (w : World) : Pair := ⟨w, fun _ => .start, 0⟩

/-- The work of a call would be refused with an error, by the judge or by the
patcher. -/
def Refused (request : PatchRequest) (w : World) (e : DevItError) : Prop :=
  judge services w request = .error e ∨
    ∃ approved, judge services w request = .ok approved ∧ (applyStep request w).1 = .error e

/-- A call is a dry run that is judged and timed so as to be answered this. -/
def DryRunOf (request : PatchRequest) (moment : Moment) (w : World) (answer : PatchResult) : Prop :=
  request.dryRun = true ∧ ∃ approved stats, judge services w request = .ok approved ∧
    (applyStep request w).1 = .ok stats ∧ dryResult approved moment = answer

/-- A call does not work after the other did, but to be refused with the same error,
or to repeat its dry run in the same time. -/
def NoRework (s : Pair) (c : Caller) : Prop :=
  s.phases c = .missed → ∀ answer, (s.phases c.other).outcome = some answer →
    match answer with
    | .error e => Refused services (calls.request c) s.world e
    | .ok result => DryRunOf services (calls.request c) (calls.moment c) s.world result

end

/-- The patch was applied at most once, and two answers are one. -/
def AtMostOnce (s : Pair) : Prop :=
  s.applications ≤ 1 ∧ ∀ a b, s.phases .first = .done a → s.phases .second = .done b → a = b

/-- What was written reads back. -/
def RoundTrips (services : Services) : Prop :=
  ∀ result text, services.serialize result = some text → services.deserialize text = some result

variable {services : Services} {request : PatchRequest} {moment : Moment} {w : World}

/-! ## The steps of a call -/

/-- A call that is left alone is `patch_apply`. -/
theorem advance_alone : ∃ between between',
    advance services request moment .start w = between ∧
    advance services request moment between.1 between.2 = between' ∧
    advance services request moment between'.1 between'.2 =
      (.done (patchApply services request moment w).1, (patchApply services request moment w).2) := by
  refine ⟨_, _, rfl, rfl, ?_⟩
  unfold patchApply
  simp only [advance]
  cases lookUp services request moment w with
  | mk found mid =>
    cases found with
    | some kept => rfl
    | none =>
      simp only
      cases perform services request moment mid with
      | mk outcome last => cases outcome <;> rfl

theorem Caller.eq_or_other (c d : Caller) : d = c ∨ d = c.other := by
  cases c <;> cases d <;> decide

@[simp] theorem Caller.other_ne (c : Caller) : c.other ≠ c := by
  cases c <;> decide

@[simp] theorem Caller.other_other (c : Caller) : c.other.other = c := by
  cases c <;> rfl

/-- A refused call ends with its error. -/
theorem perform_refused {e : DevItError} (refused : Refused services request w e) :
    (perform services request moment w).1 = .error e ∧ appliesPatch services request w = false := by
  unfold perform appliesPatch
  rcases refused with judged | ⟨approved, judged, applied⟩
  · simp only [judged, and_self]
  · cases ran : applyStep request w with
    | mk outcome mid =>
      rw [ran] at applied
      dsimp only at applied
      subst applied
      simp only [judged, and_self]

theorem perform_dryRunOf {answer : PatchResult} (dry : DryRunOf services request moment w answer) :
    (perform services request moment w).1 = .ok answer ∧ appliesPatch services request w = false := by
  obtain ⟨isDry, approved, stats, judged, applied, same⟩ := dry
  unfold perform appliesPatch
  cases ran : applyStep request w with
  | mk outcome mid =>
    rw [ran] at applied
    dsimp only at applied
    subst applied
    simp [judged, isDry, same]

/-! ## The invariant -/

/-- Whatever is kept under the key and can be read is what the call that looked
first is going to answer. -/
def Reads (services : Services) (key : Text) (w : World) (phase : Phase) : Prop :=
  ∀ entry result, w.engine.idempotencyCache.find key = some entry →
    services.deserialize entry.response = some result → phase.outcome = some (.ok result)

structure Settled (services : Services) (key : Text) (s : Pair) : Prop where
  once : s.applications ≤ 1
  unspent : (∀ c, (s.phases c).outcome = none) → s.applications = 0
  agree : ∀ c a b, (s.phases c).outcome = some a → (s.phases c.other).outcome = some b → a = b
  reads : ∀ c, s.phases c ≠ .start → s.phases c.other = .start →
    Reads services key s.world (s.phases c)

theorem begin_settled (key : Text) : Settled services key (begin w) where
  once := Nat.zero_le _
  unspent _ := rfl
  agree c a b known := by cases known
  reads c away := absurd rfl away

theorem Settled.atMostOnce {key : Text} {s : Pair} (settled : Settled services key s) :
    AtMostOnce s := by
  refine ⟨settled.once, fun a b first second => ?_⟩
  apply settled.agree .first a b
  · rw [first]
    rfl
  · rw [Caller.other, second]
    rfl

/-- The invariant after a step of one caller, from what the step makes of it. -/
theorem Settled.update {key : Text} {s : Pair} {c : Caller} {phase : Phase} {w : World} {more : Nat}
    (settled : Settled services key s)
    (once : s.applications + more ≤ 1)
    (unspent : phase.outcome = none → (s.phases c).outcome = none ∧ more = 0)
    (agree : ∀ a b, phase.outcome = some a → (s.phases c.other).outcome = some b → a = b)
    (away : phase ≠ .start) (reads : s.phases c.other = .start → Reads services key w phase) :
    Settled services key
      { world := w, phases := Function.update s.phases c phase,
        applications := s.applications + more } where
  once := once
  unspent none_settled := by
    have here : phase.outcome = none := by simpa using none_settled c
    have there : (s.phases c.other).outcome = none := by simpa using none_settled c.other
    obtain ⟨before, rfl⟩ := unspent here
    refine settled.unspent fun d => ?_
    rcases c.eq_or_other d with rfl | rfl
    · exact before
    · exact there
  agree d a b known known' := by
    rcases c.eq_or_other d with rfl | rfl
    · simp only [Function.update_self, ne_eq, Caller.other_ne, not_false_eq_true,
        Function.update_of_ne] at known known'
      exact agree a b known known'
    · simp only [Function.update_self, ne_eq, Caller.other_ne, not_false_eq_true,
        Function.update_of_ne, Caller.other_other] at known known'
      exact (agree b a known' known).symm
  reads d looked waits := by
    rcases c.eq_or_other d with rfl | rfl
    · simp only [Function.update_self, ne_eq, Caller.other_ne, not_false_eq_true,
        Function.update_of_ne] at waits ⊢
      exact reads waits
    · simp only [Caller.other_other, Function.update_self] at waits
      exact absurd waits away

/-- A kept answer that is found is the only one that can be found. -/
theorem reads_found {kept : PatchResult} {key : Text} (keyed : request.idempotencyKey = some key)
    (found : (lookUp services request moment w).1 = some kept) :
    Reads services key (lookUp services request moment w).2 (.done (.ok kept)) := by
  intro entry result there read
  rw [lookUp_keyed keyed] at found there
  obtain ⟨other, listed, decoded⟩ := Option.bind_eq_some_iff.mp found
  have same : other = entry := Option.some.inj (listed.symm.trans there)
  subst same
  rw [Option.some.inj (read.symm.trans decoded)]
  rfl

/-- After a look-up that missed, nothing that is kept can be read. -/
theorem reads_missed {key : Text} {phase : Phase} (keyed : request.idempotencyKey = some key)
    (missed : (lookUp services request moment w).1 = none) :
    Reads services key (lookUp services request moment w).2 phase := by
  intro entry result there read
  rw [lookUp_keyed keyed] at missed there
  dsimp only [withCache] at missed there
  rw [there, Option.bind_some, read] at missed
  cases missed

theorem reads_record {key : Text} {result : PatchResult} (roundTrips : RoundTrips services)
    (keyed : request.idempotencyKey = some key) (reads : Reads services key w (.worked result)) :
    Reads services key (record services request moment result w) (.done (.ok result)) := by
  intro entry other found read
  unfold record at found
  split at found
  · rename_i own text same written
    have equal : own = key := Option.some.inj (same.symm.trans keyed)
    subst equal
    dsimp only [withCache] at found
    rw [IdempotencyCache.find_insert, if_pos rfl] at found
    cases found
    rw [Option.some.inj (read.symm.trans (roundTrips result text written))]
    rfl
  · exact reads entry other found read

section
variable {calls : TwoCalls} {s : Pair} {c : Caller}

/-- The pair after a caller's step, phase by phase. -/
theorem step_snd {phase : Phase} (here : s.phases c = phase) : (step services calls s c).2 =
    ⟨(advance services (calls.request c) (calls.moment c) phase s.world).2,
      Function.update s.phases c
        (advance services (calls.request c) (calls.moment c) phase s.world).1,
      s.applications + applications services (calls.request c) phase s.world⟩ := by
  subst here
  rfl

/-- A step of one caller leaves the other where it is. -/
theorem step_other (s : Pair) (c : Caller) :
    (step services calls s c).2.phases c.other = s.phases c.other := by
  rw [step_snd rfl]
  exact Function.update_of_ne c.other_ne _ _

theorem settled_lookUp (settled : Settled services calls.key s) (here : s.phases c = .start) :
    Settled services calls.key (step services calls s c).2 := by
  have keyed : (calls.request c).idempotencyKey = some calls.key := rfl
  have before : ∀ b, (s.phases c.other).outcome = some b →
      Reads services calls.key s.world (s.phases c.other) := by
    intro b known
    refine settled.reads c.other (fun away => ?_) (by rw [Caller.other_other, here])
    rw [away] at known
    cases known
  rw [step_snd here]
  have hit := @reads_found services (calls.request c) (calls.moment c) s.world
  have miss := @reads_missed services (calls.request c) (calls.moment c) s.world
  have origin := @lookUp_found services (calls.request c) (calls.moment c) s.world
  simp only [advance]
  cases looked : lookUp services (calls.request c) (calls.moment c) s.world with
  | mk found mid =>
    rw [looked] at hit miss origin
    cases found with
    | some kept =>
      apply settled.update settled.once
      · intro none_known
        cases none_known
      · intro a b known known'
        cases known
        obtain ⟨key, entry, same, there, -, read⟩ := origin rfl
        cases keyed.symm.trans same
        have agreed := before b known' entry kept there read
        exact Option.some.inj (agreed.symm.trans known')
      · intro away
        cases away
      · exact fun _ => hit keyed rfl
    | none =>
      apply settled.update settled.once
      · rw [here]
        exact fun _ => ⟨rfl, rfl⟩
      · intro a b known
        cases known
      · intro away
        cases away
      · exact fun _ => miss keyed rfl

/-- When both have worked, the one that worked last ends as the other and applies
nothing. -/
theorem settled_outcome (meets : NoRework services calls s c) (here : s.phases c = .missed)
    {answer : DevItResult PatchResult} (known : (s.phases c.other).outcome = some answer) :
    (perform services (calls.request c) (calls.moment c) s.world).1 = answer ∧
      appliesPatch services (calls.request c) s.world = false := by
  have allowed := meets here answer known
  cases answer with
  | error e => exact perform_refused allowed
  | ok kept => exact perform_dryRunOf allowed

theorem settled_once (settled : Settled services calls.key s) (meets : NoRework services calls s c)
    (here : s.phases c = .missed) :
    s.applications + applications services (calls.request c) .missed s.world ≤ 1 := by
  simp only [applications]
  cases known : (s.phases c.other).outcome with
  | none =>
    have spent : s.applications = 0 := by
      refine settled.unspent fun d => ?_
      rcases c.eq_or_other d with rfl | rfl
      · rw [here]
        rfl
      · exact known
    rw [spent]
    cases appliesPatch services (calls.request c) s.world <;> decide
  | some answer =>
    rw [(settled_outcome meets here known).2]
    exact settled.once

theorem settled_perform (settled : Settled services calls.key s)
    (meets : NoRework services calls s c) (here : s.phases c = .missed) :
    Settled services calls.key (step services calls s c).2 := by
  have once := settled_once settled meets here
  have agree := fun answer => @settled_outcome services calls s c meets here answer
  have cache := @perform_cache services (calls.request c) (calls.moment c) s.world
  rw [step_snd here]
  simp only [advance]
  cases worked : perform services (calls.request c) (calls.moment c) s.world with
  | mk outcome last =>
    rw [worked] at agree cache
    have silent : s.phases c.other = .start → ∀ phase, Reads services calls.key last phase := by
      intro waits other entry result found read
      have unread := settled.reads c (by rw [here]; intro away; cases away) waits
      rw [here] at unread
      dsimp only at cache
      rw [cache] at found
      cases unread entry result found read
    cases outcome with
    | error e =>
      apply settled.update once
      · intro none_known
        cases none_known
      · intro a b known known'
        cases known
        exact (agree b known').1
      · intro away
        cases away
      · exact fun waits => silent waits _
    | ok result =>
      apply settled.update once
      · intro none_known
        cases none_known
      · intro a b known known'
        cases known
        exact (agree b known').1
      · intro away
        cases away
      · exact fun waits => silent waits _

theorem settled_record (roundTrips : RoundTrips services) {result : PatchResult}
    (settled : Settled services calls.key s) (here : s.phases c = .worked result) :
    Settled services calls.key (step services calls s c).2 := by
  rw [step_snd here]
  apply settled.update settled.once
  · intro none_known
    cases none_known
  · intro a b known known'
    exact settled.agree c a b (by rw [here]; exact known) known'
  · intro away
    cases away
  · intro waits
    have reads := settled.reads c (by rw [here]; intro away; cases away) waits
    rw [here] at reads
    exact reads_record roundTrips rfl reads

theorem settled_done {answer : DevItResult PatchResult} (settled : Settled services calls.key s)
    (here : s.phases c = .done answer) : Settled services calls.key (step services calls s c).2 := by
  rw [step_snd here]
  apply settled.update settled.once
  · intro none_known
    cases none_known
  · intro a b known known'
    exact settled.agree c a b (by rw [here]; exact known) known'
  · intro away
    cases away
  · intro waits
    have reads := settled.reads c (by rw [here]; intro away; cases away) waits
    rw [here] at reads
    exact reads

/-- **One step** keeps the invariant. -/
theorem step_settled (roundTrips : RoundTrips services) (settled : Settled services calls.key s)
    (meets : NoRework services calls s c) :
    Settled services calls.key (step services calls s c).2 := by
  cases here : s.phases c with
  | start => exact settled_lookUp settled here
  | missed => exact settled_perform settled meets here
  | worked result => exact settled_record roundTrips settled here
  | done answer => exact settled_done settled here

end

/-! ## Runs -/

/-- **At most once.** In every interleaving in which no call works after the other
did, the patch is applied at most once, and the two answers are one, in every state
reached. -/
theorem at_most_once_along {calls : TwoCalls} (roundTrips : RoundTrips services) {w : World}
    {schedule : List Caller}
    (meets : Runs.Along (NoRework services calls) (step services calls) (begin w) schedule) :
    ∀ done rest, schedule = done ++ rest →
      AtMostOnce (Runs.final (step services calls) (begin w) done) := by
  rintro done rest rfl
  refine (Runs.invariant_along (fun s c held allowed => step_settled roundTrips held allowed)
    (begin_settled calls.key) ?_).atMostOnce
  intro before c after shape
  exact meets before c (after ++ rest) (by rw [shape, List.append_assoc, List.cons_append])

/-! ## Two calls for a new file -/

/-- The answer of a call that creates the file. -/
def liveAnswer : PatchResult where
  success := true
  modifiedFiles := [⟨"note".toList⟩]
  warnings := []
  infoMessages := ["Analyzed 1 file changes from patch".toList,
    "Path security validation passed".toList,
    "Policy evaluation: Change allowed at moderate level".toList,
    "Applying patch with atomic file operations".toList,
    "Patch validation and application successful".toList,
    "Successfully applied patch: 1 files modified, 1 hunks, +1 -0 lines".toList,
    "Pre-commit security validation passed".toList,
    "Auto-commit disabled - changes staged only".toList,
    "Journal entry recorded: offset 0".toList,
    "Rollback command available: git reset --hard HEAD".toList]
  resultingSnapshot := none
  executionTime := 1000
  requiredElevation := false
  commitSha := none
  rollbackCmd := some "git reset --hard HEAD".toList
  autoReverted := false
  revertedSha := none

def liveAnswerText : Text :=
  "\x7b\"success\":true,\"modified_files\":[\"note\"],".toList ++
    "\"warnings\":[],\"info_messages\":[\"Analyzed ".toList ++
    "1 file changes from patch\",\"Path security ".toList ++
    "validation passed\",\"Policy evaluation: ".toList ++
    "Change allowed at moderate level\",\"Applying ".toList ++
    "patch with atomic file operations\",\"Patch ".toList ++
    "validation and application successful\",".toList ++
    "\"Successfully applied patch: 1 files ".toList ++
    "modified, 1 hunks, +1 -0 lines\",\"Pre-commit ".toList ++
    "security validation passed\",\"Auto-commit ".toList ++
    "disabled - changes staged only\",\"Journal ".toList ++
    "entry recorded: offset 0\",\"Rollback ".toList ++
    "command available: git reset --hard ".toList ++
    "HEAD\"],\"resulting_snapshot\":null,\"execution_time\":\x7b\"secs\":0,".toList ++
    "\"nanos\":1000\x7d,\"required_elevation\":false,".toList ++
    "\"commit_sha\":null,\"rollback_cmd\":\"git ".toList ++
    "reset --hard HEAD\",\"test_results\":null,".toList ++
    "\"auto_reverted\":false,\"reverted_sha\":null\x7d".toList

def liveServices : Services := sampleServices [(liveAnswer, liveAnswerText)]

theorem sample_roundTrips (answer : PatchResult) (written : Text) :
    RoundTrips (sampleServices [(answer, written)]) := by
  intro result text
  simp only [sampleServices, List.find?_cons, List.find?_nil]
  by_cases same : answer = result
  · subst same
    intro found
    have equal : written = text := by simpa using found
    simp [equal]
  · simp [same]

/-- Two calls that create a file in the sandbox. -/
def noteCalls : TwoCalls where
  key := "k".toList
  patchContent := (noteRequest false).patchContent
  approvalLevel := fun _ => .moderate
  dryRun := fun _ => false
  moment := fun c => noteMoment (c == .first)

/-- The second call looks for an answer after the first has kept one. -/
theorem one_after_the_other : AtMostOnce (Runs.final (step liveServices noteCalls)
    (begin ⟨sandboxEngine, sandboxDisk⟩) [.first, .first, .first, .second]) := by
  have roundTrips : RoundTrips liveServices := sample_roundTrips liveAnswer liveAnswerText
  refine at_most_once_along roundTrips ?_ _ [] rfl
  have alone : ∀ s, s.phases .second = .start → NoRework liveServices noteCalls s .first := by
    intro s waits missed answer known
    change (s.phases .second).outcome = some answer at known
    rw [waits] at known
    cases known
  have looks : ∀ s, s.phases .second = .start → NoRework liveServices noteCalls s .second := by
    intro s waits missed
    cases waits.symm.trans missed
  have waits : ∀ s, s.phases .second = .start →
      (step liveServices noteCalls s .first).2.phases .second = .start := by
    intro s waiting
    exact (step_other s .first).trans waiting
  have begun : (begin ⟨sandboxEngine, sandboxDisk⟩).phases .second = .start := rfl
  refine Runs.along_cons.mpr ⟨alone _ begun, Runs.along_cons.mpr ⟨alone _ (waits _ begun), ?_⟩⟩
  refine Runs.along_cons.mpr ⟨alone _ (waits _ (waits _ begun)), Runs.along_cons.mpr ⟨?_, ?_⟩⟩
  · exact looks _ (waits _ (waits _ (waits _ begun)))
  · exact Runs.along_nil _ _

/-- Both look for an answer and find none; then each applies the patch. -/
theorem applications_of_misses {calls : TwoCalls} {w w' w'' : World}
    (first : lookUp services (calls.request .first) (calls.moment .first) w = (none, w'))
    (second : lookUp services (calls.request .second) (calls.moment .second) w' = (none, w''))
    (applies : appliesPatch services (calls.request .first) w'' = true)
    (again : appliesPatch services (calls.request .second)
      (perform services (calls.request .first) (calls.moment .first) w'').2 = true) :
    (Runs.final (step services calls) (begin w) [.first, .second, .first, .second]).applications =
      2 := by
  have looked : Runs.final (step services calls) (begin w) [.first, .second] =
      ⟨w'', Function.update (Function.update (fun _ => .start) .first .missed) .second .missed, 0⟩ := by
    simp [Runs.final, step, begin, advance, applications, first, second]
  have split : [Caller.first, .second, .first, .second] =
      [.first, .second] ++ [.first, .second] := rfl
  rw [split, Runs.final_append, looked]
  simp only [Runs.final, step, advance, applications, ne_eq, reduceCtorEq, not_false_eq_true,
    Function.update_of_ne, Function.update_self, applies]
  cases worked : perform services (calls.request .first) (calls.moment .first) w'' with
  | mk outcome last =>
    rw [worked] at again
    cases outcome <;> simp [again]

/-- Both look for an answer before either has kept one, and both apply the patch. -/
theorem applied_twice :
    (Runs.final (step liveServices noteCalls) (begin ⟨sandboxEngine, sandboxDisk⟩)
      [.first, .second, .first, .second]).applications = 2 ∧
    ¬ AtMostOnce (Runs.final (step liveServices noteCalls) (begin ⟨sandboxEngine, sandboxDisk⟩)
      [.first, .second, .first, .second]) := by
  have looked : ∀ c, lookUp liveServices (noteCalls.request c) (noteCalls.moment c)
      ⟨sandboxEngine, sandboxDisk⟩ = (none, ⟨sandboxEngine, sandboxDisk⟩) := fun c => rfl
  have applies : appliesPatch liveServices (noteCalls.request .first)
      ⟨sandboxEngine, sandboxDisk⟩ = true := by decide +kernel
  have again : appliesPatch liveServices (noteCalls.request .second) (perform liveServices
      (noteCalls.request .first) (noteCalls.moment .first) ⟨sandboxEngine, sandboxDisk⟩).2 = true := by
    decide +kernel
  have twice := applications_of_misses (looked .first) (looked .second) applies again
  refine ⟨twice, fun most => ?_⟩
  have once : (Runs.final (step liveServices noteCalls) (begin ⟨sandboxEngine, sandboxDisk⟩)
      [.first, .second, .first, .second]).applications ≤ 1 := most.1
  rw [twice] at once
  omega

end ConcurrentApply

end Devit
