import Devit.PatchApply
import Devit.WorkspaceRoots

/-! What a successful answer of `patch_apply` stands for, over whole histories of
calls. Either the call did the work itself, or the answer is one that an earlier
call with the same key was given for its own work, at most an hour before: for
whatever patch that was, and whether or not it was a dry run. -/
namespace Devit
open Text Path FileSystem

namespace PatchReplay
open PatchApply WorkspaceRoots

/-- What can happen to an engine's world: a call, or a change of the tree by others. -/
inductive Event where
  | call (request : PatchRequest) (moment : Moment)
  | edit (disk : Disk)

section
variable (services : Services)

def step (w : World) : Event → Option (DevItResult PatchResult) × World
  | .call request moment =>
    let (answer, w) := patchApply services request moment w
    (some answer, w)
  | .edit disk => (none, { w with disk := disk })

/-- The world after some events. -/
def after (start : World) (events : List Event) : World := Runs.final (step services) start events

/-- No answer was kept for the call, and it did the work itself. -/
def Worked (request : PatchRequest) (moment : Moment) (w : World) (result : PatchResult) : Prop :=
  (lookUp services request moment w).1 = none ∧
    (perform services request moment (lookUp services request moment w).2).1 = .ok result

/-- The patch of a request was applied to the tree of a world, with this tree as
the outcome. -/
def Applied (request : PatchRequest) (w : World) (disk : Disk) : Prop :=
  ∃ stats, AtomicPatcher.applyPatch ⟨w.engine.patchDir, false⟩ request.patchContent w.disk =
    (.ok stats, disk)

end

variable {services : Services} {request : PatchRequest} {moment : Moment} {w : World}

/-! ## One call -/

/-- A call with a key looks in the cache without its expired entries. -/
theorem lookUp_keyed {key : Text} (keyed : request.idempotencyKey = some key) :
    lookUp services request moment w =
      (((w.engine.idempotencyCache.cleanupExpired moment.lookedUp).find key).bind fun entry =>
        services.deserialize entry.response,
      withCache w (w.engine.idempotencyCache.cleanupExpired moment.lookedUp)) := by
  simp only [lookUp, keyed, IdempotencyCache.get_cleanup]

theorem lookUp_disk : (lookUp services request moment w).2.disk = w.disk := by
  unfold lookUp
  split <;> rfl

theorem lookUp_patchDir : (lookUp services request moment w).2.engine.patchDir = w.engine.patchDir := by
  unfold lookUp
  split <;> rfl

/-- Looking for an answer drops entries at most. -/
theorem lookUp_cache {key : Text} {entry : IdempotencyEntry}
    (found : (lookUp services request moment w).2.engine.idempotencyCache.find key = some entry) :
    w.engine.idempotencyCache.find key = some entry := by
  cases keyed : request.idempotencyKey with
  | none =>
    simp only [lookUp, keyed] at found
    exact found
  | some other =>
    rw [lookUp_keyed keyed] at found
    exact ((IdempotencyCache.find_cleanup _).mp found).1

/-- An answer that is found was kept for the key, and has not expired. -/
theorem lookUp_found {kept : PatchResult} (found : (lookUp services request moment w).1 = some kept) :
    ∃ key entry, request.idempotencyKey = some key ∧
      w.engine.idempotencyCache.find key = some entry ∧
      moment.lookedUp - entry.createdAt ≤ entry.ttl ∧
      services.deserialize entry.response = some kept := by
  cases keyed : request.idempotencyKey with
  | none => simp [lookUp, keyed] at found
  | some key =>
    rw [lookUp_keyed keyed] at found
    obtain ⟨entry, there, read⟩ := Option.bind_eq_some_iff.mp found
    obtain ⟨listed, young⟩ := (IdempotencyCache.find_cleanup _).mp there
    refine ⟨key, entry, rfl, listed, ?_, read⟩
    simpa [IdempotencyCache.isExpired] using young

theorem perform_cache : (perform services request moment w).2.engine.idempotencyCache =
    w.engine.idempotencyCache := by
  unfold perform
  split
  · rfl
  · have stepped : (applyStep request w).2.engine = w.engine := rfl
    cases ran : applyStep request w with
    | mk outcome mid =>
      rw [ran] at stepped
      have same : mid.engine.idempotencyCache = w.engine.idempotencyCache :=
        congrArg CoreEngine.idempotencyCache stepped
      cases outcome with
      | error e => exact same
      | ok stats =>
        dsimp only
        split
        · exact same
        · unfold finish
          split
          · exact same
          · split <;> exact same

/-- Work that succeeds and is no dry run has applied the patch. -/
theorem perform_applied {result : PatchResult} (live : request.dryRun = false)
    (ran : (perform services request moment w).1 = .ok result) :
    Applied request w (perform services request moment w).2.disk := by
  unfold perform at ran ⊢
  unfold Applied
  cases judged : judge services w request with
  | error e =>
    simp only [judged] at ran
    cases ran
  | ok approved =>
    simp only [judged] at ran ⊢
    rw [← live]
    cases applied : AtomicPatcher.applyPatch ⟨w.engine.patchDir, request.dryRun⟩
        request.patchContent w.disk with
    | mk outcome disk =>
      have stepped : applyStep request w = (outcome, { w with disk := disk }) := by
        rw [applyStep, applied]
      rw [stepped] at ran ⊢
      cases outcome with
      | error e => cases ran
      | ok stats =>
        refine ⟨stats, ?_⟩
        dsimp only at ran ⊢
        rw [live] at ran ⊢
        simp only [Bool.false_eq_true, ↓reduceIte] at ran ⊢
        unfold finish
        split
        · rfl
        · split <;> rfl

/-- After work that succeeds the tree is as the work leaves it. -/
theorem patchApply_disk {result : PatchResult} (worked : Worked services request moment w result) :
    (patchApply services request moment w).2.disk =
      (perform services request moment (lookUp services request moment w).2).2.disk := by
  obtain ⟨missing, ran⟩ := worked
  unfold patchApply
  cases looked : lookUp services request moment w with
  | mk found mid =>
    rw [looked] at missing ran
    dsimp only at missing ran ⊢
    subst missing
    dsimp only
    cases done : perform services request moment mid with
    | mk outcome last =>
      rw [done] at ran
      dsimp only at ran
      subst ran
      dsimp only
      unfold record
      split <;> rfl

/-- A successful call answers what was kept, or does the work. -/
theorem patchApply_ok {result : PatchResult}
    (ran : (patchApply services request moment w).1 = .ok result) :
    (lookUp services request moment w).1 = some result ∧
        (patchApply services request moment w).2.disk = w.disk ∨
      Worked services request moment w result := by
  have disk := @lookUp_disk services request moment w
  unfold patchApply at ran ⊢
  unfold Worked
  cases looked : lookUp services request moment w with
  | mk found mid =>
    rw [looked] at ran disk
    cases found with
    | some kept =>
      cases ran
      exact .inl ⟨rfl, disk⟩
    | none =>
      right
      dsimp only at ran ⊢
      cases worked : perform services request moment mid with
      | mk outcome last =>
        rw [worked] at ran
        cases outcome with
        | error e => cases ran
        | ok other =>
          cases ran
          exact ⟨rfl, rfl⟩

/-- The call did the work itself, and applied its patch unless it was a dry run. -/
def Did (services : Services) (request : PatchRequest) (moment : Moment) (w : World)
    (result : PatchResult) : Prop :=
  Worked services request moment w result ∧
    (request.dryRun = false → Applied request w (patchApply services request moment w).2.disk)

/-- The call of a history that an entry under a key comes from. -/
def Earned (services : Services) (start : World) (history : List Event) (key : Text)
    (entry : IdempotencyEntry) : Prop :=
  ∃ earlier first moment later result, history = earlier ++ .call first moment :: later ∧
    first.idempotencyKey = some key ∧ Did services first moment (after services start earlier) result ∧
    services.serialize result = some entry.response ∧ entry.createdAt = moment.recorded ∧
    entry.ttl = timeToLive

/-- A call is answered what an earlier call with its key was given for its own
work, no longer ago than an answer is kept; the tree is left alone. -/
def Replayed (services : Services) (start : World) (history : List Event) (request : PatchRequest)
    (moment : Moment) (result : PatchResult) : Prop :=
  (∃ key entry, request.idempotencyKey = some key ∧ Earned services start history key entry ∧
    moment.lookedUp - entry.createdAt ≤ entry.ttl ∧
    services.deserialize entry.response = some result) ∧
  (patchApply services request moment (after services start history)).2.disk =
    (after services start history).disk

/-- An entry found after a call was there before it, or is the call's own answer. -/
theorem patchApply_cache {key : Text} {entry : IdempotencyEntry}
    (found : (patchApply services request moment w).2.engine.idempotencyCache.find key = some entry) :
    w.engine.idempotencyCache.find key = some entry ∨
      ∃ result, request.idempotencyKey = some key ∧ Worked services request moment w result ∧
        services.serialize result = some entry.response ∧ entry.createdAt = moment.recorded ∧
        entry.ttl = timeToLive := by
  have cleaned := @lookUp_cache services request moment w key entry
  unfold patchApply at found
  unfold Worked
  cases looked : lookUp services request moment w with
  | mk kept mid =>
    rw [looked] at found cleaned
    cases kept with
    | some kept => exact .inl (cleaned found)
    | none =>
      dsimp only at found
      have same := @perform_cache services request moment mid
      cases worked : perform services request moment mid with
      | mk outcome last =>
        rw [worked] at found same
        dsimp only at same
        cases outcome with
        | error e =>
          dsimp only at found
          rw [same] at found
          exact .inl (cleaned found)
        | ok result =>
          dsimp only [record] at found
          split at found
          · rename_i other response keyed written
            dsimp only [withCache] at found
            rw [IdempotencyCache.find_insert] at found
            split at found
            · rename_i equal
              cases found
              exact .inr ⟨result, by rw [keyed, equal], ⟨rfl, rfl⟩, written, rfl, rfl⟩
            · rw [same] at found
              exact .inl (cleaned found)
          · rw [same] at found
            exact .inl (cleaned found)


/-- Work that is no dry run has applied the patch of the call. -/
theorem Worked.did {result : PatchResult} (worked : Worked services request moment w result) :
    Did services request moment w result := by
  refine ⟨worked, fun live => ?_⟩
  obtain ⟨stats, applied⟩ := perform_applied live worked.2
  have kept := patchApply_disk worked
  refine ⟨stats, ?_⟩
  rw [kept, ← applied, lookUp_disk, lookUp_patchDir]

theorem Earned.concat {start : World} {history : List Event} {key : Text} {entry : IdempotencyEntry}
    (earned : Earned services start history key entry) (event : Event) :
    Earned services start (history ++ [event]) key entry := by
  obtain ⟨earlier, first, moment, later, result, rfl, rest⟩ := earned
  refine ⟨earlier, first, moment, later ++ [event], result, ?_, rest⟩
  rw [List.append_assoc, List.cons_append]

/-- Every entry of the cache was earned, after whatever happened to an engine that
started without any. -/
theorem cache_earned {start : World} (fresh : start.engine.idempotencyCache = .empty)
    (history : List Event) {key : Text} {entry : IdempotencyEntry}
    (found : (after services start history).engine.idempotencyCache.find key = some entry) :
    Earned services start history key entry := by
  induction history using List.reverseRecOn with
  | nil =>
    simp only [after, Runs.final] at found
    rw [fresh] at found
    cases found
  | append_singleton history event ih =>
    simp only [after, Runs.final_concat] at found
    cases event with
    | edit disk => exact (ih found).concat _
    | call request moment =>
      rcases patchApply_cache found with old | ⟨result, keyed, worked, kept⟩
      · exact (ih old).concat _
      · exact ⟨history, request, moment, [], result, rfl, keyed, worked.did, kept⟩

/-- A successful answer of a call, after any history. -/
theorem answered {start : World} (fresh : start.engine.idempotencyCache = .empty)
    {history : List Event} {result : PatchResult}
    (ran : (patchApply services request moment (after services start history)).1 = .ok result) :
    Did services request moment (after services start history) result ∨
      Replayed services start history request moment result := by
  rcases patchApply_ok ran with ⟨looked, unchanged⟩ | worked
  · obtain ⟨key, entry, keyed, found, young, read⟩ := lookUp_found looked
    exact .inr ⟨⟨key, entry, keyed, cache_earned fresh history found, young, read⟩, unchanged⟩
  · exact .inl worked.did

def noteRequest (dryRun : Bool) : PatchRequest where
  patchContent := "--- /dev/null\n+++ b/note\n@@ -0,0 +1 @@\n+hi\n".toList
  approvalLevel := .moderate
  dryRun := dryRun
  idempotencyKey := some "k".toList

/-- The dry run at one second, and the call itself two seconds later. -/
def noteMoment (dryRun : Bool) : Moment where
  lookedUp := if dryRun then 10 ^ 9 else 3 * 10 ^ 9
  recorded := if dryRun then 10 ^ 9 + 1000 else 3 * 10 ^ 9 + 1000
  elapsed := 1000
  commit := .ok (false, [], [])

/-- What the dry run is answered. -/
def dryAnswer : PatchResult where
  success := true
  modifiedFiles := []
  warnings := []
  infoMessages := ["Analyzed 1 file changes from patch".toList,
    "Path security validation passed".toList,
    "Policy evaluation: Change allowed at moderate level".toList,
    "Applying patch with atomic file operations".toList,
    "Patch validation and application successful".toList,
    "Dry run complete - no files were modified".toList]
  resultingSnapshot := none
  executionTime := 1000
  requiredElevation := false
  commitSha := none
  rollbackCmd := none
  autoReverted := false
  revertedSha := none

/-- Its JSON form. -/
def dryAnswerText : Text :=
  "\x7b\"success\":true,\"modified_files\":[],".toList ++
    "\"warnings\":[],\"info_messages\":[\"Analyzed ".toList ++
    "1 file changes from patch\",\"Path security ".toList ++
    "validation passed\",\"Policy evaluation: ".toList ++
    "Change allowed at moderate level\",\"Applying ".toList ++
    "patch with atomic file operations\",\"Patch ".toList ++
    "validation and application successful\",".toList ++
    "\"Dry run complete - no files were modified\"],".toList ++
    "\"resulting_snapshot\":null,\"execution_time\":\x7b\"secs\":0,".toList ++
    "\"nanos\":1000\x7d,\"required_elevation\":false,".toList ++
    "\"commit_sha\":null,\"rollback_cmd\":null,".toList ++
    "\"test_results\":null,\"auto_reverted\":false,".toList ++
    "\"reverted_sha\":null\x7d".toList

/-- Services that allow a change, and write and read some answers. -/
def sampleServices (known : List (PatchResult × Text)) : Services where
  crates := plainCrates
  evaluateChanges := fun _ _ => .ok ⟨true, false, "Change allowed at moderate level".toList, none⟩
  serialize := fun result => (known.find? (·.1 = result)).map Prod.snd
  deserialize := fun text => (known.find? (·.2 = text)).map Prod.fst
  lowercase := fun text => text
  levelText := fun _ => "Moderate".toList

def noteServices : Services := sampleServices [(dryAnswer, dryAnswerText)]

end PatchReplay

end Devit
