import Devit.Library.FileSystem
import Devit.Library.Runs
import Devit.Library.SlidingWindow
import Devit.RateLimits

/-! How often the daemon takes a screenshot. The instants of the last jobs are kept, oldest
first; those that are too old are popped from the front before they are counted, and an
instant is kept only once its job is ready. -/
namespace Devit
open Text Path FileSystem

inductive ScreenshotBackend where
  | scrot
  | imagemagick
  | native
  deriving DecidableEq, Repr

structure ScreenshotSettings where
  enabled : Bool
  backend : ScreenshotBackend
  format : Text
  outputDir : Option PathBuf

structure ScreenshotJob where
  path : PathBuf
  backend : ScreenshotBackend
  format : Text
  deriving DecidableEq

structure ScreenshotControl where
  enabled : Bool
  backend : ScreenshotBackend
  format : Text
  outputDir : PathBuf
  rateLimit : CapabilityRateLimit
  /-- Instants in nanoseconds. -/
  history : List Nat
  workspaceRoot : Option PathBuf

/-- Why a job is not prepared. -/
inductive PrepareError where
  | disabled
  | rateLimited (maxActions : UInt32) (window : UInt64)
  | io (e : Files.Errno)
  | outside (candidate : PathBuf)
  deriving DecidableEq

def PrepareError.message (describe : Files.Errno → Text) : PrepareError → Text
  | .disabled => "Screenshot capability is disabled by configuration".toList
  | .rateLimited maxActions window =>
    "Screenshot rate limit exceeded (max ".toList ++ printNat maxActions.toNat ++
      " per ".toList ++ printNat window.toNat ++ "s)".toList
  | .io e => describe e
  | .outside candidate =>
    "Screenshot path ".toList ++ candidate.text ++ " is outside of the allowed sandbox".toList

/-- One request for a screenshot: when it comes, how that time is written in a file name, and
the disk it finds. -/
structure ScreenshotRequest where
  now : Nat
  stamp : Text
  disk : Disk

namespace ScreenshotControl

section
variable (lowercase : Text → Text) (tempDir : PathBuf)

def fallbackScreenshotDirectory : PathBuf := pathJoin tempDir ⟨"devit-screenshots".toList⟩

def defaultScreenshotDirectory (workspaceRoot : Option PathBuf) : PathBuf :=
  match workspaceRoot with
  | some root => pathJoin (pathJoin root ⟨".devit".toList⟩) ⟨"screenshots".toList⟩
  | none => fallbackScreenshotDirectory tempDir

/-- `ScreenshotControl::new`. -/
def new (settings : ScreenshotSettings) (rateLimit : CapabilityRateLimit)
    (capabilityEnabled : Bool) (workspaceRoot : Option PathBuf) : ScreenshotControl where
  enabled := settings.enabled && capabilityEnabled
  backend := settings.backend
  format := if trim settings.format = [] then "png".toList else lowercase settings.format
  outputDir := settings.outputDir.getD (defaultScreenshotDirectory tempDir workspaceRoot)
  rateLimit := rateLimit
  history := []
  workspaceRoot := workspaceRoot

/-- A number of seconds, in nanoseconds. -/
def nanos (seconds : UInt64) : Nat := seconds.toNat * 10 ^ 9

def prune (control : ScreenshotControl) (now : Nat) : ScreenshotControl :=
  if control.rateLimit.maxActions = 0 ∨ control.rateLimit.perSeconds = 0 then
    { control with history := [] }
  else
    let window := nanos (max control.rateLimit.perSeconds 1)
    { control with history := SlidingWindow.expire window now control.history }

def isAllowed (control : ScreenshotControl) (path : PathBuf) : Bool :=
  (match control.workspaceRoot with
    | some root => pathStartsWith path root
    | none => false) || pathStartsWith path (fallbackScreenshotDirectory tempDir)

def candidate (control : ScreenshotControl) (stamp : Text) : PathBuf :=
  pathJoin control.outputDir ⟨"screenshot-".toList ++ stamp ++ '.' :: control.format⟩

/-- `ScreenshotControl::prepare_job`: the job, the disk as it is left, and the control. -/
def prepareJob (control : ScreenshotControl) (request : ScreenshotRequest) :
    (Except PrepareError ScreenshotJob × Disk) × ScreenshotControl :=
  if control.enabled = false then ((.error .disabled, request.disk), control)
  else
    let control := control.prune request.now
    let limit := control.rateLimit.maxActions
    -- the length is cut to 32 bits before it is compared
    if 0 < limit ∧ limit ≤ UInt32.ofNat control.history.length then
      ((.error (.rateLimited limit (max control.rateLimit.perSeconds 1)), request.disk), control)
    else
      match createDirAll control.outputDir request.disk with
      | (.error e, disk) => ((.error (.io e), disk), control)
      | (.ok (), disk) =>
        let candidate := control.candidate request.stamp
        if control.isAllowed tempDir candidate = false then
          ((.error (.outside candidate), disk), control)
        else
          ((.ok ⟨candidate, control.backend, control.format⟩, disk),
            { control with history := control.history ++ [request.now] })

/-- When the jobs of a run were granted. -/
def granted (control : ScreenshotControl) (requests : List ScreenshotRequest) : List Nat :=
  (requests.zip (Runs.outputs (prepareJob tempDir) control requests)).filterMap
    fun (request, outcome) => if outcome.1.isOk then some request.now else none

/-- A request is refused for coming too often. -/
def RateLimited (outcome : Except PrepareError ScreenshotJob) : Prop :=
  ∃ maxActions window, outcome = .error (.rateLimited maxActions window)

end

variable {lowercase : Text → Text} {tempDir : PathBuf} {control : ScreenshotControl}
  {request : ScreenshotRequest}

/-! ## One request -/

/-- The width of the window. -/
def width (limit : CapabilityRateLimit) : Nat := nanos limit.perSeconds

theorem max_one {perSeconds : UInt64} (positive : 0 < perSeconds) :
    max perSeconds 1 = perSeconds := by
  change (if perSeconds ≤ 1 then 1 else perSeconds) = perSeconds
  split
  · rename_i below
    have above := UInt64.lt_iff_toNat_lt.mp positive
    have least := UInt64.le_iff_toNat_le.mp below
    exact UInt64.toNat_inj.mp (Nat.le_antisymm above least)
  · rfl

theorem prune_limited (some_actions : 0 < control.rateLimit.maxActions)
    (some_time : 0 < control.rateLimit.perSeconds) (now : Nat) :
    control.prune now =
      { control with
        history := SlidingWindow.expire (width control.rateLimit) now control.history } := by
  have actions : control.rateLimit.maxActions ≠ 0 := by
    intro zero
    rw [zero] at some_actions
    exact absurd some_actions (by decide)
  have time : control.rateLimit.perSeconds ≠ 0 := by
    intro zero
    rw [zero] at some_time
    exact absurd some_time (by decide)
  rw [prune, if_neg (not_or.mpr ⟨actions, time⟩), max_one some_time]
  rfl

/-- What a request does to the instants kept, and what it then answers: it leaves what is
pruned, and is refused for coming too often only if that is as many as allowed; or it is
granted, with one less kept; or it is refused before anything is pruned. -/
inductive Taken (limit : CapabilityRateLimit) (now : Nat) (history : List Nat) :
    Except PrepareError ScreenshotJob → List Nat → Prop
  | refused {outcome} (refused : outcome.isOk = false)
      (full : RateLimited outcome → limit.maxActions.toNat ≤
        (SlidingWindow.expire (width limit) now history).length) :
      Taken limit now history outcome (SlidingWindow.expire (width limit) now history)
  | off : Taken limit now history (.error .disabled) history
  | granted {job}
      (room : (SlidingWindow.expire (width limit) now history).length <
        limit.maxActions.toNat) :
      Taken limit now history (.ok job) (SlidingWindow.expire (width limit) now history ++ [now])

theorem prepareJob_limit :
    (prepareJob tempDir control request).2.rateLimit = control.rateLimit := by
  have pruned : (control.prune request.now).rateLimit = control.rateLimit := by
    unfold prune
    split <;> rfl
  unfold prepareJob
  dsimp only
  split
  · rfl
  split
  · exact pruned
  split
  · exact pruned
  split <;> exact pruned

/-- The length is not changed by the cast where the queue is no longer than the limit. -/
theorem full_iff {limit : UInt32} {length : Nat} (few : length ≤ limit.toNat) :
    limit ≤ UInt32.ofNat length ↔ limit.toNat ≤ length := by
  rw [UInt32.le_iff_toNat_le, UInt32.toNat_ofNat',
    Nat.mod_eq_of_lt (Nat.lt_of_le_of_lt few limit.toNat_lt)]

theorem prepareJob_cases (some_actions : 0 < control.rateLimit.maxActions)
    (some_time : 0 < control.rateLimit.perSeconds)
    (few : (SlidingWindow.expire (width control.rateLimit) request.now control.history).length ≤
      control.rateLimit.maxActions.toNat) :
    Taken control.rateLimit request.now control.history (prepareJob tempDir control request).1.1
      (prepareJob tempDir control request).2.history := by
  unfold prepareJob
  rw [prune_limited some_actions some_time]
  dsimp only
  split
  · exact .off
  split
  · rename_i full
    exact .refused rfl fun _ => (full_iff few).mp full.2
  rename_i open_
  have room := Nat.lt_of_not_le fun full => open_ ⟨some_actions, (full_iff few).mpr full⟩
  split
  · exact .refused rfl nofun
  split
  · exact .refused rfl nofun
  · exact .granted room

/-! ## Runs -/

variable {settings : ScreenshotSettings} {rateLimit : CapabilityRateLimit} {enabled : Bool}
  {root : Option PathBuf}

theorem granted_concat (control : ScreenshotControl) (requests : List ScreenshotRequest)
    (request : ScreenshotRequest) :
    granted tempDir control (requests ++ [request]) = granted tempDir control requests ++
      if (prepareJob tempDir (Runs.final (prepareJob tempDir) control requests)
        request).1.1.isOk then [request.now] else [] := by
  rw [granted, Runs.outputs_concat, List.zip_append (Runs.outputs_length ..).symm,
    List.filterMap_append, ← granted]
  refine congrArg (granted tempDir control requests ++ ·) ?_
  simp only [List.zip_cons_cons, List.zip_nil_right, List.filterMap_cons, List.filterMap_nil]
  split <;> simp_all

/-- After a run the control keeps what the window reaches of what it granted. -/
structure Follows (tempDir : PathBuf) (control : ScreenshotControl)
    (requests : List ScreenshotRequest) (now : Nat) : Prop where
  limit : (Runs.final (prepareJob tempDir) control requests).rateLimit = control.rateLimit
  tracks : SlidingWindow.Tracks (width control.rateLimit) control.rateLimit.maxActions.toNat now
    (granted tempDir control requests)
    (Runs.final (prepareJob tempDir) control requests).history

theorem Follows.step {requests : List ScreenshotRequest} {before : Nat}
    (follows : Follows tempDir control requests before)
    (some_actions : 0 < control.rateLimit.maxActions)
    (some_time : 0 < control.rateLimit.perSeconds) (passes : before ≤ request.now) :
    Follows tempDir control (requests ++ [request]) request.now ∧
      (RateLimited
          (prepareJob tempDir (Runs.final (prepareJob tempDir) control requests) request).1.1 →
        control.rateLimit.maxActions.toNat ≤
          SlidingWindow.within (request.now - width control.rateLimit) request.now
            (granted tempDir control requests)) := by
  obtain ⟨expired, reached⟩ := follows.tracks.expire passes
  have taken := @prepareJob_cases tempDir (Runs.final (prepareJob tempDir) control requests) request
    (by rw [follows.limit]; exact some_actions) (by rw [follows.limit]; exact some_time)
    (by rw [follows.limit]; exact expired.few)
  have limit : (Runs.final (prepareJob tempDir) control (requests ++ [request])).rateLimit =
      control.rateLimit := by
    rw [Runs.final_concat, prepareJob_limit, follows.limit]
  rw [follows.limit] at taken
  suffices both : SlidingWindow.Tracks (width control.rateLimit)
      control.rateLimit.maxActions.toNat request.now
      (granted tempDir control (requests ++ [request]))
      (prepareJob tempDir (Runs.final (prepareJob tempDir) control requests) request).2.history ∧
      _ from
    ⟨⟨limit, by rw [Runs.final_concat]; exact both.1⟩, both.2⟩
  rw [granted_concat]
  generalize (prepareJob tempDir (Runs.final (prepareJob tempDir) control requests)
    request).1.1 = outcome at taken ⊢
  generalize (prepareJob tempDir (Runs.final (prepareJob tempDir) control requests)
    request).2.history = history at taken ⊢
  cases taken with
  | refused refused full =>
    rw [refused, if_neg Bool.false_ne_true, List.append_nil]
    exact ⟨expired, fun limited => expired.full reached (full limited)⟩
  | off =>
    rw [if_neg (by exact Bool.false_ne_true), List.append_nil]
    exact ⟨follows.tracks.wait passes, nofun⟩
  | granted room =>
    rw [if_pos (by rfl)]
    exact ⟨expired.grant reached room, nofun⟩

/-- **Rate limit.** No window has more granted requests than allowed, and a request is refused
for coming too often only if the window before it has as many. -/
theorem granted_in_window (settings : ScreenshotSettings) (rateLimit : CapabilityRateLimit)
    (enabled : Bool) (root : Option PathBuf) {requests : List ScreenshotRequest}
    (some_actions : 0 < rateLimit.maxActions) (some_time : 0 < rateLimit.perSeconds)
    (ordered : (requests.map ScreenshotRequest.now).Pairwise (· ≤ ·)) :
    (∀ first, SlidingWindow.within first (first + width rateLimit)
        (granted tempDir (new lowercase tempDir settings rateLimit enabled root) requests) ≤
      rateLimit.maxActions.toNat) ∧
    ∀ done request rest, requests = done ++ request :: rest →
      RateLimited (prepareJob tempDir (Runs.final (prepareJob tempDir)
        (new lowercase tempDir settings rateLimit enabled root) done) request).1.1 →
      rateLimit.maxActions.toNat ≤
        SlidingWindow.within (request.now - width rateLimit) request.now
          (granted tempDir (new lowercase tempDir settings rateLimit enabled root) done) := by
  generalize start : new lowercase tempDir settings rateLimit enabled root = control
  have limit : control.rateLimit = rateLimit := by rw [← start]; rfl
  have empty : control.history = [] := by rw [← start]; rfl
  subst limit
  have follows : ∀ done rest, requests = done ++ rest → ∃ now,
      Follows tempDir control done now ∧ ∀ request ∈ rest, now ≤ request.now := by
    intro done
    induction done using List.reverseRecOn with
    | nil =>
      intro rest shape
      refine ⟨0, ⟨rfl, ?_⟩, fun request _ => Nat.zero_le _⟩
      rw [Runs.final, empty]
      exact SlidingWindow.tracks_empty ..
    | append_singleton done request ih =>
      intro rest shape
      rw [List.append_assoc, List.singleton_append] at shape
      obtain ⟨now, follows, later⟩ := ih (request :: rest) shape
      refine ⟨request.now, (follows.step some_actions some_time (later _ List.mem_cons_self)).1, ?_⟩
      rw [shape, List.map_append, List.map_cons] at ordered
      have after := (List.pairwise_cons.mp (List.pairwise_append.mp ordered).2.1).1
      exact fun other member => after _ (List.mem_map_of_mem member)
  constructor
  · obtain ⟨now, follows, -⟩ := follows requests [] (List.append_nil _).symm
    exact follows.tracks.windows
  · intro done request rest shape
    obtain ⟨now, follows, later⟩ := follows done (request :: rest) shape
    exact (follows.step some_actions some_time (later _ List.mem_cons_self)).2

/-- A control that grants one job a minute, and two requests at one time. -/
def oneAMinute : ScreenshotControl :=
  new id ⟨"/tmp".toList⟩ ⟨true, .scrot, "png".toList, none⟩ ⟨1, 60⟩ true (some ⟨"/w".toList⟩)

def twoAtOnce : List ScreenshotRequest :=
  let disk : Disk := ⟨Files.put (fun _ => none) ["w".toList] (some .dir), [], []⟩
  [⟨7, "a".toList, disk⟩, ⟨7, "b".toList, disk⟩]

/-- One of the two is granted. -/
theorem one_of_two_granted : granted ⟨"/tmp".toList⟩ oneAMinute twoAtOnce = [7] ∧
    SlidingWindow.within 7 (7 + width ⟨1, 60⟩)
      (granted ⟨"/tmp".toList⟩ oneAMinute twoAtOnce) ≤ 1 :=
  ⟨by decide +kernel, (granted_in_window _ _ _ _ (by decide) (by decide) (by decide)).1 7⟩

end ScreenshotControl

end Devit
