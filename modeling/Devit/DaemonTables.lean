import Devit.DaemonEffects

/-! What a step does to the tables of leases and of tasks: it delegates a task, denies
one, takes a notification of one, lets leases run out, or changes none of them. -/
namespace Devit
open Text Path

namespace Daemon

section
variable (crates : DaemonCrates)

/-- The step delegates a task: the policy allows it to a worker that can be reached, or
its approval is granted. `msg` is the message that asked for it. -/
inductive Delegates (s : State) : Event → Reading → Msg → Text → Prop
  | allowed {reading msg} (authentic : verifyHmac crates s.secret msg = true)
      (type : msg.msgType = "DELEGATE".toList)
      (allow : policyEval (toolOf msg.payload) msg.payload = .allow)
      (reachable : msg.recipient ∈ s.workerConfigs ∨
        isClientAlive reading.instant msg.recipient s = true) :
      Delegates s (.message reading msg) reading msg msg.msgId
  | granted {reading msg pending} (authentic : verifyHmac crates s.secret msg = true)
      (type : msg.msgType = "APPROVAL_DECISION".toList)
      (found : s.pendingApprovals.lookup msg.msgId = some pending)
      (status : statusOf "unknown" msg = "granted".toList) :
      Delegates s (.message reading msg) reading pending.originalMsg pending.taskId

/-- The step fails a task at once: the policy denies it, or its approval is denied. -/
inductive Denies (s : State) : Event → Reading → Msg → Text → Prop
  | policy {reading msg} (authentic : verifyHmac crates s.secret msg = true)
      (type : msg.msgType = "DELEGATE".toList)
      (deny : policyEval (toolOf msg.payload) msg.payload = .deny) :
      Denies s (.message reading msg) reading msg msg.msgId
  | denied {reading msg pending} (authentic : verifyHmac crates s.secret msg = true)
      (type : msg.msgType = "APPROVAL_DECISION".toList)
      (found : s.pendingApprovals.lookup msg.msgId = some pending)
      (status : statusOf "unknown" msg = "denied".toList) :
      Denies s (.message reading msg) reading pending.originalMsg pending.taskId

/-- The step takes a notification, of a client or of a worker process that ended. -/
inductive Reports (s : State) : Event → Reading → Msg → Prop
  | client {reading msg} (authentic : verifyHmac crates s.secret msg = true)
      (type : msg.msgType = "NOTIFY".toList) (report : isAck msg = false) :
      Reports s (.message reading msg) reading msg
  | worker {reading i outcome task} (runs : s.running[i]? = some task) :
      Reports s (.finished reading i outcome) reading
        (signMsg crates s.secret (workerReport reading task outcome))

end

/-- The tables of leases and of tasks are the same. -/
structure SameTables (s s' : State) : Prop where
  leases : s'.leases = s.leases
  expiredLeases : s'.expiredLeases = s.expiredLeases
  tasksActive : s'.tasksActive = s.tasksActive
  tasksCompleted : s'.tasksCompleted = s.tasksCompleted

/-- The state in which a task is leased to the worker it was delegated to. -/
def delegatedState (reading : Reading) (msg : Msg) (taskId : Text) (notifyWorker : Bool)
    (s : State) : State :=
  let details := parseTaskDetails (field "task" msg.payload) taskId
  { s with
    leases := s.leases.insert taskId (newLease reading msg taskId msg.recipient
      (strField "return_to" msg.payload) details)
    tasksActive := s.tasksActive.insert taskId
      (delegatedTask reading taskId msg.recipient notifyWorker details) }

/-- The state in which a task has failed at once. -/
def failedState (reading : Reading) (msg : Msg) (taskId : Text) (artifacts : Json) (s : State) :
    State :=
  { s with
    tasksCompleted := pruned reading (s.tasksCompleted.insert taskId
      (failedTask reading taskId msg.recipient artifacts
        (parseTaskDetails (field "task" msg.payload) taskId))) }

/-- The state in which a notification has taken the lease and made the record new. -/
def notifiedState (reading : Reading) (msg : Msg) (s : State) : State :=
  renewTask reading (notifiedTask msg)
    (notifiedRenewal reading (heldLease (notifiedTask msg) s) msg (notifiedTask msg))
    (takeLease (notifiedTask msg) s).2

section
variable (crates : DaemonCrates)

inductive TableSteps (s : State) (event : Event) (s' : State) : Prop
  | same (tables : SameTables s s')
  | delegated {reading msg taskId} (notifyWorker : Bool)
      (delegates : Delegates crates s event reading msg taskId)
      (tables : SameTables (delegatedState reading msg taskId notifyWorker s) s')
  | denied {reading msg taskId} (artifacts : Json)
      (denies : Denies crates s event reading msg taskId)
      (tables : SameTables (failedState reading msg taskId artifacts s) s')
  | notified {reading msg} (reports : Reports crates s event reading msg)
      (tables : SameTables (notifiedState reading msg s) s')
  | swept {reading} (sweep : event = .sweep reading)
      (tables : SameTables (expireLeases crates reading s (expiredIds reading s).zipIdx) s')

end

variable {crates : DaemonCrates} {reading : Reading} {s s' : State} {msg : Msg}

/-! ## Reports of worker processes -/

theorem workerReport_status (task : WorkerTask) (outcome : WorkerOutcome) :
    strField "status" (workerReport reading task outcome).payload = some outcome.status.text := by
  unfold strField field workerReport
  rw [Json.get_ofFields]
  cases task.returnTo with
  | none => simp [Json.asStr]
  | some returnTo => simp [Json.asStr]

theorem workerReport_isAck (task : WorkerTask) (outcome : WorkerOutcome) :
    isAck (signMsg crates s.secret (workerReport reading task outcome)) = false := by
  change ((strField "status" (workerReport reading task outcome).payload).any _) = false
  rw [workerReport_status]
  cases outcome.status <;> decide

/-- A worker process ends with a status that its task does not leave. -/
theorem workerReport_terminal (task : WorkerTask) (outcome : WorkerOutcome) :
    (mapStatus (statusOf "completed"
      (signMsg crates s.secret (workerReport reading task outcome)))).terminal = true := by
  have status : statusOf "completed"
      (signMsg crates s.secret (workerReport reading task outcome)) = outcome.status.text := by
    change (strField "status" (workerReport reading task outcome).payload).getD _ = _
    rw [workerReport_status]
    rfl
  rw [status]
  cases outcome.status <;> decide

/-! ## One step -/

theorem SameTables.refl (s : State) : SameTables s s := ⟨rfl, rfl, rfl, rfl⟩

/-- A delegation, once other parts of the state may have changed. -/
theorem proceed_tables {taskId tool : Text} {notify : Bool} (before : SameTables s s') :
    SameTables (delegatedState reading msg taskId notify s)
      (proceedWithDelegation reading msg taskId msg.recipient (strField "return_to" msg.payload)
        tool notify (parseTaskDetails (field "task" msg.payload) taskId) s') := by
  obtain ⟨_, _, _, framed⟩ := @proceed_frame reading s' msg taskId msg.recipient tool
    (strField "return_to" msg.payload) notify (parseTaskDetails (field "task" msg.payload) taskId)
  rw [framed]
  obtain ⟨leases, expiredLeases, active, completed⟩ := before
  refine ⟨?_, expiredLeases, ?_, completed⟩
  · simp only [delegatedState, leases]
  · simp only [delegatedState, active]

theorem failDelegation_tables {taskId : Text} {artifacts : Json} (before : SameTables s s') :
    SameTables (failedState reading msg taskId artifacts s)
      (failDelegation crates reading msg taskId artifacts s') := by
  obtain ⟨_, _, framed⟩ := @failDelegation_frame crates reading s' msg taskId artifacts
  rw [framed]
  obtain ⟨leases, expiredLeases, active, completed⟩ := before
  refine ⟨leases, expiredLeases, active, ?_⟩
  simp only [failedState, completed]

theorem handleNotify_tables (report : isAck msg = false) (before : SameTables s s') :
    SameTables (notifiedState reading msg s) (handleNotify crates reading msg s') := by
  obtain ⟨data, handled⟩ := @handleNotify_eq crates reading s' msg report
  obtain ⟨leases, expiredLeases, active, completed⟩ := before
  have same : SameTables (notifiedState reading msg s) (notifiedState reading msg s') := by
    unfold notifiedState
    simp only [renewTask, finalizeTask_eq, takeTask_eq, takeLease_eq, heldLease, leases,
      expiredLeases, active, completed]
    exact ⟨rfl, rfl, rfl, rfl⟩
  rw [handled]
  exact ⟨same.leases, same.expiredLeases, same.tasksActive, same.tasksCompleted⟩

theorem delegate_tables (authentic : verifyHmac crates s.secret msg = true)
    (type : msg.msgType = "DELEGATE".toList) :
    TableSteps crates s (.message reading msg) (handleDelegate crates reading msg s).2 := by
  unfold handleDelegate
  cases decision : policyEval (toolOf msg.payload) msg.payload with
  | deny =>
    simp only [decision]
    refine .denied (policyArtifacts msg (toolOf msg.payload)) (.policy authentic type decision) ?_
    exact failDelegation_tables ⟨rfl, rfl, rfl, rfl⟩
  | needApproval =>
    simp only [decision]
    exact .same ⟨rfl, rfl, rfl, rfl⟩
  | allow =>
    simp only [decision, delegateAllowed]
    split
    · rename_i configured
      refine .delegated false (.allowed authentic type decision (.inl configured)) ?_
      obtain ⟨leases, expiredLeases, active, completed⟩ :=
        @proceed_tables reading s s msg msg.msgId (toolOf msg.payload) false (.refl s)
      exact ⟨leases, expiredLeases, active, completed⟩
    · split
      · rename_i alive
        refine .delegated true (.allowed authentic type decision (.inr alive)) ?_
        exact proceed_tables (.refl s)
      · exact .same (.refl s)

theorem decision_tables (authentic : verifyHmac crates s.secret msg = true)
    (type : msg.msgType = "APPROVAL_DECISION".toList) :
    TableSteps crates s (.message reading msg) (handleApprovalDecision crates reading msg s) := by
  unfold handleApprovalDecision
  cases found : s.pendingApprovals.lookup msg.msgId with
  | none => exact .same (.refl s)
  | some pending =>
    dsimp only
    split
    · rename_i status
      refine .delegated true (.granted authentic type found status) ?_
      exact proceed_tables ⟨rfl, rfl, rfl, rfl⟩
    · split
      · rename_i status
        refine .denied (denialArtifacts msg pending) (.denied authentic type found status) ?_
        exact failDelegation_tables ⟨rfl, rfl, rfl, rfl⟩
      · exact .same ⟨rfl, rfl, rfl, rfl⟩

theorem handlePoll_tables (msg : Msg) (s : State) : SameTables s (handlePoll msg s).2 :=
  ⟨rfl, rfl, rfl, rfl⟩

theorem handleHeartbeat_tables (msg : Msg) (s : State) :
    SameTables s (handleHeartbeat reading msg s).2 := by
  unfold handleHeartbeat
  split <;> exact ⟨rfl, rfl, rfl, rfl⟩

theorem handleRegister_tables (msg : Msg) (s : State) :
    SameTables s (handleRegister reading msg s).2 := by
  unfold handleRegister
  split <;> exact ⟨rfl, rfl, rfl, rfl⟩

theorem sweep_tables (s : State) :
    SameTables (expireLeases crates reading s (expiredIds reading s).zipIdx)
      (cleanupExpired crates reading s) := by
  rw [cleanupExpired_eq]
  obtain ⟨_, _, dropped⟩ := dropClients_frame (deadClients reading s)
    (expireLeases crates reading s (expiredIds reading s).zipIdx)
  rw [dropped]
  exact ⟨rfl, rfl, rfl, rfl⟩

theorem table_steps {event : Event} {answer : Option Msg} (steps : Steps crates s event answer s') :
    TableSteps crates s event s' := by
  cases steps with
  | forged forged => exact .same (.refl s)
  | unknown type => exact .same (.refl s)
  | register authentic type => exact .same (handleRegister_tables _ s)
  | heartbeat authentic type => exact .same (handleHeartbeat_tables _ s)
  | delegate authentic type => exact delegate_tables authentic type
  | notify authentic type =>
    rename_i reading msg
    cases report : isAck msg with
    | true =>
      unfold handleNotify
      simp only [report, if_true]
      exact .same (.refl s)
    | false =>
      exact .notified (.client authentic type report) (handleNotify_tables report (.refl s))
  | decision authentic type => exact decision_tables authentic type
  | poll authentic type => exact .same (handlePoll_tables _ s)
  | report authentic type => exact .same (.refl s)
  | sweep => exact .swept rfl (sweep_tables s)
  | idle none_running => exact .same (.refl s)
  | finished runs =>
    apply TableSteps.notified (.worker runs)
    exact handleNotify_tables (workerReport_isAck _ _) ⟨rfl, rfl, rfl, rfl⟩

/-- A notification leaves no lease of its task. -/
theorem notifiedState_leases (msg : Msg) (other : Text) :
    (notifiedState reading msg s).leases.lookup other =
      if other = notifiedTask msg then none else s.leases.lookup other := by
  unfold notifiedState
  rw [renewTask_frame, takeLease_eq]
  dsimp only
  split
  · exact Table.lookup_erase_if _ other
  · rename_i absent
    split
    · rename_i same
      rw [same]
      simpa using absent
    · rfl

/-! ## Steps of known kinds -/

theorem step_delegate (authentic : verifyHmac crates s.secret msg = true)
    (type : msg.msgType = "DELEGATE".toList) :
    (step crates s (.message reading msg)).2 = (handleDelegate crates reading msg s).2 := by
  simp only [step, handleMessage, authentic, type]
  rw [if_neg (by decide), if_neg (by decide), if_neg (by decide), if_pos trivial]

theorem step_notify (authentic : verifyHmac crates s.secret msg = true)
    (type : msg.msgType = "NOTIFY".toList) :
    (step crates s (.message reading msg)).2 = handleNotify crates reading msg s := by
  simp only [step, handleMessage, authentic, type]
  rw [if_neg (by decide), if_neg (by decide), if_neg (by decide), if_neg (by decide),
    if_pos trivial]

theorem step_decision (authentic : verifyHmac crates s.secret msg = true)
    (type : msg.msgType = "APPROVAL_DECISION".toList) :
    (step crates s (.message reading msg)).2 = handleApprovalDecision crates reading msg s := by
  simp only [step, handleMessage, authentic, type]
  rw [if_neg (by decide), if_neg (by decide), if_neg (by decide), if_neg (by decide),
    if_neg (by decide), if_pos trivial]

theorem step_forged (forged : verifyHmac crates s.secret msg = false) :
    (step crates s (.message reading msg)).2 = s := by
  simp only [step, handleMessage, forged, if_true]

theorem delegates_tables {event : Event} {taskId : Text}
    (delegates : Delegates crates s event reading msg taskId) :
    ∃ notifyWorker, SameTables (delegatedState reading msg taskId notifyWorker s)
      (step crates s event).2 := by
  cases delegates with
  | allowed authentic type allow reachable =>
    rw [step_delegate authentic type]
    simp only [handleDelegate, allow, delegateAllowed]
    split
    · obtain ⟨leases, expiredLeases, active, completed⟩ :=
        @proceed_tables reading s s msg msg.msgId (toolOf msg.payload) false (.refl s)
      exact ⟨false, leases, expiredLeases, active, completed⟩
    · rename_i unconfigured
      rw [if_pos (reachable.resolve_left unconfigured)]
      exact ⟨true, proceed_tables (.refl s)⟩
  | granted authentic type found status =>
    rw [step_decision authentic type]
    simp only [handleApprovalDecision, found, status, if_true]
    exact ⟨true, proceed_tables ⟨rfl, rfl, rfl, rfl⟩⟩

theorem reports_tables {event : Event} (reports : Reports crates s event reading msg) :
    SameTables (notifiedState reading msg s) (step crates s event).2 := by
  cases reports with
  | client authentic type report =>
    rw [step_notify authentic type]
    exact handleNotify_tables report (.refl s)
  | worker runs =>
    simp only [step, workerFinished, runs]
    exact handleNotify_tables (workerReport_isAck _ _) ⟨rfl, rfl, rfl, rfl⟩

end Daemon

end Devit
