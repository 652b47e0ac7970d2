import Devit.TaskTables

/-! Approvals. Work on a task is started by a delegation that the policy allows, or by
a decision that grants an approval which an earlier delegation asked for; whoever sends
the decision. An approval leads to exactly one outcome as long as the first decision on
it is a grant or a denial: any other takes the approval away. -/
namespace Devit
open Text Path

namespace Approvals
open Daemon NotificationDelivery

section
variable (crates : DaemonCrates)

/-- The step asks for the approval of a delegation. -/
inductive Asks (s : State) : Event → Reading → Msg → Prop
  | mk {reading msg} (authentic : verifyHmac crates s.secret msg = true)
      (type : msg.msgType = "DELEGATE".toList)
      (ask : policyEval (toolOf msg.payload) msg.payload = .needApproval) :
      Asks s (.message reading msg) reading msg

/-- The step takes a decision on a pending approval. -/
inductive Decides (s : State) : Event → Reading → Msg → PendingApproval → Prop
  | mk {reading msg pending} (authentic : verifyHmac crates s.secret msg = true)
      (type : msg.msgType = "APPROVAL_DECISION".toList)
      (found : s.pendingApprovals.lookup msg.msgId = some pending) :
      Decides s (.message reading msg) reading msg pending

/-- What is kept of a delegation until its approval is decided. -/
def pendingOf (reading : Reading) (msg : Msg) : PendingApproval :=
  ⟨msg.msgId, msg, toolOf msg.payload, reading.instant⟩

inductive ApprovalSteps (s : State) (event : Event) (s' : State) : Prop
  | same (approvals : s'.pendingApprovals = s.pendingApprovals)
  | asked {reading msg} (asks : Asks crates s event reading msg)
      (approvals : s'.pendingApprovals =
        s.pendingApprovals.insert (reading.uuid 0) (pendingOf reading msg))
  | decided {reading msg pending} (decides : Decides crates s event reading msg pending)
      (approvals : s'.pendingApprovals = s.pendingApprovals.erase msg.msgId)

/-- A message that a step queues is a notification, a request for approval, or passes
on the task that the step delegates. -/
def Sends (s : State) (event : Event) (s' : State) : Prop :=
  ∃ sent, s'.queued = s.queued ++ sent ∧ ∀ client msg, (client, msg) ∈ sent →
    msg.msgType = "NOTIFY".toList ∨ msg.msgType = "APPROVAL".toList ∨
      ∃ reading original, Delegates crates s event reading original msg.msgId

/-- A worker process that runs did so before, or is started for the task that the step
delegates. -/
def Launches (s : State) (event : Event) (s' : State) : Prop :=
  ∀ task ∈ s'.running, task ∈ s.running ∨
    ∃ reading msg, Delegates crates s event reading msg task.id

end

variable {crates : DaemonCrates} {reading : Reading} {s s' : State} {msg : Msg} {event : Event}

/-! ## One step -/

/-- What a notification leaves alone. -/
theorem handleNotify_frame (reading : Reading) (msg : Msg) (s : State) :
    ∃ leases expiredLeases tasksActive tasksCompleted pendingNotifications journal queued,
      handleNotify crates reading msg s = { s with
        leases := leases
        expiredLeases := expiredLeases
        tasksActive := tasksActive
        tasksCompleted := tasksCompleted
        pendingNotifications := pendingNotifications
        journal := journal
        queued := queued } := by
  cases report : isAck msg with
  | true =>
    unfold handleNotify
    simp only [report, if_true]
    exact ⟨_, _, _, _, _, _, _, rfl⟩
  | false =>
    obtain ⟨data, handled⟩ := @handleNotify_eq crates reading s msg report
    rw [handled, renewTask_frame, takeLease_eq]
    exact ⟨_, _, _, _, _, _, _, rfl⟩

theorem Sends.of_same (queued : s'.queued = s.queued) : Sends crates s event s' :=
  ⟨[], by rw [queued, List.append_nil], nofun⟩

theorem handleNotify_sends (reading : Reading) (msg : Msg) (s : State) :
    ∃ sent, (handleNotify crates reading msg s).queued = s.queued ++ sent ∧
      ∀ client notice, (client, notice) ∈ sent → notice.msgType = "NOTIFY".toList := by
  cases report : isAck msg with
  | true =>
    unfold handleNotify
    simp only [report, if_true]
    exact ⟨[], (List.append_nil _).symm, nofun⟩
  | false =>
    refine ⟨_, (handleNotify_queues report).queued, ?_⟩
    intro client notice member
    rw [List.mem_singleton] at member
    cases member
    rfl

/-- The notices of a failed delegation are notifications. -/
theorem failure_notices {client target taskId : Text} {artifacts : Json} {original notice : Msg}
    {k : Nat}
    (member : (client, notice) ∈ (target, signMsg crates s.secret
        (failureNotification reading k target taskId artifacts)) ::
      if target = original.sender then []
      else [(original.sender, signMsg crates s.secret
        (failureNotification reading 2 original.sender taskId artifacts))]) :
    notice.msgType = "NOTIFY".toList := by
  rcases List.mem_cons.mp member with same | rest
  · cases same
    rfl
  · split at rest
    · cases rest
    · rw [List.mem_singleton] at rest
      cases rest
      rfl

theorem delegate_sends (authentic : verifyHmac crates s.secret msg = true)
    (type : msg.msgType = "DELEGATE".toList) :
    Sends crates s (.message reading msg) (handleDelegate crates reading msg s).2 := by
  unfold handleDelegate
  cases decision : policyEval (toolOf msg.payload) msg.payload with
  | deny =>
    simp only [decision]
    refine ⟨_, delegateDenied_queues.queued, fun client notice member => ?_⟩
    exact .inl (failure_notices member)
  | needApproval =>
    simp only [decision]
    refine ⟨_, handleApprovalRequest_queues.queued, fun client notice member => ?_⟩
    rw [List.mem_singleton] at member
    cases member
    exact .inr (.inl rfl)
  | allow =>
    simp only [decision]
    refine ⟨_, delegateAllowed_queues.queued, fun client notice member => ?_⟩
    split at member
    · rename_i told
      rw [List.mem_singleton] at member
      cases member
      exact .inr (.inr ⟨reading, msg, .allowed authentic type decision (.inr told.2)⟩)
    · cases member

theorem decision_sends (authentic : verifyHmac crates s.secret msg = true)
    (type : msg.msgType = "APPROVAL_DECISION".toList) :
    Sends crates s (.message reading msg) (handleApprovalDecision crates reading msg s) := by
  refine ⟨_, handleApprovalDecision_queues.queued, fun client notice member => ?_⟩
  cases found : s.pendingApprovals.lookup msg.msgId with
  | none =>
    rw [found] at member
    cases member
  | some pending =>
    rw [found] at member
    simp only [decisionNotices] at member
    split at member
    · rename_i granted
      rw [List.mem_singleton] at member
      cases member
      exact .inr (.inr ⟨reading, pending.originalMsg, .granted authentic type found granted⟩)
    · split at member
      · exact .inl (failure_notices member)
      · cases member

theorem sweep_sends (s : State) : ∃ sent,
    (cleanupExpired crates reading s).queued = s.queued ++ sent ∧
      ∀ client notice, (client, notice) ∈ sent → notice.msgType = "NOTIFY".toList := by
  rw [cleanupExpired_eq]
  obtain ⟨_, _, dropped⟩ := dropClients_frame (deadClients reading s)
    (expireLeases crates reading s (expiredIds reading s).zipIdx)
  rw [dropped]
  refine ⟨_, (expireLeases_queues (expiredIds_nodup s)).queued, fun client notice member => ?_⟩
  obtain ⟨⟨id, i⟩, -, told⟩ := List.mem_filterMap.mp member
  obtain ⟨lease, -, same⟩ := Option.map_eq_some_iff.mp told
  cases same
  rfl

theorem steps_send {answer : Option Msg} (steps : Steps crates s event answer s') :
    Sends crates s event s' := by
  cases steps with
  | forged forged => exact .of_same rfl
  | unknown type => exact .of_same rfl
  | register authentic type =>
    apply Sends.of_same
    unfold handleRegister
    split <;> rfl
  | heartbeat authentic type =>
    apply Sends.of_same
    unfold handleHeartbeat
    split <;> rfl
  | delegate authentic type => exact delegate_sends authentic type
  | notify authentic type =>
    obtain ⟨sent, queued, notices⟩ := @handleNotify_sends crates _ _ s
    exact ⟨sent, queued, fun client notice member => .inl (notices client notice member)⟩
  | decision authentic type => exact decision_sends authentic type
  | poll authentic type => exact .of_same rfl
  | report authentic type => exact .of_same rfl
  | sweep =>
    obtain ⟨sent, queued, notices⟩ := @sweep_sends crates _ s
    exact ⟨sent, queued, fun client notice member => .inl (notices client notice member)⟩
  | idle none_running => exact .of_same rfl
  | finished runs =>
    obtain ⟨sent, queued, notices⟩ := @handleNotify_sends crates _ _ _
    exact ⟨sent, queued, fun client notice member => .inl (notices client notice member)⟩

/-- The running tasks, the pending approvals and the secret are as before. -/
structure Kept (s s' : State) : Prop where
  running : s'.running = s.running
  pendingApprovals : s'.pendingApprovals = s.pendingApprovals
  secret : s'.secret = s.secret

theorem handleNotify_kept (reading : Reading) (msg : Msg) (s : State) :
    Kept s (handleNotify crates reading msg s) := by
  obtain ⟨_, _, _, _, _, _, _, framed⟩ := @handleNotify_frame crates reading msg s
  rw [framed]
  exact ⟨rfl, rfl, rfl⟩

theorem denied_kept (reading : Reading) (msg : Msg) (s : State) :
    Kept s (delegateDenied crates reading msg (toolOf msg.payload) s).2 := by
  simp only [delegateDenied]
  obtain ⟨_, _, framed⟩ := @failDelegation_frame crates reading (appendJournal "POLICY" msg.msgId
    msg.sender orchestrator (.ofFields [("decision", .string "deny".toList),
      ("tool", .string (toolOf msg.payload)), ("reason", .string "policy_forbidden".toList)]) s)
    msg msg.msgId (policyArtifacts msg (toolOf msg.payload))
  rw [framed]
  exact ⟨rfl, rfl, rfl⟩

theorem sweep_kept (reading : Reading) (s : State) : Kept s (cleanupExpired crates reading s) := by
  obtain ⟨_, _, _, _, _, _, _, framed⟩ :=
    @expireLeases_frame crates reading s (expiredIds reading s).zipIdx
  obtain ⟨_, _, dropped⟩ := dropClients_frame (deadClients reading s)
    (expireLeases crates reading s (expiredIds reading s).zipIdx)
  rw [cleanupExpired_eq, dropped, framed]
  exact ⟨rfl, rfl, rfl⟩

theorem Launches.of_same (running : s'.running = s.running) : Launches crates s event s' := by
  intro task member
  rw [running] at member
  exact .inl member

theorem delegate_launches (authentic : verifyHmac crates s.secret msg = true)
    (type : msg.msgType = "DELEGATE".toList) :
    Launches crates s (.message reading msg) (handleDelegate crates reading msg s).2 := by
  unfold handleDelegate
  cases decision : policyEval (toolOf msg.payload) msg.payload with
  | deny =>
    simp only [decision]
    exact .of_same (denied_kept reading msg s).running
  | needApproval =>
    simp only [decision]
    exact .of_same rfl
  | allow =>
    simp only [decision, delegateAllowed]
    obtain ⟨_, _, _, framed⟩ := @proceed_frame reading s msg msg.msgId msg.recipient
      (toolOf msg.payload) (strField "return_to" msg.payload) false
      (parseTaskDetails (field "task" msg.payload) msg.msgId)
    split
    · rename_i configured
      intro task member
      rw [framed] at member
      rcases List.mem_append.mp member with before | started
      · exact .inl before
      · rw [List.mem_singleton] at started
        subst started
        exact .inr ⟨reading, msg, .allowed authentic type decision (.inl configured)⟩
    · split
      · apply Launches.of_same
        obtain ⟨_, _, _, framed⟩ := @proceed_frame reading s msg msg.msgId msg.recipient
          (toolOf msg.payload) (strField "return_to" msg.payload) true
          (parseTaskDetails (field "task" msg.payload) msg.msgId)
        rw [framed]
      · exact .of_same rfl

/-- What a decision leaves alone. -/
theorem handleApprovalDecision_frame (reading : Reading) (msg : Msg) (s : State) :
    ∃ leases pendingNotifications journal tasksActive tasksCompleted queued,
      handleApprovalDecision crates reading msg s = { s with
        leases := leases
        pendingNotifications := pendingNotifications
        pendingApprovals := s.pendingApprovals.erase msg.msgId
        journal := journal
        tasksActive := tasksActive
        tasksCompleted := tasksCompleted
        queued := queued } := by
  unfold handleApprovalDecision
  cases found : s.pendingApprovals.lookup msg.msgId with
  | none =>
    rw [Table.erase_of_none found]
    exact ⟨_, _, _, _, _, _, rfl⟩
  | some pending =>
    dsimp only
    split
    · obtain ⟨_, _, _, framed⟩ := @proceed_frame reading (appendJournal "POLICY" msg.msgId msg.sender
        orchestrator (decisionRecord msg pending "granted")
        { s with pendingApprovals := s.pendingApprovals.erase msg.msgId }) pending.originalMsg
        pending.taskId pending.originalMsg.recipient pending.tool
        (strField "return_to" pending.originalMsg.payload) true
        (parseTaskDetails (field "task" pending.originalMsg.payload) pending.taskId)
      rw [framed]
      exact ⟨_, _, _, _, _, _, rfl⟩
    · split
      · obtain ⟨_, _, framed⟩ := @failDelegation_frame crates reading (appendJournal "POLICY" msg.msgId
          msg.sender orchestrator (decisionRecord msg pending "denied")
          { s with pendingApprovals := s.pendingApprovals.erase msg.msgId }) pending.originalMsg
          pending.taskId (denialArtifacts msg pending)
        rw [framed]
        exact ⟨_, _, _, _, _, _, rfl⟩
      · exact ⟨_, _, _, _, _, _, rfl⟩

theorem steps_launch {answer : Option Msg} (steps : Steps crates s event answer s') :
    Launches crates s event s' := by
  cases steps with
  | forged forged => exact .of_same rfl
  | unknown type => exact .of_same rfl
  | register authentic type =>
    apply Launches.of_same
    unfold handleRegister
    split <;> rfl
  | heartbeat authentic type =>
    apply Launches.of_same
    unfold handleHeartbeat
    split <;> rfl
  | delegate authentic type => exact delegate_launches authentic type
  | notify authentic type =>
    exact .of_same (handleNotify_kept _ _ s).running
  | decision authentic type =>
    rename_i reading msg
    obtain ⟨_, _, _, _, _, _, framed⟩ := @handleApprovalDecision_frame crates reading msg s
    rw [framed]
    exact .of_same rfl
  | poll authentic type => exact .of_same rfl
  | report authentic type => exact .of_same rfl
  | sweep =>
    exact .of_same (sweep_kept _ s).running
  | idle none_running => exact .of_same rfl
  | finished runs =>
    rename_i reading i outcome task
    have kept := @handleNotify_kept crates reading
      (signMsg crates s.secret (workerReport reading task outcome))
      { s with running := s.running.eraseIdx i }
    intro other member
    rw [kept.running] at member
    exact .inl (List.mem_of_mem_eraseIdx member)

theorem delegate_approvals (authentic : verifyHmac crates s.secret msg = true)
    (type : msg.msgType = "DELEGATE".toList) :
    ApprovalSteps crates s (.message reading msg) (handleDelegate crates reading msg s).2 ∧
      (handleDelegate crates reading msg s).2.secret = s.secret := by
  unfold handleDelegate
  cases decision : policyEval (toolOf msg.payload) msg.payload with
  | deny =>
    simp only [decision]
    have kept := @denied_kept crates reading msg s
    exact ⟨.same kept.pendingApprovals, kept.secret⟩
  | needApproval =>
    simp only [decision]
    exact ⟨.asked (.mk authentic type decision) rfl, rfl⟩
  | allow =>
    simp only [decision, delegateAllowed]
    have framed : ∀ notify, (proceedWithDelegation reading msg msg.msgId msg.recipient
        (strField "return_to" msg.payload) (toolOf msg.payload) notify
        (parseTaskDetails (field "task" msg.payload) msg.msgId) s).pendingApprovals =
          s.pendingApprovals ∧ (proceedWithDelegation reading msg msg.msgId msg.recipient
        (strField "return_to" msg.payload) (toolOf msg.payload) notify
        (parseTaskDetails (field "task" msg.payload) msg.msgId) s).secret = s.secret := by
      intro notify
      obtain ⟨_, _, _, framed⟩ := @proceed_frame reading s msg msg.msgId msg.recipient
        (toolOf msg.payload) (strField "return_to" msg.payload) notify
        (parseTaskDetails (field "task" msg.payload) msg.msgId)
      rw [framed]
      exact ⟨rfl, rfl⟩
    split
    · exact ⟨.same (framed false).1, (framed false).2⟩
    · split
      · exact ⟨.same (framed true).1, (framed true).2⟩
      · exact ⟨.same rfl, rfl⟩

/-- Every step changes the pending approvals in one of three ways, and no step changes
the secret. -/
theorem approval_steps {answer : Option Msg} (steps : Steps crates s event answer s') :
    ApprovalSteps crates s event s' ∧ s'.secret = s.secret := by
  cases steps with
  | forged forged => exact ⟨.same rfl, rfl⟩
  | unknown type => exact ⟨.same rfl, rfl⟩
  | register authentic type =>
    unfold handleRegister
    split <;> exact ⟨.same rfl, rfl⟩
  | heartbeat authentic type =>
    unfold handleHeartbeat
    split <;> exact ⟨.same rfl, rfl⟩
  | delegate authentic type => exact delegate_approvals authentic type
  | notify authentic type =>
    rename_i reading msg
    have kept := @handleNotify_kept crates reading msg s
    exact ⟨.same kept.pendingApprovals, kept.secret⟩
  | decision authentic type =>
    rename_i reading msg
    obtain ⟨_, _, _, _, _, _, framed⟩ := @handleApprovalDecision_frame crates reading msg s
    rw [framed]
    cases found : s.pendingApprovals.lookup msg.msgId with
    | none => exact ⟨.same (Table.erase_of_none found), rfl⟩
    | some pending => exact ⟨.decided (.mk authentic type found) rfl, rfl⟩
  | poll authentic type => exact ⟨.same rfl, rfl⟩
  | report authentic type => exact ⟨.same rfl, rfl⟩
  | sweep =>
    rename_i reading
    have kept := @sweep_kept crates reading s
    exact ⟨.same kept.pendingApprovals, kept.secret⟩
  | idle none_running => exact ⟨.same rfl, rfl⟩
  | finished runs =>
    rename_i reading i outcome task
    have kept := @handleNotify_kept crates reading
      (signMsg crates s.secret (workerReport reading task outcome))
      { s with running := s.running.eraseIdx i }
    exact ⟨.same kept.pendingApprovals, kept.secret⟩

/-! ## Work starts -/

/-- Between two states, work on a task is started: it is leased, sent to a worker, or
given to a worker process. -/
inductive Starts (s s' : State) (id : Text) : Prop
  | leased {lease} (held : s'.leases.lookup id = some lease)
      (new : s.leases.lookup id ≠ some lease)
  | sent {sent client msg} (queued : s'.queued = s.queued ++ sent) (member : (client, msg) ∈ sent)
      (type : msg.msgType = "DELEGATE".toList) (named : msg.msgId = id)
  | launched {task} (runs : task ∈ s'.running) (new : task ∉ s.running) (named : task.id = id)

theorem expireLeases_leases {ids : List (Text × Nat)} {id : Text} {lease : Lease}
    (held : (expireLeases crates reading s ids).leases.lookup id = some lease) :
    s.leases.lookup id = some lease := by
  induction ids generalizing s with
  | nil => exact held
  | cons entry ids ih =>
    have before := @ih (expireLease crates reading s entry.1 (2 * entry.2)) held
    rw [expireLease_leases] at before
    split at before
    · cases before
    · exact before

/-- Only a delegation starts work, and only on its own task. -/
theorem starts_delegates {id : Text} (starts : Starts s (step crates s event).2 id) :
    ∃ reading msg, Delegates crates s event reading msg id := by
  have steps := @step_steps crates s event
  rcases starts with ⟨held, new⟩ | ⟨queued, member, type, named⟩ | ⟨runs, new, named⟩
  · cases table_steps steps with
    | same tables =>
      rw [tables.leases] at held
      exact absurd held new
    | delegated notifyWorker delegates tables =>
      rw [tables.leases] at held
      simp only [delegatedState, Table.lookup_insert_if] at held
      split at held
      · rename_i own
        rw [own]
        exact ⟨_, _, delegates⟩
      · exact absurd held new
    | denied artifacts denies tables =>
      rw [tables.leases] at held
      exact absurd held new
    | notified reports tables =>
      rw [tables.leases, notifiedState_leases] at held
      split at held
      · cases held
      · exact absurd held new
    | swept sweep tables =>
      rw [tables.leases] at held
      exact absurd (expireLeases_leases held) new
  · obtain ⟨sent, grown, kinds⟩ := steps_send steps
    rw [grown] at queued
    rw [← List.append_cancel_left queued] at member
    rcases kinds _ _ member with notify | approval | ⟨reading, original, delegates⟩
    · rw [type] at notify
      exact absurd notify (by decide)
    · rw [type] at approval
      exact absurd approval (by decide)
    · rw [named] at delegates
      exact ⟨reading, original, delegates⟩
  · rcases steps_launch steps _ runs with before | ⟨reading, msg, delegates⟩
    · exact absurd before new
    · rw [named] at delegates
      exact ⟨reading, msg, delegates⟩

section
variable (crates : DaemonCrates)

/-- In a run, a delegation of a task was put to approval under an identifier. -/
def AskedFor (start : State) (done : List Event) (id approvalId : Text) : Prop :=
  ∃ before asked msg rest, done = before ++ .message asked msg :: rest ∧
    Asks crates (after crates start before) (.message asked msg) asked msg ∧
    msg.msgId = id ∧ asked.uuid 0 = approvalId

/-- After a run, an event clears a task to be worked on: it is a delegation of it that
the policy allows, or a decision that grants what a delegation of it in the run was put
to approval under. The decision is sent by a client that may. -/
inductive Clears (may : Text → Prop) (start : State) (done : List Event) (id : Text) : Event → Prop
  | allowed {reading : Reading} {msg : Msg}
      (authentic : verifyHmac crates (after crates start done).secret msg = true)
      (type : msg.msgType = "DELEGATE".toList) (named : msg.msgId = id)
      (allow : policyEval (toolOf msg.payload) msg.payload = .allow) :
      Clears may start done id (.message reading msg)
  | granted {reading : Reading} {decision : Msg}
      (authentic : verifyHmac crates (after crates start done).secret decision = true)
      (type : decision.msgType = "APPROVAL_DECISION".toList)
      (status : statusOf "unknown" decision = "granted".toList)
      (asked : AskedFor crates start done id decision.msgId) (sender : may decision.sender) :
      Clears may start done id (.message reading decision)

end

theorem AskedFor.later {start : State} {done : List Event} {id approvalId : Text}
    (asked : AskedFor crates start done id approvalId) (event : Event) :
    AskedFor crates start (done ++ [event]) id approvalId := by
  obtain ⟨before, reading, msg, rest, shape, asks, named, approval⟩ := asked
  refine ⟨before, reading, msg, rest ++ [event], ?_, asks, named, approval⟩
  rw [shape, List.append_assoc, List.cons_append]

/-- What is pending was asked for before. -/
theorem pending_asked {start : State} (none_pending : start.pendingApprovals = ∅)
    {done : List Event} {approvalId : Text} {pending : PendingApproval}
    (found : (after crates start done).pendingApprovals.lookup approvalId = some pending) :
    AskedFor crates start done pending.taskId approvalId := by
  induction done using List.reverseRecOn with
  | nil =>
    simp only [after, Runs.final, none_pending] at found
    cases found
  | append_singleton done event ih =>
    rw [after_concat] at found
    cases (approval_steps (step_steps event)).1 with
    | same approvals =>
      rw [approvals] at found
      exact (ih found).later event
    | asked asks approvals =>
      rw [approvals, Table.lookup_insert_if] at found
      split at found
      · rename_i own
        cases found
        cases asks with
        | mk authentic type ask =>
          exact ⟨done, _, _, [], rfl, .mk authentic type ask, rfl, own.symm⟩
      · exact (ih found).later event
    | decided decides approvals =>
      rw [approvals, Table.lookup_erase_if] at found
      split at found
      · cases found
      · exact (ih found).later event

/-- A decision without its code, or on nothing that is pending, changes nothing. -/
theorem stray_decision (type : msg.msgType = "APPROVAL_DECISION".toList)
    (stray : verifyHmac crates s.secret msg = false ∨ s.pendingApprovals.lookup msg.msgId = none) :
    (step crates s (.message reading msg)).2 = s := by
  by_cases forged : verifyHmac crates s.secret msg = false
  · exact step_forged forged
  · have absent := stray.resolve_left forged
    rw [step_decision (by simpa using forged) type]
    unfold handleApprovalDecision
    simp only [absent]

/-- **Clearance.** In every run, work on a task starts only by an event that clears it:
a delegation that the policy allows, or a decision, of any client, that grants the
approval which a delegation was put to. A decision without its code, or on nothing that
is pending, changes nothing. -/
theorem work_cleared {secret daemonVersion approvalTarget : Text} {workerConfigs : List Text}
    {expected : Option Text} (done : List Event) (event : Event) :
    (∀ id, Starts
        (after crates (newState secret workerConfigs daemonVersion expected approvalTarget) done)
        (after crates (newState secret workerConfigs daemonVersion expected approvalTarget)
          (done ++ [event])) id →
      Clears crates (fun _ => True)
        (newState secret workerConfigs daemonVersion expected approvalTarget) done id event) ∧
    (∀ reading msg, event = .message reading msg → msg.msgType = "APPROVAL_DECISION".toList →
      (verifyHmac crates (after crates
          (newState secret workerConfigs daemonVersion expected approvalTarget) done).secret msg =
        false ∨ (after crates (newState secret workerConfigs daemonVersion expected approvalTarget)
          done).pendingApprovals.lookup msg.msgId = none) →
      after crates (newState secret workerConfigs daemonVersion expected approvalTarget)
        (done ++ [event]) =
      after crates (newState secret workerConfigs daemonVersion expected approvalTarget) done) := by
  constructor
  · intro id starts
    rw [after_concat] at starts
    obtain ⟨reading, msg, delegates⟩ := starts_delegates starts
    cases delegates with
    | allowed authentic type allow reachable => exact .allowed authentic type rfl allow
    | granted authentic type found status =>
      exact .granted authentic type status (pending_asked rfl found) trivial
  · rintro reading msg rfl type stray
    rw [after_concat]
    exact stray_decision type stray

/-- A client asks for a patch outside of the trusted places. -/
def patchAsked : Event :=
  sentAt 1 "DELEGATE" "t" "c" "w" [("task", .ofFields [
    ("action", .string "devit_patch_apply".toList), ("path", .string "/x".toList)])]

/-- What the approver answers. -/
def approverGrants : Event :=
  sentAt 2 "APPROVAL_DECISION" "1-0" "client:approver" "orchestrator"
    [("status", .string "granted".toList)]

theorem grant_clears : Clears plainCrates (fun _ => True) freshState [patchAsked] ['t']
    approverGrants := by
  have held : ((after plainCrates freshState ([patchAsked] ++ [approverGrants])).leases.lookup
      ['t']).isSome = true := by decide +kernel
  have before : (after plainCrates freshState [patchAsked]).leases.lookup ['t'] = none :=
    Option.isNone_iff_eq_none.mp (by decide +kernel)
  obtain ⟨lease, held⟩ := Option.isSome_iff_exists.mp held
  refine (work_cleared [patchAsked] approverGrants).1 ['t'] (.leased held fun early => ?_)
  cases before.symm.trans early

/-- Some other client grants it. -/
def intruderGrants : Event :=
  sentAt 2 "APPROVAL_DECISION" "1-0" "intruder" "orchestrator"
    [("status", .string "granted".toList)]

/-- A decision of a client that is not the approver takes the pending approval away and
has the task leased. -/
theorem intruder_starts_work :
    approverOf (after plainCrates freshState [patchAsked]) ≠ "intruder".toList ∧
    ((after plainCrates freshState [patchAsked]).pendingApprovals.lookup "1-0".toList).isSome =
      true ∧
    ((after plainCrates freshState [patchAsked, intruderGrants]).pendingApprovals.lookup
      "1-0".toList).isSome = false ∧
    Starts (after plainCrates freshState [patchAsked])
      (after plainCrates freshState [patchAsked, intruderGrants]) ['t'] ∧
    ¬ Clears plainCrates
      (fun sender => sender = approverOf (after plainCrates freshState [patchAsked]))
      freshState [patchAsked] ['t'] intruderGrants := by
  have approver : approverOf (after plainCrates freshState [patchAsked]) ≠ "intruder".toList := by
    decide +kernel
  have pending : ((after plainCrates freshState [patchAsked]).pendingApprovals.lookup
      "1-0".toList).isSome = true := by decide +kernel
  have decided : ((after plainCrates freshState [patchAsked, intruderGrants]).pendingApprovals.lookup
      "1-0".toList).isSome = false := by decide +kernel
  have held : ((after plainCrates freshState [patchAsked, intruderGrants]).leases.lookup
      ['t']).isSome = true := by decide +kernel
  have before : (after plainCrates freshState [patchAsked]).leases.lookup ['t'] = none :=
    Option.isNone_iff_eq_none.mp (by decide +kernel)
  refine ⟨approver, pending, decided, ?_, fun clears => ?_⟩
  · obtain ⟨lease, held⟩ := Option.isSome_iff_exists.mp held
    refine .leased held fun early => ?_
    cases before.symm.trans early
  · generalize approverOf (after plainCrates freshState [patchAsked]) = target at approver clears
    unfold intruderGrants sentAt at clears
    cases clears with
    | allowed authentic type named allow => exact absurd type (by decide)
    | granted authentic type status asked sender => exact approver sender.symm

end Approvals

end Devit
