import Devit.Approvals

/-! A delegation that is put to approval and granted, beside the same delegation allowed
at once. The two end alike for a worker that polls and is alive. A worker that has a
configuration is only started by the one, and only the other leases a task to a worker
that is not there. -/
namespace Devit
open Text Path

namespace ApprovalParity
open Daemon NotificationDelivery Approvals

/-- Two states that came of one differ only in that for the first a request was queued
and the journal was told of decisions. -/
structure Agrees (request : Text × Msg) (s granted allowed : State) : Prop where
  rest : granted = { allowed with
    pendingNotifications := granted.pendingNotifications
    journal := granted.journal
    queued := granted.queued }
  queues : ∃ sent, Queues s allowed sent ∧ Queues s granted (request :: sent)
  journal : ∃ told records, (∀ record ∈ told, record.event = "POLICY".toList) ∧
    allowed.journal = s.journal ++ records ∧ granted.journal = s.journal ++ told ++ records

/-- The approval of a delegation is asked for and decided. -/
def askedAndDecided (crates : DaemonCrates) (asked reading : Reading) (msg decision : Msg)
    (s : State) : State :=
  handleApprovalDecision crates reading decision
    (handleApprovalRequest asked msg msg.msgId (toolOf msg.payload) s)

/-- What the approver is asked. -/
def request (asked : Reading) (msg : Msg) (s : State) : Text × Msg :=
  (approverOf s, approvalMsg asked (approverOf s) msg.msgId (toolOf msg.payload) msg)

/-- What the journal is told of the approval. -/
def told (asked : Reading) (msg decision : Msg) (s : State) : List JournalRecord :=
  [⟨"POLICY".toList, asked.uuid 0, orchestrator, approverOf s,
    .ofFields [("decision", .string "request_approval".toList),
      ("tool", .string (toolOf msg.payload)), ("task_id", .string msg.msgId)]⟩] ++
  [⟨"POLICY".toList, decision.msgId, decision.sender, orchestrator,
    decisionRecord decision (pendingOf asked msg) "granted"⟩]

/-- The state in which a delegation is made that was asked for. -/
def askedState (asked : Reading) (msg decision : Msg) (s : State) : State :=
  { addNotification (request asked msg s).1 (request asked msg s).2 s with
    journal := s.journal ++ told asked msg decision s }

section
variable {crates : DaemonCrates} {asked reading : Reading} {msg decision : Msg} {s : State}

theorem granted_eq (fresh : s.pendingApprovals.lookup (asked.uuid 0) = none)
    (named : decision.msgId = asked.uuid 0)
    (granted : statusOf "unknown" decision = "granted".toList) :
    askedAndDecided crates asked reading msg decision s =
      proceedWithDelegation reading msg msg.msgId msg.recipient (strField "return_to" msg.payload)
        (toolOf msg.payload) true (parseTaskDetails (field "task" msg.payload) msg.msgId)
        (askedState asked msg decision s) := by
  have found : (handleApprovalRequest asked msg msg.msgId (toolOf msg.payload)
      s).pendingApprovals.lookup decision.msgId = some (pendingOf asked msg) := by
    rw [named]
    exact AList.lookup_insert _
  have removed : (handleApprovalRequest asked msg msg.msgId (toolOf msg.payload)
      s).pendingApprovals.erase decision.msgId = s.pendingApprovals := by
    rw [named]
    exact Table.erase_insert_of_none fresh
  unfold askedAndDecided handleApprovalDecision
  simp only [found, granted, if_true, removed]
  unfold askedState told
  rw [← List.append_assoc]
  rfl

theorem granted_queues (fresh : s.pendingApprovals.lookup (asked.uuid 0) = none)
    (named : decision.msgId = asked.uuid 0)
    (granted : statusOf "unknown" decision = "granted".toList) :
    Queues s (askedAndDecided crates asked reading msg decision s)
      [request asked msg s, (msg.recipient, delegationMsg reading msg msg.msgId msg.recipient)] := by
  rw [granted_eq fresh named granted]
  have asks : Queues s (askedState asked msg decision s) [request asked msg s] :=
    (queues_add _ _).same rfl rfl
  exact asks.trans proceed_queues

/-- **Parity.** Granted after approval and allowed at once, a delegation comes out the
same, but for the approval itself, exactly if its worker has no configuration and is
alive. -/
theorem agrees_iff (fresh : s.pendingApprovals.lookup (asked.uuid 0) = none)
    (named : decision.msgId = asked.uuid 0)
    (granted : statusOf "unknown" decision = "granted".toList) :
    Agrees (request asked msg s) s (askedAndDecided crates asked reading msg decision s)
        (delegateAllowed reading msg (toolOf msg.payload) s) ↔
      msg.recipient ∉ s.workerConfigs ∧
        isClientAlive reading.instant msg.recipient s = true := by
  constructor
  · intro agrees
    by_contra unreachable
    obtain ⟨sent, allowed, both⟩ := agrees.queues
    have direct := @delegateAllowed_queues reading s msg (toolOf msg.payload)
    rw [if_neg unreachable] at direct
    have none_sent : sent = [] :=
      List.append_cancel_left (allowed.queued.symm.trans direct.queued)
    have told := (@granted_queues crates asked reading msg decision s fresh named granted).queued
    rw [both.queued, none_sent] at told
    have lengths := congrArg List.length (List.append_cancel_left told)
    simp only [List.length_cons, List.length_nil] at lengths
    omega
  · rintro ⟨unconfigured, alive⟩
    have direct : delegateAllowed reading msg (toolOf msg.payload) s =
        proceedWithDelegation reading msg msg.msgId msg.recipient (strField "return_to" msg.payload)
          (toolOf msg.payload) true (parseTaskDetails (field "task" msg.payload) msg.msgId) s := by
      unfold delegateAllowed
      rw [if_neg unconfigured, if_pos alive]
    have both := @granted_queues crates asked reading msg decision s fresh named granted
    rw [granted_eq fresh named granted] at both ⊢
    rw [direct]
    refine ⟨rfl, ⟨_, proceed_queues, both⟩, told asked msg decision s, [_], ?_, rfl, rfl⟩
    intro record member
    simp only [told, List.mem_append, List.mem_singleton] at member
    rcases member with rfl | rfl <;> rfl

end

/-! ## A worker that has a configuration -/

/-- A client delegates a task to a worker. -/
def plainDelegation : Msg where
  msgType := "DELEGATE".toList
  msgId := ['t']
  sender := ['c']
  recipient := ['w']
  ts := 2
  nonce := ['2']
  hmac := []
  payload := .ofFields []

/-- The approver grants what was asked after two seconds. -/
def plainGrant : Msg where
  msgType := "APPROVAL_DECISION".toList
  msgId := "2-0".toList
  sender := "client:approver".toList
  recipient := "orchestrator".toList
  ts := 3
  nonce := ['3']
  hmac := []
  payload := .ofFields [("status", .string "granted".toList)]

/-- With a worker that polls. -/
def pollingState : State :=
  after plainCrates freshState [sentAt 1 "REGISTER" "r" "w" "orchestrator" []]

theorem polling_worker_agrees :
    Agrees (request (readingAt 2) plainDelegation pollingState) pollingState
      (askedAndDecided plainCrates (readingAt 2) (readingAt 3) plainDelegation plainGrant
        pollingState)
      (delegateAllowed (readingAt 3) plainDelegation (toolOf plainDelegation.payload)
        pollingState) := by
  refine (agrees_iff ?_ (by decide) (by decide +kernel)).mpr ⟨?_, by decide +kernel⟩
  · exact Option.isNone_iff_eq_none.mp (by decide +kernel)
  · have none_configured : pollingState.workerConfigs = [] :=
      List.eq_nil_of_length_eq_zero (by decide +kernel)
    rw [none_configured]
    exact List.not_mem_nil

/-- With a worker that has a configuration. -/
def configuredState : State := newState ['s'] [['w']] "0".toList none []

/-- The worker is started when the policy allows the task, and not when the approver
does. -/
theorem granted_not_started :
    (delegateAllowed (readingAt 3) plainDelegation (toolOf plainDelegation.payload)
      configuredState).running.length = 1 ∧
    (askedAndDecided plainCrates (readingAt 2) (readingAt 3) plainDelegation plainGrant
      configuredState).running.length = 0 ∧
    ¬ Agrees (request (readingAt 2) plainDelegation configuredState) configuredState
      (askedAndDecided plainCrates (readingAt 2) (readingAt 3) plainDelegation plainGrant
        configuredState)
      (delegateAllowed (readingAt 3) plainDelegation (toolOf plainDelegation.payload)
        configuredState) := by
  have allowed : (delegateAllowed (readingAt 3) plainDelegation (toolOf plainDelegation.payload)
      configuredState).running.length = 1 := by decide +kernel
  have granted : (askedAndDecided plainCrates (readingAt 2) (readingAt 3) plainDelegation plainGrant
      configuredState).running.length = 0 := by decide +kernel
  refine ⟨allowed, granted, fun agrees => ?_⟩
  have same := congrArg (fun state => state.running.length) agrees.rest
  dsimp only at same
  rw [allowed, granted] at same
  cases same

end ApprovalParity

end Devit
