import Devit.ResultRouting

/-! Who hears how a task ended. A task whose lease runs out, and one that is denied, is
reported to the target of the message that asked for it; a denial to its sender as well,
if that is another. A report that a lease is held for goes to the target if it names it,
or if neither it nor the message names any. -/
namespace Devit
open Text Path

namespace ReturnTargets
open Daemon NotificationDelivery Approvals ResultRouting

section
variable (crates : DaemonCrates)

/-- In a run, a message asked for a task to be delegated. -/
def Requested (start : State) (done : List Event) (id : Text) (msg : Msg) : Prop :=
  ∃ before reading rest, done = before ++ .message reading msg :: rest ∧
    verifyHmac crates (after crates start before).secret msg = true ∧
    msg.msgType = "DELEGATE".toList ∧ msg.msgId = id

/-- In a run, the task was delegated that a message had asked for, and this is the lease
of it. -/
structure Stems (start : State) (done : List Event) (id : Text) (lease : Lease) (msg : Msg) :
    Prop where
  delegated : ∃ before event rest reading, done = before ++ event :: rest ∧
    Delegates crates (after crates start before) event reading msg id
  requested : Requested crates start done id msg
  sender : lease.originalFrom = msg.sender
  returnTo : lease.returnTo = strField "return_to" msg.payload

end

/-- A lease that is in force or has run out. -/
def LeaseOf (s : State) (id : Text) (lease : Lease) : Prop :=
  s.leases.lookup id = some lease ∨ s.expiredLeases.lookup id = some lease

variable {crates : DaemonCrates} {reading : Reading} {s s' start : State} {event : Event}
  {done : List Event} {id : Text} {lease : Lease} {msg report : Msg}

theorem Requested.later (requested : Requested crates start done id msg) (event : Event) :
    Requested crates start (done ++ [event]) id msg := by
  obtain ⟨before, reading, rest, shape, asked⟩ := requested
  refine ⟨before, reading, rest ++ [event], ?_, asked⟩
  rw [shape, List.append_assoc, List.cons_append]

theorem Stems.later (stems : Stems crates start done id lease msg) (event : Event) :
    Stems crates start (done ++ [event]) id lease msg := by
  obtain ⟨⟨before, delegation, rest, reading, shape, delegates⟩, requested, sender, returnTo⟩ := stems
  refine ⟨⟨before, delegation, rest ++ [event], reading, ?_, delegates⟩, requested.later event,
    sender, returnTo⟩
  rw [shape, List.append_assoc, List.cons_append]

/-- A lease that runs out is reported to the target of the message it stems from. -/
theorem Stems.target (stems : Stems crates start done id lease msg) :
    Lease.target lease = returnTarget msg := by
  rw [Lease.target, returnTarget, stems.sender, stems.returnTo]

/-! ## What leases and approvals stem from -/

/-- What is pending was asked for by the message that is kept with it. -/
theorem pending_requested (none_pending : start.pendingApprovals = ∅) {approvalId : Text}
    {pending : PendingApproval}
    (found : (after crates start done).pendingApprovals.lookup approvalId = some pending) :
    Requested crates start done pending.taskId pending.originalMsg := by
  induction done using List.reverseRecOn with
  | nil =>
    simp only [after, Runs.final, none_pending] at found
    cases found
  | append_singleton done event ih =>
    rw [after_concat] at found
    cases (approval_steps (step_steps event)).1 with
    | same approvals =>
      rw [approvals] at found
      exact (ih found).later event
    | asked asks approvals =>
      rw [approvals, Table.lookup_insert_if] at found
      split at found
      · cases found
        cases asks with
        | mk authentic type ask => exact ⟨done, _, [], rfl, authentic, type, rfl⟩
      · exact (ih found).later event
    | decided decides approvals =>
      rw [approvals, Table.lookup_erase_if] at found
      split at found
      · cases found
      · exact (ih found).later event

/-- A task that a step delegates was asked for, at the latest in that step. -/
theorem delegates_requested (none_pending : start.pendingApprovals = ∅)
    (delegates : Delegates crates (after crates start done) event reading msg id) :
    Requested crates start (done ++ [event]) id msg := by
  cases delegates with
  | allowed authentic type allow reachable => exact ⟨done, _, [], rfl, authentic, type, rfl⟩
  | granted authentic type found status => exact (pending_requested none_pending found).later _

theorem denies_requested (none_pending : start.pendingApprovals = ∅)
    (denies : Denies crates (after crates start done) event reading msg id) :
    Requested crates start (done ++ [event]) id msg := by
  cases denies with
  | policy authentic type deny => exact ⟨done, _, [], rfl, authentic, type, rfl⟩
  | denied authentic type found status => exact (pending_requested none_pending found).later _

theorem LeaseOf.of_same (tables : SameTables s s') (leased : LeaseOf s' id lease) :
    LeaseOf s id lease := by
  unfold LeaseOf at leased
  rwa [tables.leases, tables.expiredLeases] at leased

/-- A lease that is left after another one was taken was there before. -/
theorem LeaseOf.taken {taskId : Text} (leased : LeaseOf (takeLease taskId s).2 id lease) :
    LeaseOf s id lease := by
  rw [takeLease_eq] at leased
  unfold LeaseOf at leased
  dsimp only at leased
  split at leased
  · rw [Table.lookup_erase_if] at leased
    rcases leased with held | expired
    · split at held
      · cases held
      · exact .inl held
    · exact .inr expired
  · rw [Table.lookup_erase_if] at leased
    rcases leased with held | expired
    · exact .inl held
    · split at expired
      · cases expired
      · exact .inr expired

/-- A lease that has run out was one that was in force. -/
theorem LeaseOf.before_expiry {taskId : Text} {expired : Lease}
    (found : s.leases.lookup taskId = some expired)
    (leased : LeaseOf (leaseExpired taskId expired s) id lease) : LeaseOf s id lease := by
  unfold LeaseOf leaseExpired at leased
  rw [Table.lookup_erase_if, Table.lookup_insert_if] at leased
  by_cases same : id = taskId
  · rw [if_pos same, if_pos same] at leased
    rcases leased with held | now
    · cases held
    · cases now
      rw [same]
      exact .inl found
  · rwa [if_neg same, if_neg same] at leased

theorem LeaseOf.renewed {taskId : Text} {renew : Option DelegatedTask → DelegatedTask}
    (leased : LeaseOf (renewTask reading taskId renew s) id lease) : LeaseOf s id lease := by
  rwa [renewTask_frame] at leased

theorem LeaseOf.before_sweep {ids : List (Text × Nat)}
    (leased : LeaseOf (expireLeases crates reading s ids) id lease) : LeaseOf s id lease := by
  have before := @TaskTables.expireLeases_keeps crates reading s
    (fun reached => LeaseOf reached id lease → LeaseOf s id lease)
    (fun reached taskId expired found held leased =>
      held (LeaseOf.before_expiry found leased.renewed))
    (fun reached reached' same held leased => held (leased.of_same same)) ids (fun leased => leased)
  exact before leased

/-- After a step, a lease was there before or is that of the task which the step
delegates. -/
theorem lease_step (steps : TableSteps crates s event s') (leased : LeaseOf s' id lease) :
    LeaseOf s id lease ∨ ∃ reading msg, Delegates crates s event reading msg id ∧
      lease.originalFrom = msg.sender ∧ lease.returnTo = strField "return_to" msg.payload := by
  cases steps with
  | same tables => exact .inl (leased.of_same tables)
  | @delegated reading msg taskId notifyWorker delegates tables =>
    rcases leased.of_same tables with held | expired
    · simp only [delegatedState, Table.lookup_insert_if] at held
      split at held
      · rename_i same
        cases held
        rw [same]
        exact .inr ⟨reading, msg, delegates, rfl, rfl⟩
      · exact .inl (.inl held)
    · exact .inl (.inr expired)
  | denied artifacts denies tables =>
    have failed := leased.of_same tables
    exact .inl failed
  | notified reports tables =>
    have notified := leased.of_same tables
    exact .inl (LeaseOf.taken notified.renewed)
  | swept sweep tables => exact .inl (leased.of_same tables).before_sweep

/-- **Leases stem from delegations.** In a run that starts without leases, each is that of
a delegation that a message asked for. -/
theorem leases_stem (fresh : ∀ id lease, ¬ LeaseOf start id lease)
    (none_pending : start.pendingApprovals = ∅) (leased : LeaseOf (after crates start done) id lease) :
    ∃ msg, Stems crates start done id lease msg := by
  induction done using List.reverseRecOn with
  | nil => exact absurd leased (fresh id lease)
  | append_singleton done event ih =>
    rw [after_concat] at leased
    rcases lease_step (table_steps (step_steps event)) leased with before | new
    · obtain ⟨msg, stems⟩ := ih before
      exact ⟨msg, stems.later event⟩
    · obtain ⟨reading, msg, delegates, sender, returnTo⟩ := new
      exact ⟨msg, ⟨done, event, [], reading, rfl, delegates⟩,
        delegates_requested none_pending delegates, sender, returnTo⟩

/-! ## Who is told -/

/-- A denial is told to the target, and to the sender if that is another. -/
theorem denies_queues (denies : Denies crates s event reading msg id) : ∃ notice copy,
    (step crates s event).2.queued = s.queued ++ (returnTarget msg, notice) ::
      if returnTarget msg = msg.sender then [] else [(msg.sender, copy)] := by
  cases denies with
  | policy authentic type deny =>
    rw [step_delegate authentic type]
    simp only [handleDelegate, deny]
    exact ⟨_, _, delegateDenied_queues.queued⟩
  | @denied reading msg pending authentic type found status =>
    have queues := (@handleApprovalDecision_queues crates reading s msg).queued
    rw [step_decision authentic type]
    rw [found] at queues
    simp only [decisionNotices, status] at queues
    exact ⟨_, _, queues⟩

/-- A sweep tells of each lease that runs out, in their order. -/
theorem sweep_queues (s : State) : (cleanupExpired crates reading s).queued =
    s.queued ++ expiryNotices crates reading s (expiredIds reading s).zipIdx := by
  rw [cleanupExpired_eq]
  obtain ⟨_, _, dropped⟩ := dropClients_frame (deadClients reading s)
    (expireLeases crates reading s (expiredIds reading s).zipIdx)
  rw [dropped]
  exact (expireLeases_queues (expiredIds_nodup s)).queued

theorem expired_lease (member : id ∈ expiredIds reading s) :
    ∃ lease, s.leases.lookup id = some lease := by
  obtain ⟨-, done⟩ := List.mem_filter.mp member
  cases found : s.leases.lookup id with
  | none =>
    rw [found] at done
    cases done
  | some lease => exact ⟨lease, rfl⟩

/-- Each lease that runs out is told to its own target. -/
theorem expiryNotices_targets {ids : List (Text × Nat)}
    (held : ∀ entry ∈ ids, ∃ lease, s.leases.lookup entry.1 = some lease) :
    List.Forall₂ (fun id notice => ∃ lease, s.leases.lookup id = some lease ∧
      notice.1 = Lease.target lease) (ids.map Prod.fst) (expiryNotices crates reading s ids) := by
  induction ids with
  | nil => exact .nil
  | cons entry ids ih =>
    obtain ⟨id, i⟩ := entry
    obtain ⟨lease, found⟩ := held (id, i) (List.mem_cons_self ..)
    have rest := ih fun other member => held other (List.mem_cons_of_mem _ member)
    unfold expiryNotices at rest ⊢
    rw [List.filterMap_cons]
    simp only [found, Option.map_some]
    exact .cons ⟨lease, found, rfl⟩ rest

/-- The lease that is held for a task is one that is there. -/
theorem leaseOf_held (held : heldLease id s = some lease) : LeaseOf s id lease := by
  unfold heldLease at held
  cases found : s.leases.lookup id with
  | some current =>
    rw [found] at held
    cases held
    exact .inl found
  | none =>
    rw [found] at held
    exact .inr held

/-- A report goes to the target of the message that its lease stems from, if it names it
or neither names any. -/
theorem reports_target (reports : Reports crates s event reading report)
    (held : heldLease (notifiedTask report) s = some lease)
    (stems : Stems crates start done id lease msg)
    (named : strField "return_to" report.payload = some (returnTarget msg) ∨
      strField "return_to" report.payload = none ∧ strField "return_to" msg.payload = none) :
    ∃ notice, (step crates s event).2.queued = s.queued ++ [(returnTarget msg, notice)] := by
  obtain ⟨notice, queues⟩ := reports_queue reports
  have target : routeTarget (heldLease (notifiedTask report) s) report = returnTarget msg := by
    refine routeTarget_iff.mpr (named.imp_right ?_)
    rintro ⟨unnamed, plain⟩
    refine ⟨unnamed, ?_⟩
    rw [held, returnTarget, plain]
    exact stems.sender
  rw [target] at queues
  exact ⟨notice, queues.queued⟩

/-- **Every path chooses the target of the request.** In every run of the daemon: a sweep
tells of the leases that run out, each to the target of the message that its task stems
from; a denial is told to the target of the message that asked, and its copy to the
sender if that is another; and a report that a lease is held for goes to the target of
the message the lease stems from, if the report names it or neither of them names any. -/
theorem outcomes_reach_target (crates : DaemonCrates) (secret : Text) (workerConfigs : List Text)
    (daemonVersion : Text) (expected : Option Text) (approvalTarget : Text) (done : List Event)
    (event : Event) :
    let start := newState secret workerConfigs daemonVersion expected approvalTarget
    let s := after crates start done
    let s' := after crates start (done ++ [event])
    (∀ reading, event = .sweep reading → ∃ notices, s'.queued = s.queued ++ notices ∧
      List.Forall₂ (fun id notice => ∃ lease msg, s.leases.lookup id = some lease ∧
        Stems crates start done id lease msg ∧ notice.1 = returnTarget msg)
        (expiredIds reading s) notices) ∧
    (∀ reading msg id, Denies crates s event reading msg id →
      Requested crates start (done ++ [event]) id msg ∧ ∃ notice copy,
        s'.queued = s.queued ++ (returnTarget msg, notice) ::
          if returnTarget msg = msg.sender then [] else [(msg.sender, copy)]) ∧
    (∀ reading report lease, Reports crates s event reading report →
      heldLease (notifiedTask report) s = some lease →
      ∃ msg, Stems crates start done (notifiedTask report) lease msg ∧
        (strField "return_to" report.payload = some (returnTarget msg) ∨
            strField "return_to" report.payload = none ∧ strField "return_to" msg.payload = none →
          ∃ notice, s'.queued = s.queued ++ [(returnTarget msg, notice)])) := by
  intro start s s'
  have fresh : ∀ id lease, ¬ LeaseOf start id lease := by
    rintro id lease (held | expired)
    · cases held
    · cases expired
  have none_pending : start.pendingApprovals = ∅ := rfl
  have stepped : s' = (step crates s event).2 := after_concat done event
  rw [stepped]
  refine ⟨?_, ?_, ?_⟩
  · rintro reading rfl
    refine ⟨_, sweep_queues s, ?_⟩
    have listed : ∀ entry ∈ (expiredIds reading s).zipIdx,
        ∃ lease, s.leases.lookup entry.1 = some lease :=
      fun entry member => expired_lease (List.fst_mem_of_mem_zipIdx member)
    have told := @expiryNotices_targets crates reading s _ listed
    rw [List.zipIdx_map_fst] at told
    refine told.imp ?_
    rintro id notice ⟨lease, found, target⟩
    obtain ⟨msg, stems⟩ := leases_stem fresh none_pending (.inl found)
    exact ⟨lease, msg, found, stems, target.trans stems.target⟩
  · intro reading msg id denies
    exact ⟨denies_requested none_pending denies, denies_queues denies⟩
  · intro reading report lease reports held
    obtain ⟨msg, stems⟩ := leases_stem fresh none_pending (leaseOf_held held)
    exact ⟨msg, stems, fun named => reports_target reports held stems named⟩

/-- A client asks for a change outside of its tree, to be reported to another one. -/
def changeDenied : Event :=
  sentAt 1 "DELEGATE" "t" "c" "w" [("return_to", .string ['r']),
    ("task", .ofFields [("action", .string "devit_patch_apply".toList),
      ("path", .string "/etc/x".toList)])]

/-- Its denial is told to the other, and to the client itself. -/
theorem denial_told_to_both :
    (∃ reading msg, changeDenied = .message reading msg ∧ msg.sender = ['c'] ∧
      returnTarget msg = ['r'] ∧ Denies plainCrates freshState changeDenied reading msg ['t']) ∧
    (after plainCrates freshState [changeDenied]).queued.map Prod.fst = [['r'], ['c']] :=
  ⟨⟨_, _, rfl, rfl, by decide +kernel, .policy (by decide +kernel) rfl (by decide +kernel)⟩,
    by decide +kernel⟩

end ReturnTargets

end Devit
