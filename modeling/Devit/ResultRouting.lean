import Devit.Approvals

/-! Where a report on a task goes. It names its target itself, or goes to whom the lease
that it takes was made for; later ones find no lease of their own task, and go back to
their sender. So what the delegator asked for is met by a report that names the target,
or by the first one, as long as the delegation names no other target than its sender. -/
namespace Devit
open Text Path

namespace ResultRouting
open Daemon NotificationDelivery

section
variable (crates : DaemonCrates) (id : Text)

/-- The step takes a report on a task. -/
def ReportsOn (s : State) (event : Event) : Prop :=
  ∃ reading report, Reports crates s event reading report ∧ notifiedTask report = id

/-- The step does not delegate a task. -/
def Undelegated (s : State) (event : Event) : Prop :=
  ¬ ∃ reading msg, Delegates crates s event reading msg id

/-- The step takes no report on a task. -/
def Silent (s : State) (event : Event) : Prop := ¬ ReportsOn crates id s event

end

variable {crates : DaemonCrates} {reading : Reading} {s s' : State} {event : Event} {id : Text}
  {msg report : Msg}

/-! ## The lease that is held for a task -/

theorem heldLease_of_same (tables : SameTables s s') : heldLease id s' = heldLease id s := by
  unfold heldLease
  rw [tables.leases, tables.expiredLeases]

/-- A lease that runs out is held as an expired one. -/
theorem heldLease_expired {taskId : Text} {lease : Lease} (found : s.leases.lookup taskId = some lease)
    (renew : Option DelegatedTask → DelegatedTask) :
    heldLease id (renewTask reading taskId renew (leaseExpired taskId lease s)) = heldLease id s := by
  unfold heldLease
  rw [renewTask_frame]
  simp only [leaseExpired, Table.lookup_erase_if, Table.lookup_insert_if]
  split
  · rename_i same
    rw [same, found]
    rfl
  · rfl

theorem heldLease_notified (other : notifiedTask report ≠ id) :
    heldLease id (notifiedState reading report s) = heldLease id s := by
  unfold heldLease notifiedState
  rw [renewTask_frame, takeLease_eq]
  dsimp only
  split
  · rw [Table.lookup_erase_if, if_neg (Ne.symm other)]
  · rw [Table.lookup_erase_if, if_neg (Ne.symm other)]

/-- A step that neither delegates a task nor takes a report on it leaves it the lease it
has. -/
theorem heldLease_step (undelegated : Undelegated crates id s event)
    (silent : Silent crates id s event) (steps : TableSteps crates s event s') :
    heldLease id s' = heldLease id s := by
  cases steps with
  | same tables => exact heldLease_of_same tables
  | @delegated reading msg taskId notifyWorker delegates tables =>
    rw [heldLease_of_same tables]
    have other : id ≠ taskId := by
      rintro rfl
      exact undelegated ⟨reading, msg, delegates⟩
    unfold heldLease
    simp only [delegatedState, Table.lookup_insert_if, if_neg other]
  | denied artifacts denies tables =>
    rw [heldLease_of_same tables]
    rfl
  | @notified reading report reports tables =>
    rw [heldLease_of_same tables]
    exact heldLease_notified fun same => silent ⟨reading, report, reports, same⟩
  | swept sweep tables =>
    rw [heldLease_of_same tables]
    exact TaskTables.expireLeases_keeps (I := fun reached => heldLease id reached = heldLease id s)
      (fun reached taskId lease found held => (heldLease_expired found _).trans held)
      (fun reached reached' same held => (heldLease_of_same same).trans held) rfl

/-- And so does a run of such steps. -/
theorem heldLease_run {events : List Event}
    (undelegated : Runs.Along (Undelegated crates id) (step crates) s events)
    (silent : Runs.Along (Silent crates id) (step crates) s events) :
    heldLease id (after crates s events) = heldLease id s := by
  induction events using List.reverseRecOn with
  | nil => rfl
  | append_singleton events event ih =>
    obtain ⟨undelegated, none_here⟩ := Runs.along_concat.mp undelegated
    obtain ⟨silent, quiet⟩ := Runs.along_concat.mp silent
    rw [after_concat]
    exact (heldLease_step none_here quiet (table_steps (step_steps event))).trans
      (ih undelegated silent)

/-- A task that was just delegated holds the lease of its delegation. -/
theorem heldLease_delegated (delegates : Delegates crates s event reading msg id) :
    ∃ lease, heldLease id (step crates s event).2 = some lease ∧ lease.originalFrom = msg.sender ∧
      lease.returnTo = strField "return_to" msg.payload := by
  obtain ⟨notifyWorker, tables⟩ := delegates_tables delegates
  rw [heldLease_of_same tables]
  unfold heldLease
  simp only [delegatedState, Table.lookup_insert_if, if_true]
  exact ⟨_, rfl, rfl, rfl⟩

/-! ## Where a report goes -/

theorem reports_queue (reports : Reports crates s event reading report) :
    ∃ note, Queues s (step crates s event).2
      [(routeTarget (heldLease (notifiedTask report) s) report, note)] := by
  cases reports with
  | client authentic type report =>
    rw [step_notify authentic type]
    exact ⟨_, handleNotify_queues report⟩
  | worker runs =>
    simp only [step, workerFinished, runs]
    exact ⟨_, Queues.behind (handleNotify_queues (workerReport_isAck _ _)) rfl rfl⟩

/-- One message is queued, so there is one client that it is queued for. -/
theorem queued_for_iff {target client : Text} {note : Msg} (queues : Queues s s' [(target, note)]) :
    (∃ note, Queues s s' [(client, note)]) ↔ target = client := by
  constructor
  · rintro ⟨other, others⟩
    have same := List.append_cancel_left (queues.queued.symm.trans others.queued)
    exact congrArg Prod.fst (List.cons.inj same).1
  · rintro rfl
    exact ⟨note, queues⟩

theorem routeTarget_iff {lease : Option Lease} {target : Text} : routeTarget lease report = target ↔
    strField "return_to" report.payload = some target ∨
      strField "return_to" report.payload = none ∧
        (lease.map Lease.originalFrom).getD report.sender = target := by
  unfold routeTarget
  cases strField "return_to" report.payload <;> simp

/-- **Results are routed to the delegator exactly when they name the target, or when the
lease still knows it.** After a delegation of a task, with any steps in between but
another delegation of it, a report on the task is queued for the target of the
delegation exactly if it names the target; or names none, and no report on the task came
before it and the target is the delegation's sender, or one did and the target is whom
the lease that is left was made for, or the report's sender if none is. -/
theorem routed_iff (crates : DaemonCrates) (s : State) (event : Event) (reading : Reading) (msg : Msg)
    (id : Text) (delegates : Delegates crates s event reading msg id) (between : List Event)
    (undelegated : Runs.Along (Undelegated crates id) (step crates) (step crates s event).2 between)
    (last : Event) (received : Reading) (report : Msg)
    (reports : Reports crates (after crates (step crates s event).2 between) last received report)
    (named : notifiedTask report = id) :
    (∃ note, Queues (after crates (step crates s event).2 between)
        (after crates (step crates s event).2 (between ++ [last])) [(returnTarget msg, note)]) ↔
      strField "return_to" report.payload = some (returnTarget msg) ∨
        strField "return_to" report.payload = none ∧
          (Runs.Along (Silent crates id) (step crates) (step crates s event).2 between ∧
              msg.sender = returnTarget msg ∨
            ¬ Runs.Along (Silent crates id) (step crates) (step crates s event).2 between ∧
              ((heldLease id (after crates (step crates s event).2 between)).map
                Lease.originalFrom).getD report.sender = returnTarget msg) := by
  obtain ⟨note, queues⟩ := reports_queue reports
  rw [after_concat, queued_for_iff queues, routeTarget_iff, named]
  refine or_congr_right (and_congr_right fun _ => ?_)
  by_cases silent : Runs.Along (Silent crates id) (step crates) (step crates s event).2 between
  · obtain ⟨lease, held, sender, -⟩ := heldLease_delegated delegates
    rw [heldLease_run undelegated silent, held]
    simp [silent, sender]
  · simp [silent]

/-! ## Progress before the result -/

/-- A client delegates a task to a worker. -/
def taskDelegated : Event := sentAt 2 "DELEGATE" "t" "c" "w" []

def progressTold : Event :=
  sentAt 3 "NOTIFY" "t" "w" "orchestrator" [("status", .string "progress".toList)]

def completionTold : Event :=
  sentAt 4 "NOTIFY" "t" "w" "orchestrator" [("status", .string "completed".toList)]

/-- The state in which the worker is there. -/
def workerThere : State := after plainCrates freshState [sentAt 1 "REGISTER" "r" "w" "orchestrator" []]

/-- The result that follows a report of progress goes back to the worker. -/
theorem result_returns_to_worker :
    (∃ reading msg, taskDelegated = .message reading msg ∧ returnTarget msg = ['c']) ∧
    (after plainCrates workerThere [taskDelegated, progressTold, completionTold]).queued.map
      Prod.fst = [['w'], ['c'], ['w']] :=
  ⟨⟨_, _, rfl, by decide +kernel⟩, by decide +kernel⟩

/-- The result alone goes to the client. -/
theorem first_result_routed : ∃ note,
    Queues (after plainCrates (step plainCrates workerThere taskDelegated).2 [])
      (after plainCrates (step plainCrates workerThere taskDelegated).2 ([] ++ [completionTold]))
      [(['c'], note)] := by
  refine (routed_iff plainCrates workerThere taskDelegated _ _ ['t']
    (.allowed ?_ rfl ?_ (.inr ?_)) [] (Runs.along_nil _ _) completionTold _ _
    (.client ?_ rfl ?_) ?_).mpr (.inr ⟨?_, .inl ⟨Runs.along_nil _ _, ?_⟩⟩)
  · decide +kernel
  · decide +kernel
  · decide +kernel
  · decide +kernel
  · decide +kernel
  · decide +kernel
  · decide +kernel
  · decide +kernel

end ResultRouting

end Devit
