import Devit.DaemonRuns

/-! What the handlers do: which messages they queue for whom, and what they change
in the tables of leases and tasks. -/
namespace Devit
open Text Path

namespace Daemon

variable {crates : DaemonCrates} {reading : Reading} {s s' s'' : State}

/-! ## Queues -/

/-- Between two states some messages were queued, each behind what waited for its
client, and nothing was fetched. -/
structure Queues (s s' : State) (sent : List (Text × Msg)) : Prop where
  queued : s'.queued = s.queued ++ sent
  pending : ∀ client, pendingFor client s' =
    pendingFor client s ++ (sent.filter (·.1 = client)).map Prod.snd

theorem Queues.of_eq (pending : s'.pendingNotifications = s.pendingNotifications)
    (queued : s'.queued = s.queued) : Queues s s' [] where
  queued := by rw [queued, List.append_nil]
  pending client := by simp [pendingFor, pending]

theorem Queues.trans {sent sent' : List (Text × Msg)} (first : Queues s s' sent)
    (second : Queues s' s'' sent') : Queues s s'' (sent ++ sent') where
  queued := by rw [second.queued, first.queued, List.append_assoc]
  pending client := by
    rw [second.pending, first.pending, List.append_assoc, List.filter_append, List.map_append]

/-- Afterwards, other parts of the state may change. -/
theorem Queues.same {sent : List (Text × Msg)} (queues : Queues s s' sent)
    (pending : s''.pendingNotifications = s'.pendingNotifications)
    (queued : s''.queued = s'.queued) : Queues s s'' sent := by
  have both := queues.trans (Queues.of_eq pending queued)
  rwa [List.append_nil] at both

/-- Before that, other parts of the state may have changed. -/
theorem Queues.behind {sent : List (Text × Msg)} (queues : Queues s' s'' sent)
    (pending : s'.pendingNotifications = s.pendingNotifications) (queued : s'.queued = s.queued) :
    Queues s s'' sent := by
  have both := (Queues.of_eq pending queued).trans queues
  rwa [List.nil_append] at both

theorem queues_add (client : Text) (msg : Msg) :
    Queues s (addNotification client msg s) [(client, msg)] where
  queued := rfl
  pending other := by
    unfold pendingFor addNotification
    simp only
    rw [Table.lookup_insert_if]
    by_cases same : other = client
    · subst same
      simp [pendingFor]
    · simp [same, Ne.symm same]

/-- What is written to the journal is not queued. -/
theorem Queues.journal {sent : List (Text × Msg)} {event : String} {msgId sender recipient : Text}
    {data : Json} (queues : Queues s s' sent) :
    Queues s (appendJournal event msgId sender recipient data s') sent :=
  queues.same rfl rfl

/-! ## Task records -/

/-- The completed tasks that are kept. -/
def pruned (reading : Reading) (completed : Table DelegatedTask) : Table DelegatedTask :=
  let keys := completed.keys
  if keys.length ≤ maxCompletedTasks then completed
  else
    let tasks := (reading.order keys).filterMap completed.lookup
    let sorted := tasks.insertionSort fun a b => a.lastActivity ≤ b.lastActivity
    ((sorted.take (keys.length - maxCompletedTasks)).map (·.id)).foldl
      (fun kept id => kept.erase id) completed

theorem pruneCompleted_eq (s : State) :
    pruneCompleted reading s = { s with tasksCompleted := pruned reading s.tasksCompleted } := by
  simp only [pruneCompleted, pruned]
  split <;> rfl

/-- Pruning drops records only. -/
theorem pruned_lookup {completed : Table DelegatedTask} {id : Text} {task : DelegatedTask}
    (found : (pruned reading completed).lookup id = some task) : completed.lookup id = some task := by
  simp only [pruned] at found
  split at found
  · exact found
  · rw [Table.lookup_foldl_erase] at found
    split at found
    · cases found
    · exact found

theorem finalizeTask_eq (task : DelegatedTask) (s : State) :
    finalizeTask reading task s = { s with
      tasksActive := if task.status.terminal then s.tasksActive
        else s.tasksActive.insert task.id task
      tasksCompleted := if task.status.terminal then
          pruned reading (s.tasksCompleted.insert task.id task)
        else s.tasksCompleted } := by
  unfold finalizeTask
  cases task.status.terminal with
  | true => simp only [↓reduceIte, pruneCompleted_eq]
  | false => rfl

theorem takeTask_eq (id : Text) (s : State) :
    takeTask id s = (s.tasksActive.lookup id <|> s.tasksCompleted.lookup id, { s with
      tasksActive := if (s.tasksActive.lookup id).isSome then s.tasksActive.erase id
        else s.tasksActive
      tasksCompleted := if (s.tasksActive.lookup id).isSome then s.tasksCompleted
        else s.tasksCompleted.erase id }) := by
  unfold takeTask
  cases s.tasksActive.lookup id <;> rfl

/-- The record of a task is taken, made new, and put where its status belongs. -/
def renewTask (reading : Reading) (id : Text) (renew : Option DelegatedTask → DelegatedTask)
    (s : State) : State :=
  finalizeTask reading (renew (takeTask id s).1) (takeTask id s).2

/-- Putting a record where it belongs queues nothing. -/
theorem Queues.finalize {sent : List (Text × Msg)} {task : DelegatedTask}
    (queues : Queues s s' sent) : Queues s (finalizeTask reading task s') sent := by
  rw [finalizeTask_eq]
  exact queues.same rfl rfl

/-- Only the two tables of tasks change. -/
theorem renewTask_frame (id : Text) (renew : Option DelegatedTask → DelegatedTask) (s : State) :
    renewTask reading id renew s = { s with
      tasksActive := (renewTask reading id renew s).tasksActive
      tasksCompleted := (renewTask reading id renew s).tasksCompleted } := by
  simp only [renewTask, finalizeTask_eq, takeTask_eq]

theorem renewTask_active {id : Text} {renew : Option DelegatedTask → DelegatedTask}
    (keyed : (renew (takeTask id s).1).id = id) (other : Text) :
    (renewTask reading id renew s).tasksActive.lookup other =
      if other = id then
        if (renew (takeTask id s).1).status.terminal then none else some (renew (takeTask id s).1)
      else s.tasksActive.lookup other := by
  have taken : (takeTask id s).2.tasksActive.lookup other =
      if other = id then none else s.tasksActive.lookup other := by
    rw [takeTask_eq]
    dsimp only
    split
    · exact Table.lookup_erase_if id other
    · rename_i absent
      split
      · rename_i same
        rw [same]
        simpa using absent
      · rfl
  simp only [renewTask, finalizeTask_eq]
  split
  · rw [taken]
  · rw [Table.lookup_insert_if, keyed, taken]
    split <;> rfl

theorem renewTask_completed {id : Text} {renew : Option DelegatedTask → DelegatedTask} {other : Text}
    {task : DelegatedTask} (keyed : (renew (takeTask id s).1).id = id)
    (found : (renewTask reading id renew s).tasksCompleted.lookup other = some task) :
    (other = id ∧ task.status.terminal = true ∧ task = renew (takeTask id s).1) ∨
      (s.tasksCompleted.lookup other = some task ∧
        (other = id → (s.tasksActive.lookup id).isSome)) := by
  have taken : (takeTask id s).2.tasksCompleted.lookup other = some task →
      s.tasksCompleted.lookup other = some task ∧
        (other = id → (s.tasksActive.lookup id).isSome) := by
    rw [takeTask_eq]
    dsimp only
    split
    · rename_i active
      exact fun there => ⟨there, fun _ => active⟩
    · rw [Table.lookup_erase_if]
      split
      · exact nofun
      · rename_i apart
        exact fun there => ⟨there, fun same => absurd same apart⟩
  simp only [renewTask, finalizeTask_eq] at found
  split at found
  · rename_i terminal
    have kept := pruned_lookup found
    rw [Table.lookup_insert_if, keyed] at kept
    split at kept
    · rename_i same
      have renewed := Option.some.inj kept
      exact .inl ⟨same, by rw [← renewed]; exact terminal, renewed.symm⟩
    · exact .inr (taken kept)
  · exact .inr (taken found)

/-! ## Delegation -/

section
variable {msg : Msg} {taskId worker tool target : Text} {returnTo : Option Text} {notify : Bool}
  {details : TaskDetails} {artifacts : Json}

/-- The state after a delegation, but for the journal and the queues. -/
theorem proceed_frame : ∃ pendingNotifications journal queued,
    proceedWithDelegation reading msg taskId worker returnTo tool notify details s = { s with
      leases := s.leases.insert taskId (newLease reading msg taskId worker returnTo details)
      tasksActive := s.tasksActive.insert taskId (delegatedTask reading taskId worker notify details)
      pendingNotifications := pendingNotifications
      journal := journal
      queued := queued } := by
  unfold proceedWithDelegation
  cases notify <;> exact ⟨_, _, _, rfl⟩

theorem proceed_queues :
    Queues s (proceedWithDelegation reading msg taskId worker returnTo tool notify details s)
      (if notify then [(worker, delegationMsg reading msg taskId worker)] else []) := by
  have leased : Queues s (insertActiveTask (delegatedTask reading taskId worker notify details)
      { s with
        leases := s.leases.insert taskId (newLease reading msg taskId worker returnTo details) })
      [] := .of_eq rfl rfl
  unfold proceedWithDelegation
  cases notify with
  | true => exact (leased.trans (queues_add _ _)).journal
  | false => exact leased.journal

/-- What a failed delegation leaves, but for the journal and the queues. -/
theorem failDelegation_frame : ∃ pendingNotifications queued,
    failDelegation crates reading msg taskId artifacts s = { s with
      tasksCompleted := pruned reading (s.tasksCompleted.insert taskId
        (failedTask reading taskId msg.recipient artifacts
          (parseTaskDetails (field "task" msg.payload) taskId)))
      pendingNotifications := pendingNotifications
      queued := queued } := by
  unfold failDelegation recordImmediateFailure
  simp only [finalizeTask_eq]
  split <;> exact ⟨_, _, rfl⟩

/-- Who hears of the failure of a delegation. -/
def returnTarget (msg : Msg) : Text := (strField "return_to" msg.payload).getD msg.sender

theorem failDelegation_queues :
    Queues s (failDelegation crates reading msg taskId artifacts s)
      ((returnTarget msg, signMsg crates s.secret
          (failureNotification reading 0 (returnTarget msg) taskId artifacts)) ::
        if returnTarget msg = msg.sender then []
        else [(msg.sender, signMsg crates s.secret
          (failureNotification reading 2 msg.sender taskId artifacts))]) := by
  have recorded : Queues s (recordImmediateFailure crates reading (returnTarget msg) taskId
      msg.recipient artifacts (parseTaskDetails (field "task" msg.payload) taskId) s)
      [(returnTarget msg, signMsg crates s.secret
        (failureNotification reading 0 (returnTarget msg) taskId artifacts))] := by
    exact (queues_add _ _).finalize
  have secret : (recordImmediateFailure crates reading (returnTarget msg) taskId msg.recipient
      artifacts (parseTaskDetails (field "task" msg.payload) taskId) s).secret = s.secret := by
    unfold recordImmediateFailure
    rw [finalizeTask_eq]
    rfl
  unfold failDelegation
  change Queues s (if returnTarget msg = msg.sender then _ else _) _
  split
  · exact recorded
  · change Queues s (addNotification msg.sender (signMsg crates (recordImmediateFailure crates reading
      (returnTarget msg) taskId msg.recipient artifacts
      (parseTaskDetails (field "task" msg.payload) taskId) s).secret _) _) _
    rw [secret]
    exact recorded.trans (queues_add _ _)

end

theorem handleApprovalRequest_queues {msg : Msg} {taskId tool : Text} :
    Queues s (handleApprovalRequest reading msg taskId tool s)
      [(approverOf s, approvalMsg reading (approverOf s) taskId tool msg)] := by
  apply Queues.journal
  exact Queues.behind (queues_add _ _) rfl rfl

/-- What an allowed delegation queues: the task for a worker that polls and is alive. -/
theorem delegateAllowed_queues {msg : Msg} {tool : Text} :
    Queues s (delegateAllowed reading msg tool s)
      (if msg.recipient ∉ s.workerConfigs ∧ isClientAlive reading.instant msg.recipient s then
        [(msg.recipient, delegationMsg reading msg msg.msgId msg.recipient)] else []) := by
  unfold delegateAllowed
  by_cases configured : msg.recipient ∈ s.workerConfigs
  · simp only [configured, if_true, not_true_eq_false, false_and, if_false]
    have proceeded : Queues s (proceedWithDelegation reading msg msg.msgId msg.recipient
        (strField "return_to" msg.payload) tool false
        (parseTaskDetails (field "task" msg.payload) msg.msgId) s) [] := proceed_queues
    exact proceeded.same rfl rfl
  · simp only [configured, if_false, not_false_eq_true, true_and]
    split
    · exact proceed_queues
    · exact .of_eq rfl rfl

theorem delegateDenied_queues {msg : Msg} {tool : Text} :
    Queues s (delegateDenied crates reading msg tool s).2
      ((returnTarget msg, signMsg crates s.secret (failureNotification reading 0 (returnTarget msg)
          msg.msgId (policyArtifacts msg tool))) ::
        if returnTarget msg = msg.sender then []
        else [(msg.sender, signMsg crates s.secret
          (failureNotification reading 2 msg.sender msg.msgId (policyArtifacts msg tool)))]) := by
  unfold delegateDenied
  exact Queues.behind failDelegation_queues rfl rfl

/-- What a decision on a pending approval queues. -/
def decisionNotices (crates : DaemonCrates) (reading : Reading) (msg : Msg)
    (pending : PendingApproval) (s : State) : List (Text × Msg) :=
  let original := pending.originalMsg
  if statusOf "unknown" msg = "granted".toList then
    [(original.recipient, delegationMsg reading original pending.taskId original.recipient)]
  else if statusOf "unknown" msg = "denied".toList then
    (returnTarget original, signMsg crates s.secret (failureNotification reading 0
        (returnTarget original) pending.taskId (denialArtifacts msg pending))) ::
      if returnTarget original = original.sender then []
      else [(original.sender, signMsg crates s.secret (failureNotification reading 2
        original.sender pending.taskId (denialArtifacts msg pending)))]
  else []

theorem handleApprovalDecision_queues {msg : Msg} :
    Queues s (handleApprovalDecision crates reading msg s)
      (match s.pendingApprovals.lookup msg.msgId with
        | some pending => decisionNotices crates reading msg pending s
        | none => []) := by
  unfold handleApprovalDecision
  cases s.pendingApprovals.lookup msg.msgId with
  | none => exact .of_eq rfl rfl
  | some pending =>
    dsimp only [decisionNotices]
    split
    · exact Queues.behind proceed_queues rfl rfl
    · split
      · exact Queues.behind failDelegation_queues rfl rfl
      · exact .of_eq rfl rfl

/-! ## Notifications and expired leases -/

/-- Who a notification is passed on to, with the lease that it takes. -/
def routeTarget (lease : Option Lease) (msg : Msg) : Text :=
  (strField "return_to" msg.payload).getD ((lease.map Lease.originalFrom).getD msg.sender)

/-- The record that a notification makes of a task. -/
def notifiedRenewal (reading : Reading) (lease : Option Lease) (msg : Msg) (taskId : Text) :
    Option DelegatedTask → DelegatedTask :=
  match lease with
  | some lease => leasedTask reading msg taskId lease
  | none => lateTask reading msg taskId

/-- The lease that a notification would take. -/
def heldLease (taskId : Text) (s : State) : Option Lease :=
  s.leases.lookup taskId <|> s.expiredLeases.lookup taskId

theorem takeLease_eq (taskId : Text) (s : State) :
    takeLease taskId s = (heldLease taskId s, { s with
      leases := if (s.leases.lookup taskId).isSome then s.leases.erase taskId else s.leases
      expiredLeases := if (s.leases.lookup taskId).isSome then s.expiredLeases
        else s.expiredLeases.erase taskId }) := by
  unfold takeLease heldLease
  cases s.leases.lookup taskId <;> rfl

/-- A notification that is no acknowledgement takes the lease, makes the record new
and is passed on. -/
theorem handleNotify_eq {msg : Msg} (report : isAck msg = false) : ∃ data,
    handleNotify crates reading msg s = appendJournal "NOTIFY" (notifiedTask msg) msg.sender
      (routeTarget (heldLease (notifiedTask msg) s) msg) data
      (addNotification (routeTarget (heldLease (notifiedTask msg) s) msg)
        (signMsg crates s.secret
          (forwarded reading (routeTarget (heldLease (notifiedTask msg) s) msg) msg))
        (renewTask reading (notifiedTask msg)
          (notifiedRenewal reading (heldLease (notifiedTask msg) s) msg (notifiedTask msg))
          (takeLease (notifiedTask msg) s).2)) := by
  have secret : ∀ renew, (renewTask reading (notifiedTask msg) renew
      (takeLease (notifiedTask msg) s).2).secret = s.secret := by
    intro renew
    rw [renewTask_frame, takeLease_eq]
  unfold handleNotify
  simp only [report, Bool.false_eq_true, ↓reduceIte]
  have taken : (takeLease (notifiedTask msg) s).1 = heldLease (notifiedTask msg) s := by
    rw [takeLease_eq]
  cases lease : takeLease (notifiedTask msg) s with
  | mk held rest =>
    rw [lease] at taken secret
    dsimp only at taken secret
    rw [← taken]
    cases held with
    | some lease => exact ⟨_, by rw [← secret]; rfl⟩
    | none => exact ⟨_, by rw [← secret]; rfl⟩

theorem handleNotify_queues {msg : Msg} (report : isAck msg = false) :
    Queues s (handleNotify crates reading msg s)
      [(routeTarget (heldLease (notifiedTask msg) s) msg, signMsg crates s.secret
        (forwarded reading (routeTarget (heldLease (notifiedTask msg) s) msg) msg))] := by
  obtain ⟨data, handled⟩ := @handleNotify_eq crates reading s msg report
  rw [handled]
  have taken : Queues s (takeLease (notifiedTask msg) s).2 [] := by
    rw [takeLease_eq]
    exact .of_eq rfl rfl
  have renewed : ∀ renew, Queues s
      (renewTask reading (notifiedTask msg) renew (takeLease (notifiedTask msg) s).2) [] := by
    intro renew
    rw [renewTask_frame]
    exact taken.same rfl rfl
  exact ((renewed _).trans (queues_add _ _)).journal

/-- The state in which the lease of a task has become an expired one. -/
def leaseExpired (taskId : Text) (lease : Lease) (s : State) : State :=
  { s with
    leases := s.leases.erase taskId
    expiredLeases := s.expiredLeases.insert taskId lease }

theorem expireLease_eq {taskId : Text} {lease : Lease} {k : Nat}
    (found : s.leases.lookup taskId = some lease) : ∃ data,
    expireLease crates reading s taskId k = appendJournal "NOTIFY" taskId lease.assignedTo
      (Lease.target lease) data (addNotification (Lease.target lease)
        (signMsg crates s.secret (expiryNotification reading k taskId lease))
        (renewTask reading taskId (expiredTask reading taskId lease)
          (leaseExpired taskId lease s))) := by
  have secret : (renewTask reading taskId (expiredTask reading taskId lease)
      (leaseExpired taskId lease s)).secret = s.secret := by
    rw [renewTask_frame]
    rfl
  have signed := congrArg (signMsg crates) secret
  rw [← signed]
  unfold expireLease
  simp only [found]
  exact ⟨_, rfl⟩

theorem expireLease_queues (taskId : Text) (k : Nat) :
    Queues s (expireLease crates reading s taskId k)
      (match s.leases.lookup taskId with
        | some lease => [(Lease.target lease,
            signMsg crates s.secret (expiryNotification reading k taskId lease))]
        | none => []) := by
  cases found : s.leases.lookup taskId with
  | none =>
    unfold expireLease
    simp only [found]
    exact .of_eq rfl rfl
  | some lease =>
    obtain ⟨data, expired⟩ :=
      @expireLease_eq crates reading s taskId lease k found
    rw [expired]
    have renewed : Queues s (renewTask reading taskId (expiredTask reading taskId lease)
        (leaseExpired taskId lease s)) [] := by
      rw [renewTask_frame]
      exact .of_eq rfl rfl
    exact (renewed.trans (queues_add _ _)).journal

theorem expireLease_leases (taskId other : Text) (k : Nat) :
    (expireLease crates reading s taskId k).leases.lookup other =
      if other = taskId then none else s.leases.lookup other := by
  cases found : s.leases.lookup taskId with
  | none =>
    unfold expireLease
    simp only [found]
    split
    · rename_i same
      rw [same, found]
    · rfl
  | some lease =>
    obtain ⟨data, expired⟩ := @expireLease_eq crates reading s taskId lease k found
    rw [expired]
    change (renewTask reading taskId _ (leaseExpired taskId lease s)).leases.lookup other = _
    rw [renewTask_frame]
    exact Table.lookup_erase_if taskId other

/-- What one expired lease after the other leaves alone. -/
theorem expireLease_frame (taskId : Text) (k : Nat) :
    ∃ leases expiredLeases tasksActive tasksCompleted pendingNotifications journal queued,
      expireLease crates reading s taskId k = { s with
        leases := leases
        expiredLeases := expiredLeases
        tasksActive := tasksActive
        tasksCompleted := tasksCompleted
        pendingNotifications := pendingNotifications
        journal := journal
        queued := queued } := by
  cases found : s.leases.lookup taskId with
  | none =>
    unfold expireLease
    simp only [found]
    exact ⟨_, _, _, _, _, _, _, rfl⟩
  | some lease =>
    obtain ⟨data, expired⟩ := @expireLease_eq crates reading s taskId lease k found
    rw [expired, renewTask_frame]
    exact ⟨_, _, _, _, _, _, _, rfl⟩

/-! ## Sweeps -/

/-- Some leases run out, one after the other. -/
def expireLeases (crates : DaemonCrates) (reading : Reading) (s : State) (ids : List (Text × Nat)) :
    State :=
  ids.foldl (fun s (id, i) => expireLease crates reading s id (2 * i)) s

/-- The notice of each lease that runs out. -/
def expiryNotices (crates : DaemonCrates) (reading : Reading) (s : State) (ids : List (Text × Nat)) :
    List (Text × Msg) :=
  ids.filterMap fun (id, i) => (s.leases.lookup id).map fun lease =>
    (Lease.target lease, signMsg crates s.secret (expiryNotification reading (2 * i) id lease))

theorem expireLeases_frame (ids : List (Text × Nat)) :
    ∃ leases expiredLeases tasksActive tasksCompleted pendingNotifications journal queued,
      expireLeases crates reading s ids = { s with
        leases := leases
        expiredLeases := expiredLeases
        tasksActive := tasksActive
        tasksCompleted := tasksCompleted
        pendingNotifications := pendingNotifications
        journal := journal
        queued := queued } := by
  induction ids generalizing s with
  | nil => exact ⟨_, _, _, _, _, _, _, rfl⟩
  | cons entry ids ih =>
    obtain ⟨_, _, _, _, _, _, _, first⟩ :=
      @expireLease_frame crates reading s entry.1 (2 * entry.2)
    obtain ⟨_, _, _, _, _, _, _, rest⟩ :=
      @ih (expireLease crates reading s entry.1 (2 * entry.2))
    change ∃ leases expiredLeases tasksActive tasksCompleted pendingNotifications journal queued,
      expireLeases crates reading (expireLease crates reading s entry.1 (2 * entry.2)) ids = _
    rw [rest, first]
    exact ⟨_, _, _, _, _, _, _, rfl⟩

theorem expireLeases_queues {ids : List (Text × Nat)} (distinct : (ids.map Prod.fst).Nodup) :
    Queues s (expireLeases crates reading s ids) (expiryNotices crates reading s ids) := by
  induction ids generalizing s with
  | nil => exact .of_eq rfl rfl
  | cons entry ids ih =>
    obtain ⟨id, i⟩ := entry
    obtain ⟨fresh, distinct⟩ := List.nodup_cons.mp distinct
    have first := @expireLease_queues crates reading s id (2 * i)
    have rest := @ih (expireLease crates reading s id (2 * i)) distinct
    have secret : (expireLease crates reading s id (2 * i)).secret = s.secret := by
      obtain ⟨_, _, _, _, _, _, _, framed⟩ := @expireLease_frame crates reading s id (2 * i)
      rw [framed]
    have same : expiryNotices crates reading (expireLease crates reading s id (2 * i)) ids =
        expiryNotices crates reading s ids := by
      refine List.filterMap_congr fun other member => ?_
      have apart : other.1 ≠ id := by
        intro equal
        have listed : other.1 ∈ ids.map Prod.fst := List.mem_map_of_mem member
        rw [equal] at listed
        exact fresh listed
      obtain ⟨otherId, j⟩ := other
      dsimp only
      rw [expireLease_leases, if_neg apart, secret]
    rw [same] at rest
    have both : Queues s (expireLeases crates reading s ((id, i) :: ids)) _ := first.trans rest
    unfold expiryNotices at both ⊢
    rw [List.filterMap_cons]
    cases found : s.leases.lookup id with
    | none => simpa [found] using both
    | some lease => simpa [found] using both

/-- The tasks whose lease has run out are found once each. -/
theorem expiredIds_nodup (s : State) :
    (((expiredIds reading s).zipIdx).map Prod.fst).Nodup := by
  rw [List.zipIdx_map_fst]
  exact (((reading.ordered _).nodup_iff).mpr s.leases.keys_nodup).filter _

theorem cleanupExpired_eq (s : State) : cleanupExpired crates reading s =
    (deadClients reading s).foldl dropClient
      (expireLeases crates reading s (expiredIds reading s).zipIdx) := by
  obtain ⟨_, _, _, _, _, _, _, framed⟩ :=
    @expireLeases_frame crates reading s (expiredIds reading s).zipIdx
  have clients : deadClients reading (expireLeases crates reading s (expiredIds reading s).zipIdx) =
      deadClients reading s := by
    rw [framed]
    rfl
  rw [← clients]
  rfl

theorem dropClients_frame (idents : List Text) (s : State) : ∃ clients pendingNotifications,
    idents.foldl dropClient s = { s with
      clients := clients
      pendingNotifications := pendingNotifications } := by
  induction idents generalizing s with
  | nil => exact ⟨_, _, rfl⟩
  | cons ident idents ih =>
    obtain ⟨_, _, rest⟩ := ih (dropClient s ident)
    rw [List.foldl_cons, rest]
    exact ⟨_, _, rfl⟩

end Daemon

end Devit
