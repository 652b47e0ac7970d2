import Devit.DaemonTables
import Devit.NotificationDelivery

/-! The two tables of task records, and the leases. Every record stands under its own
identifier, always. That no task stands in both tables holds as long as no delegation
names a completed task and no denial an active one; that every active task has a
lease, as long as every notification gives a status that ends its task. -/
namespace Devit
open Text Path

namespace TaskTables
open Daemon NotificationDelivery

/-- Every record stands under its own identifier. -/
structure Keyed (s : State) : Prop where
  active : ∀ id task, s.tasksActive.lookup id = some task → task.id = id
  completed : ∀ id task, s.tasksCompleted.lookup id = some task → task.id = id

/-- No task stands in both tables, and each record in the one its status calls for. -/
structure Coherent (s : State) : Prop where
  apart : ∀ id, (s.tasksActive.lookup id).isSome = true → s.tasksCompleted.lookup id = none
  active : ∀ id task, s.tasksActive.lookup id = some task → task.status.terminal = false
  completed : ∀ id task, s.tasksCompleted.lookup id = some task → task.status.terminal = true

/-- Every active task has a lease. -/
def Leased (s : State) : Prop :=
  ∀ id, (s.tasksActive.lookup id).isSome = true → (s.leases.lookup id).isSome = true

section
variable (crates : DaemonCrates)

/-- A step that delegates a task does not find it among the completed ones, and a step
that denies one does not find it among the active ones. -/
def NoReuse (s : State) (event : Event) : Prop :=
  (∀ reading msg taskId, Delegates crates s event reading msg taskId →
    s.tasksCompleted.lookup taskId = none) ∧
  (∀ reading msg taskId, Denies crates s event reading msg taskId →
    s.tasksActive.lookup taskId = none)

/-- A notification that carries its code and is no acknowledgement gives a status that
ends its task. -/
def FinalReports (s : State) (event : Event) : Prop :=
  ∀ reading msg, event = .message reading msg → verifyHmac crates s.secret msg = true →
    msg.msgType = "NOTIFY".toList → isAck msg = false →
    (mapStatus (statusOf "completed" msg)).terminal = true

end

variable {crates : DaemonCrates} {reading : Reading} {s s' : State} {id : Text}
  {renew : Option DelegatedTask → DelegatedTask}

/-! ## Records under their identifiers -/

/-- A record is made new under the same identifier. -/
def Renews (id : Text) (renew : Option DelegatedTask → DelegatedTask) : Prop :=
  ∀ old, (∀ task, old = some task → task.id = id) → (renew old).id = id

theorem notifiedRenewal_renews (lease : Option Lease) (msg : Msg) :
    Renews id (notifiedRenewal reading lease msg id) := by
  intro old named
  cases old with
  | none => cases lease <;> rfl
  | some task => cases lease <;> exact named task rfl

theorem expiredTask_renews (lease : Lease) : Renews id (expiredTask reading id lease) := by
  intro old named
  cases old with
  | none => rfl
  | some task => exact named task rfl

theorem Keyed.renewed_id (keyed : Keyed s) (renews : Renews id renew) :
    (renew (takeTask id s).1).id = id := by
  apply renews
  intro task taken
  rw [takeTask_eq] at taken
  dsimp only at taken
  cases found : s.tasksActive.lookup id with
  | some active =>
    rw [found] at taken
    cases taken
    exact keyed.active id task found
  | none =>
    rw [found] at taken
    exact keyed.completed id task taken

theorem Keyed.of_same (keyed : Keyed s) (tables : SameTables s s') : Keyed s' where
  active id task found := keyed.active id task (by rwa [tables.tasksActive] at found)
  completed id task found := keyed.completed id task (by rwa [tables.tasksCompleted] at found)

theorem Keyed.renewed (keyed : Keyed s) (renews : Renews id renew) :
    Keyed (renewTask reading id renew s) where
  active other task found := by
    rw [renewTask_active (keyed.renewed_id renews)] at found
    split at found
    · rename_i same
      split at found
      · cases found
      · cases found
        rw [same]
        exact keyed.renewed_id renews
    · exact keyed.active other task found
  completed other task found := by
    rcases renewTask_completed (keyed.renewed_id renews) found with
      ⟨same, -, renewed⟩ | ⟨before, -⟩
    · rw [renewed, same]
      exact keyed.renewed_id renews
    · exact keyed.completed other task before

/-- What holds after one expired lease after the other. -/
theorem expireLeases_keeps {I : State → Prop}
    (expires : ∀ s taskId lease, s.leases.lookup taskId = some lease → I s →
      I (renewTask reading taskId (expiredTask reading taskId lease) (leaseExpired taskId lease s)))
    (same : ∀ s s', SameTables s s' → I s → I s') {ids : List (Text × Nat)} (held : I s) :
    I (expireLeases crates reading s ids) := by
  induction ids generalizing s with
  | nil => exact held
  | cons entry ids ih =>
    refine @ih (expireLease crates reading s entry.1 (2 * entry.2)) ?_
    cases found : s.leases.lookup entry.1 with
    | none =>
      unfold expireLease
      simp only [found]
      exact held
    | some lease =>
      obtain ⟨data, expired⟩ :=
        @expireLease_eq crates reading s entry.1 lease (2 * entry.2) found
      rw [expired]
      refine same _ _ ?_ (expires s entry.1 lease found held)
      exact ⟨rfl, rfl, rfl, rfl⟩

/-- The tables of tasks are not touched by taking a lease. -/
theorem takeLease_tasks (id : Text) (s : State) :
    (takeLease id s).2.tasksActive = s.tasksActive ∧
      (takeLease id s).2.tasksCompleted = s.tasksCompleted := by
  rw [takeLease_eq]
  exact ⟨rfl, rfl⟩

theorem Keyed.taken (keyed : Keyed s) (id : Text) : Keyed (takeLease id s).2 := by
  obtain ⟨active, completed⟩ := takeLease_tasks id s
  exact ⟨by rw [active]; exact keyed.active, by rw [completed]; exact keyed.completed⟩

theorem Keyed.step (keyed : Keyed s) {event : Event} (steps : TableSteps crates s event s') :
    Keyed s' := by
  cases steps with
  | same tables => exact keyed.of_same tables
  | delegated notifyWorker delegates tables =>
    apply Keyed.of_same _ tables
    refine ⟨fun id task found => ?_, keyed.completed⟩
    simp only [delegatedState, Table.lookup_insert_if] at found
    split at found
    · rename_i here
      cases found
      exact here.symm
    · exact keyed.active id task found
  | denied artifacts denies tables =>
    apply Keyed.of_same _ tables
    refine ⟨keyed.active, fun id task found => ?_⟩
    have kept := pruned_lookup found
    rw [Table.lookup_insert_if] at kept
    split at kept
    · rename_i here
      cases kept
      exact here.symm
    · exact keyed.completed id task kept
  | notified reports tables =>
    apply Keyed.of_same _ tables
    exact (keyed.taken _).renewed (notifiedRenewal_renews _ _)
  | swept sweep tables =>
    apply Keyed.of_same _ tables
    refine expireLeases_keeps ?_ (fun _ _ same held => held.of_same same) keyed
    intro s taskId lease found held
    have moved : Keyed (leaseExpired taskId lease s) := ⟨held.active, held.completed⟩
    exact moved.renewed (expiredTask_renews lease)

theorem newState_keyed (secret : Text) (workerConfigs : List Text) (daemonVersion : Text)
    (expected : Option Text) (approvalTarget : Text) :
    Keyed (newState secret workerConfigs daemonVersion expected approvalTarget) where
  active := nofun
  completed := nofun

theorem step_keyed (s : State) (event : Event) (keyed : Keyed s) :
    Keyed (step crates s event).2 :=
  keyed.step (table_steps (step_steps event))

/-! ## Which table a task stands in -/

theorem Coherent.of_same (coherent : Coherent s) (tables : SameTables s s') : Coherent s' where
  apart := by
    rw [tables.tasksActive, tables.tasksCompleted]
    exact coherent.apart
  active := by
    rw [tables.tasksActive]
    exact coherent.active
  completed := by
    rw [tables.tasksCompleted]
    exact coherent.completed

/-- A record that is made new leaves the table it stood in. -/
theorem Coherent.renewed (coherent : Coherent s) (keyed : Keyed s) (renews : Renews id renew) :
    Coherent (renewTask reading id renew s) := by
  have named := keyed.renewed_id renews
  refine ⟨fun other found => ?_, fun other task found => ?_, fun other task found => ?_⟩
  · rw [renewTask_active named] at found
    cases stored : (renewTask reading id renew s).tasksCompleted.lookup other with
    | none => rfl
    | some task =>
      exfalso
      rcases renewTask_completed named stored with ⟨same, terminal, renewed⟩ | ⟨before, own⟩
      · rw [if_pos same, ← renewed, terminal] at found
        cases found
      · by_cases same : other = id
        · have gone := coherent.apart id (own same)
          rw [← same, before] at gone
          cases gone
        · rw [if_neg same] at found
          have gone := coherent.apart other found
          rw [before] at gone
          cases gone
  · rw [renewTask_active named] at found
    split at found
    · split at found
      · cases found
      · rename_i unfinished
        cases found
        exact Bool.eq_false_iff.mpr unfinished
    · exact coherent.active other task found
  · rcases renewTask_completed named found with ⟨-, terminal, -⟩ | ⟨before, -⟩
    · exact terminal
    · exact coherent.completed other task before

theorem Coherent.taken (coherent : Coherent s) (id : Text) : Coherent (takeLease id s).2 := by
  obtain ⟨active, completed⟩ := takeLease_tasks id s
  refine ⟨?_, ?_, ?_⟩
  · rw [active, completed]
    exact coherent.apart
  · rw [active]
    exact coherent.active
  · rw [completed]
    exact coherent.completed

theorem Coherent.delegate (coherent : Coherent s) {msg : Msg} {taskId : Text} (notifyWorker : Bool)
    (fresh : s.tasksCompleted.lookup taskId = none) :
    Coherent (delegatedState reading msg taskId notifyWorker s) := by
  refine ⟨fun id found => ?_, fun id task found => ?_, coherent.completed⟩
  · by_cases here : id = taskId
    · rw [here]
      exact fresh
    · simp only [delegatedState, Table.lookup_insert_if, if_neg here] at found
      exact coherent.apart id found
  · simp only [delegatedState, Table.lookup_insert_if] at found
    split at found
    · cases found
      cases notifyWorker <;> rfl
    · exact coherent.active id task found

theorem Coherent.deny (coherent : Coherent s) {msg : Msg} {taskId : Text} {artifacts : Json}
    (idle : s.tasksActive.lookup taskId = none) :
    Coherent (failedState reading msg taskId artifacts s) := by
  have kept : ∀ {id task}, (failedState reading msg taskId artifacts s).tasksCompleted.lookup id =
      some task → id = taskId ∧ task.status = .failed ∨ s.tasksCompleted.lookup id = some task := by
    intro id task found
    have before := pruned_lookup found
    rw [Table.lookup_insert_if] at before
    split at before
    · rename_i here
      cases before
      exact .inl ⟨here, rfl⟩
    · exact .inr before
  refine ⟨fun id found => ?_, coherent.active, fun id task found => ?_⟩
  · cases stored : (failedState reading msg taskId artifacts s).tasksCompleted.lookup id with
    | none => rfl
    | some task =>
      exfalso
      change (s.tasksActive.lookup id).isSome = true at found
      rcases kept stored with ⟨here, -⟩ | before
      · rw [here, idle] at found
        cases found
      · rw [coherent.apart id found] at before
        cases before
  · rcases kept found with ⟨-, failed⟩ | before
    · rw [failed]
      rfl
    · exact coherent.completed id task before

theorem Coherent.expire (coherent : Coherent s) (keyed : Keyed s) {ids : List (Text × Nat)} :
    Coherent (expireLeases crates reading s ids) ∧ Keyed (expireLeases crates reading s ids) := by
  refine expireLeases_keeps (I := fun s => Coherent s ∧ Keyed s) ?_
    (fun _ _ same held => ⟨held.1.of_same same, held.2.of_same same⟩) ⟨coherent, keyed⟩
  rintro s taskId lease found ⟨coherent, keyed⟩
  have moved : Keyed (leaseExpired taskId lease s) := ⟨keyed.active, keyed.completed⟩
  have together : Coherent (leaseExpired taskId lease s) :=
    ⟨coherent.apart, coherent.active, coherent.completed⟩
  have renews := @expiredTask_renews reading taskId lease
  exact ⟨together.renewed moved renews, moved.renewed renews⟩

theorem Coherent.step (coherent : Coherent s) (keyed : Keyed s) {event : Event}
    (fresh : NoReuse crates s event) (steps : TableSteps crates s event s') : Coherent s' := by
  cases steps with
  | same tables => exact coherent.of_same tables
  | delegated notifyWorker delegates tables =>
    exact (coherent.delegate notifyWorker (fresh.1 _ _ _ delegates)).of_same tables
  | denied artifacts denies tables =>
    exact (coherent.deny (fresh.2 _ _ _ denies)).of_same tables
  | notified reports tables =>
    apply Coherent.of_same _ tables
    exact (coherent.taken _).renewed (keyed.taken _) (notifiedRenewal_renews _ _)
  | swept sweep tables =>
    apply Coherent.of_same _ tables
    exact (coherent.expire keyed).1

/-- **Coherence.** In a run in which no delegation names a completed task and no denial
an active one, no task stands in both tables and every record in the one its status
calls for, in every state reached. -/
theorem coherent_along {secret daemonVersion approvalTarget : Text} {workerConfigs : List Text}
    {expected : Option Text} {events : List Event}
    (fresh : Runs.Along (NoReuse crates) (step crates)
      (newState secret workerConfigs daemonVersion expected approvalTarget) events) :
    ∀ done rest, events = done ++ rest → Coherent (after crates
      (newState secret workerConfigs daemonVersion expected approvalTarget) done) := by
  rintro done rest rfl
  have keyed := newState_keyed secret workerConfigs daemonVersion expected approvalTarget
  have start : Coherent (newState secret workerConfigs daemonVersion expected approvalTarget) :=
    ⟨nofun, nofun, nofun⟩
  have both := Runs.invariant_along (I := fun s => Coherent s ∧ Keyed s)
    (fun s event held fresh => ⟨held.1.step held.2 fresh (table_steps (step_steps event)),
      step_keyed s event held.2⟩) ⟨start, keyed⟩ (Runs.along_append.mp fresh).1
  exact both.1

/-! ## Reusing an identifier -/

/-- A worker's client registers, is delegated a task and reports its end. -/
def oneTask : List Event :=
  [sentAt 1 "REGISTER" "r" "w" "orchestrator" [],
    sentAt 2 "DELEGATE" "t" "c" "w" [],
    sentAt 3 "NOTIFY" "t" "w" "orchestrator" []]

theorem no_reuse_of_type {msg : Msg} (delegation : msg.msgType ≠ "DELEGATE".toList)
    (decision : msg.msgType ≠ "APPROVAL_DECISION".toList) :
    NoReuse crates s (.message reading msg) := by
  constructor
  · rintro _ _ _ (⟨-, type, -, -⟩ | ⟨-, type, -, -⟩)
    · exact absurd type delegation
    · exact absurd type decision
  · rintro _ _ _ (⟨-, type, -⟩ | ⟨-, type, -, -⟩)
    · exact absurd type delegation
    · exact absurd type decision

theorem one_task_coherent : Runs.Along (NoReuse plainCrates) (step plainCrates) freshState oneTask ∧
    ∀ done rest, oneTask = done ++ rest → Coherent (after plainCrates freshState done) := by
  suffices fresh : Runs.Along (NoReuse plainCrates) (step plainCrates) freshState oneTask from
    ⟨fresh, coherent_along fresh⟩
  refine Runs.along_cons.mpr ⟨no_reuse_of_type (by decide) (by decide), ?_⟩
  refine Runs.along_cons.mpr ⟨⟨?_, ?_⟩, ?_⟩
  · intro reading msg taskId delegates
    cases delegates with
    | allowed authentic type allow reachable => exact Option.isNone_iff_eq_none.mp (by decide +kernel)
    | granted authentic type found status => exact absurd type (by decide)
  · intro reading msg taskId denies
    cases denies with
    | policy authentic type deny => exact Option.isNone_iff_eq_none.mp (by decide +kernel)
    | denied authentic type found status => exact absurd type (by decide)
  · exact Runs.along_cons.mpr ⟨no_reuse_of_type (by decide) (by decide), Runs.along_nil _ _⟩

/-- The same task is delegated a second time. -/
def delegatedAgain : List Event := oneTask ++ [sentAt 4 "DELEGATE" "t" "c" "w" []]

/-- The task then stands in both tables. -/
theorem delegated_again_in_both :
    ((after plainCrates freshState delegatedAgain).tasksActive.lookup ['t']).isSome = true ∧
    ((after plainCrates freshState delegatedAgain).tasksCompleted.lookup ['t']).isSome = true ∧
    ¬ Coherent (after plainCrates freshState delegatedAgain) := by
  have active : ((after plainCrates freshState delegatedAgain).tasksActive.lookup
      ['t']).isSome = true := by decide +kernel
  have completed : ((after plainCrates freshState delegatedAgain).tasksCompleted.lookup
      ['t']).isSome = true := by decide +kernel
  refine ⟨active, completed, fun coherent => ?_⟩
  rw [coherent.apart _ active] at completed
  cases completed

/-! ## Leases of active tasks -/

theorem notifiedRenewal_status (lease : Option Lease) (msg : Msg) (old : Option DelegatedTask) :
    (notifiedRenewal reading lease msg id old).status = mapStatus (statusOf "completed" msg) := by
  cases lease <;> cases old <;> rfl

theorem expiredTask_status (lease : Lease) (old : Option DelegatedTask) :
    (expiredTask reading id lease old).status = .failed := by
  cases old <;> rfl

theorem notifiedState_active (keyed : Keyed s) (msg : Msg) (other : Text) :
    ((notifiedState reading msg s).tasksActive.lookup other).isSome =
      if other = notifiedTask msg then !(mapStatus (statusOf "completed" msg)).terminal
      else (s.tasksActive.lookup other).isSome := by
  unfold notifiedState
  rw [renewTask_active ((keyed.taken _).renewed_id (notifiedRenewal_renews _ _)),
    notifiedRenewal_status, (takeLease_tasks _ s).1]
  split
  · cases (mapStatus (statusOf "completed" msg)).terminal <;> rfl
  · rfl

theorem Leased.of_same (leased : Leased s) (tables : SameTables s s') : Leased s' := by
  unfold Leased
  rw [tables.tasksActive, tables.leases]
  exact leased

/-- A notification leaves a lease for every active task exactly if it ends its own. -/
theorem leased_notified (leased : Leased s) (keyed : Keyed s) (msg : Msg) :
    Leased (notifiedState reading msg s) ↔
      (mapStatus (statusOf "completed" msg)).terminal = true := by
  constructor
  · intro still
    by_contra unfinished
    have lease := still (notifiedTask msg) (by
      rw [notifiedState_active keyed, if_pos rfl, Bool.eq_false_iff.mpr unfinished]
      rfl)
    rw [notifiedState_leases, if_pos rfl] at lease
    cases lease
  · intro terminal id active
    rw [notifiedState_active keyed, terminal] at active
    rw [notifiedState_leases]
    split at active
    · cases active
    · rename_i other
      rw [if_neg other]
      exact leased id active

theorem Leased.expire (leased : Leased s) (keyed : Keyed s) {ids : List (Text × Nat)} :
    Leased (expireLeases crates reading s ids) ∧ Keyed (expireLeases crates reading s ids) := by
  refine expireLeases_keeps (I := fun s => Leased s ∧ Keyed s) ?_
    (fun _ _ same held => ⟨held.1.of_same same, held.2.of_same same⟩) ⟨leased, keyed⟩
  rintro s taskId lease found ⟨leased, keyed⟩
  have moved : Keyed (leaseExpired taskId lease s) := ⟨keyed.active, keyed.completed⟩
  have renews := @expiredTask_renews reading taskId lease
  refine ⟨fun id active => ?_, moved.renewed renews⟩
  rw [renewTask_active (moved.renewed_id renews), expiredTask_status] at active
  split at active
  · cases active
  · rename_i other
    rw [renewTask_frame]
    change ((s.leases.erase taskId).lookup id).isSome = true
    rw [Table.lookup_erase_if, if_neg other]
    exact leased id active

theorem Leased.quiet (leased : Leased s) (keyed : Keyed s) {event : Event}
    (steps : TableSteps crates s event s')
    (silent : ∀ reading msg, ¬ Reports crates s event reading msg) : Leased s' := by
  cases steps with
  | same tables => exact leased.of_same tables
  | delegated notifyWorker delegates tables =>
    apply Leased.of_same _ tables
    intro id active
    simp only [delegatedState, Table.lookup_insert_if] at active ⊢
    split
    · rfl
    · rename_i other
      rw [if_neg other] at active
      exact leased id active
  | denied artifacts denies tables =>
    apply Leased.of_same _ tables
    exact leased
  | notified reports tables => exact absurd reports (silent _ _)
  | swept sweep tables => exact (leased.expire keyed).1.of_same tables

theorem reports_final {event : Event} {msg : Msg} (reports : Reports crates s event reading msg) :
    FinalReports crates s event ↔ (mapStatus (statusOf "completed" msg)).terminal = true := by
  cases reports with
  | client authentic type report =>
    constructor
    · intro final
      exact final reading msg rfl authentic type report
    · rintro terminal _ _ ⟨⟩ _ _ _
      exact terminal
  | worker runs => exact ⟨fun _ => workerReport_terminal _ _, fun _ => nofun⟩

/-- A step leaves a lease for every active task exactly if it takes no notification
that leaves its task open. -/
theorem leased_step {event : Event} (leased : Leased s) (keyed : Keyed s) :
    Leased (step crates s event).2 ↔ FinalReports crates s event := by
  by_cases reported : ∃ reading msg, Reports crates s event reading msg
  · obtain ⟨reading, msg, reports⟩ := reported
    have tables := reports_tables reports
    rw [reports_final reports, ← @leased_notified reading s leased keyed msg]
    constructor
    · intro still
      exact still.of_same ⟨tables.leases.symm, tables.expiredLeases.symm, tables.tasksActive.symm,
        tables.tasksCompleted.symm⟩
    · exact fun still => still.of_same tables
  · have silent : ∀ reading msg, ¬ Reports crates s event reading msg :=
      fun reading msg reports => reported ⟨reading, msg, reports⟩
    have final : FinalReports crates s event := by
      rintro reading msg rfl authentic type report
      exact absurd (.client authentic type report) (silent reading msg)
    have still := leased.quiet keyed (table_steps (step_steps event)) silent
    exact ⟨fun _ => final, fun _ => still⟩

/-- **Every active task can time out.** In a run, every active task has a lease in
every state reached exactly if every notification of a client gives a status that
ends its task. -/
theorem leased_iff {secret daemonVersion approvalTarget : Text} {workerConfigs : List Text}
    {expected : Option Text} {events : List Event} :
    (∀ done rest, events = done ++ rest → Leased (after crates
        (newState secret workerConfigs daemonVersion expected approvalTarget) done)) ↔
      Runs.Along (FinalReports crates) (step crates)
        (newState secret workerConfigs daemonVersion expected approvalTarget) events := by
  have start : Leased (newState secret workerConfigs daemonVersion expected approvalTarget) := nofun
  have keyed := newState_keyed secret workerConfigs daemonVersion expected approvalTarget
  constructor
  · rintro all done event rest rfl
    have before := all done (event :: rest) rfl
    have behind := all (done ++ [event]) rest (by rw [List.append_assoc, List.singleton_append])
    rw [after_concat] at behind
    exact (leased_step before (Runs.invariant step_keyed keyed done)).mp behind
  · rintro final done rest rfl
    have both := Runs.invariant_along (I := fun s => Leased s ∧ Keyed s)
      (fun s event held final => ⟨(leased_step held.1 held.2).mpr final,
        step_keyed s event held.2⟩) ⟨start, keyed⟩ (Runs.along_append.mp final).1
    exact both.1

/-- A worker tells of its progress. -/
def progressReport : List Event :=
  [sentAt 1 "REGISTER" "r" "w" "orchestrator" [],
    sentAt 2 "DELEGATE" "t" "c" "w" [],
    sentAt 3 "NOTIFY" "t" "w" "orchestrator" [("status", .string "progress".toList)]]

/-- The task is active, and nothing will close it. -/
theorem progress_takes_lease :
    ((after plainCrates freshState progressReport).tasksActive.lookup ['t']).isSome = true ∧
    (after plainCrates freshState progressReport).leases.lookup ['t'] = none ∧
    ¬ Leased (after plainCrates freshState progressReport) := by
  have active : ((after plainCrates freshState progressReport).tasksActive.lookup
      ['t']).isSome = true := by decide +kernel
  have none_held : ((after plainCrates freshState progressReport).leases.lookup
      ['t']).isSome = false := by decide +kernel
  refine ⟨active, by simpa using none_held, fun leased => ?_⟩
  rw [leased _ active] at none_held
  cases none_held

end TaskTables

end Devit
