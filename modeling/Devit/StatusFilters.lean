import Devit.BackendNotifications
import Devit.TaskTables

/-! What the two orchestration backends answer when they are asked for the tasks of one
status. They keep the tasks that are under way and those that have ended in two tables, and
a filter picks from both. Each filter is exact but the one for failed tasks: it lists them
twice, and every other task that has ended beside them. -/
namespace Devit
open Text Path

inductive StatusFilter where
  | all
  | active
  | completed
  | failed
  deriving DecidableEq, Repr

/-- The filter asks for tasks of this status. -/
def StatusFilter.asks : StatusFilter → TaskStatus → Bool
  | .all, _ => true
  | .active, status => !status.terminal
  | .completed, status => status = .completed
  | .failed, status => status = .failed

/-- What a task is delegated with. -/
structure Delegation where
  goal : Text
  delegatedTo : Text
  model : Option Text
  timeout : Option UInt64
  watchPatterns : Option (List Text)
  context : Option Json
  workingDir : Option PathBuf
  responseFormat : Option Text

namespace StatusFilters

/-- The answer to `status`, which both backends make of their tables in the same way. -/
def orchestrationStatus (reading : Reading) (filter : StatusFilter)
    (active completed : Table DelegatedTask) : OrchestrationStatus :=
  let activeTasks := active.values reading.order
  let completedTasks := completed.values reading.order
  { activeTasks := match filter with
      | .active => activeTasks
      | .failed => completedTasks.filter (·.status = .failed)
      | .completed => []
      | .all => activeTasks
    completedTasks := match filter with
      | .completed => completedTasks.filter (·.status = .completed)
      | .active => []
      | .all => completedTasks
      | .failed => completedTasks
    totalActive := activeTasks.length
    totalCompleted := (completedTasks.filter (·.status = .completed)).length
    totalFailed := (completedTasks.filter (·.status = .failed)).length
    oldestActiveTask := (activeTasks.argmin (·.createdAt)).map (·.id) }

/-- The task that is delegated, as both backends record it. -/
def pendingTask (defaultTimeoutSecs : UInt64) (defaultWatchPatterns : List Text) (now : Nat)
    (taskId : Text) (request : Delegation) : DelegatedTask where
  id := taskId
  goal := request.goal
  delegatedTo := request.delegatedTo
  createdAt := now
  timeoutSecs := request.timeout.getD defaultTimeoutSecs
  status := .pending
  context := request.context
  watchPatterns := request.watchPatterns.getD defaultWatchPatterns
  lastActivity := now
  notifications := []
  workingDir := request.workingDir
  responseFormat := request.responseFormat
  model := request.model
  modelResolved := none

/-- The last cleanup was less than thirty seconds ago, or just then. -/
def cleanedLately (strictly : Bool) (reading : Reading) (lastCleanup : Option Nat) : Bool :=
  lastCleanup.any fun last =>
    if strictly then reading.instant - last < 30 * 10 ^ 9 else reading.instant - last ≤ 30 * 10 ^ 9

/-- Tasks without activity for two hours are dropped. -/
def recent (reading : Reading) (tasks : Table DelegatedTask) : Table DelegatedTask :=
  tasks.retain fun task => reading.utc < task.lastActivity + 2 * 60 * 60 * 1000

end StatusFilters

open StatusFilters

/-! ## The local backend -/

structure LocalBackend where
  maxConcurrentTasks : Nat
  defaultTimeoutSecs : UInt64
  defaultWatchPatterns : List Text
  activeTasks : Table DelegatedTask
  completedTasks : Table DelegatedTask
  lastCleanup : Option Nat

namespace LocalBackend
open DaemonBackend

def new (maxConcurrentTasks : Nat) (defaultTimeoutSecs : UInt64)
    (defaultWatchPatterns : List Text) : LocalBackend :=
  ⟨maxConcurrentTasks, defaultTimeoutSecs, defaultWatchPatterns, ∅, ∅, none⟩

/-- The identifier and the timeout of the task, which is recorded as pending. -/
def delegate (reading : Reading) (request : Delegation) (backend : LocalBackend) :
    Except Text (Text × UInt64) × LocalBackend :=
  if backend.activeTasks.keys.length ≥ backend.maxConcurrentTasks then
    (.error "Max delegated tasks reached, close some before creating new ones".toList, backend)
  else
    let task := pendingTask backend.defaultTimeoutSecs backend.defaultWatchPatterns reading.utc
      (reading.uuid 0) request
    (.ok (task.id, task.timeoutSecs),
      { backend with activeTasks := backend.activeTasks.insert task.id task })

def statusNamed (status : Text) : TaskStatus :=
  if status = "completed".toList then .completed
  else if status = "failed".toList then .failed
  else if status = "cancelled".toList then .cancelled
  else .inProgress

def notified (now : Nat) (report : Report) (task : DelegatedTask) : DelegatedTask :=
  { task with
    notifications := task.notifications ++ [Report.notification now report]
    lastActivity := now
    status := statusNamed report.status }

/-- Only an active task can be notified of. -/
def notify (reading : Reading) (taskId : Text) (report : Report) (backend : LocalBackend) :
    Except Text Unit × LocalBackend :=
  if report.status.map Char.toLower = "ack".toList then (.ok (), backend)
  else
    match backend.activeTasks.lookup taskId with
    | none => (.error ("Unknown task: ".toList ++ taskId), backend)
    | some task =>
      let task := notified reading.utc report task
      let rest := backend.activeTasks.erase taskId
      (.ok (), if task.status.terminal then
          { backend with
            activeTasks := rest
            completedTasks := backend.completedTasks.insert taskId task }
        else { backend with activeTasks := rest.insert taskId task })

def status (reading : Reading) (filter : StatusFilter) (backend : LocalBackend) :
    OrchestrationStatus :=
  orchestrationStatus reading filter backend.activeTasks backend.completedTasks

def cleanupExpired (reading : Reading) (backend : LocalBackend) : LocalBackend :=
  if cleanedLately true reading backend.lastCleanup then backend
  else { backend with
    lastCleanup := some reading.instant
    completedTasks := recent reading backend.completedTasks }

inductive Call where
  | delegate (reading : Reading) (request : Delegation)
  | notify (reading : Reading) (taskId : Text) (report : Report)
  | cleanupExpired (reading : Reading)

def step (backend : LocalBackend) : Call → Unit × LocalBackend
  | .delegate reading request => ((), (delegate reading request backend).2)
  | .notify reading taskId report => ((), (notify reading taskId report backend).2)
  | .cleanupExpired reading => ((), cleanupExpired reading backend)

/-- A new task is given an identifier that no task has. -/
def NewId (backend : LocalBackend) (call : Call) : Prop :=
  ∀ reading request, call = .delegate reading request →
    backend.activeTasks.lookup (reading.uuid 0) = none ∧
      backend.completedTasks.lookup (reading.uuid 0) = none

end LocalBackend

/-! ## The backend of the daemon -/

/-- The tables of the backend, and when they were last cleaned. -/
structure DaemonClient where
  backend : DaemonBackend
  lastCleanup : Option Nat

namespace DaemonBackend

def recordTask (task : DelegatedTask) (backend : DaemonBackend) : DaemonBackend :=
  { backend with active := backend.active.insert task.id task }

/-- Tasks under their identifiers; of two with one identifier the later. -/
def collect (tasks : List DelegatedTask) : Table DelegatedTask :=
  tasks.foldl (fun table task => table.insert task.id task) ∅

section
-- `serde_json::from_value`, with the text of its error
variable (readStatus : Json → Except Text OrchestrationStatus)

def processSnapshot (payload : Json) (backend : DaemonBackend) :
    Except Text Unit × DaemonBackend :=
  match readStatus payload with
  | .error e => (.error ("invalid status snapshot from daemon: ".toList ++ e), backend)
  | .ok status =>
    (.ok (), { backend with
      active := collect status.activeTasks
      completed := collect status.completedTasks })

def handleDaemonMessage (now : Nat) (message : Msg) (backend : DaemonBackend) :
    Except Text Unit × DaemonBackend :=
  if message.msgType = "NOTIFY".toList then processNotification now message.payload backend
  else if message.msgType = "STATUS_RESPONSE".toList then
    processSnapshot readStatus message.payload backend
  else (.ok (), backend)

/-- The messages that a refresh receives, up to the first that cannot be handled. -/
def refreshNotifications : List (Nat × Msg) → DaemonBackend → DaemonBackend
  | [], backend => backend
  | (now, message) :: messages, backend =>
    match handleDaemonMessage readStatus now message backend with
    | (.error _, backend) => backend
    | (.ok _, backend) => refreshNotifications messages backend

/-- The answer, and the backend after the refresh in front of it. A refresh that fails is
logged only. -/
def status (reading : Reading) (received : List (Nat × Msg)) (filter : StatusFilter)
    (backend : DaemonBackend) : OrchestrationStatus × DaemonBackend :=
  let backend := refreshNotifications readStatus received backend
  (orchestrationStatus reading filter backend.active backend.completed, backend)

end

end DaemonBackend

namespace DaemonClient
open DaemonBackend

def cleanupState (reading : Reading) (client : DaemonClient) : DaemonClient :=
  if cleanedLately false reading client.lastCleanup then client
  else {
    backend := { client.backend with completed := recent reading client.backend.completed }
    lastCleanup := some reading.instant }

/-- What changes the tables: a task that the daemon took, a notification that it took, the
messages it sends, and a cleanup. -/
inductive Call where
  | recordTask (watchPatterns : List Text) (now : Nat) (taskId : Text) (request : Delegation)
  | recordNotification (now : Nat) (taskId : Text) (report : Report)
  | refresh (received : List (Nat × Msg))
  | cleanupState (reading : Reading)

section
variable (readStatus : Json → Except Text OrchestrationStatus)

def step (client : DaemonClient) : Call → Unit × DaemonClient
  | .recordTask watchPatterns now taskId request =>
    let task := pendingTask client.backend.defaultTimeoutSecs watchPatterns now taskId request
    ((), { client with backend := recordTask task client.backend })
  | .recordNotification now taskId report =>
    ((), { client with backend := recordNotification now taskId report client.backend })
  | .refresh received =>
    ((), { client with backend := refreshNotifications readStatus received client.backend })
  | .cleanupState reading => ((), cleanupState reading client)

end

end DaemonClient

namespace StatusFilters

/-! ## Exact answers -/

/-- Every task of both tables. -/
def tasks (reading : Reading) (active completed : Table DelegatedTask) : List DelegatedTask :=
  active.values reading.order ++ completed.values reading.order

/-- The two lists have each task whose status is asked for once, and no other task. -/
def Exact (reading : Reading) (filter : StatusFilter) (active completed : Table DelegatedTask)
    (answer : OrchestrationStatus) : Prop :=
  (answer.activeTasks ++ answer.completedTasks).Perm
    ((tasks reading active completed).filter fun task => filter.asks task.status)

/-- Where a filter is exact. The one for failed tasks is where the failed tasks of the first
table are all that the second one has. -/
def Fitting (reading : Reading) (filter : StatusFilter) (active completed : Table DelegatedTask) :
    Prop :=
  match filter with
  | .all => True
  | .active => (∀ id task, active.lookup id = some task → task.status.terminal = false) ∧
      ∀ id task, completed.lookup id = some task → task.status.terminal = true
  | .completed => ∀ id task, active.lookup id = some task → task.status ≠ .completed
  | .failed => (completed.values reading.order).Perm
      ((active.values reading.order).filter (·.status = .failed))

/-- Tables in order: each task under its identifier, in one table only, and in the one that
its status calls for. -/
structure Sorted (active completed : Table DelegatedTask) : Prop where
  named : ∀ id task, active.lookup id = some task ∨ completed.lookup id = some task → task.id = id
  apart : ∀ id, (active.lookup id).isSome = true → completed.lookup id = none
  running : ∀ id task, active.lookup id = some task → task.status.terminal = false
  ended : ∀ id task, completed.lookup id = some task → task.status.terminal = true

variable {reading : Reading} {filter : StatusFilter} {active completed : Table DelegatedTask}

theorem mem_tasks {table : Table DelegatedTask} {task : DelegatedTask} :
    task ∈ table.values reading.order ↔ ∃ id, table.lookup id = some task :=
  Table.mem_values reading.ordered

/-- A list is what a test leaves of it and another one, if the test passes all of it and none
of the other. -/
theorem perm_filter_append {α : Type} {test : α → Bool} {kept dropped : List α} :
    kept.Perm ((kept ++ dropped).filter test) ↔
      (∀ a ∈ kept, test a = true) ∧ ∀ a ∈ dropped, test a = false := by
  rw [List.filter_append]
  constructor
  · intro same
    have passes : ∀ a ∈ kept, test a = true := by
      intro a member
      rcases List.mem_append.mp (same.mem_iff.mp member) with here | there
      · exact (List.mem_filter.mp here).2
      · exact (List.mem_filter.mp there).2
    have sizes := same.length_eq
    rw [List.filter_eq_self.mpr passes, List.length_append] at sizes
    have nothing : dropped.filter test = [] := List.eq_nil_of_length_eq_zero (by omega)
    exact ⟨passes, fun a member => by simpa using List.filter_eq_nil_iff.mp nothing a member⟩
  · rintro ⟨passes, fails⟩
    have nothing : dropped.filter test = [] :=
      List.filter_eq_nil_iff.mpr fun a member => by simp [fails a member]
    rw [List.filter_eq_self.mpr passes, nothing, List.append_nil]

/-- **One answer.** -/
theorem exact_iff : Exact reading filter active completed
    (orchestrationStatus reading filter active completed) ↔
      Fitting reading filter active completed := by
  unfold Exact tasks Fitting
  cases filter with
  | all =>
    refine iff_of_true ?_ trivial
    have every : ((active.values reading.order ++ completed.values reading.order).filter
        fun task => StatusFilter.all.asks task.status) =
          active.values reading.order ++ completed.values reading.order :=
      List.filter_eq_self.mpr fun task member => rfl
    rw [every]
    exact .refl _
  | active =>
    simp only [orchestrationStatus, List.append_nil]
    rw [perm_filter_append]
    simp only [mem_tasks, StatusFilter.asks, Bool.not_eq_true', Bool.not_eq_false',
      forall_exists_index]
    exact and_congr forall_comm forall_comm
  | completed =>
    simp only [orchestrationStatus, List.nil_append, StatusFilter.asks, List.filter_append]
    constructor
    · intro same id task found done
      have sizes := same.length_eq
      rw [List.length_append] at sizes
      have some_task : task ∈ (active.values reading.order).filter (·.status = .completed) :=
        List.mem_filter.mpr ⟨mem_tasks.mpr ⟨id, found⟩, by simpa using done⟩
      have counted := List.length_pos_of_mem some_task
      omega
    · intro none_done
      have nothing : (active.values reading.order).filter (·.status = .completed) = [] := by
        refine List.filter_eq_nil_iff.mpr fun task member => ?_
        obtain ⟨id, found⟩ := mem_tasks.mp member
        simpa using none_done id task found
      rw [nothing, List.nil_append]
  | failed =>
    simp only [orchestrationStatus, StatusFilter.asks, List.filter_append]
    exact ⟨fun same => (List.perm_append_right_iff _).mp (List.perm_append_comm.trans same),
      fun same => List.perm_append_comm.trans ((List.perm_append_right_iff _).mpr same)⟩

/-! ## Tables in order -/

theorem sorted_empty : Sorted ∅ ∅ where
  named := by rintro id task (found | found) <;> cases found
  apart := by
    intro id found
    cases found
  running := by
    intro id task found
    cases found
  ended := by
    intro id task found
    cases found

/-- A task that is in neither table is put where its status calls for. -/
theorem Sorted.filed (sorted : Sorted active completed) {task : DelegatedTask}
    (free : active.lookup task.id = none ∧ completed.lookup task.id = none) :
    (task.status.terminal = false → Sorted (active.insert task.id task) completed) ∧
      (task.status.terminal = true → Sorted active (completed.insert task.id task)) := by
  constructor
  · intro going
    refine ⟨?_, ?_, ?_, sorted.ended⟩
    · intro id other found
      rw [Table.lookup_insert_if] at found
      by_cases same : id = task.id
      · subst same
        rw [if_pos rfl, free.2] at found
        cases found.resolve_right nofun
        rfl
      · rw [if_neg same] at found
        exact sorted.named id other found
    · intro id found
      rw [Table.lookup_insert_if] at found
      by_cases same : id = task.id
      · rw [same]
        exact free.2
      · rw [if_neg same] at found
        exact sorted.apart id found
    · intro id other found
      rw [Table.lookup_insert_if] at found
      by_cases same : id = task.id
      · rw [if_pos same] at found
        cases found
        exact going
      · rw [if_neg same] at found
        exact sorted.running id other found
  · intro done
    refine ⟨?_, ?_, sorted.running, ?_⟩
    · intro id other found
      rw [Table.lookup_insert_if] at found
      by_cases same : id = task.id
      · subst same
        rw [if_pos rfl, free.1] at found
        cases found.resolve_left nofun
        rfl
      · rw [if_neg same] at found
        exact sorted.named id other found
    · intro id found
      rw [Table.lookup_insert_if]
      by_cases same : id = task.id
      · rw [same, free.1] at found
        cases found
      · rw [if_neg same]
        exact sorted.apart id found
    · intro id other found
      rw [Table.lookup_insert_if] at found
      by_cases same : id = task.id
      · rw [if_pos same] at found
        cases found
        exact done
      · rw [if_neg same] at found
        exact sorted.ended id other found

/-- What is left of tables in order is in order. -/
theorem Sorted.fewer (sorted : Sorted active completed) {active' completed' : Table DelegatedTask}
    (some_active : ∀ id task, active'.lookup id = some task → active.lookup id = some task)
    (some_completed : ∀ id task, completed'.lookup id = some task →
      completed.lookup id = some task) : Sorted active' completed' where
  named := fun id task found =>
    sorted.named id task (found.imp (some_active id task) (some_completed id task))
  apart := by
    intro id found
    obtain ⟨task, here⟩ := Option.isSome_iff_exists.mp found
    have gone := sorted.apart id (by rw [some_active id task here]; rfl)
    cases there : completed'.lookup id with
    | none => rfl
    | some other =>
      rw [some_completed id other there] at gone
      cases gone
  running := fun id task found => sorted.running id task (some_active id task found)
  ended := fun id task found => sorted.ended id task (some_completed id task found)

theorem lookup_of_erase {table : Table DelegatedTask} {key id : Text} {task : DelegatedTask}
    (found : (table.erase key).lookup id = some task) : table.lookup id = some task := by
  rw [Table.lookup_erase_if] at found
  split at found
  · cases found
  · exact found

/-- Tables in order name each task once. -/
theorem Sorted.ids_nodup (sorted : Sorted active completed) :
    ((tasks reading active completed).map (·.id)).Nodup := by
  have ids : ∀ table : Table DelegatedTask,
      (∀ id task, table.lookup id = some task → task.id = id) →
        (table.values reading.order).map (·.id) = reading.order table.keys := by
    intro table named
    rw [Table.values, List.map_filterMap]
    have same : ∀ id ∈ reading.order table.keys, (table.lookup id).map (·.id) = some id := by
      intro id member
      obtain ⟨task, found⟩ := Table.exists_lookup ((reading.ordered _).mem_iff.mp member)
      rw [found, Option.map_some, named id task found]
    rw [List.filterMap_congr same, List.filterMap_some]
  rw [tasks, List.map_append, ids active fun id task found => sorted.named id task (.inl found),
    ids completed fun id task found => sorted.named id task (.inr found)]
  refine List.nodup_append.mpr ⟨(reading.ordered _).nodup_iff.mpr active.keys_nodup,
    (reading.ordered _).nodup_iff.mpr completed.keys_nodup, ?_⟩
  rintro id here other there rfl
  obtain ⟨task, found⟩ := Table.exists_lookup ((reading.ordered _).mem_iff.mp here)
  obtain ⟨task', found'⟩ := Table.exists_lookup ((reading.ordered _).mem_iff.mp there)
  rw [sorted.apart id (by rw [found]; rfl)] at found'
  cases found'

/-- For tables in order only the filter for failed tasks is not exact, unless no task has
ended. -/
theorem Sorted.fitting_iff (sorted : Sorted active completed) :
    Fitting reading filter active completed ↔ (filter = .failed → completed.keys = []) := by
  cases filter with
  | all => exact iff_of_true trivial nofun
  | active => exact iff_of_true ⟨sorted.running, sorted.ended⟩ nofun
  | completed =>
    refine iff_of_true ?_ nofun
    intro id task found done
    have going := sorted.running id task found
    rw [done] at going
    cases going
  | failed =>
    have nothing : (active.values reading.order).filter (·.status = .failed) = [] := by
      refine List.filter_eq_nil_iff.mpr fun task member failed => ?_
      obtain ⟨id, found⟩ := mem_tasks.mp member
      have going := sorted.running id task found
      rw [of_decide_eq_true failed] at going
      cases going
    rw [Fitting, nothing, List.perm_nil, forall_prop_of_true rfl]
    constructor
    · intro empty
      refine List.eq_nil_iff_forall_not_mem.mpr fun id member => ?_
      obtain ⟨task, found⟩ := Table.exists_lookup member
      have listed : task ∈ completed.values reading.order := mem_tasks.mpr ⟨id, found⟩
      rw [empty] at listed
      cases listed
    · intro empty
      refine List.eq_nil_iff_forall_not_mem.mpr fun task member => ?_
      obtain ⟨id, found⟩ := mem_tasks.mp member
      have key : id ∈ completed.keys :=
        AList.mem_keys.mp (AList.lookup_isSome.mp (by rw [found]; rfl))
      rw [empty] at key
      cases key

/-! ## Runs -/

/-- A task leaves its table and is put where its new status calls for. -/
theorem Sorted.moved (sorted : Sorted active completed) {id : Text} {task : DelegatedTask}
    (same : task.id = id) (free : completed.lookup id = none) :
    (task.status.terminal = false → Sorted ((active.erase id).insert id task) completed) ∧
      (task.status.terminal = true → Sorted (active.erase id) (completed.insert id task)) := by
  subst same
  have rest : Sorted (active.erase task.id) completed :=
    sorted.fewer (fun _ _ => lookup_of_erase) fun _ _ found => found
  exact rest.filed ⟨AList.lookup_erase .., free⟩

theorem Sorted.recent (sorted : Sorted active completed) :
    Sorted active (recent reading completed) :=
  sorted.fewer (fun _ _ found => found) fun _ _ found => (Table.lookup_retain_eq_some.mp found).1

end StatusFilters

namespace LocalBackend

theorem step_sorted {backend : LocalBackend} {call : Call}
    (sorted : Sorted backend.activeTasks backend.completedTasks) (fresh : NewId backend call) :
    Sorted (step backend call).2.activeTasks (step backend call).2.completedTasks := by
  cases call with
  | delegate reading request =>
    simp only [step, delegate]
    split
    · exact sorted
    · exact (sorted.filed (fresh reading request rfl)).1 rfl
  | notify reading taskId report =>
    simp only [step, notify]
    split
    · exact sorted
    · split
      · exact sorted
      · rename_i task found
        have named : (notified reading.utc report task).id = taskId :=
          sorted.named taskId task (.inl found)
        have moved := sorted.moved named (sorted.apart taskId (by rw [found]; rfl))
        dsimp only
        split
        · rename_i done
          exact moved.2 done
        · rename_i going
          exact moved.1 (Bool.eq_false_iff.mpr going)
  | cleanupExpired reading =>
    simp only [step, cleanupExpired]
    split
    · exact sorted
    · exact sorted.recent

end LocalBackend

namespace DaemonBackend

/-- A snapshot of tables in order. -/
structure SortedSnapshot (status : OrchestrationStatus) : Prop where
  apart : ∀ task ∈ status.activeTasks, ∀ other ∈ status.completedTasks, task.id ≠ other.id
  running : ∀ task ∈ status.activeTasks, task.status.terminal = false
  ended : ∀ task ∈ status.completedTasks, task.status.terminal = true

/-- The daemon sends such snapshots while its own tables are in order. -/
theorem buildSnapshot_sorted {s : State} {reading : Reading} (keyed : TaskTables.Keyed s)
    (coherent : TaskTables.Coherent s) : SortedSnapshot (Daemon.buildSnapshot reading s) where
  apart := by
    intro task here other there same
    obtain ⟨id, found⟩ := (Table.mem_values reading.ordered).mp here
    obtain ⟨id', found'⟩ := (Table.mem_values reading.ordered).mp there
    have ids : id = id' := by
      rw [← keyed.active id task found, same, keyed.completed id' other found']
    subst ids
    rw [coherent.apart id (by rw [found]; rfl)] at found'
    cases found'
  running := by
    intro task here
    obtain ⟨id, found⟩ := (Table.mem_values reading.ordered).mp here
    exact coherent.active id task found
  ended := by
    intro task there
    obtain ⟨id, found⟩ := (Table.mem_values reading.ordered).mp there
    exact coherent.completed id task found

theorem collect_lookup {tasks : List DelegatedTask} {id : Text} {task : DelegatedTask}
    (found : (collect tasks).lookup id = some task) : task ∈ tasks ∧ task.id = id := by
  induction tasks using List.reverseRecOn with
  | nil => cases found
  | append_singleton tasks last ih =>
    rw [collect, List.foldl_concat, Table.lookup_insert_if] at found
    split at found
    · rename_i same
      cases found
      exact ⟨by simp, same.symm⟩
    · obtain ⟨member, named⟩ := ih found
      exact ⟨List.mem_append_left _ member, named⟩

theorem SortedSnapshot.collected {status : OrchestrationStatus} (sorted : SortedSnapshot status) :
    Sorted (collect status.activeTasks) (collect status.completedTasks) where
  named := fun id task found => found.elim (fun here => (collect_lookup here).2)
    fun there => (collect_lookup there).2
  apart := by
    intro id found
    obtain ⟨task, here⟩ := Option.isSome_iff_exists.mp found
    cases there : (collect status.completedTasks).lookup id with
    | none => rfl
    | some other =>
      obtain ⟨member, named⟩ := collect_lookup here
      obtain ⟨member', named'⟩ := collect_lookup there
      exact absurd (named.trans named'.symm) (sorted.apart task member other member')
  running := fun id task found => sorted.running task (collect_lookup found).1
  ended := fun id task found => sorted.ended task (collect_lookup found).1

variable {readStatus : Json → Except Text OrchestrationStatus} {backend : DaemonBackend}

theorem recordNotification_sorted (sorted : Sorted backend.active backend.completed) (now : Nat)
    (taskId : Text) (report : Report) :
    Sorted (recordNotification now taskId report backend).active
      (recordNotification now taskId report backend).completed := by
  -- the task in hand has the identifier, and is in neither table
  obtain ⟨named, gone, rest⟩ : (takeTask now taskId report backend).1.id = taskId ∧
      ((takeTask now taskId report backend).2.active.lookup taskId = none ∧
        (takeTask now taskId report backend).2.completed.lookup taskId = none) ∧
      Sorted (takeTask now taskId report backend).2.active
        (takeTask now taskId report backend).2.completed := by
    unfold takeTask
    cases running : backend.active.lookup taskId with
    | some task =>
      exact ⟨sorted.named taskId task (.inl running),
        ⟨AList.lookup_erase .., sorted.apart taskId (by rw [running]; rfl)⟩,
        sorted.fewer (fun _ _ => lookup_of_erase) fun _ _ found => found⟩
    | none =>
      refine ⟨?_, ⟨running, AList.lookup_erase ..⟩,
        sorted.fewer (fun _ _ found => found) fun _ _ => lookup_of_erase⟩
      cases ended : backend.completed.lookup taskId with
      | some task => exact sorted.named taskId task (.inr ended)
      | none => rfl
  have same : (noted now report (takeTask now taskId report backend).1).id = taskId := named
  have filed := @Sorted.filed _ _ rest (noted now report (takeTask now taskId report backend).1)
    (by rw [same]; exact gone)
  rw [same] at filed
  rw [recordNotification]
  dsimp only
  unfold fileTask
  split
  · rename_i done
    exact filed.2 done
  · rename_i going
    exact filed.1 (Bool.eq_false_iff.mpr going)

/-- The snapshots among some messages are of tables in order. -/
def SortedSnapshots (readStatus : Json → Except Text OrchestrationStatus)
    (received : List (Nat × Msg)) : Prop :=
  ∀ message ∈ received, message.2.msgType = "STATUS_RESPONSE".toList →
    ∀ status, readStatus message.2.payload = .ok status → SortedSnapshot status

theorem refresh_sorted {received : List (Nat × Msg)}
    (sorted : Sorted backend.active backend.completed)
    (snapshots : SortedSnapshots readStatus received) :
    Sorted (refreshNotifications readStatus received backend).active
      (refreshNotifications readStatus received backend).completed := by
  induction received generalizing backend with
  | nil => exact sorted
  | cons first received ih =>
    obtain ⟨now, message⟩ := first
    have handled : Sorted (handleDaemonMessage readStatus now message backend).2.active
        (handleDaemonMessage readStatus now message backend).2.completed := by
      unfold handleDaemonMessage
      split
      · unfold processNotification
        split
        · exact sorted
        · exact recordNotification_sorted sorted now _ _
      · split
        · rename_i snapshot
          unfold processSnapshot
          cases read : readStatus message.payload with
          | error e => exact sorted
          | ok status =>
            exact (snapshots _ List.mem_cons_self snapshot status read).collected
        · exact sorted
    rw [refreshNotifications]
    cases outcome : handleDaemonMessage readStatus now message backend with
    | mk result after =>
      rw [outcome] at handled
      cases result with
      | error e => exact handled
      | ok done =>
        exact ih handled fun other member => snapshots other (List.mem_cons_of_mem _ member)

end DaemonBackend

namespace DaemonClient
open DaemonBackend

/-- A task is recorded under an identifier that no task has, and the snapshots that are
received are of tables in order. -/
def Proper (readStatus : Json → Except Text OrchestrationStatus) (client : DaemonClient)
    (call : Call) : Prop :=
  (∀ watchPatterns now taskId request, call = .recordTask watchPatterns now taskId request →
    client.backend.active.lookup taskId = none ∧ client.backend.completed.lookup taskId = none) ∧
  ∀ received, call = .refresh received → SortedSnapshots readStatus received

theorem step_sorted {readStatus : Json → Except Text OrchestrationStatus} {client : DaemonClient}
    {call : Call} (sorted : Sorted client.backend.active client.backend.completed)
    (proper : Proper readStatus client call) :
    Sorted (step readStatus client call).2.backend.active
      (step readStatus client call).2.backend.completed := by
  cases call with
  | recordTask watchPatterns now taskId request =>
    exact (sorted.filed (proper.1 watchPatterns now taskId request rfl)).1 rfl
  | recordNotification now taskId report => exact recordNotification_sorted sorted now taskId report
  | refresh received => exact refresh_sorted sorted (proper.2 received rfl)
  | cleanupState reading =>
    simp only [step, cleanupState]
    split
    · exact sorted
    · exact sorted.recent

end DaemonClient

namespace StatusFilters

/-- **Status filters.** In every state of either backend a filter is exact as the tables allow
it; and in every state that a run reaches, unless failed tasks are asked for where some task
has ended. -/
theorem status_exact_iff (filter : StatusFilter) (reading : Reading) :
    (∀ backend : LocalBackend, Exact reading filter backend.activeTasks backend.completedTasks
        (backend.status reading filter) ↔
      Fitting reading filter backend.activeTasks backend.completedTasks) ∧
    (∀ readStatus received (backend : DaemonBackend),
      let (answer, asked) := backend.status readStatus reading received filter
      Exact reading filter asked.active asked.completed answer ↔
        Fitting reading filter asked.active asked.completed) ∧
    (∀ maxConcurrentTasks timeoutSecs watchPatterns calls,
      Runs.Along LocalBackend.NewId LocalBackend.step
        (.new maxConcurrentTasks timeoutSecs watchPatterns) calls →
      let backend := Runs.final LocalBackend.step
        (.new maxConcurrentTasks timeoutSecs watchPatterns) calls
      Sorted backend.activeTasks backend.completedTasks ∧
        (Exact reading filter backend.activeTasks backend.completedTasks
          (backend.status reading filter) ↔
            (filter = .failed → backend.completedTasks.keys = []))) ∧
    (∀ readStatus timeoutSecs calls received,
      Runs.Along (DaemonClient.Proper readStatus) (DaemonClient.step readStatus)
        ⟨⟨∅, ∅, timeoutSecs⟩, none⟩ (calls ++ [.refresh received]) →
      let client := Runs.final (DaemonClient.step readStatus) ⟨⟨∅, ∅, timeoutSecs⟩, none⟩ calls
      let (answer, asked) := client.backend.status readStatus reading received filter
      Sorted asked.active asked.completed ∧
        (Exact reading filter asked.active asked.completed answer ↔
          (filter = .failed → asked.completed.keys = []))) := by
  refine ⟨fun backend => exact_iff, fun readStatus received backend => exact_iff, ?_, ?_⟩
  · intro maxConcurrentTasks timeoutSecs watchPatterns calls fresh
    have sorted := Runs.invariant_along (I := fun backend : LocalBackend =>
      Sorted backend.activeTasks backend.completedTasks)
      (fun backend call sorted fresh => LocalBackend.step_sorted sorted fresh) sorted_empty fresh
    exact ⟨sorted, exact_iff.trans sorted.fitting_iff⟩
  · intro readStatus timeoutSecs calls received proper
    have sorted := Runs.invariant_along (I := fun client : DaemonClient =>
      Sorted client.backend.active client.backend.completed)
      (fun client call sorted proper => DaemonClient.step_sorted sorted proper) sorted_empty proper
    rw [Runs.final_concat] at sorted
    exact ⟨sorted, exact_iff.trans sorted.fitting_iff⟩

/-! ## A task that fails -/

open NotificationDelivery LocalBackend

def tidyUp : Delegation := ⟨"tidy".toList, "w".toList, none, none, none, none, none, none⟩

def failedReport : DaemonBackend.Report := ⟨"failed".toList, "no space".toList, none, none⟩

/-- Two tasks are delegated; the one fails, the other is completed. -/
def twoEnds : List Call :=
  [.delegate (readingAt 1) tidyUp, .delegate (readingAt 2) tidyUp,
    .notify (readingAt 3) "1-0".toList failedReport,
    .notify (readingAt 4) "2-0".toList ⟨"completed".toList, "done".toList, none, none⟩]

def ended : LocalBackend := Runs.final LocalBackend.step (.new 5 1800 []) twoEnds

theorem twoEnds_new : Runs.Along NewId LocalBackend.step (.new 5 1800 []) twoEnds := by
  refine Runs.along_cons.mpr ⟨?_, Runs.along_cons.mpr ⟨?_, Runs.along_cons.mpr ⟨by rintro _ _ ⟨⟩,
    Runs.along_cons.mpr ⟨by rintro _ _ ⟨⟩, Runs.along_nil _ _⟩⟩⟩⟩
  · rintro reading request ⟨⟩
    exact ⟨rfl, rfl⟩
  · rintro reading request ⟨⟩
    exact ⟨Option.isNone_iff_eq_none.mp (by decide +kernel),
      Option.isNone_iff_eq_none.mp (by decide +kernel)⟩

/-- The completed task is answered once. -/
theorem completed_listed : Exact (readingAt 5) .completed ended.activeTasks ended.completedTasks
      (ended.status (readingAt 5) .completed) ∧
    Sorted (∅ : Table DelegatedTask) ∅ := by
  have local_runs := (status_exact_iff .completed (readingAt 5)).2.2.1 5 1800 [] twoEnds twoEnds_new
  have daemon_runs := (status_exact_iff .completed (readingAt 5)).2.2.2 (fun _ => .error []) 1800 []
    [] (Runs.along_cons.mpr ⟨⟨by rintro _ _ _ _ ⟨⟩, by rintro received ⟨⟩ message ⟨⟩⟩,
      Runs.along_nil _ _⟩)
  exact ⟨local_runs.2.mpr nofun, daemon_runs.1⟩

/-- The failed task is answered in both lists, and beside it the completed one. -/
theorem failed_listed_twice :
    (ended.status (readingAt 5) .failed).activeTasks.map (·.id) = ["1-0".toList] ∧
      ((ended.status (readingAt 5) .failed).completedTasks.map (·.id)).Perm
        ["1-0".toList, "2-0".toList] ∧
      (tasks (readingAt 5) ended.activeTasks ended.completedTasks).length = 2 ∧
      ¬ Exact (readingAt 5) .failed ended.activeTasks ended.completedTasks
        (ended.status (readingAt 5) .failed) := by
  refine ⟨by decide +kernel, by decide +kernel, by decide +kernel, fun exact => ?_⟩
  have sizes := exact.length_eq
  revert sizes
  decide +kernel

end StatusFilters

end Devit
