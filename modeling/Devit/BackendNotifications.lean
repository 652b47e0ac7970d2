import Devit.DaemonState

/-! What the client side of the daemon records of a notification. An active task is given the
notification as it came. A completed one is not: it only gets an entry of its own making, with
the summary, if its last one has another. -/
namespace Devit
open Text

/-- The tables of a `DaemonBackend`, and what it gives a task that it does not know. -/
structure DaemonBackend where
  active : Table DelegatedTask
  completed : Table DelegatedTask
  defaultTimeoutSecs : UInt64

namespace DaemonBackend

/-- What there is to record: `status`, `summary`, `details` and `evidence` of a call. -/
structure Report where
  status : Text
  summary : Text
  details : Option Json
  evidence : Option Json

def Report.notification (now : Nat) (report : Report) : TaskNotification :=
  ⟨now, report.status, report.summary, report.details, report.evidence, false, none⟩

/-- The entry that is added where the last one has another summary. -/
def Report.reminder (now : Nat) (report : Report) : TaskNotification :=
  ⟨now, report.status, report.summary, none, none, true, none⟩

/-- A task that is not known yet. -/
def unknownTask (backend : DaemonBackend) (now : Nat) (taskId : Text) (report : Report) :
    DelegatedTask where
  id := taskId
  goal := report.summary
  delegatedTo := []
  createdAt := now
  timeoutSecs := backend.defaultTimeoutSecs
  status := .pending
  context := none
  watchPatterns := []
  lastActivity := now
  notifications := [Report.notification now report]
  workingDir := none
  responseFormat := none
  model := none
  modelResolved := none

/-- The task is taken out of its table; the notification is given to an active one only. -/
def takeTask (now : Nat) (taskId : Text) (report : Report) (backend : DaemonBackend) :
    DelegatedTask × DaemonBackend :=
  match backend.active.lookup taskId with
  | some task =>
    ({ task with
        notifications := task.notifications ++ [Report.notification now report]
        lastActivity := now },
      { backend with active := backend.active.erase taskId })
  | none =>
    ((backend.completed.lookup taskId).getD (backend.unknownTask now taskId report),
      { backend with completed := backend.completed.erase taskId })

/-- The last entry of a task has the summary. -/
def summarized (summary : Text) (task : DelegatedTask) : Bool :=
  task.notifications.getLast?.any fun last => last.summary = summary

def noted (now : Nat) (report : Report) (task : DelegatedTask) : DelegatedTask :=
  { task with
    status := Daemon.mapStatus report.status
    lastActivity := now
    notifications :=
      if summarized report.summary task then task.notifications
      else task.notifications ++ [Report.reminder now report] }

/-- The task is put where its status calls for. -/
def fileTask (taskId : Text) (task : DelegatedTask) (backend : DaemonBackend) : DaemonBackend :=
  if task.status.terminal then { backend with completed := backend.completed.insert taskId task }
  else { backend with active := backend.active.insert taskId task }

def recordNotification (now : Nat) (taskId : Text) (report : Report) (backend : DaemonBackend) :
    DaemonBackend :=
  let (task, rest) := takeTask now taskId report backend
  fileTask taskId (noted now report task) rest

def extractNotificationParts : Json → Text × Option Json × Option Json
  | .object fields =>
    (((Json.object fields).get "summary".toList |>.bind Json.asStr).getD
        "daemon notification".toList,
      (Json.object fields).get "details".toList, (Json.object fields).get "evidence".toList)
  | other => (other.render, none, none)

/-- What the payload of a notification reports. -/
def reported (payload : Json) : Report :=
  let status := ((payload.get "status".toList).bind Json.asStr).getD "progress".toList
  let artifacts := (payload.get "artifacts".toList).getD .null
  let (summary, details, evidence) := extractNotificationParts artifacts
  ⟨status, summary, details, evidence⟩

def processNotification (now : Nat) (payload : Json) (backend : DaemonBackend) :
    Except Text Unit × DaemonBackend :=
  match (payload.get "task_id".toList).bind Json.asStr with
  | none => (.error "missing task_id in daemon notification".toList, backend)
  | some taskId => (.ok (), recordNotification now taskId (reported payload) backend)

/-! ## What is lost -/

/-- The record of a task. -/
def known (backend : DaemonBackend) (taskId : Text) : Option DelegatedTask :=
  (backend.active.lookup taskId).or (backend.completed.lookup taskId)

/-- The task is known, with one entry more than before, which says what was reported. -/
def Recorded (before : DelegatedTask) (report : Report) (taskId : Text)
    (backend : DaemonBackend) : Prop :=
  ∃ task entry, backend.known taskId = some task ∧
    task.notifications = before.notifications ++ [entry] ∧ entry.status = report.status ∧
    entry.summary = report.summary ∧ entry.details = report.details ∧
    entry.evidence = report.evidence

/-- The task is active; or its last entry has another summary, and there is no more to report
than a status and a summary. -/
def Kept (backend : DaemonBackend) (taskId : Text) (task : DelegatedTask) (report : Report) :
    Prop :=
  (backend.active.lookup taskId).isSome = true ∨
    (summarized report.summary task = false ∧ report.details = none ∧ report.evidence = none)

variable {backend : DaemonBackend} {now : Nat} {taskId : Text} {report : Report}
  {task : DelegatedTask}

/-- A task that is in neither table is found again where it was put. -/
theorem fileTask_known (gone : backend.active.lookup taskId = none) :
    (fileTask taskId task backend).known taskId = some task := by
  unfold fileTask known
  split
  · simp only [gone, AList.lookup_insert, Option.none_or]
  · simp only [AList.lookup_insert, Option.some_or]

theorem takeTask_gone : (takeTask now taskId report backend).2.active.lookup taskId = none := by
  unfold takeTask
  split
  · exact AList.lookup_erase ..
  · rename_i absent
    exact absent

theorem recordNotification_known : (recordNotification now taskId report backend).known taskId =
    some (noted now report (takeTask now taskId report backend).1) :=
  fileTask_known takeTask_gone

theorem summarized_concat (entry : TaskNotification) :
    summarized report.summary
      { task with notifications := task.notifications ++ [entry], lastActivity := now } =
      decide (entry.summary = report.summary) := by
  rw [summarized, List.getLast?_concat]
  rfl

/-- What a known task has for entries afterwards. -/
theorem noted_notifications (found : backend.known taskId = some task) :
    (noted now report (takeTask now taskId report backend).1).notifications =
      task.notifications ++
        if (backend.active.lookup taskId).isSome then [Report.notification now report]
        else if summarized report.summary task then [] else [Report.reminder now report] := by
  unfold known at found
  unfold takeTask noted
  cases running : backend.active.lookup taskId with
  | some active =>
    rw [running] at found
    cases found
    have same : decide ((Report.notification now report).summary = report.summary) = true :=
      decide_eq_true rfl
    simp only [summarized_concat, same, if_true, Option.isSome_some]
  | none =>
    rw [running] at found
    rw [Option.none_or] at found
    simp only [found, Option.getD_some]
    split
    · exact (List.append_nil _).symm
    · rfl

theorem recordNotification_recorded (found : backend.known taskId = some task) :
    Recorded task report taskId (recordNotification now taskId report backend) ↔
      Kept backend taskId task report := by
  have added := @noted_notifications backend now taskId report task found
  have after : Recorded task report taskId (recordNotification now taskId report backend) ↔
      ∃ entry, (noted now report (takeTask now taskId report backend).1).notifications =
          task.notifications ++ [entry] ∧ entry.status = report.status ∧
        entry.summary = report.summary ∧ entry.details = report.details ∧
        entry.evidence = report.evidence := by
    rw [Recorded, recordNotification_known]
    constructor
    · rintro ⟨_, entry, same, rest⟩
      cases same
      exact ⟨entry, rest⟩
    · rintro ⟨entry, rest⟩
      exact ⟨_, entry, rfl, rest⟩
  rw [after, added, Kept]
  simp only [List.append_cancel_left_eq]
  cases running : (backend.active.lookup taskId).isSome with
  | true => exact iff_of_true ⟨_, rfl, rfl, rfl, rfl, rfl⟩ (.inl rfl)
  | false =>
    cases repeated : summarized report.summary task with
    | true => exact iff_of_false (by simp) (by simp)
    | false =>
      -- the entry made of the summary has neither details nor evidence
      simp only [Bool.false_eq_true, if_false, false_or, true_and]
      constructor
      · rintro ⟨entry, same, -, -, details, evidence⟩
        cases same
        exact ⟨details.symm, evidence.symm⟩
      · rintro ⟨details, evidence⟩
        exact ⟨_, rfl, rfl, rfl, details.symm, evidence.symm⟩

/-- **Recording.** A notification of a known task is recorded with all it reports exactly if
the task is active, or the entry that is made of the summary says as much; and so is one that
comes in a message. -/
theorem recorded_iff (found : backend.known taskId = some task) :
    (∀ now report, Recorded task report taskId (recordNotification now taskId report backend) ↔
      Kept backend taskId task report) ∧
    ∀ now payload, (payload.get "task_id".toList).bind Json.asStr = some taskId →
      (Recorded task (reported payload) taskId (processNotification now payload backend).2 ↔
        Kept backend taskId task (reported payload)) := by
  refine ⟨fun now report => recordNotification_recorded found, fun now payload named => ?_⟩
  rw [processNotification, named]
  exact recordNotification_recorded found

/-- A task with one entry, in a table of its own. -/
def oneTask (status : TaskStatus) : DelegatedTask :=
  ⟨"t".toList, "tidy".toList, "w".toList, 0, 60, status, none, [], 0,
    [⟨0, "completed".toList, "done".toList, none, none, false, none⟩], none, none, none, none⟩

def runningBackend : DaemonBackend :=
  ⟨AList.singleton "t".toList (oneTask .inProgress), ∅, 60⟩

def finishedBackend : DaemonBackend :=
  ⟨∅, AList.singleton "t".toList (oneTask .completed), 60⟩

def doneReport : Report := ⟨"completed".toList, "done".toList, some (.string "x".toList), none⟩

/-- What an active task is reported is recorded. -/
theorem active_recorded : Recorded (oneTask .inProgress) doneReport "t".toList
    (recordNotification 1 "t".toList doneReport runningBackend) :=
  ((recorded_iff rfl).1 1 doneReport).mpr (.inl rfl)

/-- A completed task whose last entry has the same summary is given nothing. -/
theorem completed_lost :
    finishedBackend.known "t".toList = some (oneTask .completed) ∧
      ¬ Recorded (oneTask .completed) doneReport "t".toList
        (recordNotification 1 "t".toList doneReport finishedBackend) := by
  refine ⟨rfl, ?_⟩
  rintro ⟨task, entry, found, longer, -⟩
  have entries : ((recordNotification 1 "t".toList doneReport finishedBackend).known
      "t".toList).map (fun task => task.notifications.length) = some 1 := by
    decide +kernel
  rw [found, Option.map_some, longer, List.length_append] at entries
  cases entries

end DaemonBackend

end Devit
