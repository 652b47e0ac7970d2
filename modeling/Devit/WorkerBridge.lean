import Devit.DaemonState
import Devit.Library.Runs

/-! The bridge between a worker and the daemon. One slot holds the event that the worker is told
next. Messages come in through the heartbeat and through polls, and each message, each look at the
slot and each end of a notification is one step on it; the steps of all loops interleave. -/
namespace Devit
open Text Path

structure WorkerBridge where
  sandboxRoot : PathBuf
  workerId : Text

namespace WorkerBridge

structure WorkerTask where
  taskId : Text
  goal : Option Text
  timeoutSecs : Option UInt64
  watchPatterns : List Text
  context : Option Json
  workingDir : Option Text
  absoluteWorkingDir : PathBuf
  receivedAt : Text
  rawTask : Json

inductive WorkerEvent where
  | assignment (task : WorkerTask)
  | cancelled (taskId : Text) (reason : Option Text)
  | timeout (taskId : Text)

/-- `current_event`. -/
abbrev Slot := Option WorkerEvent

/-! ## Messages -/

/-- The text in a field. -/
def textField (key : String) (value : Json) : Option Text := (value.get key.toList).bind Json.asStr

def internalError (message : Text) : Text := "❌ Internal error: ".toList ++ message

def buildTask (bridge : WorkerBridge) (msg : Msg) (now : Text) : Except Text WorkerTask :=
  match msg.payload.get "task".toList with
  | some (.object fields) =>
    let task := Json.object fields
    let workingDir := ((textField "working_dir" task).map trim).filter (· ≠ [])
    .ok {
      taskId := msg.msgId
      goal := textField "goal" task
      timeoutSecs := (task.get "timeout".toList).bind Json.asU64
      watchPatterns := (((task.get "watch_patterns".toList).bind Json.asArray).map
        (·.filterMap Json.asStr)).getD []
      context := task.get "context".toList
      workingDir
      absoluteWorkingDir := (workingDir.map fun rel => pathJoin bridge.sandboxRoot ⟨rel⟩).getD
        bridge.sandboxRoot
      receivedAt := now
      rawTask := task }
  | _ => .error (internalError "Invalid task payload received from daemon".toList)

def handleDelegate (bridge : WorkerBridge) (msg : Msg) (now : Text) (slot : Slot) :
    Except Text Unit × Slot :=
  if msg.recipient ≠ bridge.workerId then (.ok (), slot)
  else
    match buildTask bridge msg now with
    | .error err => (.error err, slot)
    | .ok task => (.ok (), some (.assignment task))

def handleNotify (msg : Msg) (slot : Slot) : Except Text Unit × Slot :=
  let taskId := (textField "task_id" msg.payload).getD []
  let status := (textField "status" msg.payload).getD "unknown".toList
  if status = "cancelled".toList then
    let reason := (msg.payload.get "artifacts".toList).bind (textField "summary")
    (.ok (), some (.cancelled taskId reason))
  else if status = "timeout".toList then (.ok (), some (.timeout taskId))
  else (.ok (), slot)

def processMessage (bridge : WorkerBridge) (msg : Msg) (now : Text) (slot : Slot) :
    Except Text Unit × Slot :=
  if msg.msgType = "DELEGATE".toList then handleDelegate bridge msg now slot
  else if msg.msgType = "NOTIFY".toList then handleNotify msg slot
  else (.ok (), slot)

/-- An assignment stays in the slot, other events are taken out of it. -/
def snapshotEvent (slot : Slot) : Option WorkerEvent × Slot :=
  match slot with
  | some (.assignment task) => (some (.assignment task), slot)
  | some event => (some event, none)
  | none => (none, none)

def isTerminalStatus (status : Text) : Bool :=
  status = "completed".toList ∨ status = "failed".toList ∨ status = "cancelled".toList

/-- What `notify` does once the daemon has its message. -/
def afterNotify (taskId status : Text) (slot : Slot) : Slot :=
  match slot with
  | some (.assignment task) =>
    if isTerminalStatus status ∧ task.taskId = taskId then none else slot
  | _ => slot

/-! ## Steps -/

inductive Step where
  /-- A message arrives, through the heartbeat or a poll. -/
  | deliver (msg : Msg) (now : Text)
  /-- A poll looks at the slot, and returns what it finds. -/
  | look
  | notified (taskId status : Text)

inductive Reply where
  | event (found : Option WorkerEvent)
  | processed (outcome : Except Text Unit)
  | done

def step (bridge : WorkerBridge) (slot : Slot) : Step → Reply × Slot
  | .deliver msg now =>
    let (outcome, slot) := processMessage bridge msg now slot
    (.processed outcome, slot)
  | .look =>
    let (found, slot) := snapshotEvent slot
    (.event found, slot)
  | .notified taskId status => (.done, afterNotify taskId status slot)

/-- The rounds of `poll_event`: what the daemon has for each, up to the deadline. -/
def pollLoop (bridge : WorkerBridge) : List (Option (Msg × Text)) → Slot →
    Except Text (Option WorkerEvent) × Slot
  | [], slot => (.ok none, slot)
  | none :: rounds, slot => pollLoop bridge rounds slot
  | some (msg, now) :: rounds, slot =>
    match processMessage bridge msg now slot with
    | (.error err, slot) => (.error err, slot)
    | (.ok (), slot) =>
      match snapshotEvent slot with
      | (some event, slot) => (.ok (some event), slot)
      | (none, slot) => pollLoop bridge rounds slot

def pollEvent (bridge : WorkerBridge) (rounds : List (Option (Msg × Text))) (slot : Slot) :
    Except Text (Option WorkerEvent) × Slot :=
  match snapshotEvent slot with
  | (some event, slot) => (.ok (some event), slot)
  | (none, slot) => pollLoop bridge rounds slot

/-! ## What is asked for -/

/-- The task that a message delegates to this worker. -/
def delegated (bridge : WorkerBridge) (msg : Msg) (now : Text) : Option WorkerTask :=
  if msg.msgType = "DELEGATE".toList ∧ msg.recipient = bridge.workerId then
    (buildTask bridge msg now).toOption
  else none

/-- The task that a message cancels or times out. -/
def ended (msg : Msg) : Option Text :=
  let status := (textField "status" msg.payload).getD "unknown".toList
  if msg.msgType = "NOTIFY".toList ∧ (status = "cancelled".toList ∨ status = "timeout".toList) then
    some ((textField "task_id" msg.payload).getD [])
  else none

/-- An assignment of this task. -/
def Assigns (id : Text) (event : Option WorkerEvent) : Prop :=
  ∃ task, event = some (.assignment task) ∧ task.taskId = id

/-- The event of a step names this task. -/
def Names (bridge : WorkerBridge) (id : Text) : Step → Prop
  | .deliver msg now => ended msg = some id ∨ ∃ task, delegated bridge msg now = some task ∧
      task.taskId = id
  | _ => False

/-- The task is returned by a poll in these steps. -/
def Returned (bridge : WorkerBridge) (slot : Slot) (id : Text) (steps : List Step) : Prop :=
  ∃ done rest found, steps = done ++ .look :: rest ∧
    (step bridge (Runs.final (step bridge) slot done) .look).1 = .event found ∧ Assigns id found

/-- A cancellation or timeout that names the task arrives in these steps. -/
def EndedIn (id : Text) (steps : List Step) : Prop :=
  ∃ msg now, .deliver msg now ∈ steps ∧ ended msg = some id

/-! ## What goes well -/

/-- The slot, and whether its assignment was returned by a poll. -/
structure Watched where
  slot : Slot
  seen : Bool

def watch (bridge : WorkerBridge) (w : Watched) (event : Step) : Reply × Watched :=
  let (reply, slot) := step bridge w.slot event
  (reply, ⟨slot, match event with
    | .deliver msg now => if (delegated bridge msg now).isSome then false else w.seen
    | .look => true
    | .notified _ _ => w.seen⟩)

/-- Nothing about another task arrives while there is an assignment, and none is finished before it
was returned. -/
def Careful (bridge : WorkerBridge) (w : Watched) (event : Step) : Prop :=
  ∀ task, w.slot = some (.assignment task) →
    match event with
    | .deliver msg now =>
      (∀ next, delegated bridge msg now = some next → next.taskId = task.taskId) ∧
        ∀ id, ended msg = some id → id = task.taskId
    | .look => True
    | .notified id status => isTerminalStatus status = true → id = task.taskId → w.seen = true

/-! ## One step -/

/-- A message puts its task or its end into the slot, or leaves the slot as it is. -/
theorem processMessage_cases (bridge : WorkerBridge) (msg : Msg) (now : Text) (slot : Slot) :
    (∃ task, delegated bridge msg now = some task ∧ ended msg = none ∧
        (processMessage bridge msg now slot).2 = some (.assignment task)) ∨
      (∃ id, delegated bridge msg now = none ∧ ended msg = some id) ∨
      (delegated bridge msg now = none ∧ ended msg = none ∧
        (processMessage bridge msg now slot).2 = slot) := by
  by_cases delegates : msg.msgType = "DELEGATE".toList
  · have other : msg.msgType ≠ "NOTIFY".toList := by
      rw [delegates]
      decide
    have endless : ended msg = none := if_neg fun both => other both.1
    rw [processMessage, if_pos delegates, handleDelegate]
    by_cases here : msg.recipient = bridge.workerId
    · rw [if_neg (not_not.mpr here), delegated, if_pos ⟨delegates, here⟩]
      cases buildTask bridge msg now with
      | error err => exact .inr (.inr ⟨rfl, endless, rfl⟩)
      | ok task => exact .inl ⟨task, rfl, endless, rfl⟩
    · rw [if_pos here, delegated, if_neg fun both => here both.2]
      exact .inr (.inr ⟨rfl, endless, rfl⟩)
  · have undelegated : delegated bridge msg now = none := if_neg fun both => delegates both.1
    cases ends : ended msg with
    | some id => exact .inr (.inl ⟨id, undelegated, rfl⟩)
    | none =>
      refine .inr (.inr ⟨undelegated, rfl, ?_⟩)
      rw [processMessage, if_neg delegates]
      by_cases notifies : msg.msgType = "NOTIFY".toList
      · rw [if_pos notifies, handleNotify]
        dsimp only
        split
        · rename_i status
          rw [ended, if_pos ⟨notifies, .inl status⟩] at ends
          cases ends
        · split
          · rename_i status
            rw [ended, if_pos ⟨notifies, .inr status⟩] at ends
            cases ends
          · rfl
      · rw [if_neg notifies]

/-- What becomes of an assignment in a careful step. -/
theorem careful_step {bridge : WorkerBridge} {w : Watched} {event : Step} {task : WorkerTask}
    (careful : Careful bridge w event) (held : w.slot = some (.assignment task)) :
    Assigns task.taskId (watch bridge w event).2.slot ∨
      (∃ msg now, event = .deliver msg now ∧ ended msg = some task.taskId) ∨
      (∃ status, event = .notified task.taskId status ∧ isTerminalStatus status = true ∧
        w.seen = true) := by
  have careful := careful task held
  cases event with
  | look =>
    refine .inl ⟨task, ?_, rfl⟩
    show (snapshotEvent w.slot).2 = _
    rw [held]
    rfl
  | deliver msg now =>
    rcases processMessage_cases bridge msg now w.slot with ⟨next, delegates, _, becomes⟩ |
      ⟨id, _, ends⟩ | ⟨_, _, stays⟩
    · exact .inl ⟨next, becomes, careful.1 next delegates⟩
    · exact .inr (.inl ⟨msg, now, rfl, by rw [ends, careful.2 id ends]⟩)
    · exact .inl ⟨task, stays.trans held, rfl⟩
  | notified id status =>
    by_cases finishes : isTerminalStatus status = true ∧ task.taskId = id
    · obtain ⟨terminal, rfl⟩ := finishes
      exact .inr (.inr ⟨status, rfl, terminal, careful terminal rfl⟩)
    · refine .inl ⟨task, ?_, rfl⟩
      show afterNotify id status w.slot = _
      rw [held, afterNotify, if_neg finishes]

/-! ## Polls -/

/-- A poll returns what its last look found. -/
def LastLook (bridge : WorkerBridge) (slot : Slot) (steps : List Step)
    (answer : Except Text (Option WorkerEvent)) : Prop :=
  ∀ event, answer = .ok (some event) → ∃ done, steps = done ++ [.look] ∧
    (step bridge (Runs.final (step bridge) slot done) .look).1 = .event (some event)

theorem LastLook.cons {bridge : WorkerBridge} {slot : Slot} {first : Step} {steps : List Step}
    {answer : Except Text (Option WorkerEvent)}
    (last : LastLook bridge (step bridge slot first).2 steps answer) :
    LastLook bridge slot (first :: steps) answer := by
  intro event same
  obtain ⟨done, shape, found⟩ := last event same
  exact ⟨first :: done, by rw [shape, List.cons_append], found⟩

theorem step_look (bridge : WorkerBridge) {slot left : Slot} {event : Option WorkerEvent}
    (found : snapshotEvent slot = (event, left)) :
    step bridge slot .look = (.event event, left) := by
  rw [step, found]

theorem pollLoop_steps (bridge : WorkerBridge) (rounds : List (Option (Msg × Text)))
    (slot : Slot) : ∃ steps, Runs.final (step bridge) slot steps = (pollLoop bridge rounds slot).2 ∧
      LastLook bridge slot steps (pollLoop bridge rounds slot).1 := by
  induction rounds generalizing slot with
  | nil => exact ⟨[], rfl, nofun⟩
  | cons round rounds ih =>
    cases round with
    | none => exact ih slot
    | some arrival =>
      obtain ⟨msg, now⟩ := arrival
      rw [pollLoop]
      have delivered : (step bridge slot (.deliver msg now)).2 =
        (processMessage bridge msg now slot).2 := rfl
      rcases processed : processMessage bridge msg now slot with ⟨outcome, after⟩
      rw [processed] at delivered
      dsimp only at delivered
      subst delivered
      cases outcome with
      | error err => exact ⟨[.deliver msg now], rfl, nofun⟩
      | ok _ =>
        dsimp only
        rcases found : snapshotEvent (step bridge slot (.deliver msg now)).2 with ⟨event, left⟩
        have looked := step_look bridge found
        cases event with
        | some event =>
          refine ⟨[.deliver msg now, .look], congrArg Prod.snd looked, ?_⟩
          rintro _ ⟨⟩
          exact ⟨[.deliver msg now], rfl, congrArg Prod.fst looked⟩
        | none =>
          obtain ⟨steps, ends, last⟩ := ih left
          have same := congrArg Prod.snd looked
          dsimp only at same
          subst same
          exact ⟨.deliver msg now :: .look :: steps, ends, .cons (.cons last)⟩

/-- A poll that nothing comes between is a run of steps, and returns what its last look found. -/
theorem pollEvent_steps (bridge : WorkerBridge) (rounds : List (Option (Msg × Text)))
    (slot : Slot) :
    ∃ steps, Runs.final (step bridge) slot steps = (pollEvent bridge rounds slot).2 ∧
      LastLook bridge slot steps (pollEvent bridge rounds slot).1 := by
  rw [pollEvent]
  rcases found : snapshotEvent slot with ⟨event, left⟩
  have looked := step_look bridge found
  cases event with
  | some event =>
    refine ⟨[.look], congrArg Prod.snd looked, ?_⟩
    rintro _ ⟨⟩
    exact ⟨[], rfl, congrArg Prod.fst looked⟩
  | none =>
    obtain ⟨steps, ends, last⟩ := pollLoop_steps bridge rounds left
    have same := congrArg Prod.snd looked
    dsimp only at same
    subst same
    exact ⟨.look :: steps, ends, .cons last⟩

/-! ## Runs -/

theorem watch_slot (bridge : WorkerBridge) (w : Watched) (steps : List Step) :
    (Runs.final (watch bridge) w steps).slot = Runs.final (step bridge) w.slot steps := by
  induction steps generalizing w with
  | nil => rfl
  | cons event steps ih => exact ih _

theorem Returned.cons {bridge : WorkerBridge} {slot : Slot} {id : Text} {event : Step}
    {steps : List Step} (returned : Returned bridge (step bridge slot event).2 id steps) :
    Returned bridge slot id (event :: steps) := by
  obtain ⟨done, rest, found, shape, seen, assigns⟩ := returned
  exact ⟨event :: done, rest, found, by rw [shape, List.cons_append], seen, assigns⟩

theorem EndedIn.cons {id : Text} {event : Step} {steps : List Step} (ends : EndedIn id steps) :
    EndedIn id (event :: steps) := by
  obtain ⟨msg, now, member, names⟩ := ends
  exact ⟨msg, now, List.mem_cons_of_mem _ member, names⟩

theorem look_assigns {bridge : WorkerBridge} {slot : Slot} {id : Text} (held : Assigns id slot) :
    ∃ found, (step bridge slot .look).1 = .event found ∧ Assigns id found := by
  obtain ⟨task, rfl, named⟩ := held
  exact ⟨_, rfl, task, rfl, named⟩

/-- From an unseen assignment on, a careful run returns it, meets its end, or keeps it. -/
theorem kept_along {bridge : WorkerBridge} {id : Text} :
    ∀ {steps : List Step} {w : Watched}, Assigns id w.slot → w.seen = false →
      Runs.Along (Careful bridge) (watch bridge) w steps →
      Returned bridge w.slot id steps ∨ EndedIn id steps ∨
        Assigns id (Runs.final (step bridge) w.slot steps)
  | [], _, held, _, _ => .inr (.inr held)
  | event :: steps, w, held, unseen, along => by
    obtain ⟨careful, along⟩ := Runs.along_cons.mp along
    obtain ⟨task, slot, rfl⟩ := held
    rcases careful_step careful slot with kept | ⟨msg, now, rfl, ends⟩ | ⟨_, _, _, seen⟩
    · by_cases looks : event = .look
      · subst looks
        obtain ⟨found, reply, assigns⟩ := @look_assigns bridge _ _ ⟨task, slot, rfl⟩
        exact .inl ⟨[], steps, found, rfl, reply, assigns⟩
      · have still : (watch bridge w event).2.seen = false := by
          cases event with
          | look => exact absurd rfl looks
          | notified id status => exact unseen
          | deliver msg now =>
            show (if (delegated bridge msg now).isSome then false else w.seen) = false
            rw [unseen, ite_self]
        rcases kept_along kept still along with returned | ends | later
        · exact .inl returned.cons
        · exact .inr (.inl ends.cons)
        · exact .inr (.inr later)
    · exact .inr (.inl ⟨msg, now, List.mem_cons_self, ends⟩)
    · rw [unseen] at seen
      cases seen

/-- After a delegation its task is in the slot, and no poll has returned it yet. -/
theorem watch_delegation {bridge : WorkerBridge} {w : Watched} {msg : Msg} {now : Text}
    {task : WorkerTask} (delegates : delegated bridge msg now = some task) :
    (watch bridge w (.deliver msg now)).2 = ⟨some (.assignment task), false⟩ := by
  have becomes : (processMessage bridge msg now w.slot).2 = some (.assignment task) := by
    rcases processMessage_cases bridge msg now w.slot with ⟨next, same, _, becomes⟩ |
      ⟨_, other, _⟩ | ⟨other, _, _⟩
    · rw [delegates] at same
      cases same
      exact becomes
    · rw [delegates] at other
      cases other
    · rw [delegates] at other
      cases other
  show (⟨(processMessage bridge msg now w.slot).2,
    if (delegated bridge msg now).isSome then false else w.seen⟩ : Watched) = _
  rw [becomes, delegates]
  rfl

/-- No task is lost in a careful run. Each one that was delegated has been returned, was cancelled
or timed out, or is what the next poll returns; and an assignment leaves the slot in a terminal
notification for it or an event that names it. -/
theorem no_task_lost (bridge : WorkerBridge) (slot : Slot) (steps : List Step)
    (careful : Runs.Along (Careful bridge) (watch bridge) ⟨slot, false⟩ steps) :
    (∀ done msg now rest task, steps = done ++ .deliver msg now :: rest →
      delegated bridge msg now = some task →
        Returned bridge (Runs.final (step bridge) slot (done ++ [.deliver msg now])) task.taskId
            rest ∨
          EndedIn task.taskId rest ∨
          ∃ found, (step bridge (Runs.final (step bridge) slot steps) .look).1 = .event found ∧
            Assigns task.taskId found) ∧
    ∀ done event rest task, steps = done ++ event :: rest →
      Runs.final (step bridge) slot done = some (.assignment task) →
      ¬ Assigns task.taskId (Runs.final (step bridge) slot (done ++ [event])) →
        Names bridge task.taskId event ∨
          ∃ status, event = .notified task.taskId status ∧ isTerminalStatus status = true := by
  refine ⟨fun done msg now rest task shape delegates => ?_,
    fun done event rest task shape held dropped => ?_⟩
  · subst shape
    have after := (Runs.along_cons.mp (Runs.along_append.mp careful).2).2
    rw [watch_delegation delegates] at after
    have placed : Runs.final (step bridge) slot (done ++ [.deliver msg now]) =
        some (.assignment task) := by
      rw [← watch_slot bridge ⟨slot, false⟩, Runs.final_concat, watch_delegation delegates]
    have kept := kept_along ⟨task, rfl, rfl⟩ rfl after
    have whole : Runs.final (step bridge) slot (done ++ .deliver msg now :: rest) =
        Runs.final (step bridge) (some (.assignment task)) rest := by
      rw [List.append_cons, Runs.final_append, placed]
    rw [placed, whole]
    exact kept.imp id (Or.imp id look_assigns)
  · subst shape
    have careful := (Runs.along_cons.mp (Runs.along_append.mp careful).2).1
    rw [← watch_slot bridge ⟨slot, false⟩] at held
    rw [← watch_slot bridge ⟨slot, false⟩, Runs.final_concat] at dropped
    rcases careful_step careful held with kept | ⟨msg, now, rfl, ends⟩ |
      ⟨status, same, terminal, _⟩
    · exact absurd kept dropped
    · exact .inl (.inl ends)
    · exact .inr ⟨status, same, terminal⟩

def sampleBridge : WorkerBridge := ⟨⟨"/w".toList⟩, "worker".toList⟩

/-- A delegation of a task about which nothing is said. -/
def sampleDelegate (id : Text) : Msg :=
  { (default : Msg) with
    msgType := "DELEGATE".toList
    msgId := id
    recipient := "worker".toList
    payload := .object [("task".toList, .object [])] }

theorem no_task_lost_polled :
    let steps : List Step := [.deliver (sampleDelegate "a".toList) [], .look]
    (∀ done msg now rest task, steps = done ++ .deliver msg now :: rest →
      delegated sampleBridge msg now = some task →
        Returned sampleBridge (Runs.final (step sampleBridge) none (done ++ [.deliver msg now]))
            task.taskId rest ∨
          EndedIn task.taskId rest ∨
          ∃ found, (step sampleBridge (Runs.final (step sampleBridge) none steps) .look).1 =
            .event found ∧ Assigns task.taskId found) ∧
    ∀ done event rest task, steps = done ++ event :: rest →
      Runs.final (step sampleBridge) none done = some (.assignment task) →
      ¬ Assigns task.taskId (Runs.final (step sampleBridge) none (done ++ [event])) →
        Names sampleBridge task.taskId event ∨
          ∃ status, event = .notified task.taskId status ∧ isTerminalStatus status = true :=
  no_task_lost sampleBridge none [.deliver (sampleDelegate "a".toList) [], .look]
    (Runs.along_cons.mpr ⟨nofun, Runs.along_cons.mpr ⟨fun _ _ => trivial, Runs.along_nil _ _⟩⟩)

/-- A second delegation drops the first one's task before any poll. -/
theorem second_delegation_drops :
    let steps : List Step :=
      [.deliver (sampleDelegate "a".toList) [], .deliver (sampleDelegate "b".toList) []]
    ¬ ∀ done msg now rest task, steps = done ++ .deliver msg now :: rest →
      delegated sampleBridge msg now = some task →
        Returned sampleBridge (Runs.final (step sampleBridge) none (done ++ [.deliver msg now]))
            task.taskId rest ∨
          EndedIn task.taskId rest ∨
          ∃ found, (step sampleBridge (Runs.final (step sampleBridge) none steps) .look).1 =
            .event found ∧ Assigns task.taskId found := by
  intro steps kept
  have first := kept [] (sampleDelegate "a".toList) [] [.deliver (sampleDelegate "b".toList) []]
    ⟨"a".toList, none, none, [], none, none, ⟨"/w".toList⟩, [], .object []⟩ rfl rfl
  rcases first with ⟨done, rest, _, shape, _⟩ | ⟨msg, now, member, ends⟩ | ⟨found, reply, assigns⟩
  · cases done with
    | nil => cases shape
    | cons head done => cases done <;> cases shape
  · cases List.mem_singleton.mp member
    cases ends
  · cases reply
    obtain ⟨task, same, named⟩ := assigns
    cases same
    cases named

end WorkerBridge
end Devit
