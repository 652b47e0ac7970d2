import Devit.Library.Json
import Devit.Library.Path
import Devit.Library.Table
import Mathlib.Data.List.MinMax
import Mathlib.Data.List.Sort

/-! The daemon's messages and its state: who is connected, which task is leased to
whom, what waits to be fetched or decided, and the two tables of task records. -/
namespace Devit
open Text Path

structure Msg where
  msgType : Text
  msgId : Text
  /-- `from`. -/
  sender : Text
  /-- `to`. -/
  recipient : Text
  ts : UInt64
  nonce : Text
  hmac : Text
  payload : Json
  deriving Inhabited

structure Client where
  ident : Text
  /-- Times of the monotonic clock are in nanoseconds. -/
  lastHeartbeat : Nat
  capabilities : List Text
  version : Option Text

structure Lease where
  taskId : Text
  assignedTo : Text
  originalFrom : Text
  deadline : Nat
  returnTo : Option Text
  workingDir : Option Text
  responseFormat : Option Text
  model : Option Text
  modelResolved : Option Text

structure TaskDetails where
  goal : Text
  timeoutSecs : UInt64
  context : Option Json
  watchPatterns : List Text
  workingDir : Option Text
  responseFormat : Option Text
  model : Option Text

inductive TaskStatus where
  | pending
  | inProgress
  | completed
  | failed
  | cancelled
  deriving DecidableEq, Repr

/-- A status that a task does not leave by itself. -/
def TaskStatus.terminal : TaskStatus → Bool
  | .completed => true
  | .failed => true
  | .cancelled => true
  | .pending => false
  | .inProgress => false

structure TaskNotification where
  /-- Times of the calendar are in milliseconds. -/
  receivedAt : Nat
  status : Text
  summary : Text
  details : Option Json
  evidence : Option Json
  autoGenerated : Bool
  metadata : Option Json

structure DelegatedTask where
  id : Text
  goal : Text
  delegatedTo : Text
  createdAt : Nat
  timeoutSecs : UInt64
  status : TaskStatus
  context : Option Json
  watchPatterns : List Text
  lastActivity : Nat
  notifications : List TaskNotification
  workingDir : Option PathBuf
  responseFormat : Option Text
  model : Option Text
  modelResolved : Option Text

structure PendingApproval where
  taskId : Text
  originalMsg : Msg
  tool : Text
  requestedAt : Nat

/-- A task as a worker process is given it. -/
structure WorkerTask where
  id : Text
  goal : Text
  delegatedTo : Text
  workingDir : Option Text
  timeoutSecs : Option UInt64
  returnTo : Option Text
  responseFormat : Option Text
  timeQueued : Nat
  model : Option Text
  context : Option Json

/-- What the journal is asked to append. -/
structure JournalRecord where
  event : Text
  msgId : Text
  sender : Text
  recipient : Text
  data : Json

/-- The state under the lock. Tables that only acknowledgements of notification
hooks use are left out. -/
structure State where
  clients : Table Client
  leases : Table Lease
  expiredLeases : Table Lease
  pendingNotifications : Table (List Msg)
  pendingApprovals : Table PendingApproval
  secret : Text
  journal : List JournalRecord
  /-- The workers that have a configuration, and so run as processes. -/
  workerConfigs : List Text
  tasksActive : Table DelegatedTask
  tasksCompleted : Table DelegatedTask
  daemonVersion : Text
  expectedWorkerVersion : Option Text
  approverTarget : Text
  /-- Not a field of the source: the worker processes that were started. -/
  running : List WorkerTask
  /-- Not a field of the source: every message that was ever queued, with the client
  it was queued for. Nothing reads it. -/
  queued : List (Text × Msg)

structure OrchestrationStatus where
  activeTasks : List DelegatedTask
  completedTasks : List DelegatedTask
  totalActive : Nat
  totalCompleted : Nat
  totalFailed : Nat
  oldestActiveTask : Option Text

/-- What a handler finds around it: the clocks, fresh identifiers, how taking a
screenshot ends, and the order in which a hash map gives its keys. -/
structure Reading where
  instant : Nat
  utc : Nat
  /-- The same time as RFC 3339 text, to the millisecond. -/
  utcText : Text
  /-- And in full. -/
  utcFullText : Text
  ts : UInt64
  uuid : Nat → Text
  /-- The answer's payload, or a code and a message. -/
  screenshot : Except (Text × Text) Json
  order : List Text → List Text
  ordered : ∀ keys, (order keys).Perm keys

/-- What the daemon takes from other crates. -/
structure DaemonCrates where
  /-- HMAC-SHA256 of a text under a secret. -/
  mac : Text → Text → List UInt8
  /-- Base 64. -/
  encode : List UInt8 → Text
  decode : Text → Option (List UInt8)
  /-- A snapshot of the tasks as JSON. -/
  statusJson : OrchestrationStatus → Json

namespace Daemon

def leaseTtl : Nat := 900 * 10 ^ 9

def heartbeatTimeout : Nat := 30 * 10 ^ 9

def maxCompletedTasks : Nat := 1000

/-- `DEFAULT_TIMEOUT_SECS` of the task types. -/
def defaultTimeoutSecs : UInt64 := 1800

def defaultApproverTarget : Text := "client:approver".toList

/-! ## Messages -/

/-- What a message authentication code is made of. -/
def canonicalBody (msg : Msg) : Text :=
  join ['|'] [msg.msgType, msg.msgId, msg.sender, msg.recipient, printNat msg.ts.toNat, msg.nonce,
    msg.payload.render]

section
variable (crates : DaemonCrates)

/-- `sign_msg`, which fails for no key. -/
def signMsg (secret : Text) (msg : Msg) : Msg :=
  { msg with hmac := crates.encode (crates.mac secret (canonicalBody msg)) }

/-- Whether a message carries the code of its own body. -/
def verifyHmac (secret : Text) (msg : Msg) : Bool :=
  (crates.decode msg.hmac).getD [] == crates.mac secret (canonicalBody msg)

end

def field (key : String) (payload : Json) : Option Json := payload.get key.toList

/-- A field of a payload that holds a text. -/
def strField (key : String) (payload : Json) : Option Text := (field key payload).bind Json.asStr

/-- A text without its outer spaces, unless nothing is left. -/
def trimmed (s : Text) : Option Text := if trim s = [] then none else some (trim s)

def parseTaskDetails (task : Option Json) (fallbackId : Text) : TaskDetails where
  goal := ((task.bind (strField "goal")).bind trimmed).getD
    ("Task ".toList ++ fallbackId ++ " delegated".toList)
  timeoutSecs := ((task.bind (field "timeout")).bind Json.asU64).getD defaultTimeoutSecs
  context := task.bind (field "context")
  watchPatterns :=
    (((task.bind (field "watch_patterns")).bind Json.asArray).map (·.filterMap Json.asStr)).getD []
  workingDir := task.bind (strField "working_dir")
  responseFormat := task.bind (strField "format")
  model := (task.bind (strField "model")).bind trimmed

def mapStatus (status : Text) : TaskStatus :=
  if status = "completed".toList then .completed
  else if status = "failed".toList then .failed
  else if status = "cancelled".toList then .cancelled
  else if status = "pending".toList then .pending
  else .inProgress

structure NotificationParts where
  summary : Text
  details : Option Json
  evidence : Option Json
  metadata : Option Json

/-- The details of a cut result, with what is known of the cut. -/
def mergedDetails (artifacts : Json) : Option Json :=
  let flag := field "truncated" artifacts
  let size := field "original_size" artifacts
  if flag.isSome || size.isSome then
    let merged := match field "details" artifacts with
      | some (.object fields) => fields
      | some other => [("payload".toList, other)]
      | none => []
    let merged := match flag with
      | some flag => Json.insertField "truncated".toList flag merged
      | none => merged
    some (.object (match size with
      | some size => Json.insertField "original_size".toList size merged
      | none => merged))
  else field "details" artifacts

def extractNotificationParts : Json → NotificationParts
  | .object fields =>
    let artifacts := Json.object fields
    { summary := (strField "summary" artifacts).getD "daemon notification".toList
      details := mergedDetails artifacts
      evidence := field "evidence" artifacts
      metadata := field "metadata" artifacts }
  | other => ⟨other.render, none, none, none⟩

/-! ## State -/

/-- `State::new`, with nothing connected. -/
def newState (secret : Text) (workerConfigs : List Text) (daemonVersion : Text)
    (expectedWorkerVersion : Option Text) (approvalTarget : Text) : State where
  clients := ∅
  leases := ∅
  expiredLeases := ∅
  pendingNotifications := ∅
  pendingApprovals := ∅
  secret := secret
  journal := []
  workerConfigs := workerConfigs
  tasksActive := ∅
  tasksCompleted := ∅
  daemonVersion := daemonVersion
  expectedWorkerVersion := expectedWorkerVersion
  approverTarget := if trim approvalTarget = [] then defaultApproverTarget else approvalTarget
  running := []
  queued := []

def isClientAlive (now : Nat) (ident : Text) (s : State) : Bool :=
  match s.clients.lookup ident with
  | some client => now - client.lastHeartbeat < heartbeatTimeout
  | none => false

/-- What waits for a client. -/
def pendingFor (client : Text) (s : State) : List Msg :=
  (s.pendingNotifications.lookup client).getD []

def addNotification (client : Text) (msg : Msg) (s : State) : State :=
  { s with
    pendingNotifications := s.pendingNotifications.insert client (pendingFor client s ++ [msg])
    queued := s.queued ++ [(client, msg)] }

/-- Everything that waits for a client is taken. -/
def getNotifications (client : Text) (s : State) : List Msg × State :=
  (pendingFor client s, { s with pendingNotifications := s.pendingNotifications.erase client })

def appendJournal (event : String) (msgId sender recipient : Text) (data : Json) (s : State) : State :=
  { s with journal := s.journal ++ [⟨event.toList, msgId, sender, recipient, data⟩] }

def insertActiveTask (task : DelegatedTask) (s : State) : State :=
  { s with tasksActive := s.tasksActive.insert task.id task }

/-- The completed tasks beyond the limit are dropped, the oldest first. -/
def pruneCompleted (reading : Reading) (s : State) : State :=
  let keys := s.tasksCompleted.keys
  if keys.length ≤ maxCompletedTasks then s
  else
    let tasks := (reading.order keys).filterMap s.tasksCompleted.lookup
    let sorted := tasks.insertionSort fun a b => a.lastActivity ≤ b.lastActivity
    let dropped := (sorted.take (keys.length - maxCompletedTasks)).map (·.id)
    { s with tasksCompleted := dropped.foldl (fun kept id => kept.erase id) s.tasksCompleted }

def finalizeTask (reading : Reading) (task : DelegatedTask) (s : State) : State :=
  if task.status.terminal then
    pruneCompleted reading { s with tasksCompleted := s.tasksCompleted.insert task.id task }
  else insertActiveTask task s

/-- The record of a task, from the active ones or else from the completed ones, and
the state without it. -/
def takeTask (id : Text) (s : State) : Option DelegatedTask × State :=
  match s.tasksActive.lookup id with
  | some task => (some task, { s with tasksActive := s.tasksActive.erase id })
  | none =>
    (s.tasksCompleted.lookup id, { s with tasksCompleted := s.tasksCompleted.erase id })

end Daemon

end Devit
