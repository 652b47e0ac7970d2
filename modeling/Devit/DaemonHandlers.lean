import Devit.DaemonPolicy

/-! What the daemon does with each message, when it sweeps, and when a worker
process ends. A handler is one step: where it takes the lock more than once, what
lies between does not depend on what it changes. -/
namespace Devit
open Text Path

inductive WorkerStatus where
  | completed
  | failed
  deriving DecidableEq, Repr

def WorkerStatus.text : WorkerStatus → Text
  | .completed => "completed".toList
  | .failed => "failed".toList

/-- How a worker process ended. -/
structure WorkerOutcome where
  status : WorkerStatus
  summary : Text
  details : Option Json
  evidence : Option Json
  truncated : Bool
  originalSize : Option UInt64
  /-- As JSON. -/
  metadata : Json

namespace Daemon

def orchestrator : Text := "orchestrator".toList

def optionText (s : Option Text) : Json := Json.ofOption (s.map .string)

/-- A message of the daemon's own, with two fresh identifiers from the `k`-th on. -/
def orchestratorMsg (reading : Reading) (k : Nat) (msgType : String) (recipient : Text)
    (payload : Json) : Msg where
  msgType := msgType.toList
  msgId := reading.uuid k
  sender := orchestrator
  recipient := recipient
  ts := reading.ts
  nonce := reading.uuid (k + 1)
  hmac := []
  payload := payload

/-! ## Leases that run out -/

def expirySummary : Text := "Task lease expired after 900s without completion".toList

def expiryDetails (reading : Reading) (lease : Lease) : Json :=
  .ofFields [("reason", .string "lease_timeout".toList), ("timeout_secs", .unsigned 900),
    ("expired_at", .string reading.utcText), ("worker", .string lease.assignedTo)]

def expiryMetadata (reading : Reading) (lease : Lease) : Json :=
  .ofFields [("failure", expiryDetails reading lease)]

def expiryRecord (reading : Reading) (lease : Lease) : TaskNotification where
  receivedAt := reading.utc
  status := "failed".toList
  summary := expirySummary
  details := some (expiryDetails reading lease)
  evidence := none
  autoGenerated := true
  metadata := some (expiryMetadata reading lease)

/-- Who hears of the end of a task whose lease ran out. -/
def Lease.target (lease : Lease) : Text := lease.returnTo.getD lease.originalFrom

/-- The record of a task whose lease ran out. -/
def expiredTask (reading : Reading) (taskId : Text) (lease : Lease) :
    Option DelegatedTask → DelegatedTask
  | some existing => { existing with
      status := .failed
      lastActivity := reading.utc
      notifications := existing.notifications ++ [expiryRecord reading lease]
      workingDir := (lease.workingDir.map PathBuf.mk) <|> existing.workingDir
      responseFormat := existing.responseFormat <|> lease.responseFormat
      model := existing.model <|> lease.model
      modelResolved := existing.modelResolved <|> lease.modelResolved }
  | none => {
      id := taskId
      goal := expirySummary
      delegatedTo := lease.assignedTo
      createdAt := reading.utc
      timeoutSecs := defaultTimeoutSecs
      status := .failed
      context := none
      watchPatterns := []
      lastActivity := reading.utc
      notifications := [expiryRecord reading lease]
      workingDir := lease.workingDir.map PathBuf.mk
      responseFormat := lease.responseFormat
      model := lease.model
      modelResolved := lease.modelResolved }

def expiryNotification (reading : Reading) (k : Nat) (taskId : Text) (lease : Lease) : Msg where
  msgType := "NOTIFY".toList
  msgId := reading.uuid k
  sender := lease.assignedTo
  recipient := Lease.target lease
  ts := reading.ts
  nonce := reading.uuid (k + 1)
  hmac := []
  payload := .ofFields [("task_id", .string taskId), ("status", .string "failed".toList),
    ("artifacts", .ofFields [("summary", .string expirySummary),
      ("details", expiryDetails reading lease), ("reported_at", .string reading.utcText)]),
    ("metadata", expiryMetadata reading lease), ("return_to", .string (Lease.target lease))]

section
variable (crates : DaemonCrates) (reading : Reading)

/-- The lease of a task ran out; its messages use identifiers from the `k`-th on. -/
def expireLease (s : State) (taskId : Text) (k : Nat) : State :=
  match s.leases.lookup taskId with
  | none => s
  | some lease =>
    let s := { s with
      leases := s.leases.erase taskId
      expiredLeases := s.expiredLeases.insert taskId lease }
    let (task, s) := takeTask taskId s
    let s := finalizeTask reading (expiredTask reading taskId lease task) s
    let s := addNotification (Lease.target lease)
      (signMsg crates s.secret (expiryNotification reading k taskId lease)) s
    appendJournal "NOTIFY" taskId lease.assignedTo (Lease.target lease)
      (.ofFields [("status", .string "failed".toList), ("summary", .string expirySummary),
        ("details", expiryDetails reading lease), ("metadata", expiryMetadata reading lease),
        ("reason", .string "lease_timeout".toList)]) s

/-- The tasks whose lease has run out. -/
def expiredIds (s : State) : List Text :=
  (reading.order s.leases.keys).filter fun id =>
    (s.leases.lookup id).any fun lease => reading.instant > lease.deadline

/-- The clients that have been silent too long. -/
def deadClients (s : State) : List Text :=
  s.clients.keys.filter fun ident =>
    (s.clients.lookup ident).any fun client =>
      reading.instant - client.lastHeartbeat > heartbeatTimeout

def dropClient (s : State) (ident : Text) : State :=
  { s with
    clients := s.clients.erase ident
    pendingNotifications := s.pendingNotifications.erase ident }

/-- `State::cleanup_expired`. -/
def cleanupExpired (s : State) : State :=
  let s := (expiredIds reading s).zipIdx.foldl
    (fun s (id, i) => expireLease crates reading s id (2 * i)) s
  (deadClients reading s).foldl dropClient s

/-! ## Failing a delegation at once -/

def failureNotification (k : Nat) (target taskId : Text) (artifacts : Json) : Msg :=
  orchestratorMsg reading k "NOTIFY" target (.ofFields [("task_id", .string taskId),
    ("status", .string "failed".toList), ("artifacts", artifacts),
    ("return_to", .string target)])

def failedTask (taskId delegatedTo : Text) (artifacts : Json) (details : TaskDetails) :
    DelegatedTask :=
  let parts := extractNotificationParts artifacts
  { id := taskId
    goal := details.goal
    delegatedTo := delegatedTo
    createdAt := reading.utc
    timeoutSecs := details.timeoutSecs
    status := .failed
    context := details.context
    watchPatterns := details.watchPatterns
    lastActivity := reading.utc
    notifications := [⟨reading.utc, "failed".toList, parts.summary, parts.details, none, true,
      parts.metadata⟩]
    workingDir := details.workingDir.map PathBuf.mk
    responseFormat := details.responseFormat
    model := details.model
    modelResolved := none }

def recordImmediateFailure (target taskId delegatedTo : Text) (artifacts : Json)
    (details : TaskDetails) (s : State) : State :=
  finalizeTask reading (failedTask reading taskId delegatedTo artifacts details)
    (addNotification target
      (signMsg crates s.secret (failureNotification reading 0 target taskId artifacts)) s)

def queueFailureNotification (target taskId : Text) (artifacts : Json) (s : State) : State :=
  addNotification target
    (signMsg crates s.secret (failureNotification reading 2 target taskId artifacts)) s

/-- A delegation that is denied is failed for the target, and for its sender too if
that is another. -/
def failDelegation (msg : Msg) (taskId : Text) (artifacts : Json) (s : State) : State :=
  let details := parseTaskDetails (field "task" msg.payload) taskId
  let target := (strField "return_to" msg.payload).getD msg.sender
  let s := recordImmediateFailure crates reading target taskId msg.recipient artifacts details s
  if target = msg.sender then s
  else queueFailureNotification crates reading msg.sender taskId artifacts s

/-! ## Delegation -/

def delegatedTask (taskId worker : Text) (notifyWorker : Bool) (details : TaskDetails) :
    DelegatedTask where
  id := taskId
  goal := details.goal
  delegatedTo := worker
  createdAt := reading.utc
  timeoutSecs := details.timeoutSecs
  status := if notifyWorker then .pending else .inProgress
  context := details.context
  watchPatterns := details.watchPatterns
  lastActivity := reading.utc
  notifications := []
  workingDir := details.workingDir.map PathBuf.mk
  responseFormat := details.responseFormat
  model := details.model
  modelResolved := none

def newLease (msg : Msg) (taskId worker : Text) (returnTo : Option Text) (details : TaskDetails) :
    Lease where
  taskId := taskId
  assignedTo := worker
  originalFrom := msg.sender
  deadline := reading.instant + leaseTtl
  returnTo := returnTo
  workingDir := details.workingDir
  responseFormat := details.responseFormat
  model := details.model
  modelResolved := none

def delegationMsg (msg : Msg) (taskId worker : Text) : Msg where
  msgType := "DELEGATE".toList
  msgId := taskId
  sender := orchestrator
  recipient := worker
  ts := reading.ts
  nonce := reading.uuid 0
  hmac := []
  payload := msg.payload

def delegationRecord (msg : Msg) (returnTo : Option Text) (tool : Text) (notifyWorker : Bool)
    (details : TaskDetails) : Json :=
  .ofFields ([("original_msg_id", .string msg.msgId), ("return_to", optionText returnTo),
    ("lease_ttl", .unsigned 900), ("task", .ofOption (field "task" msg.payload)),
    ("tool", .string tool), ("working_dir", optionText details.workingDir),
    ("format", optionText details.responseFormat), ("model", optionText details.model),
    ("policy_decision", .string "allow".toList)] ++
    if notifyWorker then [] else [("delivery", .string "subprocess".toList)])

def proceedWithDelegation (msg : Msg) (taskId worker : Text) (returnTo : Option Text) (tool : Text)
    (notifyWorker : Bool) (details : TaskDetails) (s : State) : State :=
  let s := { s with
    leases := s.leases.insert taskId (newLease reading msg taskId worker returnTo details) }
  let s := insertActiveTask (delegatedTask reading taskId worker notifyWorker details) s
  let s := if notifyWorker then
      addNotification worker (delegationMsg reading msg taskId worker) s
    else s
  appendJournal "DELEGATE" taskId msg.sender worker
    (delegationRecord msg returnTo tool notifyWorker details) s

def workerTask (msg : Msg) (details : TaskDetails) : WorkerTask where
  id := msg.msgId
  goal := details.goal
  delegatedTo := msg.recipient
  workingDir := details.workingDir
  timeoutSecs := some details.timeoutSecs
  returnTo := strField "return_to" msg.payload
  responseFormat := details.responseFormat
  timeQueued := reading.utc
  model := details.model
  context := details.context

def approverOf (s : State) : Text :=
  if trim s.approverTarget = [] then defaultApproverTarget else s.approverTarget

def approvalMsg (approver taskId tool : Text) (msg : Msg) : Msg where
  msgType := "APPROVAL".toList
  msgId := reading.uuid 0
  sender := orchestrator
  recipient := approver
  ts := reading.ts
  nonce := reading.uuid 1
  hmac := []
  payload := createApprovalRequest reading taskId tool msg.msgId msg.payload

def handleApprovalRequest (msg : Msg) (taskId tool : Text) (s : State) : State :=
  let approvalId := reading.uuid 0
  let approver := approverOf s
  let s := { s with
    pendingApprovals := s.pendingApprovals.insert approvalId ⟨taskId, msg, tool, reading.instant⟩ }
  let s := addNotification approver (approvalMsg reading approver taskId tool msg) s
  appendJournal "POLICY" approvalId orchestrator approver
    (.ofFields [("decision", .string "request_approval".toList), ("tool", .string tool),
      ("task_id", .string taskId)]) s

def policyArtifacts (msg : Msg) (tool : Text) : Json :=
  .ofFields [("summary", .string ("Task denied by policy (tool: ".toList ++ tool ++ [')'])),
    ("details", .ofFields [("reason", .string "policy_denied".toList), ("tool", .string tool),
      ("task_id", .string msg.msgId), ("worker", .string msg.recipient),
      ("goal", .string (parseTaskDetails (field "task" msg.payload) msg.msgId).goal)]),
    ("metadata", .ofFields [("failure", .ofFields [("reason", .string "policy_denied".toList),
      ("tool", .string tool), ("task_id", .string msg.msgId)])])]

def policyErr (msg : Msg) (tool : Text) : Msg :=
  orchestratorMsg reading 4 "ERR" msg.sender (.ofFields [
    ("code", .string "E_POLICY_DENIED".toList),
    ("message", .ofOption (field "summary" (policyArtifacts msg tool))),
    ("details", .ofOption (field "details" (policyArtifacts msg tool)))])

/-- A delegation that the policy denies. -/
def delegateDenied (msg : Msg) (tool : Text) (s : State) : Option Msg × State :=
  let s := appendJournal "POLICY" msg.msgId msg.sender orchestrator
    (.ofFields [("decision", .string "deny".toList), ("tool", .string tool),
      ("reason", .string "policy_forbidden".toList)]) s
  (some (policyErr reading msg tool),
    failDelegation crates reading msg msg.msgId (policyArtifacts msg tool) s)

/-- A delegation that the policy allows: a configured worker is started, another one
is told if it is alive. -/
def delegateAllowed (msg : Msg) (tool : Text) (s : State) : State :=
  let details := parseTaskDetails (field "task" msg.payload) msg.msgId
  let returnTo := strField "return_to" msg.payload
  if msg.recipient ∈ s.workerConfigs then
    let s := proceedWithDelegation reading msg msg.msgId msg.recipient returnTo tool false details s
    { s with running := s.running ++ [workerTask reading msg details] }
  else if isClientAlive reading.instant msg.recipient s then
    proceedWithDelegation reading msg msg.msgId msg.recipient returnTo tool true details s
  else s

def handleDelegate (msg : Msg) (s : State) : Option Msg × State :=
  let tool := toolOf msg.payload
  match policyEval tool msg.payload with
  | .deny => delegateDenied crates reading msg tool s
  | .needApproval => (none, handleApprovalRequest reading msg msg.msgId tool s)
  | .allow => (none, delegateAllowed reading msg tool s)

/-! ## Decisions on approvals -/

def noteOf (msg : Msg) : Option Text := (strField "note" msg.payload).bind trimmed

def optionalNote (msg : Msg) : List (String × Json) :=
  match noteOf msg with
  | some note => [("note", .string note)]
  | none => []

def denialArtifacts (msg : Msg) (pending : PendingApproval) : Json :=
  let summary := match noteOf msg with
    | some note => "Approval denied for task ".toList ++ pending.taskId ++ ": ".toList ++ note
    | none => "Approval denied for task ".toList ++ pending.taskId ++ " (tool: ".toList ++
        pending.tool ++ [')']
  .ofFields [("summary", .string summary),
    ("details", .ofFields ([("reason", .string "approval_denied".toList),
      ("tool", .string pending.tool), ("task_id", .string pending.taskId),
      ("approver", .string msg.sender)] ++ optionalNote msg)),
    ("metadata", .ofFields [("failure", .ofFields ([("reason", .string "approval_denied".toList),
      ("tool", .string pending.tool), ("approver", .string msg.sender),
      ("approval_id", .string msg.msgId)] ++ optionalNote msg))])]

def decisionRecord (msg : Msg) (pending : PendingApproval) (decision : String) : Json :=
  .ofFields [("decision", .string decision.toList), ("tool", .string pending.tool),
    ("task_id", .string pending.taskId), ("note", .ofOption (field "note" msg.payload))]

/-- The status that a decision or a notification gives. -/
def statusOf (default : String) (msg : Msg) : Text :=
  (strField "status" msg.payload).getD default.toList

def handleApprovalDecision (msg : Msg) (s : State) : State :=
  match s.pendingApprovals.lookup msg.msgId with
  | none => s
  | some pending =>
    let s := { s with pendingApprovals := s.pendingApprovals.erase msg.msgId }
    let original := pending.originalMsg
    if statusOf "unknown" msg = "granted".toList then
      let s := appendJournal "POLICY" msg.msgId msg.sender orchestrator
        (decisionRecord msg pending "granted") s
      proceedWithDelegation reading original pending.taskId original.recipient
        (strField "return_to" original.payload) pending.tool true
        (parseTaskDetails (field "task" original.payload) pending.taskId) s
    else if statusOf "unknown" msg = "denied".toList then
      let s := appendJournal "POLICY" msg.msgId msg.sender orchestrator
        (decisionRecord msg pending "denied") s
      failDelegation crates reading original pending.taskId (denialArtifacts msg pending) s
    else s

/-! ## Notifications -/

/-- The task that a notification is about. -/
def notifiedTask (msg : Msg) : Text := (strField "task_id" msg.payload).getD msg.msgId

/-- Whether a notification only acknowledges another. -/
def isAck (msg : Msg) : Bool :=
  (strField "status" msg.payload).any fun status => status.map Char.toLower == "ack".toList

def notifiedParts (msg : Msg) : NotificationParts :=
  extractNotificationParts (Json.ofOption (field "artifacts" msg.payload))

def notificationRecord (msg : Msg) : TaskNotification :=
  let parts := notifiedParts msg
  ⟨reading.utc, statusOf "completed" msg, parts.summary, parts.details, parts.evidence, true,
    parts.metadata⟩

/-- The message that carries a notification on. -/
def forwarded (target : Text) (msg : Msg) : Msg :=
  orchestratorMsg reading 0 "NOTIFY" target msg.payload

/-- The record of a task whose lease is held. -/
def leasedTask (msg : Msg) (taskId : Text) (lease : Lease) : Option DelegatedTask → DelegatedTask
  | some existing => { existing with
      status := mapStatus (statusOf "completed" msg)
      lastActivity := reading.utc
      notifications := existing.notifications ++ [notificationRecord reading msg]
      workingDir := (lease.workingDir.map PathBuf.mk) <|> existing.workingDir
      responseFormat := existing.responseFormat <|> lease.responseFormat
      model := existing.model <|> requested <|> lease.model
      modelResolved := used <|> existing.modelResolved }
  | none => {
      id := taskId
      goal := (notifiedParts msg).summary
      delegatedTo := lease.assignedTo
      createdAt := reading.utc
      timeoutSecs := defaultTimeoutSecs
      status := mapStatus (statusOf "completed" msg)
      context := none
      watchPatterns := []
      lastActivity := reading.utc
      notifications := [notificationRecord reading msg]
      workingDir := lease.workingDir.map PathBuf.mk
      responseFormat := lease.responseFormat
      model := requested <|> lease.model
      modelResolved := used }
where
  requested := ((notifiedParts msg).metadata).bind (strField "model_requested")
  used := ((notifiedParts msg).metadata).bind (strField "model_used")

/-- The record of a task that no lease is held for. -/
def lateTask (msg : Msg) (taskId : Text) : Option DelegatedTask → DelegatedTask
  | some existing => { existing with
      status := mapStatus (statusOf "completed" msg)
      lastActivity := reading.utc
      notifications := existing.notifications ++ [notificationRecord reading msg] }
  | none => {
      id := taskId
      goal := (notifiedParts msg).summary
      delegatedTo := msg.sender
      createdAt := reading.utc
      timeoutSecs := defaultTimeoutSecs
      status := mapStatus (statusOf "completed" msg)
      context := none
      watchPatterns := []
      lastActivity := reading.utc
      notifications := [notificationRecord reading msg]
      workingDir := none
      responseFormat := none
      model := none
      modelResolved := none }

/-- The lease of a task is taken: the current one, or else the expired one. -/
def takeLease (taskId : Text) (s : State) : Option Lease × State :=
  match s.leases.lookup taskId with
  | some lease => (some lease, { s with leases := s.leases.erase taskId })
  | none =>
    (s.expiredLeases.lookup taskId, { s with expiredLeases := s.expiredLeases.erase taskId })

/-- What the journal is told of a notification. -/
def notifiedRecord (msg : Msg) (extra : List (String × Json)) : Json :=
  let parts := notifiedParts msg
  .ofFields ([("status", .string (statusOf "completed" msg)), ("summary", .string parts.summary),
    ("details", .ofOption parts.details), ("evidence", .ofOption parts.evidence),
    ("metadata", .ofOption parts.metadata)] ++ extra)

def handleNotify (msg : Msg) (s : State) : State :=
  let taskId := notifiedTask msg
  if isAck msg then s
  else
    match takeLease taskId s with
    | (some lease, s) =>
      let target := (strField "return_to" msg.payload).getD lease.originalFrom
      let (task, s) := takeTask taskId s
      let s := finalizeTask reading (leasedTask reading msg taskId lease task) s
      let s := addNotification target (signMsg crates s.secret (forwarded reading target msg)) s
      appendJournal "NOTIFY" taskId msg.sender target
        (notifiedRecord msg [("completed_by", .string lease.assignedTo)]) s
    | (none, s) =>
      let target := (strField "return_to" msg.payload).getD msg.sender
      let (task, s) := takeTask taskId s
      let s := finalizeTask reading (lateTask reading msg taskId task) s
      let s := addNotification target (signMsg crates s.secret (forwarded reading target msg)) s
      appendJournal "NOTIFY" taskId msg.sender target
        (notifiedRecord msg [("note", .string "late_notification".toList)]) s

/-! ## Worker processes -/

def buildWorkerArtifacts (outcome : WorkerOutcome) : Json :=
  .ofFields ([("summary", .string outcome.summary)] ++
    (match outcome.details with
      | some details => [("details", details)]
      | none => []) ++
    (match outcome.evidence with
      | some evidence => [("evidence", evidence)]
      | none => []) ++
    (if outcome.truncated then
      [("truncated", .bool true)] ++ match outcome.originalSize with
        | some size => [("original_size", .unsigned size)]
        | none => []
    else []) ++
    [("metadata", outcome.metadata), ("reported_at", .string reading.utcText)])

/-- What a worker process that ended is reported as. -/
def workerReport (task : WorkerTask) (outcome : WorkerOutcome) : Msg where
  msgType := "NOTIFY".toList
  msgId := task.id
  sender := task.delegatedTo
  recipient := orchestrator
  ts := reading.ts
  nonce := reading.uuid 2
  hmac := []
  payload := .ofFields ([("task_id", .string task.id), ("status", .string outcome.status.text),
    ("artifacts", buildWorkerArtifacts reading outcome)] ++
    match task.returnTo with
    | some returnTo => [("return_to", .string returnTo)]
    | none => [])

/-- The `i`-th of the running workers ends. -/
def workerFinished (i : Nat) (outcome : WorkerOutcome) (s : State) : State :=
  match s.running[i]? with
  | none => s
  | some task =>
    handleNotify crates reading (signMsg crates s.secret (workerReport reading task outcome))
      { s with running := s.running.eraseIdx i }

/-! ## Clients -/

def registerErr (msg : Msg) (fields : List (String × Json)) : Msg :=
  orchestratorMsg reading 0 "ERR" msg.sender (.ofFields fields)

def registeredVersion (msg : Msg) : Option Text := (strField "version" msg.payload).bind trimmed

/-- Why a client is turned away, if it is. -/
def versionRefusal (msg : Msg) (s : State) : Option Msg :=
  match s.expectedWorkerVersion, registeredVersion msg with
  | none, _ => none
  | some expected, some actual =>
    if actual = expected then none
    else some (registerErr reading msg [("code", .string "E_VERSION_MISMATCH".toList),
      ("message", .string ("expected worker version '".toList ++ expected ++
        "' but client reported '".toList ++ actual ++ "'".toList)),
      ("expected_worker_version", .string expected),
      ("received_worker_version", .string actual), ("daemon_version", .string s.daemonVersion)])
  | some expected, none =>
    some (registerErr reading msg [("code", .string "E_VERSION_MISSING".toList),
      ("message", .string ("expected worker version '".toList ++ expected ++
        "' but client omitted version field".toList)),
      ("expected_worker_version", .string expected), ("daemon_version", .string s.daemonVersion)])

def handleRegister (msg : Msg) (s : State) : Option Msg × State :=
  match versionRefusal reading msg s with
  | some refusal => (some refusal, s)
  | none =>
    let capabilities :=
      (((field "caps" msg.payload).bind Json.asArray).map (·.filterMap Json.asStr)).getD []
    let client : Client :=
      ⟨msg.sender, reading.instant, capabilities, registeredVersion msg⟩
    let s := { s with clients := s.clients.insert msg.sender client }
    (some (orchestratorMsg reading 0 "ACK" msg.sender (.ofFields [
        ("daemon_version", .string s.daemonVersion),
        ("expected_worker_version", optionText s.expectedWorkerVersion),
        ("worker_version", .ofOption (field "version" msg.payload))])),
      appendJournal "REGISTER" msg.msgId msg.sender orchestrator
        (.ofFields [("capabilities", .array (capabilities.map .string)),
          ("pid", .ofOption (field "pid" msg.payload)),
          ("version", optionText (registeredVersion msg))]) s)

def handlePoll (msg : Msg) (s : State) : Option Msg × State :=
  let (notifications, s) := getNotifications msg.sender s
  (notifications.head?, s)

def handleHeartbeat (msg : Msg) (s : State) : Option Msg × State :=
  match s.clients.lookup msg.sender with
  | some client =>
    let client := { client with lastHeartbeat := reading.instant }
    handlePoll msg { s with clients := s.clients.insert msg.sender client }
  | none => handlePoll msg s

def buildSnapshot (s : State) : OrchestrationStatus :=
  let activeTasks := (reading.order s.tasksActive.keys).filterMap s.tasksActive.lookup
  let completedTasks := (reading.order s.tasksCompleted.keys).filterMap s.tasksCompleted.lookup
  { activeTasks := activeTasks
    completedTasks := completedTasks
    totalActive := activeTasks.length
    totalCompleted := (completedTasks.filter (·.status = .completed)).length
    totalFailed := (completedTasks.filter (·.status = .failed)).length
    oldestActiveTask := (activeTasks.argmin (·.createdAt)).map (·.id) }

def handleStatusRequest (msg : Msg) (s : State) : Msg :=
  orchestratorMsg reading 0 "STATUS_RESPONSE" msg.sender
    (crates.statusJson (buildSnapshot reading s))

def handleScreenshot (msg : Msg) : Msg :=
  match reading.screenshot with
  | .ok payload => orchestratorMsg reading 0 "ACK" msg.sender payload
  | .error (code, message) =>
    orchestratorMsg reading 0 "ERR" msg.sender
      (.ofFields [("code", .string code), ("message", .string message)])

/-! ## All messages -/

/-- `handle_message`: a message that does not carry its code is dropped. -/
def handleMessage (msg : Msg) (s : State) : Option Msg × State :=
  if verifyHmac crates s.secret msg = false then (none, s)
  else if msg.msgType = "REGISTER".toList then handleRegister reading msg s
  else if msg.msgType = "HEARTBEAT".toList then handleHeartbeat reading msg s
  else if msg.msgType = "DELEGATE".toList then handleDelegate crates reading msg s
  else if msg.msgType = "NOTIFY".toList then (none, handleNotify crates reading msg s)
  else if msg.msgType = "APPROVAL_DECISION".toList then
    (none, handleApprovalDecision crates reading msg s)
  else if msg.msgType = "POLL".toList then handlePoll msg s
  else if msg.msgType = "STATUS_REQUEST".toList then
    (some (handleStatusRequest crates reading msg s), s)
  else if msg.msgType = "SCREENSHOT".toList then (some (handleScreenshot reading msg), s)
  else (none, s)

end

end Daemon

end Devit
