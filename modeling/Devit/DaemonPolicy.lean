import Devit.DaemonState

/-! Which delegations the daemon allows, denies or has approved first, from the tool
and the payload alone. -/
namespace Devit
open Text

inductive PolicyAction where
  | allow
  | deny
  | needApproval
  deriving DecidableEq, Repr

namespace Daemon

/-- A field of the task in a payload. -/
def taskField (key : String) (payload : Json) : Option Json :=
  (field "task" payload).bind (field key)

def taskText (key : String) (payload : Json) : Option Text := (taskField key payload).bind Json.asStr

def startsWithAny (patterns : List String) (s : Text) : Bool :=
  patterns.any fun pattern => startsWith pattern.toList s

def containsAny (patterns : List String) (s : Text) : Bool :=
  patterns.any fun pattern => contains pattern.toList s

def evalPatchApply (payload : Json) : PolicyAction :=
  match taskText "path" payload with
  | some path =>
    if startsWithAny ["/etc", "/var", "/home", "/root", "/sys", "/proc"] path then .deny
    else if startsWithAny ["/workdir/src", "/workdir/tests", "/tmp/devit"] path then .allow
    else .needApproval
  | none => .needApproval

def evalFileRead (payload : Json) : PolicyAction :=
  match taskText "path" payload with
  | some path =>
    if containsAny ["password", "secret", "key"] path ||
        startsWithAny ["/etc/shadow", "/root/.ssh"] path then .deny
    else
      match (taskField "max_bytes" payload).bind Json.asU64 with
      | some size => if size > 1048576 then .needApproval else .allow
      | none => .allow
  | none => .allow

def dangerousPatterns : List String :=
  ["rm -rf", "sudo", "chmod +x", "curl", "wget", "network", "docker"]

def evalTestRun (payload : Json) : PolicyAction :=
  if ((taskField "timeout_secs" payload).bind Json.asU64).any (· > 120) then .needApproval
  else if (taskText "command" payload).any (containsAny dangerousPatterns) then .needApproval
  else .allow

/-- `Policy::eval`. -/
def policyEval (tool : Text) (payload : Json) : PolicyAction :=
  if tool = "devit_patch_apply".toList then evalPatchApply payload
  else if tool = "devit_file_read".toList then evalFileRead payload
  else if tool = "devit_test_run".toList then evalTestRun payload
  else .allow

def assessRiskLevel (tool : Text) (details : Json) : String :=
  if tool = "devit_patch_apply".toList then
    if containsAny ["main.rs", "lib.rs"] ((taskText "path" details).getD []) then "medium" else "low"
  else if tool = "devit_test_run".toList then
    if ((taskField "timeout_secs" details).bind Json.asU64).getD 0 > 60 then "medium" else "low"
  else "low"

def createApprovalRequest (reading : Reading) (taskId tool originalMsgId : Text) (details : Json) :
    Json :=
  .ofFields [
    ("reason", .string "on_request".toList),
    ("tool", .string tool),
    ("task_id", .string taskId),
    ("original_msg_id", .string originalMsgId),
    ("details", details),
    ("timestamp", .string reading.utcFullText),
    ("risk_level", .string (assessRiskLevel tool details).toList)]

/-- The tool that a payload names. -/
def toolOf (payload : Json) : Text := (taskText "action" payload).getD "unknown".toList

end Daemon

end Devit
