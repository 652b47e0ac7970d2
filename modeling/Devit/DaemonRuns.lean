import Devit.DaemonHandlers
import Devit.Library.Runs

/-! Runs of the daemon: messages of any clients, sweeps and ends of worker processes
in any order. Here is, once, what a step can be. -/
namespace Devit
open Text Path

namespace Daemon

inductive Event where
  | message (reading : Reading) (msg : Msg)
  | sweep (reading : Reading)
  /-- The `i`-th of the running worker processes ends. -/
  | finished (reading : Reading) (i : Nat) (outcome : WorkerOutcome)

section
variable (crates : DaemonCrates)

def step (s : State) : Event → Option Msg × State
  | .message reading msg => handleMessage crates reading msg s
  | .sweep reading => (none, cleanupExpired crates reading s)
  | .finished reading i outcome => (none, workerFinished crates reading i outcome s)

/-- The state after some events. -/
def after (s : State) (events : List Event) : State := Runs.final (step crates) s events

/-- The types of messages that are handled. -/
def messageTypes : List Text :=
  ["REGISTER".toList, "HEARTBEAT".toList, "DELEGATE".toList, "NOTIFY".toList,
    "APPROVAL_DECISION".toList, "POLL".toList, "STATUS_REQUEST".toList, "SCREENSHOT".toList]

/-- What a step is, with its answer and the state after it. -/
inductive Steps (s : State) : Event → Option Msg → State → Prop
  | forged {reading msg} (forged : verifyHmac crates s.secret msg = false) :
      Steps s (.message reading msg) none s
  | unknown {reading msg} (type : msg.msgType ∉ messageTypes) :
      Steps s (.message reading msg) none s
  | register {reading msg} (authentic : verifyHmac crates s.secret msg = true)
      (type : msg.msgType = "REGISTER".toList) :
      Steps s (.message reading msg) (handleRegister reading msg s).1 (handleRegister reading msg s).2
  | heartbeat {reading msg} (authentic : verifyHmac crates s.secret msg = true)
      (type : msg.msgType = "HEARTBEAT".toList) :
      Steps s (.message reading msg) (handleHeartbeat reading msg s).1
        (handleHeartbeat reading msg s).2
  | delegate {reading msg} (authentic : verifyHmac crates s.secret msg = true)
      (type : msg.msgType = "DELEGATE".toList) :
      Steps s (.message reading msg) (handleDelegate crates reading msg s).1
        (handleDelegate crates reading msg s).2
  | notify {reading msg} (authentic : verifyHmac crates s.secret msg = true)
      (type : msg.msgType = "NOTIFY".toList) :
      Steps s (.message reading msg) none (handleNotify crates reading msg s)
  | decision {reading msg} (authentic : verifyHmac crates s.secret msg = true)
      (type : msg.msgType = "APPROVAL_DECISION".toList) :
      Steps s (.message reading msg) none (handleApprovalDecision crates reading msg s)
  | poll {reading msg} (authentic : verifyHmac crates s.secret msg = true)
      (type : msg.msgType = "POLL".toList) :
      Steps s (.message reading msg) (handlePoll msg s).1 (handlePoll msg s).2
  | report {reading msg answer} (authentic : verifyHmac crates s.secret msg = true)
      (type : msg.msgType = "STATUS_REQUEST".toList ∨ msg.msgType = "SCREENSHOT".toList) :
      Steps s (.message reading msg) (some answer) s
  | sweep {reading} : Steps s (.sweep reading) none (cleanupExpired crates reading s)
  | idle {reading i outcome} (none_running : s.running[i]? = none) :
      Steps s (.finished reading i outcome) none s
  | finished {reading i outcome} {task : WorkerTask} (runs : s.running[i]? = some task) :
      Steps s (.finished reading i outcome) none (handleNotify crates reading
        (signMsg crates s.secret (workerReport reading task outcome))
        { s with running := s.running.eraseIdx i })

end

variable {crates : DaemonCrates} {s : State}

theorem step_steps (event : Event) :
    Steps crates s event (step crates s event).1 (step crates s event).2 := by
  cases event with
  | sweep reading => exact .sweep
  | finished reading i outcome =>
    simp only [step, workerFinished]
    cases runs : s.running[i]? with
    | none => exact .idle runs
    | some task => exact .finished runs
  | message reading msg =>
    simp only [step, handleMessage]
    split
    · rename_i forged
      exact .forged forged
    · rename_i forged
      have authentic : verifyHmac crates s.secret msg = true := by simpa using forged
      split
      · exact .register authentic ‹_›
      · split
        · exact .heartbeat authentic ‹_›
        · split
          · exact .delegate authentic ‹_›
          · split
            · exact .notify authentic ‹_›
            · split
              · exact .decision authentic ‹_›
              · split
                · exact .poll authentic ‹_›
                · split
                  · exact .report authentic (.inl ‹_›)
                  · split
                    · exact .report authentic (.inr ‹_›)
                    · rename_i register heartbeat delegate notify decision poll status screenshot
                      refine .unknown ?_
                      simp only [messageTypes, List.mem_cons, List.not_mem_nil, or_false, not_or]
                      exact ⟨register, heartbeat, delegate, notify, decision, poll, status,
                        screenshot⟩

end Daemon

end Devit
