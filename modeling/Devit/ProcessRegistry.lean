import Devit.JsonRpc
import Mathlib.Data.List.AList

/-! The records of background processes. Starts put records into the registry as running; a kill
and the passes of the reaper turn records into exited ones, by what they see of the processes. -/
namespace Devit
open Text

/-- Process identifiers of the kernel are below 2^31. -/
abbrev Pid := UInt32

inductive ProcessStatus where
  | running
  | exited
  deriving DecidableEq

structure ProcessRecord where
  pid : Pid
  pgid : Pid
  startTicks : UInt64
  /-- Milliseconds. -/
  startedAt : Int
  command : Text
  args : List Text
  status : ProcessStatus
  exitCode : Option Int
  terminatedBySignal : Option Int
  autoKillAt : Option Int
  deriving DecidableEq

/-- `Registry`. The order of its entries means nothing. -/
abbrev Registry := AList fun _ : Pid => ProcessRecord

namespace ProcessRegistry

/-! ## What is seen of processes -/

inductive WaitResult where
  | exited (code : Int)
  | signaled (sig : Int)
  | stillAlive
  | other
  | failed
  deriving DecidableEq

/-- What `/proc` and `waitpid` say. -/
structure View where
  processExists : Pid → Bool
  startTime : Pid → Option UInt64
  waitpid : Pid → WaitResult

/-- The start time in the text of `/proc/[pid]/stat`: its word at index 21. -/
def readStartTime (content : Text) : Option UInt64 :=
  ((splitWhitespace content)[21]?.bind parseUsize).map UInt64.ofNat

/-- The text of `/proc/[pid]/stat`, with the fields before and behind the start time. -/
def statText (pid : Pid) (comm : Text) (before : List Text) (startTime : UInt64)
    (behind : List Text) : Text :=
  join [' '] (printNat pid.toNat :: ('(' :: (comm ++ [')'])) :: (before ++
    printNat startTime.toNat :: behind))

/-- A word of a text. -/
def IsWord (s : Text) : Prop := s ≠ [] ∧ ∀ c ∈ s, isWhitespace c = false

theorem isWord_printNat (n : Nat) : IsWord (printNat n) := by
  refine ⟨printNat_ne_nil n, fun c member => ?_⟩
  have digit := printNat_isDigit member
  simp only [Char.isDigit, Bool.and_eq_true, decide_eq_true_eq, ge_iff_le,
    UInt32.le_iff_toNat_le] at digit
  have low : 48 ≤ c.toNat := digit.1
  have high : c.toNat ≤ 57 := digit.2
  simp only [isWhitespace, decide_eq_false_iff_not]
  omega

theorem splitWhitespace_join {words : List Text} (filled : words ≠ [])
    (all : ∀ word ∈ words, IsWord word) : splitWhitespace (join [' '] words) = words := by
  have whole : words.flatMap (splitOn isWhitespace) = words := by
    induction words with
    | nil => rfl
    | cons word words ih =>
      obtain ⟨first, rest⟩ := List.forall_mem_cons.mp all
      rw [List.flatMap_cons, splitOn_whole first.2]
      cases words with
      | nil => rfl
      | cons next words => rw [ih (List.cons_ne_nil _ _) rest]; rfl
  rw [splitWhitespace, splitOn_join (by decide) filled, whole]
  exact List.filter_eq_self.mpr fun word member => decide_eq_true (all word member).1

/-- A name without white space is one word in its parentheses. -/
theorem isWord_bracketed {comm : Text} (name : ∀ c ∈ comm, isWhitespace c = false) :
    IsWord ('(' :: (comm ++ [')'])) := by
  refine ⟨List.cons_ne_nil _ _, fun c member => ?_⟩
  rcases List.mem_cons.mp member with rfl | later
  · decide
  · rcases List.mem_append.mp later with inside | last
    · exact name c inside
    · rw [List.mem_singleton.mp last]
      decide

/-- The start time is read right where the name of the command is one word. -/
theorem readStartTime_statText {pid : Pid} {comm : Text} {before behind : List Text}
    {startTime : UInt64} (name : ∀ c ∈ comm, isWhitespace c = false) (place : before.length = 19)
    (words : ∀ word ∈ before ++ behind, IsWord word) :
    readStartTime (statText pid comm before startTime behind) = some startTime := by
  have bracketed := isWord_bracketed name
  have all : ∀ word ∈ printNat pid.toNat :: ('(' :: (comm ++ [')'])) :: (before ++
      printNat startTime.toNat :: behind), IsWord word := by
    intro word member
    rcases List.mem_cons.mp member with rfl | member
    · exact isWord_printNat _
    rcases List.mem_cons.mp member with rfl | member
    · exact bracketed
    rcases List.mem_append.mp member with front | back
    · exact words word (List.mem_append_left _ front)
    · rcases List.mem_cons.mp back with rfl | back
      · exact isWord_printNat _
      · exact words word (List.mem_append_right _ back)
  have at_place : (printNat pid.toNat :: ('(' :: (comm ++ [')'])) :: (before ++
      printNat startTime.toNat :: behind))[21]? = some (printNat startTime.toNat) := by
    rw [List.getElem?_cons_succ, List.getElem?_cons_succ,
      List.getElem?_append_right (by omega), place]
    rfl
  have fits : startTime.toNat ≤ usizeMax := Nat.le_of_lt_succ startTime.toNat_lt
  rw [readStartTime, statText, splitWhitespace_join (List.cons_ne_nil _ _) all, at_place,
    Option.bind_some, parseUsize_printNat fits, Option.map_some, UInt64.ofNat_toNat]

/-! ## Starts -/

/-- The record of a process that was just started. -/
def newRecord (pid : Pid) (startTicks : UInt64) (startedAt : Int) (command : Text)
    (args : List Text) (maxLifetimeSecs : UInt64) : ProcessRecord where
  pid := pid
  pgid := pid
  startTicks := startTicks
  startedAt := startedAt
  command := command
  args := args
  status := .running
  exitCode := none
  terminatedBySignal := none
  autoKillAt := some (startedAt + 1000 * maxLifetimeSecs.toInt64.toInt)

/-! ## Kills -/

/-- `str::to_uppercase`, as far as the names of signals go. -/
def toUppercase (s : Text) : Text := s.map fun c => if c = 'ı' then 'I' else c.toUpper

def parseSignal (sig : Text) : Option Int :=
  if toUppercase sig = "TERM".toList then some 15
  else if toUppercase sig = "KILL".toList then some 9
  else if toUppercase sig = "INT".toList then some 2
  else none

def verifyPgidLeader (view : View) (pgid : Pid) (expectedStartTicks : UInt64) : Bool :=
  view.startTime pgid = some expectedStartTicks

/-- The checks of `devit_kill` up to the signal. `failure` is what the kernel says against it. -/
def checkKill (view : View) (registry : Registry) (pid : Pid) (signal : Text)
    (failure : Option Text) : Except McpError (ProcessRecord × Int) :=
  let shown := printNat pid.toNat
  match registry.lookup pid with
  | none => .error (.executionFailed ("PID ".toList ++ shown ++ " not in registry".toList))
  | some record =>
    match view.startTime pid with
    | none => .error (.executionFailed ("Process ".toList ++ shown ++ " not found".toList))
    | some starttime =>
      if starttime ≠ record.startTicks then
        .error (.executionFailed
          ("PID ".toList ++ shown ++ " reused (start_ticks mismatch)".toList))
      else if !verifyPgidLeader view record.pgid record.startTicks then
        .error (.executionFailed ("PGID ".toList ++ printNat record.pgid.toNat ++
          " leader validation failed".toList))
      else
        match parseSignal signal with
        | none => .error (.invalidRequest ("Unknown signal: ".toList ++ signal))
        | some sig =>
          if 2 ^ 31 ≤ record.pgid.toNat then
            .error (.executionFailed ("PGID ".toList ++ printNat record.pgid.toNat ++
              " exceeds i32::MAX, refusing to signal".toList))
          else
            match failure with
            | some err => .error (.executionFailed ("kill failed: ".toList ++ err))
            | none => .ok (record, sig)

/-- The entry of a process that a signal was sent to. -/
def signalled (sig : Int) (entry : ProcessRecord) : ProcessRecord :=
  { entry with status := .exited, terminatedBySignal := some sig, exitCode := none }

/-- `Registry::get_mut`. -/
def modify (registry : Registry) (pid : Pid) (change : ProcessRecord → ProcessRecord) : Registry :=
  match registry.lookup pid with
  | none => registry
  | some entry => registry.insert pid (change entry)

/-! ## The reaper -/

inductive ProcessUpdate where
  | exited (code : Int)
  | signaled (sig : Int)

def ProcessUpdate.apply : ProcessUpdate → ProcessRecord → ProcessRecord
  | .exited code, record => { record with status := .exited, exitCode := some code }
  | .signaled sig, record => { record with status := .exited, terminatedBySignal := some sig }

def validateProcess (view : View) (record : ProcessRecord) : Bool :=
  view.processExists record.pid && decide (view.startTime record.pid = some record.startTicks)

/-- What a pass finds out about a running record. -/
def inspect (view : View) (pid : Pid) (record : ProcessRecord) : Option ProcessUpdate :=
  if !validateProcess view record then some (.exited (-1))
  else
    match view.waitpid pid with
    | .exited code => some (.exited code)
    | .signaled sig => some (.signaled sig)
    | .stillAlive | .other => none
    | .failed => if (view.startTime pid).isNone then some (.exited (-1)) else none

def updates (view : View) (registry : Registry) : List (Pid × ProcessUpdate) :=
  registry.entries.filterMap fun ⟨pid, record⟩ =>
    if record.status = .running then (inspect view pid record).map fun update => (pid, update)
    else none

/-- Processes past their deadline, which a pass sends SIGKILL. -/
def overdue (view : View) (now : Int) (registry : Registry) : List Pid :=
  registry.entries.filterMap fun ⟨pid, record⟩ =>
    if record.status = .running ∧ validateProcess view record = true ∧
        view.waitpid pid = .stillAlive ∧ record.autoKillAt.any (· < now) = true then some pid
    else none

def applyUpdates (registry : Registry) (updates : List (Pid × ProcessUpdate)) : Registry :=
  updates.foldl (fun fresh update => modify fresh update.1 update.2.apply) registry

/-! ## What becomes of records -/

/-- The same process at a later time: once exited, it stays so. -/
def Becomes (before after : ProcessRecord) : Prop :=
  after.pid = before.pid ∧ after.startTicks = before.startTicks ∧
    after.startedAt = before.startedAt ∧ (before.status = .exited → after.status = .exited)

theorem Becomes.refl (record : ProcessRecord) : Becomes record record := ⟨rfl, rfl, rfl, id⟩

theorem Becomes.trans {first second third : ProcessRecord} (left : Becomes first second)
    (right : Becomes second third) : Becomes first third :=
  ⟨right.1.trans left.1, right.2.1.trans left.2.1, right.2.2.1.trans left.2.2.1,
    right.2.2.2 ∘ left.2.2.2⟩

theorem signalled_becomes (sig : Int) (entry : ProcessRecord) :
    Becomes entry (signalled sig entry) := ⟨rfl, rfl, rfl, fun _ => rfl⟩

theorem apply_becomes (update : ProcessUpdate) (record : ProcessRecord) :
    Becomes record (update.apply record) := by
  cases update <;> exact ⟨rfl, rfl, rfl, fun _ => rfl⟩

theorem lookup_insert_if (registry : Registry) (pid other : Pid) (record : ProcessRecord) :
    (registry.insert pid record).lookup other =
      if other = pid then some record else registry.lookup other := by
  by_cases same : other = pid
  · subst same
    rw [AList.lookup_insert, if_pos rfl]
  · rw [AList.lookup_insert_ne same, if_neg same]

theorem lookup_modify (registry : Registry) (pid other : Pid)
    (change : ProcessRecord → ProcessRecord) :
    (modify registry pid change).lookup other =
      if other = pid then (registry.lookup other).map change else registry.lookup other := by
  unfold modify
  by_cases same : other = pid
  · subst same
    rw [if_pos rfl]
    cases there : registry.lookup other with
    | none => rw [there]; rfl
    | some entry => rw [AList.lookup_insert]; rfl
  · rw [if_neg same]
    cases registry.lookup pid with
    | none => rfl
    | some entry => exact AList.lookup_insert_ne same

/-- A pass leaves a record alone that it has no update for. -/
theorem applyUpdates_other {registry : Registry} {pid : Pid} {found : List (Pid × ProcessUpdate)}
    (other : ∀ update ∈ found, update.1 ≠ pid) :
    (applyUpdates registry found).lookup pid = registry.lookup pid := by
  induction found generalizing registry with
  | nil => rfl
  | cons update found ih =>
    obtain ⟨first, rest⟩ := List.forall_mem_cons.mp other
    refine (ih rest).trans ?_
    rw [lookup_modify, if_neg (Ne.symm first)]

theorem updates_of_mem {view : View} {registry : Registry} {pid : Pid} {update : ProcessUpdate}
    (member : (pid, update) ∈ updates view registry) :
    ∃ record, registry.lookup pid = some record ∧ record.status = .running ∧
      inspect view pid record = some update := by
  obtain ⟨⟨key, record⟩, listed, made⟩ := List.mem_filterMap.mp member
  dsimp only at made
  split at made
  · rename_i running
    obtain ⟨found, inspected, same⟩ := Option.map_eq_some_iff.mp made
    cases same
    exact ⟨record, AList.mem_lookup_iff.mpr listed, running, inspected⟩
  · cases made

end ProcessRegistry
end Devit
