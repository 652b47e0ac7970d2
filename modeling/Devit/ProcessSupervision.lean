import Devit.Library.Runs
import Devit.ProcessRegistry
import Mathlib.Logic.Function.Basic

/-! Which processes stay under supervision. Processes live and die in the kernel, and the reaper
sees to those that the registry has as running. A kill takes its process for exited whatever
became of it, a start saves the copy of the registry that its tool has kept since it was made, and
the text that start times are read from can mislead. -/
namespace Devit.ProcessSupervision
open Text ProcessRegistry

/-! ## The kernel -/

inductive Ending where
  | exited (code : Int)
  | signaled (sig : Int)

structure Process where
  startTime : UInt64
  /-- What `/proc/[pid]/stat` says now. -/
  stat : Text
  /-- How it ended, if it is a zombie. -/
  ended : Option Ending
  /-- It is a child of the daemon. -/
  child : Bool

structure Kernel where
  processes : Pid → Option Process
  /-- Who has ever lived: no two processes share identifier and start time. -/
  history : List (Pid × UInt64)

inductive KernelStep where
  | spawn (pid : Pid) (process : Process)
  | restat (pid : Pid) (stat : Text)
  | exit (pid : Pid) (how : Ending)
  /-- The parent waits for a zombie. -/
  | reap (pid : Pid)

namespace Kernel

def put (kernel : Kernel) (pid : Pid) (process : Option Process) : Kernel :=
  { kernel with processes := Function.update kernel.processes pid process }

def step (kernel : Kernel) : KernelStep → Kernel
  | .spawn pid process =>
    if (kernel.processes pid).isNone ∧ (pid, process.startTime) ∉ kernel.history then
      { kernel.put pid (some { process with ended := none }) with
        history := (pid, process.startTime) :: kernel.history }
    else kernel
  | .restat pid stat =>
    match kernel.processes pid with
    | none => kernel
    | some process => kernel.put pid (some { process with stat })
  | .exit pid how =>
    match kernel.processes pid with
    | none => kernel
    | some process => kernel.put pid (some { process with ended := process.ended <|> some how })
  | .reap pid =>
    match kernel.processes pid with
    | none => kernel
    | some process => if process.ended.isSome then kernel.put pid none else kernel

def run (kernel : Kernel) (steps : List KernelStep) : Kernel := steps.foldl step kernel

/-- What the daemon and the tools see. -/
def view (kernel : Kernel) : View where
  processExists pid := (kernel.processes pid).isSome
  startTime pid := (kernel.processes pid).bind fun process => readStartTime process.stat
  waitpid pid :=
    match kernel.processes pid with
    | none => .failed
    | some process =>
      if !process.child then .failed
      else
        match process.ended with
        | none => .stillAlive
        | some (.exited code) => .exited code
        | some (.signaled sig) => .signaled sig

/-- A process with this start time is alive. -/
def Alive (kernel : Kernel) (pid : Pid) (startTime : UInt64) : Prop :=
  ∃ process, kernel.processes pid = some process ∧ process.startTime = startTime ∧
    process.ended = none

end Kernel

/-- The wait of `devit_kill`: whether the process is still there after the attempts. Between them
the kernel goes on. -/
def waitForExit (pid : Pid) : Kernel → List (List KernelStep) → Bool × Kernel
  | kernel, [] => (true, kernel)
  | kernel, round :: rounds =>
    if kernel.view.processExists pid then waitForExit pid (kernel.run round) rounds
    else (false, kernel)

/-! ## The system -/

/-- A process that a start has put into the registry, with the start time it has read. -/
structure Registered where
  pid : Pid
  startTime : UInt64
  startTicks : UInt64
  deriving DecidableEq

/-- What a start is told about its command. -/
structure Launch where
  startedAt : Int
  command : Text
  args : List Text
  maxLifetimeSecs : UInt64

structure System (T : Type) where
  kernel : Kernel
  /-- The registry file. -/
  file : Registry
  /-- The copies that the tools keep. -/
  tools : T → Option Registry
  registered : List Registered

inductive Event (T : Type) where
  | kernel (step : KernelStep)
  /-- `DevitExec::with_config`. -/
  | create (tool : T)
  /-- A background start, and what the kernel does before the start time is read. -/
  | start (tool : T) (pid : Pid) (process : Process) (during : List KernelStep) (launch : Launch)
  /-- `devit_kill`, and what the kernel does in its attempts. -/
  | kill (pid : Pid) (signal : Text) (failure : Option Text) (rounds : List (List KernelStep))
  /-- A pass of the reaper. -/
  | reap (now : Int)

variable {T : Type} [DecidableEq T]

def kill (s : System T) (pid : Pid) (signal : Text) (failure : Option Text)
    (rounds : List (List KernelStep)) : System T :=
  match checkKill s.kernel.view s.file pid signal failure with
  | .error _ => s
  | .ok (_, sig) =>
    let (_stillRunning, kernel) := waitForExit pid s.kernel (rounds.take 10)
    { s with kernel, file := modify s.file pid (signalled sig) }

/-- The kernel when a start reads the start time of its process. -/
def launched (s : System T) (pid : Pid) (process : Process) (during : List KernelStep) : Kernel :=
  (s.kernel.step (.spawn pid process)).run during

def start (s : System T) (tool : T) (pid : Pid) (process : Process) (during : List KernelStep)
    (launch : Launch) : System T :=
  match s.tools tool with
  | none => s
  | some copy =>
    if (s.kernel.processes pid).isNone ∧ (pid, process.startTime) ∉ s.kernel.history then
      let kernel := launched s pid process during
      match kernel.view.startTime pid with
      | none => { s with kernel }
      | some startTicks =>
        let record := newRecord pid startTicks launch.startedAt launch.command launch.args
          launch.maxLifetimeSecs
        let saved := copy.insert pid record
        { kernel
          file := saved
          tools := Function.update s.tools tool (some saved)
          registered := ⟨pid, process.startTime, startTicks⟩ :: s.registered }
    else s

/-- The zombies that a pass of the reaper waits for. -/
def waited (view : View) (registry : Registry) : List Pid :=
  registry.entries.filterMap fun ⟨pid, record⟩ =>
    if record.status = .running ∧ validateProcess view record = true then
      match view.waitpid pid with
      | .exited _ | .signaled _ => some pid
      | _ => none
    else none

/-- A pass answers with the processes that it sends SIGKILL. -/
def reap (s : System T) (now : Int) : List Pid × System T :=
  (overdue s.kernel.view now s.file,
    { s with
      kernel := s.kernel.run ((waited s.kernel.view s.file).map .reap)
      file := applyUpdates s.file (updates s.kernel.view s.file) })

def step (s : System T) : Event T → List Pid × System T
  | .kernel step => ([], { s with kernel := s.kernel.step step })
  | .create tool => ([], { s with tools := Function.update s.tools tool (some s.file) })
  | .start tool pid process during launch => ([], start s tool pid process during launch)
  | .kill pid signal failure rounds => ([], kill s pid signal failure rounds)
  | .reap now => reap s now

/-- The registered process is alive with its recorded start time. -/
def Registered.Alive (kernel : Kernel) (entry : Registered) : Prop :=
  kernel.Alive entry.pid entry.startTime ∧ entry.startTicks = entry.startTime

/-- The registry has the process as running. -/
def Holds (registry : Registry) (entry : Registered) : Prop :=
  ∃ record, registry.lookup entry.pid = some record ∧ record.startTicks = entry.startTicks ∧
    record.status = .running

/-- Every registered process that is alive is supervised. -/
def Supervised (s : System T) : Prop :=
  ∀ entry ∈ s.registered, entry.Alive s.kernel → Holds s.file entry

/-- A kill goes on until its process is gone; a start saves a copy that has the living processes as
running; and a pass reads the start times of the living processes as they were recorded. -/
def Careful (s : System T) : Event T → Prop
  | .kill pid signal failure rounds =>
    (∃ passed, checkKill s.kernel.view s.file pid signal failure = .ok passed) →
      ∀ entry ∈ s.registered, entry.pid = pid →
        ¬ entry.Alive (waitForExit pid s.kernel (rounds.take 10)).2
  | .start tool pid process during _ =>
    ((launched s pid process during).view.startTime pid).isSome = true →
      ∀ copy, s.tools tool = some copy → ∀ entry ∈ s.registered, entry.pid ≠ pid →
        entry.Alive (launched s pid process during) → Holds copy entry
  | .reap _ => ∀ entry ∈ s.registered, entry.Alive s.kernel →
      s.kernel.view.startTime entry.pid = some entry.startTicks
  | _ => True

/-! ## The kernel's steps -/

namespace Kernel

variable {kernel : Kernel} {pid : Pid} {startTime : UInt64}

theorem put_processes (kernel : Kernel) (pid other : Pid) (process : Option Process) :
    (kernel.put pid process).processes other =
      if other = pid then process else kernel.processes other := by
  by_cases same : other = pid
  · subst same
    rw [put, if_pos rfl]
    exact Function.update_self _ _ _
  · rw [put, if_neg same]
    exact Function.update_of_ne same _ _

theorem history_step (known : (pid, startTime) ∈ kernel.history) (event : KernelStep) :
    (pid, startTime) ∈ (kernel.step event).history := by
  cases event with
  | spawn other process =>
    rw [step]
    split
    · exact List.mem_cons_of_mem _ known
    · exact known
  | restat other stat =>
    rw [step]
    split <;> exact known
  | exit other how =>
    rw [step]
    split <;> exact known
  | reap other =>
    rw [step]
    split
    · exact known
    · split <;> exact known

/-- No process comes back to life. -/
theorem alive_before_step {event : KernelStep} (alive : (kernel.step event).Alive pid startTime)
    (known : (pid, startTime) ∈ kernel.history) : kernel.Alive pid startTime := by
  obtain ⟨process, there, same, living⟩ := alive
  cases event with
  | spawn other spawned =>
    rw [step] at there
    split at there
    · rename_i fresh
      have there : (kernel.put other (some { spawned with ended := none })).processes pid =
        some process := there
      rw [put_processes] at there
      split at there
      · rename_i here
        cases there
        subst here same
        exact absurd known fresh.2
      · exact ⟨process, there, same, living⟩
    · exact ⟨process, there, same, living⟩
  | restat other stat =>
    rw [step] at there
    split at there
    · exact ⟨process, there, same, living⟩
    · rename_i before found
      rw [put_processes] at there
      split at there
      · rename_i here
        cases there
        subst here
        exact ⟨before, found, same, living⟩
      · exact ⟨process, there, same, living⟩
  | exit other how =>
    rw [step] at there
    split at there
    · exact ⟨process, there, same, living⟩
    · rename_i before found
      rw [put_processes] at there
      split at there
      · cases there
        cases ended : before.ended <;> simp [ended] at living
      · exact ⟨process, there, same, living⟩
  | reap other =>
    rw [step] at there
    split at there
    · exact ⟨process, there, same, living⟩
    · split at there
      · rw [put_processes] at there
        split at there
        · cases there
        · exact ⟨process, there, same, living⟩
      · exact ⟨process, there, same, living⟩

theorem history_run (known : (pid, startTime) ∈ kernel.history) (steps : List KernelStep) :
    (pid, startTime) ∈ (kernel.run steps).history := by
  induction steps generalizing kernel with
  | nil => exact known
  | cons event steps ih => exact ih (history_step known event)

theorem alive_before_run {steps : List KernelStep} (alive : (kernel.run steps).Alive pid startTime)
    (known : (pid, startTime) ∈ kernel.history) : kernel.Alive pid startTime := by
  induction steps generalizing kernel with
  | nil => exact alive
  | cons event steps ih => exact alive_before_step (ih alive (history_step known event)) known

end Kernel

/-- The kernel goes on while a kill waits. -/
theorem waitForExit_run (pid : Pid) (kernel : Kernel) (rounds : List (List KernelStep)) :
    ∃ steps, (waitForExit pid kernel rounds).2 = kernel.run steps := by
  induction rounds generalizing kernel with
  | nil => exact ⟨[], rfl⟩
  | cons round rounds ih =>
    rw [waitForExit]
    split
    · obtain ⟨steps, ends⟩ := ih (kernel.run round)
      exact ⟨round ++ steps, by rw [ends, Kernel.run, Kernel.run, Kernel.run, List.foldl_append]⟩
    · exact ⟨[], rfl⟩

/-! ## Registries -/

/-- Every record is kept under its own process. -/
def Keyed (registry : Registry) : Prop :=
  ∀ pid record, registry.lookup pid = some record → record.pid = pid

theorem keyed_insert {registry : Registry} (keyed : Keyed registry) (record : ProcessRecord) :
    Keyed (registry.insert record.pid record) := by
  intro pid found there
  rw [lookup_insert_if] at there
  split at there
  · rename_i same
    cases there
    exact same.symm
  · exact keyed pid found there

theorem keyed_modify {registry : Registry} (keyed : Keyed registry) (pid : Pid)
    {change : ProcessRecord → ProcessRecord} (changes : ∀ entry, Becomes entry (change entry)) :
    Keyed (modify registry pid change) := by
  intro other found there
  rw [lookup_modify] at there
  split at there
  · obtain ⟨entry, before, rfl⟩ := Option.map_eq_some_iff.mp there
    rw [(changes entry).1]
    exact keyed other entry before
  · exact keyed other found there

theorem keyed_applyUpdates {registry : Registry} (keyed : Keyed registry)
    (found : List (Pid × ProcessUpdate)) : Keyed (applyUpdates registry found) := by
  induction found generalizing registry with
  | nil => exact keyed
  | cons update found ih => exact ih (keyed_modify keyed update.1 (apply_becomes update.2))

/-! ## Runs -/

/-- Registered processes are known to the kernel, records stand under their processes, and the
living are supervised. -/
structure Sound (s : System T) : Prop where
  known : ∀ entry ∈ s.registered, (entry.pid, entry.startTime) ∈ s.kernel.history
  keyed : Keyed s.file
  copies : ∀ tool copy, s.tools tool = some copy → Keyed copy
  supervised : Supervised s

theorem validate_alive {kernel : Kernel} {entry : Registered} {record : ProcessRecord}
    (alive : entry.Alive kernel) (reads : kernel.view.startTime entry.pid = some entry.startTicks)
    (own : record.pid = entry.pid) (ticks : record.startTicks = entry.startTicks) :
    validateProcess kernel.view record = true := by
  obtain ⟨⟨process, there, _⟩, _⟩ := alive
  rw [validateProcess, own, ticks, reads]
  simp [Kernel.view, there]

omit [DecidableEq T] in
/-- A child of the daemon that is supervised is sent SIGKILL once its deadline has passed. -/
theorem overdue_of_running {s : System T} (sound : Sound s) {entry : Registered}
    {process : Process} {record : ProcessRecord} {now : Int} (alive : entry.Alive s.kernel)
    (reads : s.kernel.view.startTime entry.pid = some entry.startTicks)
    (process_there : s.kernel.processes entry.pid = some process) (child : process.child = true)
    (there : s.file.lookup entry.pid = some record) (ticks : record.startTicks = entry.startTicks)
    (running : record.status = .running) (late : record.autoKillAt.any (· < now) = true) :
    entry.pid ∈ overdue s.kernel.view now s.file := by
  have valid := validate_alive alive reads (sound.keyed _ _ there) ticks
  obtain ⟨⟨living, found, _, unended⟩, _⟩ := alive
  rw [process_there] at found
  cases found
  have still : s.kernel.view.waitpid entry.pid = .stillAlive := by
    simp [Kernel.view, process_there, child, unended]
  refine List.mem_filterMap.mpr ⟨⟨entry.pid, record⟩, AList.mem_lookup_iff.mp there, ?_⟩
  exact if_pos ⟨running, valid, still, late⟩

/-- A pass has no update for a living process whose start time it reads right. -/
theorem inspect_alive {kernel : Kernel} {entry : Registered} {record : ProcessRecord}
    (alive : entry.Alive kernel) (reads : kernel.view.startTime entry.pid = some entry.startTicks)
    (own : record.pid = entry.pid) (ticks : record.startTicks = entry.startTicks) :
    inspect kernel.view entry.pid record = none := by
  have valid := validate_alive alive reads own ticks
  obtain ⟨⟨process, there, _, living⟩, _⟩ := alive
  rw [inspect, valid]
  cases child : process.child <;> simp [Kernel.view, there, child, living]
  have read : (readStartTime process.stat) = some entry.startTicks := by
    simpa [Kernel.view, there] using reads
  rw [read]
  exact nofun

omit [DecidableEq T] in
/-- A pass that reads the start times right keeps the living as running. -/
theorem holds_reap {s : System T} (sound : Sound s) {entry : Registered}
    (holds : Holds s.file entry) (alive : entry.Alive s.kernel)
    (reads : s.kernel.view.startTime entry.pid = some entry.startTicks) :
    Holds (applyUpdates s.file (updates s.kernel.view s.file)) entry := by
  obtain ⟨record, there, ticks, running⟩ := holds
  refine ⟨record, ?_, ticks, running⟩
  rw [applyUpdates_other, there]
  rintro ⟨pid, update⟩ member rfl
  obtain ⟨other, found, _, inspected⟩ := updates_of_mem member
  rw [there] at found
  cases found
  rw [inspect_alive alive reads (sound.keyed _ _ there) ticks] at inspected
  cases inspected

omit [DecidableEq T] in
theorem sound_kill {s : System T} (sound : Sound s) {pid : Pid} {signal : Text}
    {failure : Option Text} {rounds : List (List KernelStep)}
    (careful : Careful s (.kill pid signal failure rounds)) :
    Sound (kill s pid signal failure rounds) := by
  unfold kill
  cases checked : checkKill s.kernel.view s.file pid signal failure with
  | error err => exact sound
  | ok passed =>
    obtain ⟨record, sig⟩ := passed
    have gone := careful ⟨_, checked⟩
    obtain ⟨steps, ends⟩ := waitForExit_run pid s.kernel (rounds.take 10)
    dsimp only
    rw [ends] at gone ⊢
    refine ⟨fun entry member => Kernel.history_run (sound.known entry member) steps,
      keyed_modify sound.keyed pid (signalled_becomes sig), sound.copies, ?_⟩
    intro entry member alive
    by_cases same : entry.pid = pid
    · exact absurd alive (gone entry member same)
    · have before : entry.Alive s.kernel :=
        ⟨Kernel.alive_before_run alive.1 (sound.known entry member), alive.2⟩
      obtain ⟨record, there, ticks, running⟩ := sound.supervised entry member before
      refine ⟨record, ?_, ticks, running⟩
      rw [lookup_modify, if_neg same, there]

theorem copies_update {tools : T → Option Registry} {saved : Registry} (tool : T)
    (copies : ∀ other copy, tools other = some copy → Keyed copy) (keyed : Keyed saved)
    (other : T) (copy : Registry)
    (there : Function.update tools tool (some saved) other = some copy) : Keyed copy := by
  by_cases same : other = tool
  · subst same
    rw [Function.update_self] at there
    cases there
    exact keyed
  · rw [Function.update_of_ne same] at there
    exact copies other copy there

theorem sound_start {s : System T} (sound : Sound s) {tool : T} {pid : Pid} {process : Process}
    {during : List KernelStep} {launch : Launch}
    (careful : Careful s (.start tool pid process during launch)) :
    Sound (start s tool pid process during launch) := by
  unfold start
  cases kept : s.tools tool with
  | none => exact sound
  | some copy =>
    dsimp only
    split
    · rename_i fresh
      have known (entry : Registered) (member : entry ∈ s.registered) :
          (entry.pid, entry.startTime) ∈ (launched s pid process during).history :=
        Kernel.history_run (Kernel.history_step (sound.known entry member) _) during
      have before (entry : Registered) (member : entry ∈ s.registered)
          (alive : entry.Alive (launched s pid process during)) : entry.Alive s.kernel :=
        ⟨Kernel.alive_before_step (Kernel.alive_before_run alive.1
          (Kernel.history_step (sound.known entry member) _)) (sound.known entry member), alive.2⟩
      cases read : (launched s pid process during).view.startTime pid with
      | none =>
        exact ⟨known, sound.keyed, sound.copies,
          fun entry member alive => sound.supervised entry member (before entry member alive)⟩
      | some startTicks =>
        have saved := keyed_insert (sound.copies tool copy kept) (newRecord pid startTicks
          launch.startedAt launch.command launch.args launch.maxLifetimeSecs)
        have born : (pid, process.startTime) ∈ (launched s pid process during).history := by
          refine Kernel.history_run ?_ during
          rw [Kernel.step, if_pos fresh]
          exact List.mem_cons_self
        dsimp only
        refine ⟨?_, saved, copies_update tool sound.copies saved, ?_⟩
        · intro entry member
          rcases List.mem_cons.mp member with rfl | member
          · exact born
          · exact known entry member
        · intro entry member alive
          rcases List.mem_cons.mp member with rfl | older
          · exact ⟨_, AList.lookup_insert _, rfl, rfl⟩
          · -- The identifier was free, so another process has it.
            have other : entry.pid ≠ pid := by
              rintro rfl
              obtain ⟨⟨old, there, _⟩, _⟩ := before entry older alive
              rw [there] at fresh
              cases fresh.1
            obtain ⟨record, there, ticks, running⟩ :=
              careful (by rw [read]; rfl) copy kept entry older other alive
            exact ⟨record, by rw [lookup_insert_if, if_neg other, there], ticks, running⟩
    · exact sound

/-- What every careful step keeps. -/
theorem sound_step (s : System T) (event : Event T) (sound : Sound s) (careful : Careful s event) :
    Sound (step s event).2 := by
  cases event with
  | kernel event =>
    refine ⟨fun entry member => Kernel.history_step (sound.known entry member) event, sound.keyed,
      sound.copies, fun entry member alive => sound.supervised entry member ?_⟩
    exact ⟨Kernel.alive_before_step alive.1 (sound.known entry member), alive.2⟩
  | create tool =>
    exact ⟨sound.known, sound.keyed, copies_update tool sound.copies sound.keyed,
      sound.supervised⟩
  | start tool pid process during launch => exact sound_start sound careful
  | kill pid signal failure rounds => exact sound_kill sound careful
  | reap now =>
    refine ⟨fun entry member => Kernel.history_run (sound.known entry member) _,
      keyed_applyUpdates sound.keyed _, sound.copies, fun entry member alive => ?_⟩
    have before : entry.Alive s.kernel :=
      ⟨Kernel.alive_before_run alive.1 (sound.known entry member), alive.2⟩
    exact holds_reap sound (sound.supervised entry member before) before
      (careful entry member before)

end Devit.ProcessSupervision
