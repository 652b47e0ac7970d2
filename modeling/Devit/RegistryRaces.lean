import Devit.Library.Runs
import Devit.ProcessRegistry
import Mathlib.Logic.Function.Basic

/-! Many hands on one registry file. The tools that start processes keep the copy that they loaded
when they were made, a kill loads one and saves it after its wait, the reaper loads one to look and
another one to change; each save writes the whole copy. Every load and every save is a step, and the
steps of all actors interleave. -/
namespace Devit.RegistryRaces
open ProcessRegistry

/-- A copy of the registry. `taken` counts the saves of the file before it was loaded or saved. -/
structure Copy where
  registry : Registry
  taken : Nat

structure PendingKill where
  copy : Copy
  pid : Pid
  sig : Int

inductive Reaper where
  | idle
  | inspected (found : List (Pid × ProcessUpdate))
  | reloaded (found : List (Pid × ProcessUpdate)) (copy : Copy)

structure System (T K : Type) where
  file : Registry
  /-- How often the file was saved. -/
  saves : Nat
  tools : T → Option Copy
  kills : K → Option PendingKill
  reaper : Reaper

/-- What a start is told about its process. -/
structure Launch where
  pid : Pid
  startTicks : UInt64
  startedAt : Int
  command : Text
  args : List Text
  maxLifetimeSecs : UInt64

def Launch.record (launch : Launch) : ProcessRecord :=
  newRecord launch.pid launch.startTicks launch.startedAt launch.command launch.args
    launch.maxLifetimeSecs

inductive Event (T K : Type) where
  /-- `DevitExec::with_config`, in `devit_exec` or in `devit_shell`. -/
  | create (tool : T)
  | start (tool : T) (launch : Launch)
  /-- `devit_kill` loads the registry, checks its process and sends the signal. -/
  | killLoad (call : K) (view : View) (pid : Pid) (signal : Text) (failure : Option Text)
  | killSave (call : K)
  /-- A pass of the reaper loads the registry and looks at the processes. -/
  | reapLoad (view : View)
  | reapReload
  | reapSave

variable {T K : Type}

/-- The file as it is now. -/
def load (s : System T K) : Copy := ⟨s.file, s.saves⟩

def save (s : System T K) (registry : Registry) : System T K :=
  { s with file := registry, saves := s.saves + 1 }

def step [DecidableEq T] [DecidableEq K] (s : System T K) : Event T K → Unit × System T K
  | .create tool => ((), { s with tools := Function.update s.tools tool (some (load s)) })
  | .start tool launch =>
    match s.tools tool with
    | none => ((), s)
    | some copy =>
      let s' := save s (copy.registry.insert launch.pid launch.record)
      ((), { s' with tools := Function.update s.tools tool (some (load s')) })
  | .killLoad call view pid signal failure =>
    match checkKill view s.file pid signal failure with
    | .error _ => ((), s)
    | .ok (_, sig) =>
      ((), { s with kills := Function.update s.kills call (some ⟨load s, pid, sig⟩) })
  | .killSave call =>
    match s.kills call with
    | none => ((), s)
    | some pending =>
      ((), { save s (modify pending.copy.registry pending.pid (signalled pending.sig)) with
        kills := Function.update s.kills call none })
  | .reapLoad view =>
    let found := updates view s.file
    ((), { s with reaper := if found.isEmpty then .idle else .inspected found })
  | .reapReload =>
    match s.reaper with
    | .inspected found => ((), { s with reaper := .reloaded found (load s) })
    | _ => ((), s)
  | .reapSave =>
    match s.reaper with
    | .reloaded found copy =>
      ((), { save s (applyUpdates copy.registry found) with reaper := .idle })
    | _ => ((), s)

/-- Every record is still there, and exited if it was. -/
def Keeps (before after : Registry) : Prop :=
  ∀ pid record, before.lookup pid = some record →
    ∃ later, after.lookup pid = some later ∧ Becomes record later

/-- No other actor has saved the file since the copy was loaded or saved. -/
def Copy.Current (copy : Copy) (s : System T K) : Prop := copy.taken = s.saves

/-- Whoever saves has a current copy, and a start brings a new identifier. -/
def Careful (s : System T K) : Event T K → Prop
  | .start tool launch => ∀ copy, s.tools tool = some copy →
      copy.Current s ∧ s.file.lookup launch.pid = none
  | .killSave call => ∀ pending, s.kills call = some pending → pending.copy.Current s
  | .reapSave => ∀ found copy, s.reaper = .reloaded found copy → copy.Current s
  | _ => True

/-! ## One step -/

theorem Keeps.refl (registry : Registry) : Keeps registry registry :=
  fun _ record there => ⟨record, there, .refl record⟩

theorem Keeps.trans {first second third : Registry} (left : Keeps first second)
    (right : Keeps second third) : Keeps first third := by
  intro pid record there
  obtain ⟨middle, here, becomes⟩ := left pid record there
  obtain ⟨later, ends, becomes'⟩ := right pid middle here
  exact ⟨later, ends, becomes.trans becomes'⟩

/-- A copy is at most as old as the file, and a current one is what the file holds. -/
def Copy.Fits (copy : Copy) (s : System T K) : Prop :=
  copy.taken ≤ s.saves ∧ (copy.Current s → copy.registry = s.file)

theorem load_fits (s : System T K) : (load s).Fits s := ⟨Nat.le_refl _, fun _ => rfl⟩

/-- After a save no older copy is current. -/
theorem Copy.Fits.saved {copy : Copy} {s s' : System T K} (fits : copy.Fits s)
    (saved : s'.saves = s.saves + 1) : copy.Fits s' := by
  refine ⟨by rw [saved]; exact Nat.le_succ_of_le fits.1, fun current => ?_⟩
  have older := fits.1
  unfold Copy.Current at current
  omega

theorem Copy.Fits.same {copy : Copy} {s s' : System T K} (fits : copy.Fits s)
    (saves : s'.saves = s.saves) (file : s'.file = s.file) : copy.Fits s' := by
  refine ⟨by rw [saves]; exact fits.1, fun current => ?_⟩
  rw [file]
  exact fits.2 (current.trans saves)

/-- All copies are at most as old as the file. -/
structure Sound (s : System T K) : Prop where
  tools : ∀ tool copy, s.tools tool = some copy → copy.Fits s
  kills : ∀ call pending, s.kills call = some pending → pending.copy.Fits s
  reaper : ∀ found copy, s.reaper = .reloaded found copy → copy.Fits s

/-! ## Runs -/

variable [DecidableEq T] [DecidableEq K]

/-- A table of copies in which one was put or dropped. -/
theorem fits_update {α β : Type} [DecidableEq α] {table : α → Option β} {fits : β → Prop}
    (all : ∀ key b, table key = some b → fits b) (key : α) {entry : Option β}
    (new : ∀ b, entry = some b → fits b) (other : α) (b : β)
    (there : Function.update table key entry other = some b) : fits b := by
  by_cases same : other = key
  · subst same
    rw [Function.update_self] at there
    exact new b there
  · rw [Function.update_of_ne same] at there
    exact all other b there

theorem sound_step (s : System T K) (event : Event T K) (sound : Sound s) :
    Sound (step s event).2 := by
  obtain ⟨tools, kills, reaper⟩ := sound
  cases event with
  | create tool =>
    refine ⟨fits_update (fun other copy there => (tools other copy there).same rfl rfl) tool ?_,
      fun call pending there => (kills call pending there).same rfl rfl,
      fun found copy there => (reaper found copy there).same rfl rfl⟩
    rintro _ ⟨⟩
    exact (load_fits s).same rfl rfl
  | start tool launch =>
    rw [step]
    split
    · exact ⟨tools, kills, reaper⟩
    · refine ⟨fits_update (fun other copy there => (tools other copy there).saved rfl) tool ?_,
        fun call pending there => (kills call pending there).saved rfl,
        fun found copy there => (reaper found copy there).saved rfl⟩
      rintro _ ⟨⟩
      exact (load_fits _).same rfl rfl
  | killLoad call view pid signal failure =>
    rw [step]
    split
    · exact ⟨tools, kills, reaper⟩
    · refine ⟨fun tool copy there => (tools tool copy there).same rfl rfl,
        fits_update (fun other pending there => (kills other pending there).same rfl rfl) call ?_,
        fun found copy there => (reaper found copy there).same rfl rfl⟩
      rintro _ ⟨⟩
      exact (load_fits s).same rfl rfl
  | killSave call =>
    rw [step]
    split
    · exact ⟨tools, kills, reaper⟩
    · exact ⟨fun tool copy there => (tools tool copy there).saved rfl,
        fits_update (fun other pending there => (kills other pending there).saved rfl) call nofun,
        fun found copy there => (reaper found copy there).saved rfl⟩
  | reapLoad view =>
    refine ⟨fun tool copy there => (tools tool copy there).same rfl rfl,
      fun call pending there => (kills call pending there).same rfl rfl, fun found copy there => ?_⟩
    rw [step] at there
    dsimp only at there
    split at there <;> cases there
  | reapReload =>
    rw [step]
    split
    · refine ⟨fun tool copy there => (tools tool copy there).same rfl rfl,
        fun call pending there => (kills call pending there).same rfl rfl, ?_⟩
      rintro _ _ ⟨⟩
      exact (load_fits s).same rfl rfl
    · exact ⟨tools, kills, reaper⟩
  | reapSave =>
    rw [step]
    split
    · exact ⟨fun tool copy there => (tools tool copy there).saved rfl,
        fun call pending there => (kills call pending there).saved rfl, nofun⟩
    · exact ⟨tools, kills, reaper⟩

end Devit.RegistryRaces
