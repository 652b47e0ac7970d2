import Mathlib.Data.List.Induction
import Mathlib.Tactic.Common

/-! Runs of a machine that takes one event after the other. What holds at the
start and is kept by every step holds after every run; where steps keep it only
under a condition on the state before them, it holds after every run whose steps
all meet the condition. -/
namespace Devit.Runs

variable {σ ε ω : Type}

/-- The state after a run. -/
def final (step : σ → ε → ω × σ) (s : σ) : List ε → σ
  | [] => s
  | event :: events => final step (step s event).2 events

/-- What a run answers, event by event. -/
def outputs (step : σ → ε → ω × σ) (s : σ) : List ε → List ω
  | [] => []
  | event :: events => (step s event).1 :: outputs step (step s event).2 events

/-- Every step of the run meets a condition in the state before it. -/
def Along (C : σ → ε → Prop) (step : σ → ε → ω × σ) (s : σ) (events : List ε) : Prop :=
  ∀ done event rest, events = done ++ event :: rest → C (final step s done) event

variable {step : σ → ε → ω × σ}

theorem final_append (s : σ) (before after : List ε) :
    final step s (before ++ after) = final step (final step s before) after := by
  induction before generalizing s with
  | nil => rfl
  | cons event before ih => exact ih (step s event).2

theorem final_concat (s : σ) (before : List ε) (event : ε) :
    final step s (before ++ [event]) = (step (final step s before) event).2 :=
  final_append s before [event]

theorem outputs_length (s : σ) (events : List ε) :
    (outputs step s events).length = events.length := by
  induction events generalizing s with
  | nil => rfl
  | cons event events ih => simp only [outputs, List.length_cons, ih]

theorem outputs_concat (s : σ) (events : List ε) (event : ε) :
    outputs step s (events ++ [event]) =
      outputs step s events ++ [(step (final step s events) event).1] := by
  induction events generalizing s with
  | nil => rfl
  | cons head events ih => simp only [List.cons_append, outputs, final, ih]

theorem along_nil (C : σ → ε → Prop) (s : σ) : Along C step s [] := by
  intro done event rest shape
  simp at shape

theorem along_cons {C : σ → ε → Prop} {s : σ} {event : ε} {events : List ε} :
    Along C step s (event :: events) ↔ C s event ∧ Along C step (step s event).2 events := by
  constructor
  · intro all
    refine ⟨all [] event events rfl, fun done other rest shape => ?_⟩
    exact all (event :: done) other rest (by rw [shape, List.cons_append])
  · rintro ⟨first, all⟩ done other rest shape
    cases done with
    | nil =>
      cases shape
      exact first
    | cons head done =>
      obtain ⟨rfl, tail⟩ := List.cons.inj shape
      exact all done other rest tail

theorem along_concat {C : σ → ε → Prop} {s : σ} {events : List ε} {event : ε} :
    Along C step s (events ++ [event]) ↔
      Along C step s events ∧ C (final step s events) event := by
  constructor
  · intro all
    refine ⟨fun done other rest shape => ?_, all events event [] rfl⟩
    exact all done other (rest ++ [event]) (by rw [shape, List.append_assoc, List.cons_append])
  · rintro ⟨all, last⟩ done other rest shape
    rcases List.eq_nil_or_concat rest with rfl | ⟨rest, final, rfl⟩
    · obtain ⟨rfl, same⟩ := List.append_inj' shape rfl
      cases same
      exact last
    · rw [List.concat_eq_append, ← List.cons_append, ← List.append_assoc] at shape
      obtain ⟨rfl, -⟩ := List.append_inj' shape rfl
      exact all done other rest rfl

/-- A run meets a condition if its first part does, and the rest does from there. -/
theorem along_append {C : σ → ε → Prop} {s : σ} {before after : List ε} :
    Along C step s (before ++ after) ↔
      Along C step s before ∧ Along C step (final step s before) after := by
  induction before generalizing s with
  | nil => exact ⟨fun all => ⟨along_nil _ _, all⟩, fun both => both.2⟩
  | cons event before ih =>
    rw [List.cons_append, along_cons, along_cons, ih, and_assoc]
    rfl

/-- **Invariants.** What every step that meets the condition keeps holds after
every run whose steps meet it. -/
theorem invariant_along {I : σ → Prop} {C : σ → ε → Prop} {s : σ} {events : List ε}
    (keeps : ∀ s event, I s → C s event → I (step s event).2) (start : I s)
    (all : Along C step s events) : I (final step s events) := by
  induction events using List.reverseRecOn with
  | nil => exact start
  | append_singleton events event ih =>
    obtain ⟨before, last⟩ := along_concat.mp all
    rw [final_concat]
    exact keeps _ event (ih before) last

theorem invariant {I : σ → Prop} {s : σ} (keeps : ∀ s event, I s → I (step s event).2)
    (start : I s) (events : List ε) : I (final step s events) :=
  invariant_along (C := fun _ _ => True) (fun s event held _ => keeps s event held) start
    fun _ _ _ _ => trivial

end Devit.Runs
