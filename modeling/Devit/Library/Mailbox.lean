import Devit.Library.Runs

/-! A queue that a run puts things into, and a reader that takes all that waits in it
at once but may be handed only a part of what it takes. Nothing is lost in a run
exactly where every taking hands over all that waits. -/
namespace Devit.Runs

variable {σ ε ω β : Type} {step : σ → ε → ω × σ}

/-- What a queue was given, what waits in it, and what a step hands over of it. -/
structure Mailbox (step : σ → ε → ω × σ) (β : Type) where
  given : σ → List β
  waiting : σ → List β
  handed : σ → ε → List β

namespace Mailbox

variable (box : Mailbox step β)

/-- A step takes all that waits, or only puts something behind it. -/
inductive Moves (s : σ) (event : ε) : Prop where
  | takes (empty : box.waiting (step s event).2 = [])
      (same : box.given (step s event).2 = box.given s)
  | puts (nothing : box.handed s event = []) (more : List β)
      (waiting : box.waiting (step s event).2 = box.waiting s ++ more)
      (given : box.given (step s event).2 = box.given s ++ more)

/-- What a run handed over, in order. -/
def received (s : σ) : List ε → List β
  | [] => []
  | event :: events => box.handed s event ++ received (step s event).2 events

/-- What was handed over and what still waits are together what the queue was given. -/
def Complete (s : σ) (events : List ε) : Prop :=
  box.received s events ++ box.waiting (final step s events) = box.given (final step s events)

/-- Where a step takes what waits, it hands over all of it. -/
def HandsAll (s : σ) (event : ε) : Prop :=
  box.handed s event = box.waiting s ∨
    ∃ more, box.handed s event = [] ∧ box.waiting (step s event).2 = box.waiting s ++ more ∧
      box.given (step s event).2 = box.given s ++ more

variable {box}

theorem received_concat (s : σ) (events : List ε) (event : ε) :
    box.received s (events ++ [event]) =
      box.received s events ++ box.handed (final step s events) event := by
  induction events generalizing s with
  | nil => simp [received, final]
  | cons first events ih => rw [List.cons_append, received, ih, received, final, List.append_assoc]

/-- One more step of a run that has lost nothing. -/
theorem complete_concat {s : σ} {events : List ε} {event : ε} (before : box.Complete s events)
    (moves : box.Moves (final step s events) event) :
    box.Complete s (events ++ [event]) ↔ box.HandsAll (final step s events) event := by
  unfold Complete at before ⊢
  rw [received_concat, final_concat]
  cases moves with
  | takes empty same =>
    rw [empty, same, List.append_nil, ← before, List.append_cancel_left_eq]
    refine ⟨Or.inl, fun all => all.elim id fun ⟨more, nothing, waiting, given⟩ => ?_⟩
    -- a taking that puts something behind what waits found nothing waiting
    rw [empty] at waiting
    rw [nothing, (List.append_eq_nil_iff.mp waiting.symm).1]
  | puts nothing more waiting given =>
    rw [nothing, List.append_nil, waiting, given, ← List.append_assoc, before]
    exact iff_of_true rfl (.inr ⟨more, nothing, waiting, given⟩)

/-- **Nothing is lost**, in any state of a run, exactly where every step that takes what waits hands
over all of it. -/
theorem complete_iff {s : σ} {events : List ε} (fresh : box.waiting s = box.given s)
    (moves : Along (fun s event => box.Moves s event) step s events) :
    (∀ done rest, events = done ++ rest → box.Complete s done) ↔
      Along (fun s event => box.HandsAll s event) step s events := by
  induction events using List.reverseRecOn with
  | nil =>
    refine ⟨fun _ => along_nil _ _, fun _ done rest shape => ?_⟩
    rw [(List.append_eq_nil_iff.mp shape.symm).1]
    exact fresh
  | append_singleton events event ih =>
    obtain ⟨first, last⟩ := along_concat.mp moves
    rw [along_concat, ← ih first]
    constructor
    · intro all
      have before := all events [event] rfl
      refine ⟨fun done rest shape => all done (rest ++ [event]) ?_, ?_⟩
      · rw [shape, List.append_assoc]
      · exact (complete_concat before last).mp (all (events ++ [event]) [] (List.append_nil _).symm)
    · rintro ⟨all, hands⟩ done rest shape
      rcases List.eq_nil_or_concat rest with rfl | ⟨rest, end_event, rfl⟩
      · rw [List.append_nil] at shape
        rw [← shape]
        exact (complete_concat (all events [] (List.append_nil _).symm) last).mpr hands
      · rw [List.concat_eq_append, ← List.append_assoc] at shape
        exact all done rest (List.append_inj' shape rfl).1

end Mailbox

end Devit.Runs
