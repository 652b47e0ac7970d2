import Devit.Library.Runs

/-! Parties that share one machine. Every event belongs to one party, and a party's view of the
state changes by its own events alone, as its own machine says. Then in any interleaving each
party sees the run of its own events. -/
namespace Devit.Runs

variable {σ ε ω κ τ : Type}

/-- A machine taken apart into the machines of its parties. -/
structure Parties (step : σ → ε → ω × σ) (κ τ : Type) where
  owner : ε → κ
  view : κ → σ → τ
  single : κ → τ → ε → ω × τ
  own : ∀ s event, single (owner event) (view (owner event) s) event =
    ((step s event).1, view (owner event) (step s event).2)
  other : ∀ party s event, owner event ≠ party → view party (step s event).2 = view party s

namespace Parties

variable [DecidableEq κ] {step : σ → ε → ω × σ} (parties : Parties step κ τ) (party : κ)

/-- The events of one party. -/
def ofParty (events : List ε) : List ε := events.filter fun event => parties.owner event = party

theorem ofParty_concat (events : List ε) (event : ε) :
    parties.ofParty party (events ++ [event]) =
      parties.ofParty party events ++ if parties.owner event = party then [event] else [] := by
  rw [ofParty, ofParty, List.filter_append]
  by_cases own : parties.owner event = party
  · simp [own]
  · simp [own]

/-- A party sees the run of its own events. -/
theorem view_final (s : σ) (events : List ε) :
    parties.view party (final step s events) =
      final (parties.single party) (parties.view party s) (parties.ofParty party events) := by
  induction events using List.reverseRecOn with
  | nil => rfl
  | append_singleton events event ih =>
    rw [final_concat, ofParty_concat]
    by_cases own : parties.owner event = party
    · subst own
      rw [if_pos rfl, final_concat, ← ih, parties.own]
    · rw [if_neg own, List.append_nil, ← ih]
      exact parties.other party _ event own

end Parties

end Devit.Runs
