import Devit.Library.Action

/-! What a loop leaves of a part of the state that some of its steps set and the
others leave alone: what the last step that sets it sets it to. -/
namespace Devit.Action
variable {ε σ α β γ : Type} {body : γ → α → Action ε σ γ} {sets : α → σ → β → Prop}

/-- No step of the run sets the part. -/
inductive Unset (body : γ → α → Action ε σ γ) (sets : α → σ → β → Prop) :
    γ → List α → σ → Prop where
  | nil (acc : γ) (s : σ) : Unset body sets acc [] s
  | cons {acc next : γ} {x : α} {xs : List α} {s s' : σ} (none : ∀ v, ¬ sets x s v)
      (ran : body acc x s = (.ok next, s')) (rest : Unset body sets next xs s') :
      Unset body sets acc (x :: xs) s

/-- The last step of the run that sets the part sets it to this. -/
inductive LastSet (body : γ → α → Action ε σ γ) (sets : α → σ → β → Prop) :
    γ → List α → σ → β → Prop where
  | here {acc next : γ} {x : α} {xs : List α} {s s' : σ} {v : β} (puts : sets x s v)
      (ran : body acc x s = (.ok next, s')) (rest : Unset body sets next xs s') :
      LastSet body sets acc (x :: xs) s v
  | later {acc next : γ} {x : α} {xs : List α} {s s' : σ} {v : β}
      (ran : body acc x s = (.ok next, s')) (rest : LastSet body sets next xs s' v) :
      LastSet body sets acc (x :: xs) s v

/-- A run that succeeds never sets the part, or sets it a last time. -/
theorem unset_or_lastSet {acc total : γ} {xs : List α} {s s' : σ}
    (ran : forEach body acc xs s = (.ok total, s')) :
    Unset body sets acc xs s ∨ ∃ v, LastSet body sets acc xs s v := by
  induction xs generalizing acc s with
  | nil => exact .inl (.nil acc s)
  | cons x xs ih =>
    rw [forEach_cons] at ran
    obtain ⟨next, mid, first, ran⟩ := bind_eq_ok ran
    rcases ih ran with never | ⟨v, last⟩
    · by_cases some : ∃ v, sets x s v
      · obtain ⟨v, puts⟩ := some
        exact .inr ⟨v, .here puts first never⟩
      · exact .inl (.cons (fun v puts => some ⟨v, puts⟩) first never)
    · exact .inr ⟨v, .later first last⟩

/-- Every step that the run comes to and that succeeds sets the part to what is said,
or leaves it alone. -/
def Observed (obs : σ → β) (body : γ → α → Action ε σ γ) (sets : α → σ → β → Prop)
    (acc : γ) (xs : List α) (s : σ) : Prop :=
  ∀ done x rest mid state next state', xs = done ++ x :: rest →
    forEach body acc done s = (.ok mid, state) → body mid x state = (.ok next, state') →
    (∀ v, sets x state v → obs state' = v) ∧ ((∀ v, ¬ sets x state v) → obs state' = obs state)

theorem Observed.tail {obs : σ → β} {acc next : γ} {x : α} {xs : List α} {s s' : σ}
    (observed : Observed obs body sets acc (x :: xs) s) (first : body acc x s = (.ok next, s')) :
    Observed obs body sets next xs s' := by
  intro done y rest mid state after state' shape ran here
  refine observed (x :: done) y rest mid state after state' (by rw [shape, List.cons_append]) ?_ here
  rw [forEach_cons, bind_of_ok first]
  exact ran

theorem unset_kept {obs : σ → β} {acc total : γ} {xs : List α} {s s' : σ}
    (observed : Observed obs body sets acc xs s) (never : Unset body sets acc xs s)
    (ran : forEach body acc xs s = (.ok total, s')) : obs s' = obs s := by
  induction never with
  | nil acc s =>
    cases ran
    rfl
  | @cons acc next x xs s mid none first rest ih =>
    rw [forEach_cons, bind_of_ok first] at ran
    rw [ih (observed.tail first) ran]
    exact (observed [] x xs acc s next mid rfl rfl first).2 none

theorem lastSet_left {obs : σ → β} {acc total : γ} {xs : List α} {s s' : σ} {v : β}
    (observed : Observed obs body sets acc xs s) (last : LastSet body sets acc xs s v)
    (ran : forEach body acc xs s = (.ok total, s')) : obs s' = v := by
  induction last with
  | @here acc next x xs s mid v puts first never =>
    rw [forEach_cons, bind_of_ok first] at ran
    rw [unset_kept (observed.tail first) never ran]
    exact (observed [] x xs acc s next mid rfl rfl first).1 v puts
  | @later acc next x xs s mid v first rest ih =>
    rw [forEach_cons, bind_of_ok first] at ran
    exact ih (observed.tail first) ran

/-- A loop leaves the part as it was exactly when the last step that sets it, if there is
one, sets it to that. -/
theorem forEach_kept_iff {obs : σ → β} {acc total : γ} {xs : List α} {s s' : σ}
    (observed : Observed obs body sets acc xs s)
    (ran : forEach body acc xs s = (.ok total, s')) :
    obs s' = obs s ↔ ∀ v, LastSet body sets acc xs s v → v = obs s := by
  constructor
  · intro kept v last
    rw [← kept, lastSet_left observed last ran]
  · intro same
    rcases @unset_or_lastSet _ _ _ _ _ _ sets _ _ _ _ _ ran with never | ⟨v, last⟩
    · exact unset_kept observed never ran
    · rw [lastSet_left observed last ran]
      exact same v last

end Devit.Action
