import Mathlib.Tactic.Common

/-! Remembering what was computed. Results are kept under keys of their inputs, and a
result that is kept is returned without another computation. Nothing but results of
inputs seen before is ever found, so the answers are those of the computation where
inputs that share a key share the result. What is forgotten does not matter. -/
namespace Devit.Memo

variable {I K V E : Type} {key : I → K} {compute : I → Except E V}

/-- What is found under a key was computed for an input with that key. -/
def Learned (key : I → K) (compute : I → Except E V) (seen : I → Prop) (found : K → Option V) : Prop :=
  ∀ k v, found k = some v → ∃ i, seen i ∧ key i = k ∧ compute i = .ok v

/-- What is found, or else computed. -/
def consult (key : I → K) (compute : I → Except E V) (found : K → Option V) (i : I) : Except E V :=
  match found (key i) with
  | some v => .ok v
  | none => compute i

/-- The second input has the result of the first if it has its key. -/
def Shares (key : I → K) (compute : I → Except E V) (i j : I) : Prop :=
  key i = key j → ∀ v, compute i = .ok v → compute j = .ok v

variable {seen seen' : I → Prop} {found found' : K → Option V} {i j : I} {v : V}

/-- What is added was computed for an input that is seen. -/
theorem Learned.learn (learned : Learned key compute seen found) (here : seen i)
    (result : compute i = .ok v)
    (more : ∀ k w, found' k = some w → k = key i ∧ w = v ∨ found k = some w) :
    Learned key compute seen found' := by
  intro k w there
  rcases more k w there with ⟨rfl, rfl⟩ | before
  · exact ⟨i, here, rfl, result⟩
  · exact learned k w before

/-- **Answers.** Where inputs seen before share their results, what is recalled is what
would be computed. -/
theorem Learned.consult_eq (learned : Learned key compute seen found)
    (shares : ∀ i, seen i → Shares key compute i j) : consult key compute found j = compute j := by
  unfold consult
  cases there : found (key j) with
  | none => rfl
  | some v =>
    obtain ⟨i, here, same, result⟩ := learned _ _ there
    exact (shares i here same v result).symm

/-- Where what is recalled is what would be computed, the result found is shared. -/
theorem shares_of_consult (kept : ∀ v, compute i = .ok v → found (key i) = some v)
    (right : consult key compute found j = compute j) : Shares key compute i j := by
  intro same v result
  rw [consult, ← same, kept v result] at right
  exact right.symm

end Devit.Memo
