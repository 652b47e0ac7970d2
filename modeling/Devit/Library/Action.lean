import Mathlib.Tactic.Common

/-! Computations that may fail and keep what they did to the state when they do:
Rust's `Result`-returning functions over a shared mutable world. The rules here
are the ones a reader of such code uses: an invariant kept by each part is kept
by the whole, and a loop that fails splits at the element that failed. -/
namespace Devit

/-- A failing computation over a state. The state is returned on both outcomes. -/
def Action (ε σ α : Type) := σ → Except ε α × σ

/-- A pure sequence that succeeds succeeded in both parts. -/
theorem Except.bind_eq_ok {ε α β : Type} {m : Except ε α} {f : α → Except ε β} {b : β}
    (ran : (m >>= f) = .ok b) : ∃ a, m = .ok a ∧ f a = .ok b := by
  cases m with
  | error e => cases ran
  | ok a => exact ⟨a, rfl, ran⟩

namespace Action
variable {ε σ α β : Type}

instance : Monad (Action ε σ) where
  pure a := fun s => (.ok a, s)
  bind m f := fun s =>
    match m s with
    | (.ok a, s') => f a s'
    | (.error e, s') => (.error e, s')

/-- `return Err(e)`. -/
def fail (e : ε) : Action ε σ α := fun s => (.error e, s)

/-- A pure fallible value followed by `?`. -/
def lift (r : Except ε α) : Action ε σ α := fun s => (r, s)

/-- Reading from the state. -/
def read (f : σ → α) : Action ε σ α := fun s => (.ok (f s), s)

@[simp] theorem pure_apply (a : α) (s : σ) : (pure a : Action ε σ α) s = (.ok a, s) := rfl

@[simp] theorem fail_apply (e : ε) (s : σ) : (fail e : Action ε σ α) s = (.error e, s) := rfl

@[simp] theorem lift_apply (r : Except ε α) (s : σ) : (lift r : Action ε σ α) s = (r, s) := rfl

@[simp] theorem read_apply (f : σ → α) (s : σ) : (read f : Action ε σ α) s = (.ok (f s), s) := rfl

theorem bind_apply (m : Action ε σ α) (f : α → Action ε σ β) (s : σ) :
    (m >>= f) s = match m s with
      | (.ok a, s') => f a s'
      | (.error e, s') => (.error e, s') := rfl

theorem bind_of_ok {m : Action ε σ α} {f : α → Action ε σ β} {s s' : σ} {a : α}
    (ran : m s = (.ok a, s')) : (m >>= f) s = f a s' := by
  rw [bind_apply, ran]

theorem bind_of_error {m : Action ε σ α} {f : α → Action ε σ β} {s s' : σ} {e : ε}
    (ran : m s = (.error e, s')) : (m >>= f) s = (.error e, s') := by
  rw [bind_apply, ran]

/-- A sequence that succeeds ran both parts. -/
theorem bind_eq_ok {m : Action ε σ α} {f : α → Action ε σ β} {s s' : σ} {b : β}
    (ran : (m >>= f) s = (.ok b, s')) : ∃ a mid, m s = (.ok a, mid) ∧ f a mid = (.ok b, s') := by
  rw [bind_apply] at ran
  cases first : m s with
  | mk outcome mid =>
    cases outcome with
    | ok a => exact ⟨a, mid, rfl, by simpa [first] using ran⟩
    | error e => simp [first] at ran

/-- A sequence that fails failed in its first part or in its second. -/
theorem bind_eq_error {m : Action ε σ α} {f : α → Action ε σ β} {s s' : σ} {e : ε}
    (ran : (m >>= f) s = (.error e, s')) :
    m s = (.error e, s') ∨ ∃ a mid, m s = (.ok a, mid) ∧ f a mid = (.error e, s') := by
  rw [bind_apply] at ran
  cases first : m s with
  | mk outcome mid =>
    cases outcome with
    | ok a => exact .inr ⟨a, mid, rfl, by simpa [first] using ran⟩
    | error e' => exact .inl (by simpa [first] using ran)

/-! ## Invariants -/

/-- The computation keeps `I`, whether it succeeds or fails. -/
def Keeps (I : σ → Prop) (m : Action ε σ α) : Prop := ∀ s, I s → I (m s).2

variable {I : σ → Prop}

theorem keeps_pure (a : α) : Keeps I (pure a : Action ε σ α) := fun _ h => h

theorem keeps_fail (e : ε) : Keeps I (fail e : Action ε σ α) := fun _ h => h

theorem keeps_lift (r : Except ε α) : Keeps I (lift r : Action ε σ α) := fun _ h => h

theorem keeps_bind {m : Action ε σ α} {f : α → Action ε σ β} (first : Keeps I m)
    (second : ∀ a, Keeps I (f a)) : Keeps I (m >>= f) := by
  intro s h
  have mid := first s h
  rw [bind_apply]
  cases ran : m s with
  | mk outcome s' =>
    rw [ran] at mid
    cases outcome with
    | ok a => exact second a s' mid
    | error e => exact mid

/-! ## Loops -/

/-- `for x in xs { acc = body(acc, x)?; }`. -/
def forEach (body : β → α → Action ε σ β) (acc : β) : List α → Action ε σ β
  | [] => pure acc
  | x :: xs => body acc x >>= fun acc => forEach body acc xs

@[simp] theorem forEach_nil (body : β → α → Action ε σ β) (acc : β) :
    forEach body acc [] = (pure acc : Action ε σ β) := rfl

theorem forEach_cons (body : β → α → Action ε σ β) (acc : β) (x : α) (xs : List α) :
    forEach body acc (x :: xs) = body acc x >>= fun acc => forEach body acc xs := rfl

theorem keeps_forEach {body : β → α → Action ε σ β} {xs : List α}
    (step : ∀ acc, ∀ x ∈ xs, Keeps I (body acc x)) (acc : β) : Keeps I (forEach body acc xs) := by
  induction xs generalizing acc with
  | nil => exact keeps_pure acc
  | cons x xs ih =>
    exact keeps_bind (step acc x List.mem_cons_self)
      fun next => ih (fun acc y member => step acc y (List.mem_cons_of_mem _ member)) next

/-- A loop over two lists is the loops one after the other. -/
theorem forEach_append (body : β → α → Action ε σ β) (acc : β) (xs ys : List α) :
    forEach body acc (xs ++ ys) = forEach body acc xs >>= fun acc => forEach body acc ys := by
  induction xs generalizing acc with
  | nil => rfl
  | cons x xs ih =>
    funext s
    simp only [List.cons_append, forEach_cons, bind_apply, ih]
    cases body acc x s with
    | mk outcome s' => cases outcome <;> rfl

/-- A loop that fails ran a prefix, and failed on the element after it. -/
theorem forEach_eq_error {body : β → α → Action ε σ β} {acc : β} {xs : List α} {s s' : σ} {e : ε}
    (ran : forEach body acc xs s = (.error e, s')) :
    ∃ done x rest mid state, xs = done ++ x :: rest ∧
      forEach body acc done s = (.ok mid, state) ∧ body mid x state = (.error e, s') := by
  induction xs generalizing acc s with
  | nil => simp at ran
  | cons x xs ih =>
    rw [forEach_cons] at ran
    rcases bind_eq_error ran with failed | ⟨mid, state, first, later⟩
    · exact ⟨[], x, xs, acc, s, rfl, rfl, failed⟩
    · obtain ⟨done, y, rest, acc', state', shape, before, failed⟩ := ih later
      refine ⟨x :: done, y, rest, acc', state', by rw [shape, List.cons_append], ?_, failed⟩
      rw [forEach_cons, bind_of_ok first]
      exact before

end Action

end Devit
