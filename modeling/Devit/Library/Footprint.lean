import Devit.Library.Disk

/-! Where calls touch a tree. The record of touched locations only grows, so that
what a sequence of calls touches is what its parts touch, and a loop stays within
a directory exactly when every one of its steps does. -/
namespace Devit.Files

variable {N C : Type}

/-- The record of one disk goes on in the other. -/
def Grew (d d' : Disk N C) : Prop := d.touched <+: d'.touched

/-- What was touched from one disk to the other lies below `root`. -/
def Within (root : Loc N) (d d' : Disk N C) : Prop :=
  ∃ fresh, d'.touched = d.touched ++ fresh ∧ ∀ loc ∈ fresh, root <+: loc

theorem Grew.refl (d : Disk N C) : Grew d d := List.prefix_rfl

theorem Grew.trans {a b c : Disk N C} (first : Grew a b) (second : Grew b c) : Grew a c :=
  List.IsPrefix.trans first second

theorem Within.refl (root : Loc N) (d : Disk N C) : Within root d d :=
  ⟨[], (List.append_nil _).symm, by simp⟩

/-- What two calls touch is what each of them touches. -/
theorem within_split {root : Loc N} {a b c : Disk N C} (first : Grew a b) (second : Grew b c) :
    Within root a c ↔ Within root a b ∧ Within root b c := by
  obtain ⟨early, left⟩ := first
  obtain ⟨late, right⟩ := second
  constructor
  · rintro ⟨fresh, all, inside⟩
    rw [← right, ← left, List.append_assoc, List.append_cancel_left_eq] at all
    subst all
    exact ⟨⟨early, left.symm, fun loc member => inside loc (List.mem_append_left _ member)⟩,
      ⟨late, right.symm, fun loc member => inside loc (List.mem_append_right _ member)⟩⟩
  · rintro ⟨⟨fresh, one, inside⟩, fresh', two, inside'⟩
    refine ⟨fresh ++ fresh', by rw [two, one, List.append_assoc], fun loc member => ?_⟩
    rcases List.mem_append.mp member with here | there
    · exact inside loc here
    · exact inside' loc there

/-- The calls of a computation only add to the record. -/
def Grows {ε α : Type} (m : Action ε (Disk N C) α) : Prop := ∀ d, Grew d (m d).2

section
variable {ε α β : Type}

theorem grows_pure (a : α) : Grows (pure a : Action ε (Disk N C) α) := Grew.refl

theorem grows_lift (r : Except ε α) : Grows (Action.lift r : Action ε (Disk N C) α) := Grew.refl

theorem grows_fail (e : ε) : Grows (Action.fail e : Action ε (Disk N C) α) := Grew.refl

theorem grows_bind {m : Action ε (Disk N C) α} {f : α → Action ε (Disk N C) β} (first : Grows m)
    (second : ∀ a, Grows (f a)) : Grows (m >>= f) := by
  intro d
  have early := first d
  rw [Action.bind_apply]
  cases ran : m d with
  | mk outcome mid =>
    rw [ran] at early
    cases outcome with
    | ok a => exact early.trans (second a mid)
    | error e => exact early

theorem grows_forEach {body : β → α → Action ε (Disk N C) β} {xs : List α}
    (step : ∀ acc, ∀ x ∈ xs, Grows (body acc x)) (acc : β) :
    Grows (Action.forEach body acc xs) := by
  induction xs generalizing acc with
  | nil => exact grows_pure acc
  | cons x xs ih =>
    exact grows_bind (step acc x List.mem_cons_self)
      fun next => ih (fun acc y member => step acc y (List.mem_cons_of_mem _ member)) next

/-- A sequence stays within a directory when each part that is run does. -/
theorem within_bind {root : Loc N} {m : Action ε (Disk N C) α} {f : α → Action ε (Disk N C) β}
    (first : Grows m) (second : ∀ a, Grows (f a)) (d : Disk N C) :
    Within root d ((m >>= f) d).2 ↔
      Within root d (m d).2 ∧ ∀ a mid, m d = (.ok a, mid) → Within root mid (f a mid).2 := by
  have early := first d
  rw [Action.bind_apply]
  cases ran : m d with
  | mk outcome mid =>
    rw [ran] at early
    cases outcome with
    | error e => simp
    | ok a =>
      dsimp only
      rw [within_split early (second a mid)]
      refine and_congr_right fun _ => ⟨?_, fun late => late a mid rfl⟩
      rintro late _ _ ⟨⟩
      exact late

/-- A loop stays within a directory when every step it comes to does. -/
theorem within_forEach {root : Loc N} {body : β → α → Action ε (Disk N C) β} {xs : List α}
    (step : ∀ acc, ∀ x ∈ xs, Grows (body acc x)) (acc : β) (d : Disk N C) :
    Within root d (Action.forEach body acc xs d).2 ↔
      ∀ done x rest mid s, xs = done ++ x :: rest →
        Action.forEach body acc done d = (.ok mid, s) → Within root s (body mid x s).2 := by
  induction xs generalizing acc d with
  | nil =>
    simp only [Action.forEach_nil, Action.pure_apply]
    refine ⟨fun _ done x rest mid s shape => ?_, fun _ => .refl root d⟩
    simp at shape
  | cons x xs ih =>
    have later : ∀ acc, ∀ y ∈ xs, Grows (body acc y) :=
      fun acc y member => step acc y (List.mem_cons_of_mem _ member)
    rw [Action.forEach_cons, within_bind (step acc x List.mem_cons_self)
      fun next => grows_forEach later next]
    constructor
    · rintro ⟨here, onward⟩ done y rest mid s shape ran
      cases done with
      | nil =>
        cases shape
        cases ran
        exact here
      | cons first done =>
        obtain ⟨rfl, rfl⟩ := List.cons.inj shape
        rw [Action.forEach_cons] at ran
        obtain ⟨next, state, began, ran⟩ := Action.bind_eq_ok ran
        exact (ih later next state).mp (onward next state began) done y rest mid s rfl ran
    · intro every
      refine ⟨every [] x xs acc d rfl rfl, fun next state began => ?_⟩
      refine (ih later next state).mpr fun done y rest mid s shape ran => ?_
      refine every (x :: done) y rest mid s (by rw [shape, List.cons_append]) ?_
      rw [Action.forEach_cons, Action.bind_of_ok began]
      exact ran

end

/-- A location that is not the directory itself lies below it exactly when the
directory that holds the location does. -/
theorem prefix_dropLast_iff {root loc : Loc N} (apart : loc ≠ root) :
    root <+: loc ↔ root <+: loc.dropLast := by
  refine ⟨fun below => ?_, fun below => below.trans (List.dropLast_prefix loc)⟩
  obtain ⟨more, rfl⟩ := below
  have some : more ≠ [] := by
    rintro rfl
    exact apart (List.append_nil root)
  rw [List.dropLast_append_of_ne_nil some]
  exact List.prefix_append root _

/-! ## The calls -/

variable [DecidableEq N]

theorem grew_put (d : Disk N C) (loc : Loc N) (node : Option (Node N C)) :
    Grew d (d.put loc node) := List.prefix_append _ _

/-- Replacing an entry touches its location. -/
theorem within_put {root : Loc N} {d : Disk N C} {loc : Loc N} (node : Option (Node N C)) :
    Within root d (d.put loc node) ↔ root <+: loc := by
  constructor
  · rintro ⟨fresh, all, inside⟩
    rw [Disk.put, List.append_cancel_left_eq] at all
    exact inside loc (by rw [← all]; exact List.mem_singleton_self loc)
  · intro below
    refine ⟨[loc], rfl, fun other member => ?_⟩
    rw [List.mem_singleton.mp member]
    exact below

theorem grows_mkdir (r : Route N) : Grows (mkdir (C := C) r) := by
  intro d
  rcases mkdir_cases r d with ⟨e, failed⟩ | ⟨loc, -, made⟩
  · rw [failed]
    exact .refl d
  · rw [made]
    exact grew_put d loc _

theorem grows_openTruncate (empty : C) (r : Route N) : Grows (openTruncate empty r) := by
  intro d
  rcases openTruncate_cases empty r d with ⟨e, failed⟩ | ⟨place, -, -, opened⟩
  · rw [failed]
    exact .refl d
  · rw [opened]
    exact grew_put d place.loc _

theorem grows_writeAll (loc : Loc N) (content : C) : Grows (writeAll loc content) :=
  fun d => grew_put d loc _

theorem grows_unlink (r : Route N) : Grows (unlink (C := C) r) := by
  intro d
  rcases unlink_cases r d with ⟨e, failed⟩ | ⟨loc, -, -, removed⟩
  · rw [failed]
    exact .refl d
  · rw [removed]
    exact grew_put d loc _

theorem grows_rename (old new : Route N) : Grows (rename (C := C) old new) := by
  intro d
  rcases rename_cases old new d with
    ⟨e, failed⟩ | ⟨source, place, node, -, -, -, -, ⟨-, kept⟩ | ⟨-, -, moved⟩⟩
  · rw [failed]
    exact .refl d
  · rw [kept]
    exact .refl d
  · rw [moved]
    exact (grew_put d source _).trans (grew_put _ place.loc _)

end Devit.Files
