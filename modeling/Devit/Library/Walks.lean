import Mathlib.Data.List.Flatten
import Mathlib.Data.List.Induction
import Mathlib.Data.List.Infix
import Mathlib.Data.List.Nodup

/-! Depth-first walks of a tree of names. A node is the list of names that leads to
it from the root of the walk, and `kids` gives the names that the walk takes from a
node. Nodes may stand at the same place; whether they do is decided where the walk
leaves the places below the last one. -/
namespace Devit.Walks

variable {N : Type}

/-- The nodes of a walk from a node, in its order, on at most `fuel` levels. -/
def preorder (kids : List N → List N) : Nat → List N → List (List N)
  | 0, _ => []
  | fuel + 1, node =>
    node :: (kids node).flatMap fun name => preorder kids fuel (node ++ [name])

/-- The walk gets from a node down the names. -/
def Descends (kids : List N → List N) : List N → List N → Prop
  | _, [] => True
  | node, name :: rest => name ∈ kids node ∧ Descends kids (node ++ [name]) rest

variable {kids : List N → List N}

theorem descends_append {node xs ys : List N} :
    Descends kids node (xs ++ ys) ↔ Descends kids node xs ∧ Descends kids (node ++ xs) ys := by
  induction xs generalizing node with
  | nil => simp [Descends]
  | cons x xs ih =>
    rw [List.cons_append, Descends, Descends, ih, and_assoc, List.append_assoc]
    rfl

theorem descends_concat {xs : List N} {name : N} :
    Descends kids [] (xs ++ [name]) ↔ Descends kids [] xs ∧ name ∈ kids xs := by
  rw [descends_append]
  simp [Descends]

theorem mem_preorder {fuel : Nat} {node other : List N} :
    other ∈ preorder kids fuel node ↔
      ∃ more, other = node ++ more ∧ Descends kids node more ∧ more.length < fuel := by
  induction fuel generalizing node with
  | zero => simp [preorder]
  | succ fuel ih =>
    rw [preorder, List.mem_cons, List.mem_flatMap]
    constructor
    · rintro (rfl | ⟨name, taken, member⟩)
      · exact ⟨[], by simp, trivial, Nat.succ_pos fuel⟩
      · obtain ⟨more, rfl, down, short⟩ := ih.mp member
        exact ⟨name :: more, by simp, ⟨taken, down⟩, by simpa using short⟩
    · rintro ⟨more, rfl, down, short⟩
      cases more with
      | nil => exact .inl (List.append_nil node)
      | cons name more =>
        refine .inr ⟨name, down.1, ih.mpr ⟨more, by simp, down.2, by simpa using short⟩⟩

/-- **Each node once.** A walk that takes each name from a node once comes to each
node once. -/
theorem nodup_preorder (distinct : ∀ node, (kids node).Nodup) (fuel : Nat) (node : List N) :
    (preorder kids fuel node).Nodup := by
  induction fuel generalizing node with
  | zero => exact List.nodup_nil
  | succ fuel ih =>
    rw [preorder, List.nodup_cons, List.nodup_flatMap]
    refine ⟨?_, fun name _ => ih _, ?_⟩
    · rw [List.mem_flatMap]
      rintro ⟨name, -, member⟩
      obtain ⟨more, same, -⟩ := mem_preorder.mp member
      simpa using congrArg List.length same
    · refine (distinct node).imp ?_
      intro x y other below member member'
      obtain ⟨more, rfl, -⟩ := mem_preorder.mp member
      obtain ⟨more', same, -⟩ := mem_preorder.mp member'
      simp only [List.append_assoc, List.append_cancel_left_eq, List.singleton_append,
        List.cons.injEq] at same
      exact other same.1

/-! ## Places -/

/-- But for the nodes that are linked, a node stands below the place of the one before it. -/
def Stands (kids : List N → List N) (place : List N → List N) (linked : List N → Prop) : Prop :=
  ∀ node name, Descends kids [] (node ++ [name]) → ¬ linked (node ++ [name]) →
    place (node ++ [name]) = place node ++ [name]

/-- The walk gets to no place on two ways. -/
def Once (kids : List N → List N) (place : List N → List N) : Prop :=
  ∀ x y, Descends kids [] x → Descends kids [] y → place x = place y → x = y

/-- The walk gets to its start and to the place of each linked node on one way only. -/
def Apart (kids : List N → List N) (place : List N → List N) (linked : List N → Prop) : Prop :=
  ∀ x, Descends kids [] x → (x = [] ∨ linked x) →
    ∀ y, Descends kids [] y → place y = place x → y = x

variable {place : List N → List N} {linked : List N → Prop}

/-- The names of a node behind its last linked one are names of its place. -/
theorem last_landing (stands : Stands kids place linked) {node : List N}
    (down : Descends kids [] node) :
    ∃ start names, node = start ++ names ∧ (start = [] ∨ linked start) ∧
      ∀ ms ns, names = ms ++ ns → place (start ++ ms) = place start ++ ms := by
  induction node using List.reverseRecOn with
  | nil =>
    refine ⟨[], [], rfl, .inl rfl, ?_⟩
    rintro ms ns same
    simp [(List.append_eq_nil_iff.mp same.symm).1]
  | append_singleton node name ih =>
    by_cases link : linked (node ++ [name])
    · refine ⟨node ++ [name], [], by simp, .inr link, ?_⟩
      rintro ms ns same
      simp [(List.append_eq_nil_iff.mp same.symm).1]
    · obtain ⟨start, names, rfl, landing, below⟩ := ih (descends_concat.mp down).1
      refine ⟨start, names ++ [name], by simp, landing, fun ms ns same => ?_⟩
      rcases List.eq_nil_or_concat ns with rfl | ⟨init, last, rfl⟩
      · rw [List.append_nil] at same
        subst same
        have own := stands _ name down link
        rwa [below names [] (by simp), List.append_assoc, List.append_assoc] at own
      · rw [List.concat_eq_append, ← List.append_assoc] at same
        exact below ms init (List.append_inj' same rfl).1

private theorem same_of_longer (apart : Apart kids place linked)
    {start names start' names' : List N} (down : Descends kids [] (start ++ names))
    (down' : Descends kids [] (start' ++ names')) (landing' : start' = [] ∨ linked start')
    (below : ∀ ms ns, names = ms ++ ns → place (start ++ ms) = place start ++ ms)
    (longer : names'.length ≤ names.length)
    (same : place start ++ names = place start' ++ names') : start ++ names = start' ++ names' := by
  obtain ⟨ms, rfl⟩ : ∃ ms, names = ms ++ names' := by
    have tail : names' <:+ place start ++ names := ⟨_, same.symm⟩
    obtain ⟨ms, shape⟩ := List.suffix_of_suffix_length_le tail (List.suffix_append _ _) longer
    exact ⟨ms, shape.symm⟩
  rw [← List.append_assoc] at same down ⊢
  have reached := (descends_append.mp down).1
  have at_place := (below ms names' rfl).trans (List.append_inj' same rfl).1
  rw [apart start' (descends_append.mp down').1 landing' _ reached at_place]

/-- **Once.** A walk gets to each place on one way only exactly if it does so with its
start and the places of linked nodes. -/
theorem once_iff_apart (stands : Stands kids place linked) :
    Once kids place ↔ Apart kids place linked := by
  constructor
  · exact fun once x down _ y down' same => once y x down' down same
  · intro apart x y down down' same
    obtain ⟨start, names, rfl, landing, below⟩ := last_landing stands down
    obtain ⟨start', names', rfl, landing', below'⟩ := last_landing stands down'
    rw [below names [] (by simp), below' names' [] (by simp)] at same
    rcases Nat.le_total names'.length names.length with longer | longer
    · exact same_of_longer apart down down' landing' below longer same
    · exact (same_of_longer apart down' down landing below' longer same.symm).symm

end Devit.Walks
