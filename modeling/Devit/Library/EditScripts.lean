import Mathlib.Data.List.Basic
import Mathlib.Tactic.Common

/-! Edits of a list: elements are put in and taken out, one after the other. A script is
counted by how many it puts in and how many it takes out. -/
namespace Devit

/-- The second list is made of the first one by putting in so many elements and taking out
so many. -/
inductive Script {α : Type} (old : List α) : Nat → Nat → List α → Prop where
  | done : Script old 0 0 old
  | insert {a r : Nat} {front back : List α} (x : α) (before : Script old a r (front ++ back)) :
      Script old (a + 1) r (front ++ x :: back)
  | delete {a r : Nat} {front back : List α} {x : α}
      (before : Script old a r (front ++ x :: back)) : Script old a (r + 1) (front ++ back)

namespace Script

variable {α : Type} {old mid new : List α} {a b r s : Nat}

theorem trans (first : Script old a r mid) (second : Script mid b s new) :
    Script old (a + b) (r + s) new := by
  induction second with
  | done => exact first
  | insert x _ ih => exact .insert x ih
  | delete _ ih => exact .delete ih

theorem around (front before inner after : List α) :
    front ++ (before ++ inner) ++ after = (front ++ before) ++ (inner ++ after) := by
  simp only [List.append_assoc]

/-- What stands around the list stays. -/
theorem frame (script : Script old a r new) (front back : List α) :
    Script (front ++ old ++ back) a r (front ++ new ++ back) := by
  induction script with
  | done => exact .done
  | insert x _ ih =>
    rw [around] at ih ⊢
    exact .insert x ih
  | delete _ ih =>
    rw [around] at ih ⊢
    exact .delete ih

theorem cons (script : Script old a r new) (x : α) : Script (x :: old) a r (x :: new) := by
  have framed := script.frame [x] []
  rwa [List.append_nil, List.append_nil] at framed

/-- **Balance.** What is put in and taken out is the difference of the lengths. -/
theorem length (script : Script old a r new) : new.length + r = old.length + a := by
  induction script with
  | done => rfl
  | insert x _ ih =>
    rw [List.length_append] at ih ⊢
    rw [List.length_cons]
    omega
  | delete _ ih =>
    rw [List.length_append] at ih ⊢
    rw [List.length_cons] at ih
    omega

end Script

end Devit
