import Mathlib.Data.List.DropRight

/-! Patterns with a wildcard. It stands for any sequence, also the empty one, and everything else
for itself. Wildcards at the end of a pattern come to a test for what is in front of them. -/
namespace Devit.Glob

variable {α : Type} {w : α}

/-- The pattern matches the whole sequence. -/
inductive Globs (w : α) : List α → List α → Prop where
  | nil : Globs w [] []
  | char {c : α} {p s : List α} : c ≠ w → Globs w p s → Globs w (c :: p) (c :: s)
  | skip {p s : List α} : Globs w p s → Globs w (w :: p) s
  | more {c : α} {p s : List α} : Globs w (w :: p) s → Globs w (w :: p) (c :: s)

theorem Globs.append {p q s t : List α} (first : Globs w p s) (second : Globs w q t) :
    Globs w (p ++ q) (s ++ t) := by
  induction first with
  | nil => exact second
  | char plain _ ih => exact .char plain ih
  | skip _ ih => exact .skip ih
  | more _ ih => exact .more ih

/-- A wildcard takes whatever is there. -/
theorem Globs.any {p t : List α} (rest : Globs w p t) (s : List α) : Globs w (w :: p) (s ++ t) := by
  induction s with
  | nil => exact .skip rest
  | cons c s ih => exact .more ih

/-- A pattern matches itself: each wildcard in it takes one. -/
theorem Globs.self (p : List α) : Globs w p p := by
  classical
  induction p with
  | nil => exact .nil
  | cons c p ih =>
    by_cases wild : c = w
    · rw [wild]
      exact .more (.skip ih)
    · exact .char wild ih

/-- Without a wildcard, a pattern is a text. -/
theorem literal_iff {p s : List α} (literal : w ∉ p) : Globs w p s ↔ s = p := by
  constructor
  · intro globs
    induction globs with
    | nil => rfl
    | char _ _ ih => rw [ih fun inside => literal (List.mem_cons_of_mem _ inside)]
    | skip => exact absurd List.mem_cons_self literal
    | more => exact absurd List.mem_cons_self literal
  · rintro rfl
    exact .self s

theorem globs_wilds {wilds : List α} (only : ∀ c ∈ wilds, c = w) (filled : wilds ≠ [])
    (s : List α) : Globs w wilds s := by
  induction wilds with
  | nil => exact absurd rfl filled
  | cons c wilds ih =>
    obtain rfl := only c List.mem_cons_self
    by_cases last : wilds = []
    · rw [last]
      have whole := Globs.any (@Globs.nil α c) s
      rwa [List.append_nil] at whole
    · exact .skip (ih (fun other member => only other (List.mem_cons_of_mem _ member)) last)

/-- What a pattern begins with, up to its first wildcard, its matches begin with. -/
theorem Globs.begins {lit p s : List α} (literal : w ∉ lit) (globs : Globs w (lit ++ p) s) :
    ∃ rest, s = lit ++ rest ∧ Globs w p rest := by
  induction lit generalizing s with
  | nil => exact ⟨s, rfl, globs⟩
  | cons c lit ih =>
    have plain : ∀ other ∈ lit, other ≠ w :=
      fun other member same => literal (List.mem_cons_of_mem _ (same ▸ member))
    cases globs with
    | char _ later =>
      obtain ⟨rest, rfl, onward⟩ := ih (fun inside => plain w inside rfl) later
      exact ⟨rest, rfl, onward⟩
    | skip => exact absurd List.mem_cons_self literal
    | more => exact absurd List.mem_cons_self literal

variable [DecidableEq α]

/-- The pattern without the wildcards at its end. -/
def stem (w : α) (p : List α) : List α := p.rdropWhile (· = w)

/-- What the stem leaves are wildcards. -/
theorem stem_append (p : List α) : ∃ wilds, p = stem w p ++ wilds ∧ ∀ c ∈ wilds, c = w :=
  ⟨p.rtakeWhile (· = w), List.rdropWhile_append_rtakeWhile.symm, fun c member => by
    simpa using List.mem_rtakeWhile_imp member⟩

/-- A pattern that ends in a wildcard matches what begins with its stem. -/
theorem globs_of_stem {p s : List α} (open_end : stem w p ≠ p) (begins : stem w p <+: s) :
    Globs w p s := by
  obtain ⟨wilds, shape, only⟩ := @stem_append α w _ p
  obtain ⟨rest, rfl⟩ := begins
  have filled : wilds ≠ [] := by
    rintro rfl
    rw [List.append_nil] at shape
    exact open_end shape.symm
  have whole := (Globs.self (stem w p)).append (globs_wilds only filled rest)
  rwa [← shape] at whole

/-- **Final wildcards.** A pattern with wildcards at its end, and none before, matches what its
stem begins. -/
theorem globs_stem_iff {p s : List α} (wild : w ∈ p) (final : w ∉ stem w p) :
    Globs w p s ↔ stem w p <+: s := by
  constructor
  · intro globs
    obtain ⟨wilds, shape, -⟩ := @stem_append α w _ p
    rw [shape] at globs
    obtain ⟨rest, rfl, -⟩ := globs.begins final
    exact List.prefix_append _ _
  · exact globs_of_stem fun same => final (same.symm ▸ wild)

end Devit.Glob
