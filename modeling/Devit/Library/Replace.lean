import Devit.Library.Text

/-! Replacing every occurrence of a pattern in a text, from left to right. A part of the
text in which no occurrence begins stays as it is. -/
namespace Devit.Text

/-- The loop of `replace`, with so many characters to skip: the rest of an occurrence. -/
def replaceFrom (pat rep : Text) : Nat → Text → Text
  | _, [] => []
  | skip + 1, _ :: cs => replaceFrom pat rep skip cs
  | 0, c :: cs =>
    if startsWith pat (c :: cs) then rep ++ replaceFrom pat rep (pat.length - 1) cs
    else c :: replaceFrom pat rep 0 cs

/-- `str::replace` for a pattern that is not empty. -/
def replace (pat rep s : Text) : Text := replaceFrom pat rep 0 s

variable {pat rep : Text}

@[simp] theorem replace_nil : replace pat rep [] = [] := rfl

theorem replaceFrom_skip (part rest : Text) :
    replaceFrom pat rep part.length (part ++ rest) = replace pat rep rest := by
  induction part with
  | nil => rfl
  | cons c part ih => exact ih

/-- An occurrence is replaced, and the search goes on behind it. -/
theorem replace_occurrence (filled : pat ≠ []) (rest : Text) :
    replace pat rep (pat ++ rest) = rep ++ replace pat rep rest := by
  cases pat with
  | nil => exact absurd rfl filled
  | cons c cs =>
    have found := startsWith_append (c :: cs) rest
    rw [List.cons_append] at found
    rw [replace, List.cons_append, replaceFrom, if_pos found]
    exact congrArg (rep ++ ·) (replaceFrom_skip cs rest)

theorem replace_cons {c : Char} {s : Text} (other : startsWith pat (c :: s) = false) :
    replace pat rep (c :: s) = c :: replace pat rep s := by
  rw [replace, replaceFrom, if_neg (by rw [other]; exact Bool.false_ne_true)]
  rfl

/-- A part in which no occurrence begins is kept. -/
theorem replace_append {part rest : Text}
    (clean : ∀ before after, part = before ++ after → after ≠ [] →
      startsWith pat (after ++ rest) = false) :
    replace pat rep (part ++ rest) = part ++ replace pat rep rest := by
  induction part with
  | nil => rfl
  | cons c part ih =>
    have here := clean [] (c :: part) rfl (List.cons_ne_nil _ _)
    have behind := ih fun before after shape =>
      clean (c :: before) after (by rw [shape, List.cons_append])
    rw [List.cons_append] at here ⊢
    rw [replace_cons here, behind]
    rfl

/-- A part without the first character of the pattern is kept. -/
theorem replace_append_of_head {p : Char} {ps part : Text} (absent : p ∉ part) (rest : Text) :
    replace (p :: ps) rep (part ++ rest) = part ++ replace (p :: ps) rep rest := by
  refine replace_append fun before after shape some_char => ?_
  cases after with
  | nil => exact absurd rfl some_char
  | cons c after =>
    refine startsWith_head_ne ?_
    rintro rfl
    exact absent (by rw [shape]; simp)

/-- A text in which the pattern is not found is kept. -/
theorem replace_absent {s : Text} (absent : contains pat s = false) : replace pat rep s = s := by
  induction s with
  | nil => rfl
  | cons c s ih =>
    rw [contains, Bool.or_eq_false_iff] at absent
    rw [replace_cons absent.1, ih absent.2]

/-- A character that is not of the pattern parts a text into two that are treated apart. -/
theorem replace_split (filled : pat ≠ []) {c : Char} (other : c ∉ pat) (a b : Text) :
    replace pat rep (a ++ c :: b) = replace pat rep a ++ c :: replace pat rep b := by
  have here : startsWith pat (c :: b) = false := by
    cases pat with
    | nil => exact absurd rfl filled
    | cons p ps =>
      refine startsWith_head_ne ?_
      rintro rfl
      exact other List.mem_cons_self
  have skipping : ∀ skip ≤ a.length, replaceFrom pat rep skip (a ++ c :: b) =
      replaceFrom pat rep skip a ++ c :: replace pat rep b := by
    induction a with
    | nil =>
      intro skip short
      cases Nat.le_zero.mp short
      exact replace_cons here
    | cons d a ih =>
      intro skip short
      cases skip with
      | succ skip => exact ih skip (Nat.le_of_succ_le_succ short)
      | zero =>
        -- an occurrence that begins in the first part ends there
        have inside : startsWith pat (d :: (a ++ c :: b)) = startsWith pat (d :: a) := by
          rw [Bool.eq_iff_iff, startsWith_iff, startsWith_iff]
          constructor
          · rintro ⟨rest, shape⟩
            rw [← List.cons_append] at shape
            rcases List.append_eq_append_iff.mp shape with ⟨more, whole, beyond⟩ | ⟨more, whole, -⟩
            · cases more with
              | nil => exact ⟨[], by rw [whole, List.append_nil, List.append_nil]⟩
              | cons e more =>
                rw [List.cons_append] at beyond
                cases (List.cons.inj beyond).1
                exact absurd (by rw [whole]; simp) other
            · exact ⟨more, whole⟩
          · rintro ⟨rest, shape⟩
            exact ⟨rest ++ c :: b, by rw [← List.cons_append, shape, List.append_assoc]⟩
        rw [List.cons_append, replaceFrom, replaceFrom, inside]
        by_cases found : startsWith pat (d :: a) = true
        · obtain ⟨rest, shape⟩ := startsWith_iff.mp found
          have lengths := congrArg List.length shape
          simp only [List.length_cons, List.length_append] at lengths
          rw [if_pos found, if_pos found, ih _ (by omega), List.append_assoc]
        · rw [if_neg found, if_neg found, ih 0 (Nat.zero_le _), List.cons_append]
  exact skipping 0 (Nat.zero_le _)

/-- What taking a pattern out leaves has as many fewer of each character as the pattern
times a number. -/
theorem count_replace (filled : pat ≠ []) (s : Text) :
    ∃ n, ∀ c, s.count c = (replace pat [] s).count c + n * pat.count c := by
  induction size : s.length using Nat.strongRecOn generalizing s with
  | ind size ih =>
    cases s with
    | nil => exact ⟨0, fun c => by simp⟩
    | cons d s =>
      by_cases here : startsWith pat (d :: s) = true
      · obtain ⟨rest, shape⟩ := startsWith_iff.mp here
        have some_char := List.length_pos_iff.mpr filled
        have lengths := congrArg List.length shape
        rw [List.length_append] at lengths
        obtain ⟨n, counts⟩ := ih rest.length (by omega) rest rfl
        refine ⟨n + 1, fun c => ?_⟩
        rw [shape, replace_occurrence filled, List.nil_append, List.count_append, counts c,
          Nat.succ_mul]
        omega
      · have other : startsWith pat (d :: s) = false := by simpa using here
        obtain ⟨n, counts⟩ := ih s.length (by rw [← size]; exact Nat.lt_succ_self _) s rfl
        refine ⟨n, fun c => ?_⟩
        rw [replace_cons other, List.count_cons, List.count_cons, counts c]
        omega

end Devit.Text
