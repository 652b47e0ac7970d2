import Mathlib.Data.List.Infix
import Devit.Library.Search

/-! The parts of a text between separators. A part with a certain mark in it can be known to be
short where all of the text that could hold it is known; taking characters out keeps this. -/
namespace Devit.Text

variable {sep : Char → Bool} {mark : Char} {n : Nat} {pat rep : Text}

/-- A part without separators that has the mark is at most so long. -/
def Bounded (sep : Char → Bool) (mark : Char) (n : Nat) (s : Text) : Prop :=
  ∀ u, u <:+: s → (∀ c ∈ u, sep c = false) → mark ∈ u → u.length ≤ n

/-- A part without a character lies on one side of it. -/
theorem infix_split {u a b : Text} {c : Char} (absent : c ∉ u) (inside : u <:+: a ++ c :: b) :
    u <:+: a ∨ u <:+: b := by
  obtain ⟨before, after, shape⟩ := inside
  rcases List.append_eq_append_iff.mp shape with ⟨more, whole, -⟩ | ⟨more, whole, rest⟩
  · exact .inl ⟨before, more, whole.symm⟩
  · cases more with
    | nil =>
      rw [List.append_nil] at whole
      exact .inl ⟨before, [], by rw [List.append_nil, whole]⟩
    | cons d more =>
      obtain ⟨rfl, behind⟩ := List.cons.inj rest
      rcases List.append_eq_append_iff.mp whole with ⟨left, -, part⟩ | ⟨left, -, part⟩
      · exact absurd (by rw [part]; simp) absent
      · cases left with
        | nil => exact absurd (by rw [← List.nil_append u, ← part]; simp) absent
        | cons e left =>
          obtain ⟨-, part⟩ := List.cons.inj part
          exact .inr ⟨left, after, by rw [behind, part]; rfl⟩

theorem Bounded.within {s t : Text} (bounded : Bounded sep mark n t) (inside : s <:+: t) :
    Bounded sep mark n s := fun u part => bounded u (part.trans inside)

theorem Bounded.of_unmarked {s : Text} (absent : mark ∉ s) : Bounded sep mark n s :=
  fun _ part _ marked => absurd (part.subset marked) absent

theorem Bounded.of_length {s : Text} (short : s.length ≤ n) : Bounded sep mark n s :=
  fun _ part _ _ => part.length_le.trans short

theorem Bounded.split {a b : Text} {c : Char} (isSep : sep c = true)
    (first : Bounded sep mark n a) (second : Bounded sep mark n b) :
    Bounded sep mark n (a ++ c :: b) := by
  intro u part plain marked
  have absent : c ∉ u := fun member => by
    rw [plain c member] at isSep
    cases isSep
  rcases infix_split absent part with left | right
  · exact first u left plain marked
  · exact second u right plain marked

/-- What is cut out of a text is a part of it. -/
theorem cutOut_part {opening : Text} {ends : Text → Option Nat} {skip : Nat} {s piece : Text}
    (member : piece ∈ cutOut opening ends skip s) : piece <:+: s := by
  induction s generalizing skip with
  | nil => cases skip <;> cases member
  | cons c s ih =>
    have later : ∀ {skip}, piece ∈ cutOut opening ends skip s → piece <:+: c :: s :=
      fun inside => (ih inside).trans (List.suffix_cons c s).isInfix
    cases skip with
    | succ skip => exact later member
    | zero =>
      rw [cutOut] at member
      split at member
      · split at member
        · cases member
        · rename_i n _
          rcases List.mem_cons.mp member with rfl | inside
          · exact (List.take_prefix n _).isInfix
          · exact later inside
      · exact later member

/-! ## Replacing -/

theorem length_replaceFrom (short : rep.length ≤ pat.length) (skip : Nat) (s : Text) :
    (replaceFrom pat rep skip s).length ≤ s.length - skip := by
  induction s generalizing skip with
  | nil => simp [replaceFrom]
  | cons c s ih =>
    cases skip with
    | succ skip =>
      have behind := ih skip
      rw [replaceFrom, List.length_cons]
      omega
    | zero =>
      rw [replaceFrom]
      by_cases found : startsWith pat (c :: s) = true
      · obtain ⟨rest, shape⟩ := startsWith_iff.mp found
        have sizes := congrArg List.length shape
        have behind := ih (pat.length - 1)
        rw [List.length_append] at sizes
        rw [if_pos found, List.length_append]
        simp only [List.length_cons] at sizes ⊢
        omega
      · have behind := ih 0
        rw [if_neg found]
        simp only [List.length_cons]
        omega

/-- A text does not get longer when patterns are replaced by nothing longer. -/
theorem length_replace_le (short : rep.length ≤ pat.length) (s : Text) :
    (replace pat rep s).length ≤ s.length := length_replaceFrom short 0 s

theorem mem_replaceFrom {skip : Nat} {s : Text} {c : Char}
    (member : c ∈ replaceFrom pat rep skip s) : c ∈ s ∨ c ∈ rep := by
  induction s generalizing skip with
  | nil => cases skip <;> cases member
  | cons d s ih =>
    have later : ∀ {skip}, c ∈ replaceFrom pat rep skip s → c ∈ d :: s ∨ c ∈ rep := fun inside =>
      (ih inside).imp_left (List.mem_cons_of_mem d)
    cases skip with
    | succ skip => exact later member
    | zero =>
      rw [replaceFrom] at member
      split at member
      · rcases List.mem_append.mp member with new | inside
        · exact .inr new
        · exact later inside
      · rcases List.mem_cons.mp member with rfl | inside
        · exact .inl List.mem_cons_self
        · exact later inside

/-- Replacing does not mark a part, nor make one longer. -/
theorem Bounded.replace {s : Text} (filled : pat ≠ []) (plain : ∀ c ∈ pat, sep c = false)
    (unmarked : mark ∉ rep) (short : rep.length ≤ pat.length) (bounded : Bounded sep mark n s) :
    Bounded sep mark n (replace pat rep s) := by
  induction size : s.length using Nat.strongRecOn generalizing s with
  | ind size ih =>
    by_cases parted : ∃ c ∈ s, sep c = true
    · -- what stands around a separator is treated apart
      obtain ⟨c, member, isSep⟩ := parted
      obtain ⟨a, b, rfl⟩ := List.append_of_mem member
      have other : c ∉ pat := fun inside => by
        rw [plain c inside] at isSep
        cases isSep
      rw [List.length_append, List.length_cons] at size
      rw [replace_split filled other]
      refine .split isSep (ih a.length (by omega) (bounded.within ?_) rfl)
        (ih b.length (by omega) (bounded.within ?_) rfl)
      · exact (List.prefix_append a _).isInfix
      · exact ⟨a ++ [c], [], by simp⟩
    · have whole : ∀ c ∈ s, sep c = false := fun c member =>
        Bool.eq_false_iff.mpr fun isSep => parted ⟨c, member, isSep⟩
      intro u part _ marked
      have here : mark ∈ s := (mem_replaceFrom (part.subset marked)).resolve_right unmarked
      exact part.length_le.trans ((length_replace_le short s).trans
        (bounded s (List.infix_refl s) whole here))

/-- Taking out a pattern that is there makes a text shorter. -/
theorem length_replace_lt {s : Text} (filled : pat ≠ []) (found : contains pat s = true) :
    (Text.replace pat [] s).length < s.length := by
  obtain ⟨i, first⟩ := find_of_contains filled found
  obtain ⟨rest, shape, -⟩ := find_split filled first
  have size : (s.take i).length = i := by
    have fits := find_fits filled first
    rw [List.length_take]
    omega
  have kept : Text.replace pat [] s = s.take i ++ Text.replace pat [] (pat ++ rest) := by
    conv => lhs; rw [shape]
    refine replace_append fun before after parts some_char => ?_
    have shorter : before.length < i := by
      have lengths := congrArg List.length parts
      have some_length := List.length_pos_iff.mpr some_char
      rw [size, List.length_append] at lengths
      omega
    have there := find_first first shorter
    rwa [shape, parts, List.append_assoc, List.drop_left] at there
  have whole := congrArg List.length shape
  have behind := @length_replace_le pat [] (Nat.zero_le _) rest
  have some_pat := List.length_pos_iff.mpr filled
  rw [List.length_append, List.length_append, size] at whole
  rw [kept, replace_occurrence filled, List.nil_append, List.length_append, size]
  omega

end Devit.Text
