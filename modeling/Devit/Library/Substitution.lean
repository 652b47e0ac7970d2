import Devit.Library.Replace

/-! Replacing several patterns in a text at once, and one after the other. The patterns open
with a mark that they have nowhere else, and none begins another, so their occurrences in a
text lie apart. Replacing one more pattern afterwards is replacing it at once exactly where
the values that were put in bring about no occurrence of it. -/
namespace Devit.Text

/-- The value of the first pattern that a text begins with. -/
def ruleAt (rules : List (Text × Text)) (s : Text) : Option (Text × Text) :=
  rules.find? fun rule => startsWith rule.1 s

/-- The loop of `substitute`, with so many characters to skip. -/
def substituteFrom (rules : List (Text × Text)) : Nat → Text → Text
  | _, [] => []
  | skip + 1, _ :: cs => substituteFrom rules skip cs
  | 0, c :: cs =>
    match ruleAt rules (c :: cs) with
    | some (pat, value) => value ++ substituteFrom rules (pat.length - 1) cs
    | none => c :: substituteFrom rules 0 cs

/-- Every occurrence of a pattern is replaced by its value, all at once. -/
def substitute (rules : List (Text × Text)) (s : Text) : Text := substituteFrom rules 0 s

/-- How often the pattern begins in a text. -/
def occurrences (pat : Text) : Text → Nat
  | [] => 0
  | c :: cs => (if startsWith pat (c :: cs) then 1 else 0) + occurrences pat cs

/-- The pattern opens with the mark and has no other. -/
def Marked (mark : Char) (pat : Text) : Prop := ∃ tail, pat = mark :: tail ∧ mark ∉ tail

/-- Neither pattern begins the other. -/
def Apart (pat other : Text) : Prop := ¬ pat <+: other ∧ ¬ other <+: pat

variable {mark : Char} {pat value : Text} {rules : List (Text × Text)}

/-! ## Occurrences -/

theorem Marked.ne_nil (marked : Marked mark pat) : pat ≠ [] := by
  obtain ⟨tail, rfl, -⟩ := marked
  exact List.cons_ne_nil _ _

theorem Marked.starts_not (marked : Marked mark pat) {c : Char} (other : c ≠ mark) (cs : Text) :
    startsWith pat (c :: cs) = false := by
  obtain ⟨tail, rfl, -⟩ := marked
  exact startsWith_head_ne (Ne.symm other)

/-- A text begins with one of two patterns at most that lie apart. -/
theorem Apart.starts_not {other : Text} (apart : Apart pat other) (rest : Text) :
    startsWith pat (other ++ rest) = false := by
  rw [Bool.eq_false_iff]
  intro starts
  obtain ⟨more, shape⟩ := startsWith_iff.mp starts
  have begins : pat <+: other ++ rest := ⟨more, shape.symm⟩
  rcases List.prefix_or_prefix_of_prefix begins (List.prefix_append other rest) with first | second
  · exact apart.1 first
  · exact apart.2 second

theorem Apart.symm {other : Text} (apart : Apart pat other) : Apart other pat :=
  ⟨apart.2, apart.1⟩

theorem occurrences_plain (marked : Marked mark pat) {part : Text} (plain : mark ∉ part)
    (rest : Text) : occurrences pat (part ++ rest) = occurrences pat rest := by
  induction part with
  | nil => rfl
  | cons c part ih =>
    rw [List.mem_cons, not_or] at plain
    rw [List.cons_append, occurrences, marked.starts_not (Ne.symm plain.1), ih plain.2]
    simp

theorem occurrences_own (marked : Marked mark pat) (rest : Text) :
    occurrences pat (pat ++ rest) = 1 + occurrences pat rest := by
  obtain ⟨tail, shape, plain⟩ := marked
  have starts := startsWith_append pat rest
  have later := @occurrences_plain mark pat ⟨tail, shape, plain⟩ tail plain rest
  rw [shape, List.cons_append] at starts ⊢
  rw [occurrences, if_pos starts, ← shape, later]

theorem occurrences_other (marked : Marked mark pat) {other : Text} (marked' : Marked mark other)
    (apart : Apart pat other) (rest : Text) :
    occurrences pat (other ++ rest) = occurrences pat rest := by
  obtain ⟨tail, rfl, plain⟩ := marked'
  have starts := apart.starts_not rest
  rw [List.cons_append] at starts ⊢
  rw [occurrences, starts, occurrences_plain marked plain]
  simp

theorem occurrences_append_le (part rest : Text) :
    occurrences pat rest ≤ occurrences pat (part ++ rest) := by
  induction part with
  | nil => exact Nat.le_refl _
  | cons c part ih =>
    rw [List.cons_append, occurrences]
    omega

/-- Where a part adds no occurrence, none begins in it. -/
theorem occurrences_append_eq {part rest : Text}
    (same : occurrences pat (part ++ rest) = occurrences pat rest) :
    ∀ before after, part = before ++ after → after ≠ [] → startsWith pat (after ++ rest) = false := by
  induction part with
  | nil =>
    intro before after shape filled
    exact absurd (List.append_eq_nil_iff.mp shape.symm).2 filled
  | cons c part ih =>
    rw [List.cons_append, occurrences] at same
    have least := @occurrences_append_le pat part rest
    intro before after shape filled
    cases before with
    | nil =>
      rw [List.nil_append] at shape
      rw [← shape, List.cons_append, Bool.eq_false_iff]
      intro starts
      rw [if_pos starts] at same
      omega
    | cons d before =>
      refine ih ?_ before after (List.cons.inj shape).2 filled
      split at same <;> omega

/-! ## Replacing at once -/

theorem substituteFrom_skip (part rest : Text) :
    substituteFrom rules part.length (part ++ rest) = substitute rules rest := by
  induction part with
  | nil => rfl
  | cons c part ih => exact ih

theorem substitute_rule {rest : Text} (filled : pat ≠ [])
    (found : ruleAt rules (pat ++ rest) = some (pat, value)) :
    substitute rules (pat ++ rest) = value ++ substitute rules rest := by
  obtain ⟨c, cs, rfl⟩ := List.exists_cons_of_ne_nil filled
  rw [List.cons_append] at found
  rw [substitute, List.cons_append, substituteFrom, found]
  exact congrArg (value ++ ·) (substituteFrom_skip cs rest)

theorem substitute_cons {c : Char} {s : Text} (none_found : ruleAt rules (c :: s) = none) :
    substitute rules (c :: s) = c :: substitute rules s := by
  rw [substitute, substituteFrom, none_found]
  rfl

/-- Replacing one pattern is replacing it at once. -/
theorem replace_eq_substitute (s : Text) : replace pat value s = substitute [(pat, value)] s := by
  have every : ∀ skip, replaceFrom pat value skip s = substituteFrom [(pat, value)] skip s := by
    induction s with
    | nil =>
      intro skip
      cases skip <;> rfl
    | cons c s ih =>
      intro skip
      cases skip with
      | succ skip => exact ih skip
      | zero =>
        rw [replaceFrom, substituteFrom, ruleAt, List.find?_singleton]
        split
        · rw [ih]
        · rw [ih]
  exact every 0

/-- The patterns are marked and lie apart from the one in question. -/
structure Distinct (mark : Char) (pat : Text) (rules : List (Text × Text)) : Prop where
  marked : Marked mark pat
  others : ∀ rule ∈ rules, Marked mark rule.1 ∧ Apart pat rule.1

/-- How a text goes on: with a pattern, or with a character that begins none. -/
theorem rule_cases (rules : List (Text × Text)) (s : Text) : s = [] ∨
    (∃ rule ∈ rules, ∃ rest, s = rule.1 ++ rest ∧ ruleAt rules s = some rule) ∨
    ∃ c rest, s = c :: rest ∧ ruleAt rules s = none := by
  cases s with
  | nil => exact .inl rfl
  | cons c rest =>
    cases found : ruleAt rules (c :: rest) with
    | none => exact .inr (.inr ⟨c, rest, rfl, rfl⟩)
    | some rule =>
      have starts : startsWith rule.1 (c :: rest) = true :=
        List.find?_some (p := fun rule : Text × Text => startsWith rule.1 (c :: rest)) found
      obtain ⟨more, shape⟩ := startsWith_iff.mp starts
      exact .inr (.inl ⟨rule, List.mem_of_find?_eq_some found, more, shape, rfl⟩)

/-- A pattern that is not replaced is kept. -/
theorem substitute_other (distinct : Distinct mark pat rules) (rest : Text) :
    ruleAt rules (pat ++ rest) = none ∧
      substitute rules (pat ++ rest) = pat ++ substitute rules rest := by
  have marked := distinct.marked
  obtain ⟨tail, shape, plain⟩ := marked
  have kept : ∀ part : Text, mark ∉ part →
      substitute rules (part ++ rest) = part ++ substitute rules rest := by
    intro part
    induction part with
    | nil => exact fun _ => rfl
    | cons c part ih =>
      intro plain
      rw [List.mem_cons, not_or] at plain
      have unfound : ruleAt rules (c :: (part ++ rest)) = none := by
        refine List.find?_eq_none.mpr fun rule member => ?_
        rw [(distinct.others rule member).1.starts_not (Ne.symm plain.1)]
        exact Bool.false_ne_true
      rw [List.cons_append, substitute_cons unfound, ih plain.2, List.cons_append]
  have unfound : ruleAt rules (pat ++ rest) = none := by
    refine List.find?_eq_none.mpr fun rule member => ?_
    rw [(distinct.others rule member).2.symm.starts_not rest]
    exact Bool.false_ne_true
  refine ⟨unfound, ?_⟩
  rw [shape, List.cons_append] at unfound ⊢
  rw [substitute_cons unfound, kept tail plain, List.cons_append]

/-- **Induction over a text** that is cut where a pattern of the rules or the one in question
begins. -/
theorem text_induction (distinct : Distinct mark pat rules) {motive : Text → Prop}
    (empty : motive []) (own : ∀ rest, motive rest → motive (pat ++ rest))
    (other : ∀ rule ∈ rules, ∀ rest, ruleAt rules (rule.1 ++ rest) = some rule →
      motive rest → motive (rule.1 ++ rest))
    (char : ∀ c rest, ruleAt rules (c :: rest) = none → startsWith pat (c :: rest) = false →
      motive rest → motive (c :: rest)) (s : Text) : motive s := by
  induction size : s.length using Nat.strongRecOn generalizing s with
  | ind size ih =>
    have shorter : ∀ part rest : Text, part ≠ [] → s = part ++ rest → motive rest := by
      rintro part rest filled rfl
      refine ih rest.length ?_ rest rfl
      have some_char := List.length_pos_iff.mpr filled
      rw [← size, List.length_append]
      omega
    cases starts : startsWith pat s with
    | true =>
      obtain ⟨rest, rfl⟩ := startsWith_iff.mp starts
      exact own rest (shorter pat rest distinct.marked.ne_nil rfl)
    | false =>
      rcases rule_cases rules s with rfl | ⟨rule, member, rest, rfl, found⟩ | ⟨c, rest, rfl, unfound⟩
      · exact empty
      · exact other rule member rest found
          (shorter rule.1 rest (distinct.others rule member).1.ne_nil rfl)
      · exact char c rest unfound starts (shorter [c] rest (List.cons_ne_nil _ _) rfl)

/-- The occurrences of a pattern that is not replaced are kept. -/
theorem occurrences_substitute_le (distinct : Distinct mark pat rules) (s : Text) :
    occurrences pat s ≤ occurrences pat (substitute rules s) := by
  induction s using text_induction distinct with
  | empty => exact Nat.zero_le _
  | own rest ih =>
    rw [(substitute_other distinct rest).2, occurrences_own distinct.marked,
      occurrences_own distinct.marked]
    omega
  | other rule member rest found ih =>
    obtain ⟨marked, apart⟩ := distinct.others rule member
    rw [substitute_rule marked.ne_nil found, occurrences_other distinct.marked marked apart]
    exact Nat.le_trans ih (occurrences_append_le _ _)
  | char c rest unfound starts ih =>
    rw [substitute_cons unfound, occurrences, starts, occurrences]
    simp only [Bool.false_eq_true, if_false]
    omega

/-- With one more rule a text begins with its pattern or goes on as before. -/
theorem ruleAt_concat (s : Text) : ruleAt (rules ++ [(pat, value)]) s =
    (ruleAt rules s).or (if startsWith pat s then some (pat, value) else none) := by
  rw [ruleAt, List.find?_append, List.find?_singleton]
  rfl

theorem substitute_own (distinct : Distinct mark pat rules) (rest : Text) :
    substitute (rules ++ [(pat, value)]) (pat ++ rest) =
      value ++ substitute (rules ++ [(pat, value)]) rest := by
  refine substitute_rule distinct.marked.ne_nil ?_
  rw [ruleAt_concat, (substitute_other distinct rest).1, if_pos (startsWith_append pat rest)]
  rfl

theorem substitute_found {rule : Text × Text} {rest : Text} (filled : rule.1 ≠ [])
    (found : ruleAt rules (rule.1 ++ rest) = some rule) :
    substitute (rules ++ [(pat, value)]) (rule.1 ++ rest) =
      rule.2 ++ substitute (rules ++ [(pat, value)]) rest := by
  refine substitute_rule filled ?_
  rw [ruleAt_concat, found]
  rfl

theorem substitute_char {c : Char} {rest : Text} (unfound : ruleAt rules (c :: rest) = none)
    (starts : startsWith pat (c :: rest) = false) :
    substitute (rules ++ [(pat, value)]) (c :: rest) =
      c :: substitute (rules ++ [(pat, value)]) rest := by
  refine substitute_cons ?_
  rw [ruleAt_concat, unfound, starts]
  rfl

/-- **One more pattern.** Where no value brings about an occurrence of it, replacing it
afterwards is replacing it at once. -/
theorem replace_substitute (distinct : Distinct mark pat rules) (s : Text)
    (own : occurrences pat (substitute rules s) = occurrences pat s) :
    replace pat value (substitute rules s) = substitute (rules ++ [(pat, value)]) s := by
  induction s using text_induction distinct with
  | empty => rfl
  | own rest ih =>
    rw [(substitute_other distinct rest).2] at own ⊢
    rw [occurrences_own distinct.marked, occurrences_own distinct.marked] at own
    rw [replace_occurrence distinct.marked.ne_nil, substitute_own distinct, ih (by omega)]
  | other rule member rest found ih =>
    obtain ⟨marked, apart⟩ := distinct.others rule member
    rw [substitute_rule marked.ne_nil found, occurrences_other distinct.marked marked apart] at own
    have least := occurrences_substitute_le distinct rest
    have most := @occurrences_append_le pat rule.2 (substitute rules rest)
    rw [substitute_rule marked.ne_nil found, substitute_found marked.ne_nil found,
      replace_append (occurrences_append_eq (by omega)), ih (by omega)]
  | char c rest unfound starts ih =>
    rw [substitute_cons unfound, occurrences, occurrences, starts] at own
    simp only [Bool.false_eq_true, if_false] at own
    have least := occurrences_substitute_le distinct rest
    have plain : startsWith pat (c :: substitute rules rest) = false := by
      rw [Bool.eq_false_iff]
      intro begins
      rw [if_pos begins] at own
      omega
    rw [plain] at own
    rw [substitute_cons unfound, substitute_char unfound starts, replace_cons plain,
      ih (by simpa using own)]

/-- A value without the mark takes one mark away with each occurrence. -/
theorem count_substitute (distinct : Distinct mark pat rules) (plain : mark ∉ value) (s : Text) :
    (substitute (rules ++ [(pat, value)]) s).count mark + occurrences pat s =
      (substitute rules s).count mark := by
  have single : pat.count mark = 1 := by
    obtain ⟨tail, rfl, once⟩ := distinct.marked
    rw [List.count_cons_self, List.count_eq_zero.mpr once]
  induction s using text_induction distinct with
  | empty => rfl
  | own rest ih =>
    rw [(substitute_other distinct rest).2, substitute_own distinct, List.count_append,
      List.count_append, single, occurrences_own distinct.marked, List.count_eq_zero.mpr plain]
    omega
  | other rule member rest found ih =>
    obtain ⟨marked, apart⟩ := distinct.others rule member
    rw [substitute_rule marked.ne_nil found, substitute_found marked.ne_nil found,
      List.count_append, List.count_append, occurrences_other distinct.marked marked apart]
    omega
  | char c rest unfound starts ih =>
    rw [substitute_cons unfound, substitute_char unfound starts, List.count_cons, List.count_cons,
      occurrences, starts]
    simp only [Bool.false_eq_true, if_false]
    omega

end Devit.Text
