import Devit.Library.Replace

/-! Searching a text for a pattern, and cutting out the parts that lie between an opening
and its end. A pattern is not found across a place that its inner characters do not fit,
so a text put together at such places is searched part by part. -/
namespace Devit.Text

/-- `str::find` for a pattern that is not empty, counted in characters. -/
def find (pat : Text) : Text → Option Nat
  | [] => none
  | c :: cs => if startsWith pat (c :: cs) then some 0 else (find pat cs).map (· + 1)

/-- `&s[i..j]`: nothing where the language panics. -/
def slice (s : Text) (i j : Nat) : Option Text :=
  if i ≤ j ∧ j ≤ s.length then some ((s.take j).drop i) else none

/-- The parts of a text that begin with an opening and are as long as is said, one behind
the other, until one has no end. The number is of characters to skip. -/
def cutOut (opening : Text) (ends : Text → Option Nat) : Nat → Text → List Text
  | _, [] => []
  | skip + 1, _ :: cs => cutOut opening ends skip cs
  | 0, c :: cs =>
    if startsWith opening (c :: cs) then
      match ends (c :: cs) with
      | none => []
      | some n => (c :: cs).take n :: cutOut opening ends (n - 1) cs
    else cutOut opening ends 0 cs

variable {pat opening : Text} {ends : Text → Option Nat}

theorem slice_append (a m b : Text) :
    slice (a ++ (m ++ b)) a.length (a.length + m.length) = some m := by
  have fits : a.length ≤ a.length + m.length ∧ a.length + m.length ≤ (a ++ (m ++ b)).length := by
    simp only [List.length_append]
    omega
  rw [slice, if_pos fits, ← List.append_assoc, ← List.length_append, List.take_left,
    List.drop_left]

/-! ## Across two parts -/

/-- A pattern found at the beginning of two parts lies in the first, or reaches into the
second. -/
theorem startsWith_parts {a b : Text} (found : startsWith pat (a ++ b) = true) :
    startsWith pat a = true ∨ ∃ more, more ≠ [] ∧ pat = a ++ more ∧ more <+: b := by
  obtain ⟨rest, shape⟩ := startsWith_iff.mp found
  rcases List.append_eq_append_iff.mp shape with ⟨more, whole, inside⟩ | ⟨more, whole, -⟩
  · by_cases none : more = []
    · refine .inl ?_
      rw [whole, none, List.append_nil]
      simpa using startsWith_append a []
    · exact .inr ⟨more, none, whole, ⟨rest, inside.symm⟩⟩
  · exact .inl (startsWith_iff.mpr ⟨more, whole⟩)

theorem startsWith_first {a : Text} (b : Text) (found : startsWith pat a = true) :
    startsWith pat (a ++ b) = true := by
  obtain ⟨rest, rfl⟩ := startsWith_iff.mp found
  rw [List.append_assoc]
  exact startsWith_append pat _

/-- What follows does not continue the pattern. -/
def Stops (pat b : Text) : Prop := ∀ c ∈ b.head?, c ∉ pat.tail

theorem stops_nil (pat : Text) : Stops pat [] := by
  rintro c ⟨⟩

/-- What was before is not continued by the pattern. -/
def Closes (pat a : Text) : Prop := ∀ c ∈ a.getLast?, c ∉ pat.dropLast

theorem startsWith_stops {a b : Text} (some_char : a ≠ []) (stops : Stops pat b) :
    startsWith pat (a ++ b) = startsWith pat a := by
  rw [Bool.eq_iff_iff]
  refine ⟨fun found => ?_, startsWith_first b⟩
  rcases startsWith_parts found with first | ⟨more, filled, shape, rest, rfl⟩
  · exact first
  · cases a with
    | nil => exact absurd rfl some_char
    | cons d a =>
      cases more with
      | nil => exact absurd rfl filled
      | cons c more => exact absurd (by rw [shape]; simp) (stops c rfl)

theorem startsWith_closes {a b : Text} (some_char : a ≠ []) (closes : Closes pat a) :
    startsWith pat (a ++ b) = startsWith pat a := by
  rw [Bool.eq_iff_iff]
  refine ⟨fun found => ?_, startsWith_first b⟩
  rcases startsWith_parts found with first | ⟨more, filled, shape, -⟩
  · exact first
  · have last := closes _ (List.getLast?_eq_some_getLast some_char)
    rw [shape, List.dropLast_append_of_ne_nil filled] at last
    exact absurd (List.mem_append_left _ (List.getLast_mem some_char)) last

theorem contains_nil (filled : pat ≠ []) : contains pat [] = false := by
  cases pat with
  | nil => exact absurd rfl filled
  | cons c cs => rfl

theorem contains_stops (filled : pat ≠ []) (a : Text) {b : Text} (stops : Stops pat b) :
    contains pat (a ++ b) = (contains pat a || contains pat b) := by
  induction a with
  | nil => rw [List.nil_append, contains_nil filled, Bool.false_or]
  | cons c a ih =>
    have here := startsWith_stops (List.cons_ne_nil c a) stops
    rw [List.cons_append] at here ⊢
    rw [contains, contains, here, ih, Bool.or_assoc]

theorem Closes.tail {c d : Char} {a : Text} (closes : Closes pat (c :: d :: a)) :
    Closes pat (d :: a) := fun last member => closes last (by rwa [List.getLast?_cons_cons])

theorem contains_closes (filled : pat ≠ []) {a : Text} (b : Text) (closes : Closes pat a) :
    contains pat (a ++ b) = (contains pat a || contains pat b) := by
  induction a with
  | nil => rw [List.nil_append, contains_nil filled, Bool.false_or]
  | cons c a ih =>
    have here := @startsWith_closes _ _ b (List.cons_ne_nil c a) closes
    rw [List.cons_append] at here ⊢
    have behind : contains pat (a ++ b) = (contains pat a || contains pat b) := by
      cases a with
      | nil => rw [List.nil_append, contains_nil filled, Bool.false_or]
      | cons d a => exact ih closes.tail
    rw [contains, contains, here, behind, Bool.or_assoc]

/-! ## Finding and cutting out -/

theorem startsWith_of_absent {a : Text} {c : Char} (absent : contains pat (c :: a) = false) :
    startsWith pat (c :: a) = false ∧ contains pat a = false := by
  simpa [contains] using absent

theorem find_behind {a b : Text} (absent : contains pat a = false) (stops : Stops pat b) :
    find pat (a ++ b) = (find pat b).map (· + a.length) := by
  induction a with
  | nil => simp
  | cons c a ih =>
    obtain ⟨here, behind⟩ := startsWith_of_absent absent
    rw [← startsWith_stops (List.cons_ne_nil c a) stops, List.cons_append] at here
    rw [List.cons_append, find, if_neg (by rw [here]; exact Bool.false_ne_true), ih behind,
      Option.map_map]
    congr 1

theorem find_here (filled : pat ≠ []) (b : Text) : find pat (pat ++ b) = some 0 := by
  cases pat with
  | nil => exact absurd rfl filled
  | cons c cs =>
    have found := startsWith_append (c :: cs) b
    rw [List.cons_append] at found
    rw [List.cons_append, find, if_pos found]

/-- A pattern whose first character is not met again is found where it stands. -/
theorem find_append (filled : pat ≠ []) {a : Text} (b : Text) (absent : contains pat a = false)
    (once : Stops pat pat) : find pat (a ++ (pat ++ b)) = some a.length := by
  have stops : Stops pat (pat ++ b) := by
    intro c member
    rw [List.head?_append_of_ne_nil _ filled] at member
    exact once c member
  rw [find_behind absent stops, find_here filled, Option.map_some, Nat.zero_add]

theorem find_absent {s : Text} (absent : contains pat s = false) : find pat s = none := by
  induction s with
  | nil => rfl
  | cons c s ih =>
    obtain ⟨here, behind⟩ := startsWith_of_absent absent
    rw [find, if_neg (by rw [here]; exact Bool.false_ne_true), ih behind, Option.map_none]

theorem contains_iff {s : Text} : contains pat s = true ↔ pat <:+: s := by
  induction s with
  | nil =>
    rw [contains, startsWith_iff]
    constructor
    · rintro ⟨rest, shape⟩
      exact ⟨[], rest, shape.symm⟩
    · rintro ⟨before, rest, shape⟩
      exact ⟨rest, by simp_all⟩
  | cons c s ih =>
    rw [contains, Bool.or_eq_true, ih, startsWith_iff, List.infix_cons_iff]
    refine or_congr ⟨?_, ?_⟩ Iff.rfl
    · rintro ⟨rest, shape⟩
      exact ⟨rest, shape.symm⟩
    · rintro ⟨rest, shape⟩
      exact ⟨rest, shape.symm⟩

theorem contains_of_find {s : Text} (filled : pat ≠ []) (unfound : find pat s = none) :
    contains pat s = false := by
  induction s with
  | nil => exact contains_nil filled
  | cons c s ih =>
    rw [find] at unfound
    split at unfound
    · cases unfound
    · rename_i other
      rw [contains, ih (Option.map_eq_none_iff.mp unfound), Bool.or_false]
      exact Bool.eq_false_iff.mpr other

theorem find_found {s : Text} {i : Nat} (found : find pat s = some i) :
    startsWith pat (s.drop i) = true := by
  induction s generalizing i with
  | nil => cases found
  | cons c s ih =>
    rw [find] at found
    split at found
    · rename_i here
      cases found
      exact here
    · obtain ⟨place, later, rfl⟩ := Option.map_eq_some_iff.mp found
      exact ih later

theorem find_first {s : Text} {i j : Nat} (found : find pat s = some i) (before : j < i) :
    startsWith pat (s.drop j) = false := by
  induction s generalizing i j with
  | nil => cases found
  | cons c s ih =>
    rw [find] at found
    split at found
    · cases found
      exact absurd before (Nat.not_lt_zero j)
    · rename_i other
      obtain ⟨place, later, rfl⟩ := Option.map_eq_some_iff.mp found
      cases j with
      | zero => exact Bool.eq_false_iff.mpr other
      | succ j => exact ih later (Nat.lt_of_succ_lt_succ before)

theorem find_le {s : Text} {j : Nat} (filled : pat ≠ []) (here : startsWith pat (s.drop j) = true) :
    ∃ i ≤ j, find pat s = some i := by
  cases found : find pat s with
  | none =>
    have inside : pat <:+: s := by
      obtain ⟨rest, shape⟩ := startsWith_iff.mp here
      exact ⟨s.take j, rest, by rw [List.append_assoc, ← shape, List.take_append_drop]⟩
    have absent := contains_of_find filled found
    rw [contains_iff.mpr inside] at absent
    cases absent
  | some i =>
    refine ⟨i, Nat.not_lt.mp fun behind => ?_, rfl⟩
    rw [find_first found behind] at here
    cases here

theorem startsWith_length {s : Text} (here : startsWith pat s = true) : pat.length ≤ s.length := by
  obtain ⟨rest, rfl⟩ := startsWith_iff.mp here
  rw [List.length_append]
  exact Nat.le_add_right _ _

theorem find_fits {s : Text} {i : Nat} (filled : pat ≠ []) (found : find pat s = some i) :
    i + pat.length ≤ s.length := by
  have fits := startsWith_length (find_found found)
  have size := List.length_pos_iff.mpr filled
  rw [List.length_drop] at fits
  omega

theorem contains_of_found {s : Text} {i : Nat} (found : find pat s = some i) :
    contains pat s = true := by
  by_contra absent
  rw [find_absent (Bool.eq_false_iff.mpr absent)] at found
  cases found

theorem find_of_contains {s : Text} (filled : pat ≠ []) (inside : contains pat s = true) :
    ∃ i, find pat s = some i := by
  cases found : find pat s with
  | some i => exact ⟨i, rfl⟩
  | none =>
    rw [contains_of_find filled found] at inside
    cases inside

/-- A text around the first place where a pattern is found. -/
theorem find_split {s : Text} {i : Nat} (filled : pat ≠ []) (found : find pat s = some i) :
    ∃ rest, s = s.take i ++ (pat ++ rest) ∧ contains pat (s.take i) = false := by
  obtain ⟨rest, shape⟩ := startsWith_iff.mp (find_found found)
  refine ⟨rest, by rw [← shape, List.take_append_drop], Bool.eq_false_iff.mpr fun inside => ?_⟩
  obtain ⟨j, earlier⟩ := find_of_contains filled inside
  have fits := find_fits filled earlier
  have size := List.length_pos_iff.mpr filled
  rw [List.length_take] at fits
  have here : startsWith pat (s.drop j) = true := by
    have first := startsWith_first (s.drop i) (find_found earlier)
    rwa [← List.drop_append_of_le_length (by rw [List.length_take]; omega),
      List.take_append_drop] at first
  rw [find_first found (by omega)] at here
  cases here

theorem cutOut_skip (part rest : Text) :
    cutOut opening ends part.length (part ++ rest) = cutOut opening ends 0 rest := by
  induction part with
  | nil => rfl
  | cons c part ih => exact ih

/-- A part in which the opening is not found is passed. -/
theorem cutOut_behind {a b : Text} (absent : contains opening a = false)
    (stops : Stops opening b) : cutOut opening ends 0 (a ++ b) = cutOut opening ends 0 b := by
  induction a with
  | nil => rfl
  | cons c a ih =>
    obtain ⟨here, behind⟩ := startsWith_of_absent absent
    rw [← startsWith_stops (List.cons_ne_nil c a) stops, List.cons_append] at here
    rw [List.cons_append, cutOut, if_neg (by rw [here]; exact Bool.false_ne_true), ih behind]

theorem cutOut_absent {s : Text} (absent : contains opening s = false) :
    cutOut opening ends 0 s = [] := by
  have passed := @cutOut_behind _ ends _ _ absent (stops_nil opening)
  rw [List.append_nil] at passed
  rw [passed, cutOut]

/-- A part that begins with the opening and ends where it is said to is cut out. -/
theorem cutOut_piece {piece rest : Text} (some_char : piece ≠ [])
    (opens : startsWith opening piece = true)
    (closed : ends (piece ++ rest) = some piece.length) :
    cutOut opening ends 0 (piece ++ rest) = piece :: cutOut opening ends 0 rest := by
  cases piece with
  | nil => exact absurd rfl some_char
  | cons c piece =>
    have found := startsWith_first rest opens
    rw [List.cons_append] at found closed
    rw [List.cons_append, cutOut, if_pos found, closed]
    simp only [List.length_cons, List.take_succ_cons, List.take_left, Nat.add_sub_cancel,
      cutOut_skip]

/-- A part that is cut out begins with the opening, and is as long as is said. -/
theorem mem_cutOut {skip : Nat} {s piece : Text} (member : piece ∈ cutOut opening ends skip s) :
    ∃ rest n, startsWith opening rest = true ∧ ends rest = some n ∧ piece = rest.take n := by
  induction s generalizing skip with
  | nil => cases skip <;> cases member
  | cons c s ih =>
    cases skip with
    | succ skip => exact ih member
    | zero =>
      rw [cutOut] at member
      split at member
      · rename_i opens
        cases ended : ends (c :: s) with
        | none =>
          rw [ended] at member
          cases member
        | some n =>
          rw [ended] at member
          rcases List.mem_cons.mp member with rfl | later
          · exact ⟨c :: s, n, opens, ended, rfl⟩
          · exact ih later
      · exact ih member

/-! ## Work on each part -/

theorem mapM_each {m : Type → Type} [Monad m] [LawfulMonad m] {α β : Type} {f : α → m β}
    {g : α → β} {xs : List α} (each : ∀ x ∈ xs, f x = pure (g x)) :
    xs.mapM f = pure (xs.map g) := by
  induction xs with
  | nil => rfl
  | cons x xs ih =>
    obtain ⟨head, later⟩ := List.forall_mem_cons.mp each
    rw [List.mapM_cons, head, pure_bind, ih later, pure_bind, List.map_cons]

theorem mapM_isSome {α β : Type} {f : α → Option β} {xs : List α} :
    (xs.mapM f).isSome = true ↔ ∀ x ∈ xs, (f x).isSome = true := by
  induction xs with
  | nil => simp
  | cons x xs ih =>
    rw [List.mapM_cons, List.forall_mem_cons, ← ih]
    cases f x with
    | none => simp
    | some y => cases xs.mapM f <;> simp

/-! ## One of several patterns -/

/-- A pattern that lies in the first of two parts is found there. -/
theorem find_shrink {a b : Text} {k : Nat} (filled : pat ≠ [])
    (found : find pat (a ++ b) = some k) (inside : k + pat.length ≤ a.length) :
    find pat a = some k := by
  have size := List.length_pos_iff.mpr filled
  induction a generalizing k with
  | nil =>
    rw [List.length_nil] at inside
    omega
  | cons c a ih =>
    rw [List.cons_append, find] at found
    by_cases here : startsWith pat (c :: (a ++ b)) = true
    · rw [if_pos here] at found
      cases found
      rcases @startsWith_parts _ (c :: a) b here with first | ⟨more, some_more, shape, -⟩
      · rw [find, if_pos first]
      · have longer := List.length_pos_iff.mpr some_more
        rw [shape, List.length_append] at inside
        omega
    · rw [if_neg here] at found
      obtain ⟨place, later, rfl⟩ := Option.map_eq_some_iff.mp found
      have other : ¬ startsWith pat (c :: a) = true := fun first => here (startsWith_first b first)
      have shorter : place + pat.length ≤ a.length := by
        rw [List.length_cons] at inside
        omega
      rw [find, if_neg other, ih later shorter, Option.map_some]

/-- A pattern that is found behind a part is found without it. -/
theorem find_drop {a b : Text} {k : Nat} (found : find pat (a ++ b) = some (a.length + k)) :
    find pat b = some k := by
  induction a with
  | nil => simpa using found
  | cons c a ih =>
    rw [List.cons_append, find] at found
    split at found
    · simp at found
      omega
    · obtain ⟨place, later, same⟩ := Option.map_eq_some_iff.mp found
      rw [List.length_cons] at same
      exact ih (by rw [later, show place = a.length + k by omega])

/-- None of the patterns is found. -/
def Free (pats : List Text) (s : Text) : Prop := ∀ pat ∈ pats, contains pat s = false

instance (pats : List Text) (s : Text) : Decidable (Free pats s) :=
  inferInstanceAs (Decidable (∀ pat ∈ pats, contains pat s = false))

theorem Free.within {pats : List Text} {s t : Text} (free : Free pats t) (inside : s <:+: t) :
    Free pats s := by
  intro pat member
  rw [← Bool.not_eq_true, contains_iff]
  intro found
  have whole := contains_iff.mpr (found.trans inside)
  rw [free pat member] at whole
  cases whole

theorem Free.of_subset {pats pats' : List Text} {s : Text} (free : Free pats' s)
    (subset : pats ⊆ pats') : Free pats s := fun pat member => free pat (subset member)

theorem Free.absent {pats : List Text} {s : Text} (free : Free pats s) (member : pat ∈ pats) :
    ¬ pat <:+: s := by
  rw [← contains_iff, free pat member]
  exact Bool.false_ne_true

/-- The place and the length of the first of some patterns that is found at all: in the
order of the list, not of the text. -/
def findAny (pats : List Text) (s : Text) : Option (Nat × Nat) :=
  pats.findSome? fun pat => (find pat s).map fun place => (place, pat.length)

variable {pats : List Text}

theorem findAny_free {s : Text} (free : Free pats s) : findAny pats s = none :=
  List.findSome?_eq_none_iff.mpr fun pat member => by rw [find_absent (free pat member)]; rfl

theorem findAny_eq_none {s : Text} (filled : ∀ pat ∈ pats, pat ≠ []) (none : findAny pats s = none) :
    Free pats s := by
  intro pat member
  have unfound := List.findSome?_eq_none_iff.mp none pat member
  exact contains_of_find (filled pat member) (Option.map_eq_none_iff.mp unfound)

theorem findAny_cons (pat : Text) (s : Text) :
    findAny (pat :: pats) s =
      match find pat s with
      | some place => some (place, pat.length)
      | none => findAny pats s := by
  rw [findAny, List.findSome?_cons]
  cases find pat s <;> rfl

theorem findAny_shrink {a b : Text} {k n : Nat} (filled : ∀ pat ∈ pats, pat ≠ [])
    (found : findAny pats (a ++ b) = some (k, n)) (inside : k + n ≤ a.length) :
    findAny pats a = some (k, n) := by
  induction pats with
  | nil => cases found
  | cons pat pats ih =>
    have some_char := filled pat List.mem_cons_self
    rw [findAny_cons] at found ⊢
    cases first : find pat (a ++ b) with
    | some place =>
      rw [first] at found
      cases found
      rw [find_shrink some_char first inside]
    | none =>
      rw [first] at found
      have absent := contains_of_find some_char first
      have front : Free [pat] a := Free.within (t := a ++ b) (by simpa [Free] using absent)
        (List.prefix_append a b).isInfix
      rw [find_absent (front pat List.mem_cons_self)]
      exact ih (fun other member => filled other (List.mem_cons_of_mem _ member)) found

theorem findAny_drop {a b : Text} {k n : Nat} (filled : ∀ pat ∈ pats, pat ≠ [])
    (found : findAny pats (a ++ b) = some (a.length + k, n)) : findAny pats b = some (k, n) := by
  induction pats with
  | nil => cases found
  | cons pat pats ih =>
    have some_char := filled pat List.mem_cons_self
    rw [findAny_cons] at found ⊢
    cases first : find pat (a ++ b) with
    | some place =>
      rw [first] at found
      simp only [Option.some.injEq, Prod.mk.injEq] at found
      obtain ⟨rfl, rfl⟩ := found
      rw [find_drop first]
    | none =>
      rw [first] at found
      have absent := contains_of_find some_char first
      have back : Free [pat] b := Free.within (t := a ++ b) (by simpa [Free] using absent)
        (List.suffix_append a b).isInfix
      rw [find_absent (back pat List.mem_cons_self)]
      exact ih (fun other member => filled other (List.mem_cons_of_mem _ member)) found

end Devit.Text
