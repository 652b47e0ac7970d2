import Devit.Library.Json

/-! What a reader of a JSON value knows of where it is: how many brackets it is
within, and whether it is in a string. So a written value is not hidden in a string of
another one, a bracketed value is told apart from what stands before it, and one that
was cut off closes its brackets with nothing that is written behind it. -/
namespace Devit
open Text

namespace Json

/-! ## Within brackets -/

/-- Where a reader of a bracketed value is: within some brackets beyond the outermost
ones, and there outside of a string, in one, or behind a backslash; or behind the value. -/
inductive Place where
  | plain (depth : Nat)
  | quoted (depth : Nat)
  | escaped (depth : Nat)
  | behind
  deriving DecidableEq, Repr

/-- The white space between the parts of a value. -/
def isSpace (c : Char) : Bool := c ∈ [' ', '\t', '\n', '\r']

def isOpening (c : Char) : Bool := c ∈ ['[', '{']

def isClosing (c : Char) : Bool := c ∈ [']', '}']

/-- Any other character that may stand outside of strings, but for the quote. -/
def isPlainChar (c : Char) : Bool :=
  isNumberChar c || isSpace c || c ∈ ['E', 'n', 'u', 'l', 't', 'r', 'f', 'a', 's', ',', ':']

/-- Where a closing bracket leads. -/
def outward : Nat → Place
  | 0 => .behind
  | depth + 1 => .plain depth

def next : Place → Char → Option Place
  | .plain depth, c =>
    if c = '"' then some (.quoted depth)
    else if isOpening c then some (.plain (depth + 1))
    else if isClosing c then some (outward depth)
    else if isPlainChar c then some (.plain depth)
    else none
  | .quoted depth, c =>
    some (if c = '"' then .plain depth else if c = '\\' then .escaped depth else .quoted depth)
  | .escaped depth, _ => some (.quoted depth)
  | .behind, c => if isSpace c then some .behind else none

/-- Where a reader is after a text, if it gets so far. -/
def read : Place → Text → Option Place
  | place, [] => some place
  | place, c :: s => (next place c).bind (read · s)

/-- A text that is brackets around something, but for outer spaces. Every text of an
array or an object is. -/
def Bracketed (s : Text) : Prop :=
  ∃ front c rest, s = front ++ c :: rest ∧ (∀ d ∈ front, isSpace d = true) ∧ isOpening c = true ∧
    read (.plain 0) rest = some .behind

theorem read_append (place : Place) (s t : Text) :
    read place (s ++ t) = (read place s).bind (read · t) := by
  induction s generalizing place with
  | nil => rfl
  | cons c s ih =>
    rw [List.cons_append, read, read]
    cases next place c with
    | none => rfl
    | some place' => exact ih place'

theorem next_plain {c : Char} {depth : Nat} (plain : isPlainChar c = true) :
    next (.plain depth) c = some (.plain depth) := by
  have bracket : c ≠ '"' ∧ isOpening c = false ∧ isClosing c = false := by
    simp only [isOpening, isClosing, List.mem_cons, List.not_mem_nil, or_false,
      decide_eq_false_iff_not, not_or]
    refine ⟨?_, ⟨?_, ?_⟩, ?_, ?_⟩ <;> rintro rfl <;> exact absurd plain (by decide)
  simp [next, bracket, plain]

theorem read_plain {s : Text} {depth : Nat} (plain : ∀ c ∈ s, isPlainChar c = true) (rest : Text) :
    read (.plain depth) (s ++ rest) = read (.plain depth) rest := by
  induction s with
  | nil => rfl
  | cons c s ih =>
    rw [List.cons_append, read, next_plain (plain c List.mem_cons_self)]
    exact ih fun d member => plain d (List.mem_cons_of_mem _ member)

theorem read_escapeChar (c : Char) (depth : Nat) :
    read (.quoted depth) (escapeChar c) = some (.quoted depth) := by
  unfold escapeChar
  split
  · rfl
  · rename_i quote
    split
    · rfl
    · rename_i backslash
      have hex : ∀ n, n < 16 → hexDigit n ≠ '"' ∧ hexDigit n ≠ '\\' := by decide
      split_ifs
      · rfl
      · rfl
      · rfl
      · rfl
      · rfl
      · rename_i control
        have high := hex (c.toNat / 16) (by omega)
        have low := hex (c.toNat % 16) (by omega)
        simp [read, next, high, low]
      · simp [read, next, quote, backslash]

theorem read_renderString (s rest : Text) (depth : Nat) :
    read (.plain depth) (renderString s ++ rest) = read (.plain depth) rest := by
  have inside : ∀ t, read (.quoted depth) (s.flatMap escapeChar ++ t) = read (.quoted depth) t := by
    intro t
    induction s with
    | nil => rfl
    | cons c s ih =>
      rw [List.flatMap_cons, List.append_assoc, read_append, read_escapeChar]
      exact ih
  rw [renderString, List.cons_append, List.append_assoc]
  exact inside ('"' :: rest)

theorem isPlainChar_of_number {c : Char} (number : isNumberChar c = true) : isPlainChar c = true := by
  rw [isPlainChar, number, Bool.true_or, Bool.true_or]

theorem read_number {v : Json} (number : v.isNumber = true) (rest : Text) (depth : Nat) :
    read (.plain depth) (v.render ++ rest) = read (.plain depth) rest :=
  read_plain (fun c member => isPlainChar_of_number (number_chars number c member)) rest

mutual

/-- A reader within brackets is where it was behind a value. -/
theorem read_render : ∀ (v : Json) (rest : Text) (depth : Nat),
    read (.plain depth) (v.render ++ rest) = read (.plain depth) rest
  | .null, rest, depth => by rw [render, read_plain (List.all_eq_true.mp (by decide))]
  | .bool b, rest, depth => by
    cases b <;> rw [render, read_plain (List.all_eq_true.mp (by decide))]
  | .unsigned n, rest, depth => read_number rfl rest depth
  | .negative n, rest, depth => read_number rfl rest depth
  | .float x, rest, depth => read_number rfl rest depth
  | .string s, rest, depth => by rw [render, read_renderString]
  | .array [], rest, depth => by
    rw [render]
    rfl
  | .array (item :: items), rest, depth => by
    rw [render, List.cons_append, List.append_assoc]
    exact (read_render item _ _).trans (read_renderItems items rest _)
  | .object [], rest, depth => by
    rw [render]
    rfl
  | .object ((key, value) :: fields), rest, depth => by
    rw [render, List.cons_append, List.append_assoc, List.cons_append, List.append_assoc]
    refine (read_renderString key _ _).trans ?_
    exact (read_render value _ _).trans (read_renderFields fields rest _)

/-- The rest of a list closes its bracket. -/
theorem read_renderItems : ∀ (items : List Json) (rest : Text) (depth : Nat),
    read (.plain depth) (renderItems items ++ rest) = read (outward depth) rest
  | [], rest, depth => rfl
  | item :: items, rest, depth => by
    rw [renderItems, List.cons_append, List.append_assoc]
    exact (read_render item _ _).trans (read_renderItems items rest depth)

theorem read_renderFields : ∀ (fields : List (Text × Json)) (rest : Text) (depth : Nat),
    read (.plain depth) (renderFields fields ++ rest) = read (outward depth) rest
  | [], rest, depth => rfl
  | (key, value) :: fields, rest, depth => by
    rw [renderFields, List.cons_append, List.append_assoc, List.cons_append, List.append_assoc]
    refine (read_renderString key _ _).trans ?_
    exact (read_render value _ _).trans (read_renderFields fields rest depth)

end

/-- Outside of a string. -/
def Place.outside : Place → Bool
  | .plain _ => true
  | .behind => true
  | .quoted _ => false
  | .escaped _ => false

/-- Behind a value there are spaces only, and they leave a string unfinished. -/
theorem read_behind {s : Text} {place : Place} (found : read .behind s = some place) :
    (∀ c ∈ s, isSpace c = true) ∧ ∀ depth, read (.quoted depth) s = some (.quoted depth) := by
  induction s with
  | nil => exact ⟨nofun, fun _ => rfl⟩
  | cons c s ih =>
    rw [read, next] at found
    split at found
    · rename_i space
      obtain ⟨spaces, stays⟩ := ih found
      refine ⟨List.forall_mem_cons.mpr ⟨space, spaces⟩, fun depth => ?_⟩
      have other : c ≠ '"' ∧ c ≠ '\\' := by
        constructor <;> rintro rfl <;> exact absurd space (by decide)
      simp only [read, next, other, if_false, Option.bind_some]
      exact stays depth
    · cases found

/-- No text is read to the end both from outside of a string and from within one. -/
theorem read_opposite {s : Text} {depth depth' : Nat} {place place' : Place}
    (left : read (.plain depth) s = some place) (right : read (.quoted depth') s = some place')
    (outside : place.outside = true) (outside' : place'.outside = true) : False := by
  induction s generalizing depth depth' place place' with
  | nil =>
    cases right
    cases outside'
  | cons c s ih =>
    rw [read] at left right
    by_cases quote : c = '"'
    · subst quote
      exact ih right left outside' outside
    by_cases backslash : c = '\\'
    · subst backslash
      cases left
    simp only [next, quote, backslash, if_false, Option.bind_some] at left right
    by_cases opening : isOpening c = true
    · rw [if_pos opening] at left
      exact ih left right outside outside'
    by_cases closing : isClosing c = true
    · rw [if_neg opening, if_pos closing] at left
      cases depth with
      | zero =>
        rw [(read_behind left).2] at right
        cases right
        cases outside'
      | succ depth => exact ih left right outside outside'
    by_cases plain : isPlainChar c = true
    · rw [if_neg opening, if_neg closing, if_pos plain] at left
      exact ih left right outside outside'
    · rw [if_neg opening, if_neg closing, if_neg plain] at left
      cases left

/-- A character that only strings are written with, and no part of an escape. -/
def isSpecial (c : Char) : Bool :=
  !(isPlainChar c || isOpening c || isClosing c || c ∈ ['"', '\\'])

/-- **Strings hide no values.** Behind a character that only strings are written with,
the rest of a written value is not itself a written value. -/
theorem render_ne_inside {v w : Json} {front : Text} {c : Char} (special : isSpecial c = true) :
    v.render ≠ front ++ c :: w.render := by
  intro same
  have whole : ∀ u : Json, read (.plain 0) u.render = some (.plain 0) := by
    intro u
    have found := read_render u [] 0
    rwa [List.append_nil] at found
  have found := whole v
  simp only [isSpecial, isPlainChar, List.mem_cons, List.not_mem_nil, or_false, Bool.not_eq_true',
    Bool.or_eq_false_iff, decide_eq_false_iff_not, not_or] at special
  obtain ⟨⟨⟨⟨⟨number, space⟩, letters⟩, opening⟩, closing⟩, quote, backslash⟩ := special
  rw [same, read_append] at found
  cases place : read (.plain 0) front with
  | none =>
    rw [place] at found
    cases found
  | some place' =>
    rw [place, Option.bind_some, read] at found
    cases place' with
    | plain depth =>
      simp [next, isPlainChar, number, space, letters, opening, closing, quote] at found
    | quoted depth =>
      simp only [next, quote, backslash, if_false, Option.bind_some] at found
      exact read_opposite (whole w) found rfl rfl
    | escaped depth => exact read_opposite (whole w) found rfl rfl
    | behind => simp [next, space] at found

/-- A written value behind a character that only strings are written with does not
begin later as well. -/
theorem render_starts_once {v w : Json} {front : Text} {c : Char} (special : isSpecial c = true)
    (same : c :: v.render = front ++ c :: w.render) : front = [] ∧ v = w := by
  cases front with
  | nil => exact ⟨rfl, render_injective (List.cons.inj same).2⟩
  | cons d front => exact absurd (List.cons.inj same).2 (render_ne_inside special)

/-- **What stands before a value is told apart from it**, when a character that only
strings are written with stands between them. -/
theorem append_render_injective {v w : Json} {front front' : Text} {c : Char}
    (special : isSpecial c = true) (same : front ++ c :: v.render = front' ++ c :: w.render) :
    front = front' ∧ v = w := by
  rcases List.append_eq_append_iff.mp same with ⟨more, shape, rest⟩ | ⟨more, shape, rest⟩
  · obtain ⟨rfl, equal⟩ := render_starts_once special rest
    exact ⟨by rw [shape, List.append_nil], equal⟩
  · obtain ⟨rfl, equal⟩ := render_starts_once special rest
    exact ⟨by rw [shape, List.append_nil], equal.symm⟩

/-- An array or an object. -/
def isCompound : Json → Bool
  | .array _ => true
  | .object _ => true
  | _ => false

/-- The text of an array or an object is one pair of brackets. -/
theorem render_compound {v : Json} (compound : v.isCompound = true) : ∃ c rest,
    v.render = c :: rest ∧ isOpening c = true ∧ read (.plain 0) rest = some .behind := by
  cases v with
  | array items =>
    cases items with
    | nil => exact ⟨'[', [']'], by rw [render]; rfl, rfl, rfl⟩
    | cons item items =>
      refine ⟨'[', item.render ++ renderItems items, by rw [render], rfl, ?_⟩
      rw [read_render, ← List.append_nil (renderItems items), read_renderItems]
      rfl
  | object fields =>
    cases fields with
    | nil => exact ⟨'{', ['}'], by rw [render], rfl, rfl⟩
    | cons field fields =>
      refine ⟨'{', renderString field.1 ++ ':' :: (field.2.render ++ renderFields fields),
        by rw [render], rfl, ?_⟩
      rw [read_renderString, ← List.append_nil (renderFields fields), ← List.append_assoc]
      refine Eq.trans ?_ ((read_render field.2 (renderFields fields ++ []) 0).trans ?_)
      · rw [List.append_assoc]
        rfl
      · rw [read_renderFields]
        rfl
  | null => cases compound
  | bool b => cases compound
  | unsigned n => cases compound
  | negative n => cases compound
  | float x => cases compound
  | string s => cases compound

/-- **A bracketed value is no end of another one.** -/
theorem compound_suffix {v w : Json} {front : Text} (left : v.isCompound = true)
    (right : w.isCompound = true) (same : v.render = front ++ w.render) : front = [] ∧ v = w := by
  cases front with
  | nil => exact ⟨rfl, render_injective same⟩
  | cons c front =>
    obtain ⟨d, rest, shape, opening, whole⟩ := render_compound left
    obtain ⟨e, rest', shape', opening', whole'⟩ := render_compound right
    rw [shape] at same
    have behind : rest = front ++ w.render := (List.cons.inj same).2
    rw [behind, shape', read_append] at whole
    cases place : read (.plain 0) front with
    | none =>
      rw [place] at whole
      cases whole
    | some place' =>
      rw [place, Option.bind_some] at whole
      have notQuote : e ≠ '"' ∧ e ≠ '\\' ∧ isSpace e = false := by
        simp only [isOpening, List.mem_cons, List.not_mem_nil, or_false, decide_eq_true_eq]
          at opening'
        rcases opening' with rfl | rfl <;> decide
      cases place' with
      | plain depth =>
        rw [← shape', ← List.append_nil w.render, read_render] at whole
        cases whole
      | quoted depth =>
        simp only [read, next, notQuote, if_false, Option.bind_some] at whole
        exact (read_opposite whole' whole rfl rfl).elim
      | escaped depth => exact (read_opposite whole' whole rfl rfl).elim
      | behind => simp [read, next, notQuote] at whole

/-! ### The end of a value -/

theorem renderItems_last : ∀ items, ∃ front, renderItems items = front ++ [']']
  | [] => ⟨[], rfl⟩
  | item :: items => by
    obtain ⟨front, shape⟩ := renderItems_last items
    exact ⟨',' :: (item.render ++ front), by simp [renderItems, shape]⟩

theorem renderFields_last : ∀ fields, ∃ front, renderFields fields = front ++ ['}']
  | [] => ⟨[], rfl⟩
  | (key, value) :: fields => by
    obtain ⟨front, shape⟩ := renderFields_last fields
    exact ⟨',' :: (renderString key ++ ':' :: (value.render ++ front)), by simp [renderFields, shape]⟩

/-- Exactly the bracketed values end in a closing bracket. -/
theorem render_last (v : Json) :
    ∃ front c, v.render = front ++ [c] ∧ (isClosing c = true ↔ v.isCompound = true) := by
  have number : ∀ u : Json, u.isNumber = true → u.render ≠ [] →
      ∃ front c, u.render = front ++ [c] ∧ isClosing c = false := by
    intro u isNumber someChar
    refine ⟨u.render.dropLast, u.render.getLast someChar,
      (List.dropLast_append_getLast someChar).symm, ?_⟩
    have char := number_chars isNumber _ (List.getLast_mem someChar)
    simp only [isClosing, List.mem_cons, List.not_mem_nil, or_false, decide_eq_false_iff_not]
    rintro (bracket | bracket) <;> rw [bracket] at char <;> exact absurd char (by decide)
  have someChar : v.render ≠ [] := by
    obtain ⟨c, rest, shape, -⟩ := render_head v
    rw [shape]
    exact List.cons_ne_nil _ _
  cases v with
  | null => exact ⟨['n', 'u', 'l'], 'l', rfl, by decide⟩
  | bool b =>
    cases b with
    | false => exact ⟨['f', 'a', 'l', 's'], 'e', rfl, by decide⟩
    | true => exact ⟨['t', 'r', 'u'], 'e', rfl, by decide⟩
  | unsigned n =>
    obtain ⟨front, c, shape, other⟩ := number (.unsigned n) rfl someChar
    exact ⟨front, c, shape, by simp [other, isCompound]⟩
  | negative n =>
    obtain ⟨front, c, shape, other⟩ := number (.negative n) rfl someChar
    exact ⟨front, c, shape, by simp [other, isCompound]⟩
  | float x =>
    obtain ⟨front, c, shape, other⟩ := number (.float x) rfl someChar
    exact ⟨front, c, shape, by simp [other, isCompound]⟩
  | string s => exact ⟨'"' :: s.flatMap escapeChar, '"', by rw [render]; rfl, by simp [isCompound, isClosing]⟩
  | array items =>
    cases items with
    | nil => exact ⟨['['], ']', by rw [render]; rfl, by decide⟩
    | cons item items =>
      obtain ⟨front, shape⟩ := renderItems_last items
      exact ⟨'[' :: (item.render ++ front), ']', by simp [render, shape], by simp [isCompound]; rfl⟩
  | object fields =>
    cases fields with
    | nil => exact ⟨['{'], '}', by rw [render]; rfl, by decide⟩
    | cons field fields =>
      obtain ⟨front, shape⟩ := renderFields_last fields
      exact ⟨'{' :: (renderString field.1 ++ ':' :: (field.2.render ++ front)), '}',
        by simp [render, shape], by simp [isCompound]; rfl⟩

/-- **A bracketed value is told apart from what stands before it.** -/
theorem append_compound_injective {v w : Json} {front front' : Text} (compound : v.isCompound = true)
    (same : front ++ v.render = front' ++ w.render) : front = front' ∧ v = w := by
  have right : w.isCompound = true := by
    obtain ⟨more, c, shape, closes⟩ := render_last v
    obtain ⟨more', c', shape', closes'⟩ := render_last w
    rw [shape, shape', ← List.append_assoc, ← List.append_assoc] at same
    have last : c = c' := by simpa using congrArg List.getLast? same
    rw [← closes', ← last, closes]
    exact compound
  rcases List.append_eq_append_iff.mp same with ⟨more, shape, rest⟩ | ⟨more, shape, rest⟩
  · obtain ⟨rfl, equal⟩ := compound_suffix compound right rest
    exact ⟨by rw [shape, List.append_nil], equal⟩
  · obtain ⟨rfl, equal⟩ := compound_suffix right compound rest
    exact ⟨by rw [shape, List.append_nil], equal.symm⟩

/-! ### Cut values -/

/-- The same place within more brackets. -/
def Place.deepen (more : Nat) : Place → Place
  | .plain depth => .plain (depth + more + 1)
  | .quoted depth => .quoted (depth + more + 1)
  | .escaped depth => .escaped (depth + more + 1)
  | .behind => .plain more

theorem isSpace_plain {c : Char} (space : isSpace c = true) : isPlainChar c = true := by
  rw [isPlainChar, space, Bool.or_true, Bool.true_or]

theorem next_deepen {place place' : Place} {c : Char} (more : Nat)
    (found : next place c = some place') :
    next (place.deepen more) c = some (place'.deepen more) := by
  cases place with
  | plain depth =>
    simp only [next, Place.deepen] at found ⊢
    by_cases quote : c = '"'
    · rw [if_pos quote] at found ⊢
      cases found
      rfl
    by_cases opening : isOpening c = true
    · rw [if_neg quote, if_pos opening] at found ⊢
      cases found
      simp only [Option.some.injEq, Place.plain.injEq]
      omega
    by_cases closing : isClosing c = true
    · rw [if_neg quote, if_neg opening, if_pos closing] at found ⊢
      cases found
      cases depth with
      | zero => simp [outward]
      | succ depth =>
        simp only [outward, Option.some.injEq, Place.plain.injEq]
        omega
    by_cases plain : isPlainChar c = true
    · rw [if_neg quote, if_neg opening, if_neg closing, if_pos plain] at found ⊢
      cases found
      rfl
    · rw [if_neg quote, if_neg opening, if_neg closing, if_neg plain] at found
      cases found
  | quoted depth =>
    simp only [next, Place.deepen, Option.some.injEq] at found ⊢
    subst found
    split_ifs <;> rfl
  | escaped depth =>
    cases found
    rfl
  | behind =>
    simp only [next] at found
    split at found
    · rename_i space
      cases found
      exact next_plain (isSpace_plain space)
    · cases found

/-- What is read within some brackets is read within more of them alike. -/
theorem read_deepen {s : Text} {place place' : Place} (more : Nat)
    (found : read place s = some place') : read (place.deepen more) s = some (place'.deepen more) := by
  induction s generalizing place with
  | nil =>
    cases found
    rfl
  | cons c s ih =>
    rw [read] at found ⊢
    cases step : next place c with
    | none =>
      rw [step] at found
      cases found
    | some place'' =>
      rw [step] at found
      rw [next_deepen more step]
      exact ih found

/-- The outermost bracket closes at the end of a bracketed text, not before. -/
theorem read_proper {front back : Text} {c : Char} (other : isSpace c = false)
    (whole : read (.plain 0) (front ++ (back ++ [c])) = some .behind) :
    read (.plain 0) front ≠ some .behind := by
  intro early
  rw [read_append, early, Option.bind_some] at whole
  have spaces := (read_behind whole).1 c (List.mem_append_right _ (List.mem_singleton.mpr rfl))
  rw [other] at spaces
  cases spaces

/-! ### Control characters -/

theorem escapeChar_printable {c d : Char} (member : d ∈ escapeChar c) : 32 ≤ d.toNat := by
  have hex : ∀ n, n < 16 → 32 ≤ (hexDigit n).toNat := by decide
  unfold escapeChar at member
  split_ifs at member with quote backslash code code code code code control <;>
    simp only [List.mem_cons, List.not_mem_nil, or_false] at member
  · rcases member with rfl | rfl <;> decide
  · rcases member with rfl | rfl <;> decide
  · rcases member with rfl | rfl <;> decide
  · rcases member with rfl | rfl <;> decide
  · rcases member with rfl | rfl <;> decide
  · rcases member with rfl | rfl <;> decide
  · rcases member with rfl | rfl <;> decide
  · rcases member with rfl | rfl | rfl | rfl | rfl | rfl
    · decide
    · decide
    · decide
    · decide
    · exact hex _ (by omega)
    · exact hex _ (by omega)
  · subst member
    omega

theorem renderString_printable {s : Text} {c : Char} (member : c ∈ renderString s) :
    32 ≤ c.toNat := by
  simp only [renderString, List.mem_cons, List.mem_append, List.mem_flatMap, List.not_mem_nil,
    or_false] at member
  rcases member with rfl | ⟨d, -, inside⟩ | rfl
  · decide
  · exact escapeChar_printable inside
  · decide

theorem isNumberChar_printable {c : Char} (number : isNumberChar c = true) : 32 ≤ c.toNat := by
  simp only [isNumberChar, Bool.or_eq_true, List.mem_cons, List.not_mem_nil, or_false,
    decide_eq_true_eq] at number
  rcases number with digit | rfl | rfl | rfl | rfl
  · simp only [Char.isDigit, Bool.and_eq_true, decide_eq_true_eq, ge_iff_le,
      UInt32.le_iff_toNat_le] at digit
    have low : 48 ≤ c.toNat := digit.1
    omega
  · decide
  · decide
  · decide
  · decide

private theorem printable_of_all {s : Text} (all : s.all fun c => decide (32 ≤ c.toNat)) :
    ∀ c ∈ s, 32 ≤ c.toNat :=
  fun c member => of_decide_eq_true (List.all_eq_true.mp all c member)

mutual

/-- A value is written on one line, without control characters. -/
theorem render_printable : ∀ (v : Json), ∀ c ∈ v.render, 32 ≤ c.toNat
  | .null => printable_of_all rfl
  | .bool b => by cases b <;> exact printable_of_all rfl
  | .unsigned n => fun c member => isNumberChar_printable (number_chars rfl c member)
  | .negative n => fun c member => isNumberChar_printable (number_chars rfl c member)
  | .float x => fun c member => isNumberChar_printable (number_chars rfl c member)
  | .string s => fun c member => by
    rw [render] at member
    exact renderString_printable member
  | .array [] => printable_of_all rfl
  | .array (item :: items) => fun c member => by
    simp only [render, List.mem_cons, List.mem_append] at member
    rcases member with rfl | inside | inside
    · decide
    · exact render_printable item c inside
    · exact renderItems_printable items c inside
  | .object [] => printable_of_all rfl
  | .object ((key, value) :: fields) => fun c member => by
    simp only [render, List.mem_cons, List.mem_append] at member
    rcases member with rfl | inside | rfl | inside | inside
    · decide
    · exact renderString_printable inside
    · decide
    · exact render_printable value c inside
    · exact renderFields_printable fields c inside

theorem renderItems_printable : ∀ (items : List Json), ∀ c ∈ renderItems items, 32 ≤ c.toNat
  | [] => printable_of_all rfl
  | item :: items => fun c member => by
    simp only [renderItems, List.mem_cons, List.mem_append] at member
    rcases member with rfl | inside | inside
    · decide
    · exact render_printable item c inside
    · exact renderItems_printable items c inside

theorem renderFields_printable : ∀ (fields : List (Text × Json)), ∀ c ∈ renderFields fields,
    32 ≤ c.toNat
  | [] => printable_of_all rfl
  | (key, value) :: fields => fun c member => by
    simp only [renderFields, List.mem_cons, List.mem_append] at member
    rcases member with rfl | inside | rfl | inside | inside
    · decide
    · exact renderString_printable inside
    · decide
    · exact render_printable value c inside
    · exact renderFields_printable fields c inside

end

end Json

end Devit
