import Devit.Library.Text
import Mathlib.Data.List.Induction
import Mathlib.Tactic.IntervalCases

/-! JSON values and the compact text they are written as. Objects are lists of
fields sorted by key, floating-point numbers are given by the text they are written
as. The text of a value gives the value back, whatever follows it. -/
namespace Devit
open Text

/-! ## Values -/

def isNumberChar (c : Char) : Bool := c.isDigit || c ∈ ['.', 'e', '+', '-']

/-- Whether a text is one that a floating-point number is written as. -/
def isFloatText (s : Text) : Bool :=
  s.all isNumberChar && s.any (· ∈ ['.', 'e']) &&
    s.head?.any fun c => c.isDigit || c == '-'

/-- A floating-point number, by its text. -/
structure FloatText where
  text : Text
  valid : isFloatText text = true
  deriving DecidableEq

inductive Json where
  | null
  | bool (b : Bool)
  | unsigned (n : UInt64)
  /-- The number `-1 - n`. -/
  | negative (n : Fin (2 ^ 63))
  | float (x : FloatText)
  | string (s : Text)
  | array (items : List Json)
  | object (fields : List (Text × Json))
  deriving Inhabited

namespace Json

/-- `Value::get` for a key. -/
def get (key : Text) : Json → Option Json
  | .object fields => (fields.find? (·.1 == key)).map Prod.snd
  | _ => none

def asStr : Json → Option Text
  | .string s => some s
  | _ => none

def asU64 : Json → Option UInt64
  | .unsigned n => some n
  | _ => none

def asArray : Json → Option (List Json)
  | .array items => some items
  | _ => none

/-- `Map::insert`: the fields stay sorted by their keys. -/
def insertField (key : Text) (value : Json) : List (Text × Json) → List (Text × Json)
  | [] => [(key, value)]
  | (k, v) :: fields =>
    if key = k then (key, value) :: fields
    else if List.lex key k (fun a b => decide (a < b)) then (key, value) :: (k, v) :: fields
    else (k, v) :: insertField key value fields

/-- What is found after a field was inserted. -/
theorem find_insertField (key other : Text) (value : Json) (fields : List (Text × Json)) :
    (insertField key value fields).find? (·.1 == other) =
      if other = key then some (key, value) else fields.find? (·.1 == other) := by
  induction fields with
  | nil =>
    by_cases same : other = key
    · simp [insertField, same]
    · simp [insertField, same, Ne.symm same]
  | cons entry fields ih =>
    obtain ⟨k, v⟩ := entry
    unfold insertField
    by_cases same : other = key
    · subst same
      by_cases here : other = k
      · simp [here]
      · simp only [here, if_false, if_true]
        split
        · simp
        · rw [List.find?_cons_of_neg (by simpa using Ne.symm here), ih, if_pos rfl]
    · rw [if_neg same] at ih ⊢
      split
      · rename_i here
        subst here
        rw [List.find?_cons_of_neg (by simpa using Ne.symm same),
          List.find?_cons_of_neg (by simpa using Ne.symm same)]
      · split
        · rw [List.find?_cons_of_neg (by simpa using Ne.symm same)]
        · rw [List.find?_cons, List.find?_cons, ih]

/-- `json!` of an object. -/
def ofFields (fields : List (String × Json)) : Json :=
  .object (fields.foldl (fun built field => insertField field.1.toList field.2 built) [])

/-- A field of a built object is the last one given under its name. -/
theorem get_ofFields (key : Text) (fields : List (String × Json)) :
    (ofFields fields).get key = (fields.reverse.find? (·.1.toList == key)).map Prod.snd := by
  induction fields using List.reverseRecOn with
  | nil => rfl
  | append_singleton fields field ih =>
    have built : ofFields (fields ++ [field]) = .object (insertField field.1.toList field.2
        (fields.foldl (fun built field => insertField field.1.toList field.2 built) [])) := by
      simp only [ofFields, List.foldl_append, List.foldl_cons, List.foldl_nil]
    rw [built, List.reverse_append, List.reverse_singleton, List.singleton_append, List.find?_cons]
    simp only [get, find_insertField]
    by_cases same : key = field.1.toList
    · simp [same]
    · simp only [same, if_false, beq_false_of_ne (Ne.symm same)]
      exact ih

/-- `json!` of an optional value. -/
def ofOption : Option Json → Json
  | some value => value
  | none => .null

/-! ## Writing -/

/-- A digit below sixteen, in lower case. -/
def hexDigit (n : Nat) : Char := if n < 10 then Char.ofNat (48 + n) else Char.ofNat (87 + n)

def escapeChar (c : Char) : Text :=
  if c = '"' then ['\\', '"']
  else if c = '\\' then ['\\', '\\']
  else if c.toNat = 8 then ['\\', 'b']
  else if c.toNat = 12 then ['\\', 'f']
  else if c.toNat = 10 then ['\\', 'n']
  else if c.toNat = 13 then ['\\', 'r']
  else if c.toNat = 9 then ['\\', 't']
  else if c.toNat < 32 then
    ['\\', 'u', '0', '0', hexDigit (c.toNat / 16), hexDigit (c.toNat % 16)]
  else [c]

def renderString (s : Text) : Text := '"' :: (s.flatMap escapeChar ++ ['"'])

mutual

/-- `serde_json::to_string`. -/
def render : Json → Text
  | .null => "null".toList
  | .bool true => "true".toList
  | .bool false => "false".toList
  | .unsigned n => printNat n.toNat
  | .negative n => '-' :: printNat (n + 1)
  | .float x => x.text
  | .string s => renderString s
  | .array [] => "[]".toList
  | .array (item :: items) => '[' :: (render item ++ renderItems items)
  | .object [] => ['{', '}']
  | .object ((key, value) :: fields) =>
    '{' :: (renderString key ++ ':' :: (render value ++ renderFields fields))

/-- The items behind the first one. -/
def renderItems : List Json → Text
  | [] => [']']
  | item :: items => ',' :: (render item ++ renderItems items)

def renderFields : List (Text × Json) → Text
  | [] => ['}']
  | (key, value) :: fields =>
    ',' :: (renderString key ++ ':' :: (render value ++ renderFields fields))

end

/-! ## Reading a value back -/

/-- What follows a value does not continue a number. -/
def Ends (rest : Text) : Prop := ∀ c ∈ rest.head?, isNumberChar c = false

def isNumber : Json → Bool
  | .unsigned _ => true
  | .negative _ => true
  | .float _ => true
  | _ => false

theorem isNumberChar_of_digit {c : Char} (digit : c.isDigit = true) : isNumberChar c = true := by
  simp [isNumberChar, digit]

/-- A number is written with the characters of numbers only. -/
theorem number_chars {v : Json} (number : v.isNumber = true) :
    ∀ c ∈ v.render, isNumberChar c = true := by
  intro c member
  cases v with
  | unsigned n =>
    simp only [render] at member
    exact isNumberChar_of_digit (printNat_isDigit member)
  | negative n =>
    simp only [render] at member
    rcases List.mem_cons.mp member with rfl | digit
    · decide
    · exact isNumberChar_of_digit (printNat_isDigit digit)
  | float x =>
    have valid := x.valid
    simp only [isFloatText, Bool.and_eq_true, List.all_eq_true] at valid
    simp only [render] at member
    exact valid.1.1 c member
  | null => cases number
  | bool b => cases number
  | string s => cases number
  | array items => cases number
  | object fields => cases number

/-- A number ends where its characters do. -/
theorem takeWhile_number {s rest : Text} (chars : ∀ c ∈ s, isNumberChar c = true)
    (ends : Ends rest) : (s ++ rest).takeWhile isNumberChar = s := by
  rw [List.takeWhile_append_of_pos chars]
  cases rest with
  | nil => simp
  | cons c rest => simp [ends c rfl]

/-- A text of digits, with a sign or without, is not one of a floating-point number. -/
theorem not_float {s : Text} (chars : ∀ c ∈ s, c = '-' ∨ c.isDigit = true) :
    isFloatText s = false := by
  have plain : s.any (· ∈ ['.', 'e']) = false := by
    refine List.any_eq_false.mpr fun c member => ?_
    simp only [List.mem_cons, List.not_mem_nil, or_false, decide_eq_true_eq, not_or]
    constructor
    · rintro rfl
      exact absurd (chars _ member) (by decide)
    · rintro rfl
      exact absurd (chars _ member) (by decide)
  simp only [isFloatText, plain, Bool.and_false, Bool.false_and]

theorem digits_not_float {n : Nat} : isFloatText (printNat n) = false :=
  not_float fun _ member => .inr (printNat_isDigit member)

theorem negative_not_float {n : Nat} : isFloatText ('-' :: printNat n) = false := by
  refine not_float fun c member => ?_
  rcases List.mem_cons.mp member with sign | digit
  · exact .inl sign
  · exact .inr (printNat_isDigit digit)

theorem digits_not_negative {n m : Nat} : printNat n ≠ '-' :: printNat m := by
  intro same
  have sign : '-' ∈ printNat n := by rw [same]; exact List.mem_cons_self
  exact absurd (printNat_isDigit sign) (by decide)

/-- Two numbers that are written alike are the same. -/
theorem number_injective {v w : Json} (left : v.isNumber = true) (right : w.isNumber = true)
    (same : v.render = w.render) : v = w := by
  cases v <;> cases w <;> simp only [isNumber, Bool.false_eq_true] at left right <;>
    simp only [render] at same
  case unsigned.unsigned n m => rw [UInt64.toNat.inj (printNat_injective same)]
  case unsigned.negative n m => exact absurd same digits_not_negative
  case unsigned.float n x =>
    have valid := x.valid
    rw [← same, digits_not_float] at valid
    cases valid
  case negative.unsigned n m => exact absurd same.symm digits_not_negative
  case negative.negative n m =>
    have equal := printNat_injective (List.cons.inj same).2
    rw [Fin.ext (Nat.add_right_cancel equal)]
  case negative.float n x =>
    have valid := x.valid
    rw [← same, negative_not_float] at valid
    cases valid
  case float.unsigned x n =>
    have valid := x.valid
    rw [same, digits_not_float] at valid
    cases valid
  case float.negative x n =>
    have valid := x.valid
    rw [same, negative_not_float] at valid
    cases valid
  case float.float x y =>
    cases x
    cases y
    cases same
    rfl

/-! ### Strings -/

def hexValue (c : Char) : Nat := if c.isDigit then c.toNat - 48 else c.toNat - 87

/-- One character of a string, and what follows it. -/
def unescape : Text → Option (Char × Text)
  | '\\' :: 'b' :: rest => some (Char.ofNat 8, rest)
  | '\\' :: 'f' :: rest => some (Char.ofNat 12, rest)
  | '\\' :: 'n' :: rest => some (Char.ofNat 10, rest)
  | '\\' :: 'r' :: rest => some (Char.ofNat 13, rest)
  | '\\' :: 't' :: rest => some (Char.ofNat 9, rest)
  | '\\' :: 'u' :: _ :: _ :: high :: low :: rest =>
    some (Char.ofNat (16 * hexValue high + hexValue low), rest)
  | '\\' :: c :: rest => some (c, rest)
  | '"' :: _ => none
  | c :: rest => some (c, rest)
  | [] => none

theorem hexValue_hexDigit {n : Nat} (small : n < 16) : hexValue (hexDigit n) = n := by
  interval_cases n <;> rfl

theorem unescape_escapeChar (c : Char) (rest : Text) :
    unescape (escapeChar c ++ rest) = some (c, rest) := by
  have known : ∀ n, c.toNat = n → Char.ofNat n = c := by
    rintro n rfl
    exact Char.ofNat_toNat c
  unfold escapeChar
  split
  · rename_i quote
    rw [quote]
    rfl
  split
  · rename_i backslash
    rw [backslash]
    rfl
  split
  · rename_i code
    rw [← known 8 code]
    rfl
  split
  · rename_i code
    rw [← known 12 code]
    rfl
  split
  · rename_i code
    rw [← known 10 code]
    rfl
  split
  · rename_i code
    rw [← known 13 code]
    rfl
  split
  · rename_i code
    rw [← known 9 code]
    rfl
  split
  · rename_i control
    have digits : 16 * (c.toNat / 16) + c.toNat % 16 = c.toNat := Nat.div_add_mod _ _
    simp only [List.cons_append, List.nil_append, unescape]
    rw [hexValue_hexDigit (by omega), hexValue_hexDigit (by omega), digits, known _ rfl]
  · rename_i quote backslash _ _ _ _ _ _
    rw [List.singleton_append]
    unfold unescape
    split <;> simp_all

/-- A written string gives the string back. -/
theorem renderString_injective {s t rest rest' : Text}
    (same : renderString s ++ rest = renderString t ++ rest') : s = t ∧ rest = rest' := by
  simp only [renderString, List.cons_append, List.cons.injEq, true_and, List.append_assoc,
    List.nil_append] at same
  induction s generalizing t with
  | nil =>
    cases t with
    | nil => exact ⟨rfl, by simpa using same⟩
    | cons d ds =>
      have read := congrArg unescape same
      rw [List.flatMap_cons, List.append_assoc, unescape_escapeChar] at read
      cases read
  | cons c cs ih =>
    cases t with
    | nil =>
      have read := congrArg unescape same
      rw [List.flatMap_cons, List.append_assoc, unescape_escapeChar] at read
      cases read
    | cons d ds =>
      have read := congrArg unescape same
      rw [List.flatMap_cons, List.flatMap_cons, List.append_assoc, List.append_assoc,
        unescape_escapeChar, unescape_escapeChar] at read
      simp only [Option.some.injEq, Prod.mk.injEq] at read
      obtain ⟨equal, more⟩ := read
      obtain ⟨equals, ends⟩ := ih more
      exact ⟨by rw [equal, equals], ends⟩

/-! ### Values -/

/-- The kind of a value, as its first character shows it. -/
def kind : Json → Nat
  | .null => 0
  | .bool _ => 1
  | .unsigned _ => 2
  | .negative _ => 2
  | .float _ => 2
  | .string _ => 3
  | .array _ => 4
  | .object _ => 5

def headKind (c : Char) : Nat :=
  if c = 'n' then 0
  else if c = 't' ∨ c = 'f' then 1
  else if c.isDigit ∨ c = '-' then 2
  else if c = '"' then 3
  else if c = '[' then 4
  else if c = '{' then 5
  else 6

theorem headKind_digit {c : Char} (digit : c.isDigit = true) : headKind c = 2 := by
  have other : c ≠ 'n' ∧ c ≠ 't' ∧ c ≠ 'f' := by
    refine ⟨?_, ?_, ?_⟩ <;> rintro rfl <;> exact absurd digit (by decide)
  simp [headKind, other, digit]

theorem render_head (v : Json) : ∃ c rest, v.render = c :: rest ∧ headKind c = v.kind := by
  cases v with
  | null => exact ⟨'n', _, rfl, by decide⟩
  | bool b => cases b <;> exact ⟨_, _, rfl, by decide⟩
  | unsigned n =>
    obtain ⟨c, rest, shape⟩ := List.exists_cons_of_ne_nil (printNat_ne_nil n.toNat)
    refine ⟨c, rest, by rw [render, shape], headKind_digit ?_⟩
    exact printNat_isDigit (n := n.toNat) (by rw [shape]; exact List.mem_cons_self)
  | negative n => exact ⟨'-', _, by rw [render], rfl⟩
  | float x =>
    have valid := x.valid
    simp only [isFloatText, Bool.and_eq_true, Option.any_eq_true, Bool.or_eq_true, beq_iff_eq]
      at valid
    obtain ⟨-, c, first, digit | rfl⟩ := valid
    · obtain ⟨rest, shape⟩ := List.head?_eq_some_iff.mp first
      exact ⟨c, rest, by rw [render, shape], headKind_digit digit⟩
    · obtain ⟨rest, shape⟩ := List.head?_eq_some_iff.mp first
      exact ⟨'-', rest, by rw [render, shape], rfl⟩
  | string s => exact ⟨'"', _, by rw [render, renderString], rfl⟩
  | array items =>
    cases items with
    | nil => exact ⟨'[', [']'], by rw [render]; rfl, rfl⟩
    | cons item items => exact ⟨'[', _, by rw [render], rfl⟩
  | object fields =>
    cases fields with
    | nil => exact ⟨'{', _, by rw [render], rfl⟩
    | cons field fields => exact ⟨'{', _, by rw [render], rfl⟩

theorem kind_of_same {v w : Json} {rest rest' : Text}
    (same : v.render ++ rest = w.render ++ rest') : v.kind = w.kind := by
  obtain ⟨c, more, shape, first⟩ := render_head v
  obtain ⟨c', more', shape', first'⟩ := render_head w
  rw [shape, shape', List.cons_append, List.cons_append] at same
  rw [← first, ← first', (List.cons.inj same).1]

/-- A value does not begin like the end of a list, or what stands between two values. -/
theorem render_ne {v : Json} {c : Char} {rest rest' : Text} (other : headKind c = 6) :
    v.render ++ rest ≠ c :: rest' := by
  intro same
  obtain ⟨d, more, shape, first⟩ := render_head v
  rw [shape, List.cons_append] at same
  rw [(List.cons.inj same).1, other] at first
  cases v <;> cases first

theorem number_of_kind {v : Json} (number : v.kind = 2) : v.isNumber = true := by
  cases v <;> first | rfl | cases number

theorem numbers_of_same {v w : Json} {rest rest' : Text} (left : v.kind = 2) (right : w.kind = 2)
    (ends : Ends rest) (ends' : Ends rest') (same : v.render ++ rest = w.render ++ rest') :
    v = w ∧ rest = rest' := by
  have cut : (v.render ++ rest).takeWhile isNumberChar =
      (w.render ++ rest').takeWhile isNumberChar := by rw [same]
  rw [takeWhile_number (number_chars (number_of_kind left)) ends,
    takeWhile_number (number_chars (number_of_kind right)) ends'] at cut
  refine ⟨number_injective (number_of_kind left) (number_of_kind right) cut, ?_⟩
  rw [cut] at same
  exact List.append_cancel_left same

theorem ends_items (items : List Json) (rest : Text) : Ends (renderItems items ++ rest) := by
  intro c first
  cases items <;> simp [renderItems] at first <;> subst first <;> rfl

theorem ends_fields (fields : List (Text × Json)) (rest : Text) :
    Ends (renderFields fields ++ rest) := by
  intro c first
  cases fields <;> simp [renderFields] at first <;> subst first <;> rfl

mutual

/-- **The text of a value gives the value back**, whatever follows it that does not
continue a number. -/
theorem render_append_injective : ∀ (v w : Json) (rest rest' : Text), Ends rest → Ends rest' →
    v.render ++ rest = w.render ++ rest' → v = w ∧ rest = rest'
  | v, w, rest, rest', ends, ends', same => by
    have alike := kind_of_same same
    match v, w with
    | .null, .null =>
      rw [render] at same
      exact ⟨rfl, List.append_cancel_left same⟩
    | .bool b, .bool b' =>
      cases b <;> cases b' <;> simp [render] at same <;> exact ⟨rfl, same⟩
    | .string s, .string t =>
      simp only [render] at same
      obtain ⟨equal, more⟩ := renderString_injective same
      exact ⟨by rw [equal], more⟩
    | .array [], .array [] =>
      rw [render] at same
      exact ⟨rfl, List.append_cancel_left same⟩
    | .array [], .array (item :: items) =>
      simp only [render, List.cons_append, List.append_assoc] at same
      exact absurd (List.cons.inj same).2.symm (render_ne rfl)
    | .array (item :: items), .array [] =>
      simp only [render, List.cons_append, List.append_assoc] at same
      exact absurd (List.cons.inj same).2 (render_ne rfl)
    | .array (item :: items), .array (item' :: items') =>
      simp only [render, List.cons_append, List.append_assoc, List.cons.injEq, true_and] at same
      obtain ⟨first, more⟩ := render_append_injective item item' _ _ (ends_items items rest)
        (ends_items items' rest') same
      obtain ⟨others, left⟩ := renderItems_injective items items' rest rest' more
      exact ⟨by rw [first, others], left⟩
    | .object [], .object [] =>
      rw [render] at same
      exact ⟨rfl, List.append_cancel_left same⟩
    | .object [], .object ((key, value) :: fields) =>
      simp [render, renderString] at same
    | .object ((key, value) :: fields), .object [] =>
      simp [render, renderString] at same
    | .object ((key, value) :: fields), .object ((key', value') :: fields') =>
      simp only [render, List.cons_append, List.append_assoc, List.cons.injEq, true_and] at same
      obtain ⟨name, after⟩ := renderString_injective same
      obtain ⟨first, more⟩ := render_append_injective value value' _ _ (ends_fields fields rest)
        (ends_fields fields' rest') (List.cons.inj after).2
      obtain ⟨others, left⟩ := renderFields_injective fields fields' rest rest' more
      exact ⟨by rw [name, first, others], left⟩
    | .unsigned n, w => exact numbers_of_same rfl alike.symm ends ends' same
    | .negative n, w => exact numbers_of_same rfl alike.symm ends ends' same
    | .float x, w => exact numbers_of_same rfl alike.symm ends ends' same

theorem renderItems_injective : ∀ (items items' : List Json) (rest rest' : Text),
    renderItems items ++ rest = renderItems items' ++ rest' → items = items' ∧ rest = rest'
  | [], [], rest, rest', same => by
    rw [renderItems] at same
    exact ⟨rfl, List.append_cancel_left same⟩
  | [], item :: items, rest, rest', same => by simp [renderItems] at same
  | item :: items, [], rest, rest', same => by simp [renderItems] at same
  | item :: items, item' :: items', rest, rest', same => by
    simp only [renderItems, List.cons_append, List.append_assoc, List.cons.injEq, true_and] at same
    obtain ⟨first, more⟩ := render_append_injective item item' _ _ (ends_items items rest)
      (ends_items items' rest') same
    obtain ⟨others, left⟩ := renderItems_injective items items' rest rest' more
    exact ⟨by rw [first, others], left⟩

theorem renderFields_injective : ∀ (fields fields' : List (Text × Json)) (rest rest' : Text),
    renderFields fields ++ rest = renderFields fields' ++ rest' → fields = fields' ∧ rest = rest'
  | [], [], rest, rest', same => by
    rw [renderFields] at same
    exact ⟨rfl, List.append_cancel_left same⟩
  | [], (key, value) :: fields, rest, rest', same => by simp [renderFields] at same
  | (key, value) :: fields, [], rest, rest', same => by simp [renderFields] at same
  | (key, value) :: fields, (key', value') :: fields', rest, rest', same => by
    simp only [renderFields, List.cons_append, List.append_assoc, List.cons.injEq, true_and] at same
    obtain ⟨name, after⟩ := renderString_injective same
    obtain ⟨first, more⟩ := render_append_injective value value' _ _ (ends_fields fields rest)
      (ends_fields fields' rest') (List.cons.inj after).2
    obtain ⟨others, left⟩ := renderFields_injective fields fields' rest rest' more
    exact ⟨by rw [name, first, others], left⟩

end

theorem render_injective {v w : Json} (same : v.render = w.render) : v = w := by
  have ends : Ends [] := nofun
  exact (render_append_injective v w [] [] ends ends (by rw [same])).1

end Json

end Devit
