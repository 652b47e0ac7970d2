import Devit.Library.Json
import Devit.Library.Replace

/-! The keys of the objects within a value, and renaming them. In the text of a value,
a quoted name with a colon behind it is a key of that name and nothing else, so
replacing it renames the key: what strings hold is not mistaken for one. -/
namespace Devit
open Text

namespace Json

mutual

/-- The keys of all objects within a value. -/
def keys : Json → List Text
  | .array items => keysOfItems items
  | .object fields => keysOfFields fields
  | _ => []

def keysOfItems : List Json → List Text
  | [] => []
  | item :: items => keys item ++ keysOfItems items

def keysOfFields : List (Text × Json) → List Text
  | [] => []
  | (key, value) :: fields => key :: (keys value ++ keysOfFields fields)

end

mutual

/-- The value with its keys renamed, each where it stands. -/
def renameKeys (f : Text → Text) : Json → Json
  | .array items => .array (renameItems f items)
  | .object fields => .object (renameFields f fields)
  | v => v

def renameItems (f : Text → Text) : List Json → List Json
  | [] => []
  | item :: items => renameKeys f item :: renameItems f items

def renameFields (f : Text → Text) : List (Text × Json) → List (Text × Json)
  | [] => []
  | (key, value) :: fields => (f key, renameKeys f value) :: renameFields f fields

end

variable {f g : Text → Text}

/-! ## Renaming -/

mutual

theorem keys_renameKeys : ∀ v : Json, (v.renameKeys f).keys = v.keys.map f
  | .null | .bool _ | .unsigned _ | .negative _ | .float _ | .string _ => rfl
  | .array items => by
    simp only [renameKeys, keys]
    exact keys_renameItems items
  | .object fields => by
    simp only [renameKeys, keys]
    exact keys_renameFields fields

theorem keys_renameItems : ∀ items : List Json,
    keysOfItems (renameItems f items) = (keysOfItems items).map f
  | [] => rfl
  | item :: items => by
    simp only [renameItems, keysOfItems, List.map_append]
    rw [keys_renameKeys item, keys_renameItems items]

theorem keys_renameFields : ∀ fields : List (Text × Json),
    keysOfFields (renameFields f fields) = (keysOfFields fields).map f
  | [] => rfl
  | (key, value) :: fields => by
    simp only [renameFields, keysOfFields, List.map_append, List.map_cons]
    rw [keys_renameKeys value, keys_renameFields fields]

end

mutual

theorem renameKeys_renameKeys : ∀ v : Json,
    (v.renameKeys f).renameKeys g = v.renameKeys (fun key => g (f key))
  | .null | .bool _ | .unsigned _ | .negative _ | .float _ | .string _ => rfl
  | .array items => congrArg Json.array (renameItems_renameItems items)
  | .object fields => congrArg Json.object (renameFields_renameFields fields)

theorem renameItems_renameItems : ∀ items : List Json,
    renameItems g (renameItems f items) = renameItems (fun key => g (f key)) items
  | [] => rfl
  | item :: items => by
    simp only [renameItems]
    rw [renameKeys_renameKeys item, renameItems_renameItems items]

theorem renameFields_renameFields : ∀ fields : List (Text × Json),
    renameFields g (renameFields f fields) = renameFields (fun key => g (f key)) fields
  | [] => rfl
  | (key, value) :: fields => by
    simp only [renameFields]
    rw [renameKeys_renameKeys value, renameFields_renameFields fields]

end

mutual

/-- Only the names of the keys matter. -/
theorem renameKeys_congr : ∀ v : Json, (∀ key ∈ v.keys, f key = g key) →
    v.renameKeys f = v.renameKeys g
  | .null, _ | .bool _, _ | .unsigned _, _ | .negative _, _ | .float _, _ | .string _, _ => rfl
  | .array items, same => congrArg Json.array (renameItems_congr items same)
  | .object fields, same => congrArg Json.object (renameFields_congr fields same)

theorem renameItems_congr : ∀ items : List Json, (∀ key ∈ keysOfItems items, f key = g key) →
    renameItems f items = renameItems g items
  | [], _ => rfl
  | item :: items, same => by
    have first := renameKeys_congr item fun key member =>
      same key (List.mem_append_left _ member)
    have others := renameItems_congr items fun key member =>
      same key (List.mem_append_right _ member)
    simp only [renameItems]
    rw [first, others]

theorem renameFields_congr : ∀ fields : List (Text × Json),
    (∀ key ∈ keysOfFields fields, f key = g key) → renameFields f fields = renameFields g fields
  | [], _ => rfl
  | (name, value) :: fields, same => by
    have first := renameKeys_congr value fun key member =>
      same key (List.mem_cons_of_mem _ (List.mem_append_left _ member))
    have others := renameFields_congr fields fun key member =>
      same key (List.mem_cons_of_mem _ (List.mem_append_right _ member))
    simp only [renameFields]
    rw [same name List.mem_cons_self, first, others]

end

mutual

theorem renameKeys_id : ∀ v : Json, v.renameKeys (fun key => key) = v
  | .null | .bool _ | .unsigned _ | .negative _ | .float _ | .string _ => rfl
  | .array items => congrArg Json.array (renameItems_id items)
  | .object fields => congrArg Json.object (renameFields_id fields)

theorem renameItems_id : ∀ items : List Json, renameItems (fun key => key) items = items
  | [] => rfl
  | item :: items => by
    simp only [renameItems]
    rw [renameKeys_id item, renameItems_id items]

theorem renameFields_id : ∀ fields : List (Text × Json),
    renameFields (fun key => key) fields = fields
  | [] => rfl
  | (key, value) :: fields => by
    simp only [renameFields]
    rw [renameKeys_id value, renameFields_id fields]

end

/-! ## Replacing the text of a key -/

/-- A key as it is written, with the colon behind it. -/
def keyText (key : Text) : Text := renderString key ++ [':']

/-- The renaming of one key. -/
def renameOne (key key' : Text) : Text → Text := fun name => if name = key then key' else name

/-- A key's text begins like a name in quotes only where that name is the key's, with a
colon behind it. -/
theorem startsWith_keyText {key s rest : Text}
    (found : startsWith (keyText key) (renderString s ++ rest) = true) :
    s = key ∧ rest.head? = some ':' := by
  obtain ⟨more, shape⟩ := startsWith_iff.mp found
  rw [keyText, List.append_assoc] at shape
  obtain ⟨same, behind⟩ := renderString_injective shape
  rw [behind]
  exact ⟨same, rfl⟩

theorem quote_in_escapeChar {c : Char} (quote : '"' ∈ escapeChar c) : c = '"' := by
  unfold escapeChar at quote
  split at quote
  · assumption
  · rename_i other
    have hex : ∀ n, n < 16 → hexDigit n ≠ '"' := by decide
    split_ifs at quote <;> try simp at quote
    · rename_i control
      rcases quote with high | low
      · exact absurd high.symm (hex _ (by omega))
      · exact absurd low.symm (hex _ (by omega))
    · exact quote.symm

/-- A name begins with a letter. -/
def IsName (key : Text) : Prop := key.head?.any Char.isAlpha = true

/-- What follows the text of a value: no colon, and no name. -/
def Behind (rest : Text) : Prop := ∀ c ∈ rest.head?, c = ',' ∨ c = ']' ∨ c = '}'

theorem behind_nil : Behind [] := by
  intro c found
  cases found

theorem behind_items (items : List Json) (rest : Text) : Behind (renderItems items ++ rest) := by
  intro c found
  cases items <;> simp [renderItems] at found <;> simp [← found]

theorem behind_fields (fields : List (Text × Json)) (rest : Text) :
    Behind (renderFields fields ++ rest) := by
  intro c found
  cases fields <;> simp [renderFields] at found <;> simp [← found]

theorem Behind.no_colon {rest : Text} (behind : Behind rest) : rest.head? ≠ some ':' := by
  intro found
  have next := behind ':' found
  revert next
  decide

theorem Behind.no_name {rest : Text} (behind : Behind rest) :
    ∀ c ∈ rest.head?, c.isAlpha = false := by
  intro c found
  rcases behind c found with rfl | rfl | rfl <;> rfl

theorem escapeChar_alpha {c : Char} (letter : c.isAlpha = true) : escapeChar c = [c] := by
  have range : 32 ≤ c.toNat := by
    delta Char.isAlpha Char.isUpper Char.isLower at letter
    simp only [Bool.or_eq_true, Bool.and_eq_true, decide_eq_true_eq, ge_iff_le,
      UInt32.le_iff_toNat_le] at letter
    rcases letter with ⟨low, -⟩ | ⟨low, -⟩
    · exact Nat.le_trans (by decide) low
    · exact Nat.le_trans (by decide) low
  have other : c ≠ '"' ∧ c ≠ '\\' := by
    constructor <;> rintro rfl <;> exact absurd letter (by decide)
  unfold escapeChar
  rw [if_neg other.1, if_neg other.2, if_neg (by omega), if_neg (by omega), if_neg (by omega),
    if_neg (by omega), if_neg (by omega), if_neg (by omega)]

theorem keyText_name {c : Char} {more : Text} (letter : c.isAlpha = true) :
    keyText (c :: more) = '"' :: c :: (more.flatMap escapeChar ++ ['"', ':']) := by
  simp [keyText, renderString, escapeChar_alpha letter]

theorem keyText_ne_nil (key : Text) : keyText key ≠ [] := by
  rw [keyText, renderString, List.cons_append]
  exact List.cons_ne_nil _ _

section
variable {key : Text} (key' : Text)

/-- What has no quotes stays as it is. -/
theorem replace_unquoted (key : Text) {part : Text} (unquoted : '"' ∉ part) (rest : Text) :
    replace (keyText key) (keyText key') (part ++ rest) =
      part ++ replace (keyText key) (keyText key') rest :=
  replace_append_of_head unquoted rest

/-- A key's text is not found where a quote closes a name. -/
theorem replace_closing (name : IsName key) {rest : Text}
    (no_name : ∀ c ∈ rest.head?, c.isAlpha = false) :
    replace (keyText key) (keyText key') ('"' :: rest) =
      '"' :: replace (keyText key) (keyText key') rest := by
  obtain ⟨first, begins, letter⟩ := (Option.any_eq_true _ _).mp name
  obtain ⟨more, rfl⟩ := List.head?_eq_some_iff.mp begins
  refine replace_cons ?_
  rw [keyText_name letter, startsWith_cons]
  cases rest with
  | nil => rfl
  | cons c rest =>
    have other : first ≠ c := by
      rintro rfl
      exact absurd letter (by rw [no_name first rfl]; exact Bool.false_ne_true)
    rw [startsWith_head_ne other, Bool.and_false]

/-- No key's text begins within a string, be it one that no colon follows or one
without quotes. -/
theorem replace_inside (name : IsName key) {s rest : Text}
    (unlike : rest.head? ≠ some ':' ∨ '"' ∉ s)
    (no_name : ∀ c ∈ rest.head?, c.isAlpha = false) :
    replace (keyText key) (keyText key') (s.flatMap escapeChar ++ '"' :: rest) =
      s.flatMap escapeChar ++ '"' :: replace (keyText key) (keyText key') rest := by
  induction s with
  | nil => exact replace_closing key' name no_name
  | cons c s ih =>
    have later := ih (unlike.imp_right fun absent member => absent (List.mem_cons_of_mem _ member))
    rw [List.flatMap_cons, List.append_assoc, List.append_assoc]
    by_cases quote : c = '"'
    · -- the escaped quote opens what could be a name, but no colon follows it
      subst quote
      have no_colon : rest.head? ≠ some ':' :=
        unlike.resolve_right fun absent => absent List.mem_cons_self
      have escaped : startsWith (keyText key)
          ('"' :: (s.flatMap escapeChar ++ '"' :: rest)) = false := by
        rw [Bool.eq_false_iff]
        intro found
        have opened : startsWith (keyText key) (renderString s ++ rest) = true := by
          rwa [renderString, List.cons_append, List.append_assoc]
        exact no_colon (startsWith_keyText opened).2
      have backslash : startsWith (keyText key)
          ('\\' :: '"' :: (s.flatMap escapeChar ++ '"' :: rest)) = false :=
        startsWith_head_ne (by decide)
      rw [show escapeChar '"' = ['\\', '"'] from rfl, List.cons_append, List.cons_append,
        List.nil_append, replace_cons backslash, replace_cons escaped, later]
      rfl
    · rw [replace_unquoted key' key fun member => quote (quote_in_escapeChar member), later]

/-- A string that is a value stays as it is. -/
theorem replace_string (name : IsName key) (s : Text) {rest : Text} (behind : Behind rest) :
    replace (keyText key) (keyText key') (renderString s ++ rest) =
      renderString s ++ replace (keyText key) (keyText key') rest := by
  have opening : startsWith (keyText key) (renderString s ++ rest) = false := by
    rw [Bool.eq_false_iff]
    exact fun found => behind.no_colon (startsWith_keyText found).2
  have inside := replace_inside key' name (s := s) (.inl behind.no_colon) behind.no_name
  simp only [renderString, List.cons_append, List.append_assoc, List.nil_append] at opening ⊢
  rw [replace_cons opening, inside]

/-- A key without quotes is replaced by the other one, or stays. -/
theorem replace_key (name : IsName key) {s : Text} (plain : '"' ∉ s) (rest : Text) :
    replace (keyText key) (keyText key') (renderString s ++ ':' :: rest) =
      renderString (renameOne key key' s) ++
        ':' :: replace (keyText key) (keyText key') rest := by
  by_cases same : s = key
  · subst same
    rw [renameOne, if_pos rfl, ← List.singleton_append, ← List.append_assoc]
    refine (replace_occurrence (keyText_ne_nil s) rest).trans ?_
    rw [keyText, List.append_assoc]
    rfl
  · have opening : startsWith (keyText key) (renderString s ++ ':' :: rest) = false := by
      rw [Bool.eq_false_iff]
      exact fun found => same (startsWith_keyText found).1
    have no_name : ∀ c ∈ (':' :: rest).head?, c.isAlpha = false := by
      intro c found
      cases found
      rfl
    have inside := replace_inside key' name (.inr plain) no_name
    have colon : startsWith (keyText key) (':' :: rest) = false := startsWith_head_ne (by decide)
    rw [renameOne, if_neg same]
    simp only [renderString, List.cons_append, List.append_assoc, List.nil_append] at opening ⊢
    rw [replace_cons opening, inside, replace_cons colon]

mutual

/-- **Replacing the text of one key in the text of a value renames that key**, whatever
is written behind the value. -/
theorem replace_render (name : IsName key) : ∀ (v : Json) (rest : Text),
    (∀ k ∈ v.keys, '"' ∉ k) → Behind rest →
    replace (keyText key) (keyText key') (v.render ++ rest) =
      (v.renameKeys (renameOne key key')).render ++ replace (keyText key) (keyText key') rest
  | .null, rest, _, _ => replace_unquoted key' key (by simp [render]) rest
  | .bool true, rest, _, _ => replace_unquoted key' key (by simp [render]) rest
  | .bool false, rest, _, _ => replace_unquoted key' key (by simp [render]) rest
  | .unsigned n, rest, _, _ => replace_unquoted key' key (fun member =>
      absurd (number_chars (v := .unsigned n) rfl _ member) (by decide)) rest
  | .negative n, rest, _, _ => replace_unquoted key' key (fun member =>
      absurd (number_chars (v := .negative n) rfl _ member) (by decide)) rest
  | .float x, rest, _, _ => replace_unquoted key' key (fun member =>
      absurd (number_chars (v := .float x) rfl _ member) (by decide)) rest
  | .string s, rest, _, behind => by
    simp only [renameKeys, render]
    exact replace_string key' name s behind
  | .array [], rest, _, _ => replace_unquoted key' key (by simp [render]) rest
  | .array (item :: items), rest, plain, behind => by
    have opening := @replace_unquoted key' key ['['] (by decide)
      (item.render ++ (renderItems items ++ rest))
    have head := replace_render name item (renderItems items ++ rest)
      (fun k member => plain k (List.mem_append_left _ member)) (behind_items items rest)
    have tail := replace_renderItems name items rest
      (fun k member => plain k (List.mem_append_right _ member)) behind
    simp only [renameKeys, renameItems, render, List.cons_append, List.append_assoc,
      List.nil_append] at opening ⊢
    rw [opening, head, tail]
  | .object [], rest, _, _ => replace_unquoted key' key (by simp [render]) rest
  | .object ((k, value) :: fields), rest, plain, behind => by
    have opening := @replace_unquoted key' key ['{'] (by decide)
      (renderString k ++ ':' :: (value.render ++ (renderFields fields ++ rest)))
    have named := replace_key key' name (plain k List.mem_cons_self)
      (value.render ++ (renderFields fields ++ rest))
    have head := replace_render name value (renderFields fields ++ rest)
      (fun k member => plain k (List.mem_cons_of_mem _ (List.mem_append_left _ member)))
      (behind_fields fields rest)
    have tail := replace_renderFields name fields rest
      (fun k member => plain k (List.mem_cons_of_mem _ (List.mem_append_right _ member))) behind
    simp only [renameKeys, renameFields, render, List.cons_append, List.append_assoc,
      List.nil_append] at opening ⊢
    rw [opening, named, head, tail]

theorem replace_renderItems (name : IsName key) : ∀ (items : List Json) (rest : Text),
    (∀ k ∈ keysOfItems items, '"' ∉ k) → Behind rest →
    replace (keyText key) (keyText key') (renderItems items ++ rest) =
      renderItems (renameItems (renameOne key key') items) ++
        replace (keyText key) (keyText key') rest
  | [], rest, _, _ => replace_unquoted key' key (by simp [renderItems]) rest
  | item :: items, rest, plain, behind => by
    have comma := @replace_unquoted key' key [','] (by decide)
      (item.render ++ (renderItems items ++ rest))
    have head := replace_render name item (renderItems items ++ rest)
      (fun k member => plain k (List.mem_append_left _ member)) (behind_items items rest)
    have tail := replace_renderItems name items rest
      (fun k member => plain k (List.mem_append_right _ member)) behind
    simp only [renameItems, renderItems, List.cons_append, List.append_assoc,
      List.nil_append] at comma ⊢
    rw [comma, head, tail]

theorem replace_renderFields (name : IsName key) : ∀ (fields : List (Text × Json)) (rest : Text),
    (∀ k ∈ keysOfFields fields, '"' ∉ k) → Behind rest →
    replace (keyText key) (keyText key') (renderFields fields ++ rest) =
      renderFields (renameFields (renameOne key key') fields) ++
        replace (keyText key) (keyText key') rest
  | [], rest, _, _ => replace_unquoted key' key (by simp [renderFields]) rest
  | (k, value) :: fields, rest, plain, behind => by
    have comma := @replace_unquoted key' key [','] (by decide)
      (renderString k ++ ':' :: (value.render ++ (renderFields fields ++ rest)))
    have named := replace_key key' name (plain k List.mem_cons_self)
      (value.render ++ (renderFields fields ++ rest))
    have head := replace_render name value (renderFields fields ++ rest)
      (fun k member => plain k (List.mem_cons_of_mem _ (List.mem_append_left _ member)))
      (behind_fields fields rest)
    have tail := replace_renderFields name fields rest
      (fun k member => plain k (List.mem_cons_of_mem _ (List.mem_append_right _ member))) behind
    simp only [renameFields, renderFields, List.cons_append, List.append_assoc,
      List.nil_append] at comma ⊢
    rw [comma, named, head, tail]

end

/-- So it is with the whole text. -/
theorem replace_whole (name : IsName key) {v : Json} (plain : ∀ k ∈ v.keys, '"' ∉ k) :
    replace (keyText key) (keyText key') v.render =
      (v.renameKeys (renameOne key key')).render := by
  have whole := replace_render key' name v [] plain behind_nil
  simpa only [List.append_nil, replace_nil] using whole

end

end Json

end Devit
