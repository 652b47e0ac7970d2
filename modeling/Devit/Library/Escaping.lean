import Devit.Library.Replace
import Mathlib.Data.List.Basic

/-! Fields joined by a separator, with an escape in front of each separator inside a field and
nothing else escaped. They are found again exactly if none but the last ends in the escape. -/
namespace Devit.Text

/-- The escape put in front of each separator. -/
def escapeSeparators (esc sep : Char) (s : Text) : Text :=
  s.flatMap fun c => if c = sep then [esc, sep] else [c]

/-- Each escape in front of a separator taken out. -/
def unescapeSeparators (esc sep : Char) : Text → Text
  | [] => []
  | c :: cs =>
    if c = esc ∧ cs.head? = some sep then unescapeSeparators esc sep cs
    else c :: unescapeSeparators esc sep cs

/-- The fields of the rest of a row, behind an escape or not: a separator right behind an escape
does not end a field. -/
def cutFrom (esc sep : Char) : Bool → Text → List Text
  | _, [] => [[]]
  | escaped, c :: cs =>
    if c = sep ∧ escaped = false then [] :: cutFrom esc sep false cs
    else (cutFrom esc sep (decide (c = esc)) cs).modifyHead (c :: ·)

/-- The fields of a row. -/
def cutFields (esc sep : Char) (row : Text) : List Text := cutFrom esc sep false row

variable {esc sep : Char}

theorem escape_cons (c : Char) (s : Text) : escapeSeparators esc sep (c :: s) =
    (if c = sep then [esc, sep] else [c]) ++ escapeSeparators esc sep s := rfl

/-- A field without a separator stands as it is. -/
theorem escape_absent {s : Text} (absent : sep ∉ s) : escapeSeparators esc sep s = s := by
  induction s with
  | nil => rfl
  | cons c s ih =>
    obtain ⟨other, later⟩ := not_or.mp (mt List.mem_cons.mpr absent)
    rw [escape_cons, if_neg (Ne.symm other), ih later]
    rfl

theorem head_escape (apart : esc ≠ sep) (s : Text) :
    (escapeSeparators esc sep s).head? ≠ some sep := by
  cases s with
  | nil => exact Option.some_ne_none sep |>.symm
  | cons c s =>
    rw [escape_cons]
    split
    · exact fun same => apart (Option.some.inj same)
    · rename_i other
      exact fun same => other (Option.some.inj same)

/-- **A field is recovered.** -/
theorem unescape_escape (apart : esc ≠ sep) (s : Text) :
    unescapeSeparators esc sep (escapeSeparators esc sep s) = s := by
  induction s with
  | nil => rfl
  | cons c s ih =>
    rw [escape_cons]
    split
    · rename_i here
      rw [List.cons_append, unescapeSeparators, if_pos ⟨rfl, rfl⟩, List.singleton_append,
        unescapeSeparators, if_neg fun both => apart both.1.symm, ih, here]
    · rw [List.singleton_append, unescapeSeparators, if_neg fun both => head_escape apart s both.2,
        ih]

theorem mem_escape {s : Text} {c : Char} (other : c ≠ esc) :
    c ∈ escapeSeparators esc sep s ↔ c ∈ s := by
  induction s with
  | nil => exact Iff.rfl
  | cons d s ih =>
    rw [escape_cons, List.mem_append, ih, List.mem_cons]
    refine or_congr_left ?_
    split
    · rename_i here
      rw [here, List.mem_cons, List.mem_singleton, or_iff_right other]
    · exact List.mem_singleton

/-- `str::replace` of the separator. -/
theorem replace_eq_escape (s : Text) : replace [sep] [esc, sep] s = escapeSeparators esc sep s := by
  induction s with
  | nil => rfl
  | cons c s ih =>
    rw [escape_cons, ← ih]
    split
    · rename_i here
      have found := @replace_occurrence [sep] [esc, sep] (List.cons_ne_nil sep []) s
      rw [List.singleton_append] at found
      rw [here, found]
    · rename_i other
      exact replace_cons (startsWith_head_ne (Ne.symm other))

/-! ## Rows -/

/-- Whether an escape stands behind a field. -/
def behind (esc : Char) (escaped : Bool) (field : Text) : Bool :=
  field.foldl (fun _ c => decide (c = esc)) escaped

theorem behind_iff {field : Text} : behind esc false field = true ↔ field.getLast? = some esc := by
  rcases List.eq_nil_or_concat field with rfl | ⟨init, last, rfl⟩
  · exact iff_of_false Bool.false_ne_true (Option.some_ne_none esc).symm
  · rw [List.concat_eq_append, behind, List.foldl_append, List.getLast?_concat,
      Option.some.injEq]
    exact decide_eq_true_iff

theorem cutFrom_ne_nil (escaped : Bool) (row : Text) : cutFrom esc sep escaped row ≠ [] := by
  cases row with
  | nil => exact List.cons_ne_nil _ _
  | cons c row =>
    rw [cutFrom]
    split
    · exact List.cons_ne_nil _ _
    · rw [ne_eq, List.modifyHead_eq_nil_iff]
      exact cutFrom_ne_nil _ row

/-- An escaped field is passed whole. -/
theorem cutFrom_escape (apart : esc ≠ sep) (escaped : Bool) (field rest : Text) :
    cutFrom esc sep escaped (escapeSeparators esc sep field ++ rest) =
      (cutFrom esc sep (behind esc escaped field) rest).modifyHead
        (escapeSeparators esc sep field ++ ·) := by
  induction field generalizing escaped with
  | nil => exact (congrFun List.modifyHead_id _).symm
  | cons c field ih =>
    have composed : ∀ front : Text, ∀ parts : List Text,
        parts.modifyHead (front ++ escapeSeparators esc sep field ++ ·) =
          (parts.modifyHead (escapeSeparators esc sep field ++ ·)).modifyHead (front ++ ·) := by
      intro front parts
      rw [List.modifyHead_modifyHead]
      exact congrArg (parts.modifyHead ·) (funext fun part => List.append_assoc _ _ _)
    rw [escape_cons, composed]
    split
    · rename_i here
      rw [List.cons_append, List.cons_append, cutFrom, if_neg fun both => apart both.1,
        List.singleton_append, List.cons_append, cutFrom,
        if_neg fun both => Bool.false_ne_true (both.2.symm.trans (decide_eq_true rfl)), ih,
        List.modifyHead_modifyHead]
      subst here
      rfl
    · rename_i other
      rw [List.append_assoc, List.singleton_append, cutFrom, if_neg fun both => other both.1, ih]
      rfl

/-- The first field of a row, unless its separator is taken for an escaped one. -/
theorem cutFields_cons (apart : esc ≠ sep) (field rest : Text) :
    cutFields esc sep (escapeSeparators esc sep field ++ sep :: rest) =
      if field.getLast? = some esc then
        (cutFields esc sep rest).modifyHead (escapeSeparators esc sep field ++ sep :: ·)
      else escapeSeparators esc sep field :: cutFields esc sep rest := by
  rw [cutFields, cutFrom_escape apart, cutFrom]
  by_cases ends : field.getLast? = some esc
  · rw [if_pos ends, behind_iff.mpr ends, if_neg fun both => Bool.false_ne_true both.2.symm,
      List.modifyHead_modifyHead, decide_eq_false (Ne.symm apart)]
    rfl
  · rw [if_neg ends, Bool.eq_false_iff.mpr (mt behind_iff.mp ends), if_pos ⟨rfl, rfl⟩,
      List.modifyHead_cons, List.append_nil]
    rfl

theorem cutFields_last (apart : esc ≠ sep) (field : Text) :
    cutFields esc sep (escapeSeparators esc sep field) = [escapeSeparators esc sep field] := by
  have whole := cutFrom_escape apart false field []
  rw [List.append_nil] at whole
  rw [cutFields, whole, cutFrom, List.modifyHead_cons, List.append_nil]

/-- A row of joined fields. -/
def joinFields (esc sep : Char) (fields : List Text) : Text :=
  join [sep] (fields.map (escapeSeparators esc sep))

theorem joinFields_cons {field : Text} {fields : List Text} (more : fields ≠ []) :
    joinFields esc sep (field :: fields) =
      escapeSeparators esc sep field ++ sep :: joinFields esc sep fields := by
  rw [joinFields, List.map_cons, join_cons (mt List.map_eq_nil_iff.mp more), List.append_assoc]
  rfl

theorem length_cutFields_le (apart : esc ≠ sep) {fields : List Text} (some_field : fields ≠ []) :
    (cutFields esc sep (joinFields esc sep fields)).length ≤ fields.length := by
  induction fields with
  | nil => exact absurd rfl some_field
  | cons field fields ih =>
    by_cases more : fields = []
    · rw [more, joinFields, List.map_singleton, join, cutFields_last apart]
      exact Nat.le_refl 1
    · rw [joinFields_cons more, cutFields_cons apart, List.length_cons]
      split
      · rw [List.length_modifyHead]
        exact Nat.le_succ_of_le (ih more)
      · exact Nat.succ_le_succ (ih more)

/-- **A row is cut into its fields** exactly if none but the last ends in the escape. -/
theorem cutFields_joinFields (apart : esc ≠ sep) {fields : List Text} (some_field : fields ≠ []) :
    (cutFields esc sep (joinFields esc sep fields)).map (unescapeSeparators esc sep) = fields ↔
      ∀ field ∈ fields.dropLast, field.getLast? ≠ some esc := by
  induction fields with
  | nil => exact absurd rfl some_field
  | cons field fields ih =>
    by_cases more : fields = []
    · rw [more, joinFields, List.map_singleton, join, cutFields_last apart, List.map_singleton,
        unescape_escape apart]
      exact iff_of_true rfl fun field member => absurd member List.not_mem_nil
    · rw [joinFields_cons more, cutFields_cons apart, List.dropLast_cons_of_ne_nil more,
        List.forall_mem_cons, ← ih more]
      split
      · rename_i ends
        refine iff_of_false (fun same => ?_) fun both => both.1 ends
        have sizes := congrArg List.length same
        rw [List.length_map, List.length_modifyHead, List.length_cons] at sizes
        exact absurd (length_cutFields_le apart more) (by omega)
      · rename_i ends
        rw [List.map_cons, unescape_escape apart, List.cons.injEq]
        exact ⟨fun both => ⟨ends, both.2⟩, fun both => ⟨rfl, both.2⟩⟩

/-- A part of a row from its beginning has no more fields. -/
theorem length_cutFrom_append (escaped : Bool) (front back : Text) :
    (cutFrom esc sep escaped front).length ≤ (cutFrom esc sep escaped (front ++ back)).length := by
  induction front generalizing escaped with
  | nil => exact List.length_pos_of_ne_nil (cutFrom_ne_nil _ _)
  | cons c front ih =>
    rw [List.cons_append, cutFrom, cutFrom]
    split
    · exact Nat.succ_le_succ (ih _)
    · rw [List.length_modifyHead, List.length_modifyHead]
      exact ih _

end Devit.Text
