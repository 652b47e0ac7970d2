import Mathlib.Algebra.Ring.Nat
import Mathlib.Data.List.Basic
import Mathlib.Data.List.TakeWhile
import Mathlib.Tactic.Common

/-! Text as a list of characters, with the string functions of Rust's standard
library that line-oriented formats are read with: cutting a text into lines and
words, stripping affixes, and reading numbers of a bounded type. Each function
comes with the equations later proofs rewrite by. -/
namespace Devit

/-- A string, character by character. -/
abbrev Text := List Char

/-- Membership in a list of texts rests on this instance. -/
instance : LawfulBEq Text := inferInstanceAs (LawfulBEq (List Char))

namespace Text

/-! ## Affixes -/

/-- `str::strip_prefix` for a literal prefix. -/
def stripPrefix : Text → Text → Option Text
  | [], s => some s
  | _ :: _, [] => none
  | p :: ps, c :: cs => if p = c then stripPrefix ps cs else none

/-- `str::starts_with`. -/
def startsWith (pat s : Text) : Bool := (stripPrefix pat s).isSome

/-- `str::contains` for a literal pattern. -/
def contains (pat : Text) : Text → Bool
  | [] => startsWith pat []
  | c :: cs => startsWith pat (c :: cs) || contains pat cs

/-- `str::strip_suffix` for a literal suffix. -/
def stripSuffix (pat s : Text) : Option Text :=
  (stripPrefix pat.reverse s.reverse).map List.reverse

/-- `str::strip_suffix` for one character. -/
def stripLast (c : Char) (s : Text) : Option Text :=
  if s.getLast? = some c then some s.dropLast else none

/-- `str::trim_start_matches` for a nonempty literal pattern: the pattern is
stripped as often as it is found. -/
def trimStartMatches (pat s : Text) : Text :=
  go s.length s
where
  /-- `fuel` bounds the number of strips by the length of the text. -/
  go : Nat → Text → Text
    | 0, s => s
    | fuel + 1, s =>
      match stripPrefix pat s with
      | some rest => go fuel rest
      | none => s

theorem stripPrefix_append (pat s : Text) : stripPrefix pat (pat ++ s) = some s := by
  induction pat with
  | nil => rfl
  | cons p ps ih => simp [stripPrefix, ih]

theorem stripPrefix_eq_some {pat s rest : Text} (h : stripPrefix pat s = some rest) :
    s = pat ++ rest := by
  induction pat generalizing s with
  | nil => simpa [stripPrefix] using h
  | cons p ps ih =>
    cases s with
    | nil => simp [stripPrefix] at h
    | cons c cs =>
      simp only [stripPrefix] at h
      split at h
      · rename_i same
        rw [same, ih h, List.cons_append]
      · cases h

theorem startsWith_append (pat s : Text) : startsWith pat (pat ++ s) = true := by
  simp [startsWith, stripPrefix_append]

theorem startsWith_iff {pat s : Text} : startsWith pat s = true ↔ ∃ rest, s = pat ++ rest := by
  constructor
  · intro h
    obtain ⟨rest, found⟩ := Option.isSome_iff_exists.mp h
    exact ⟨rest, stripPrefix_eq_some found⟩
  · rintro ⟨rest, rfl⟩
    exact startsWith_append pat rest

/-- A pattern is not found in front of a text that begins with another character. -/
theorem startsWith_head_ne {p c : Char} {ps cs : Text} (h : p ≠ c) :
    startsWith (p :: ps) (c :: cs) = false := by
  simp [startsWith, stripPrefix, h]

theorem startsWith_cons (p c : Char) (ps cs : Text) :
    startsWith (p :: ps) (c :: cs) = (decide (p = c) && startsWith ps cs) := by
  by_cases same : p = c <;> simp [startsWith, stripPrefix, same]

@[simp] theorem stripLast_append (c : Char) (s : Text) : stripLast c (s ++ [c]) = some s := by
  simp [stripLast]

/-! ## Lines -/

/-- `str::split_inclusive('\n')`: every piece but the last ends in its newline. -/
def splitInclusive : Text → List Text
  | [] => []
  | c :: cs =>
    if c = '\n' then ['\n'] :: splitInclusive cs
    else
      match splitInclusive cs with
      | [] => [[c]]
      | piece :: pieces => (c :: piece) :: pieces

/-- A line without its trailing carriage return. -/
def chopCr (line : Text) : Text := (stripLast '\r' line).getD line

/-- What `str::lines` makes of one piece: the newline goes, and a carriage
return goes only with it. -/
def chopLine (piece : Text) : Text :=
  match stripLast '\n' piece with
  | none => piece
  | some line => chopCr line

/-- `str::lines`. -/
def lines (s : Text) : List Text := (splitInclusive s).map chopLine

/-- Each line followed by a newline. -/
def unlines (ls : List Text) : Text := ls.flatMap (· ++ ['\n'])

theorem splitInclusive_line {line : Text} (rest : Text) (clean : '\n' ∉ line) :
    splitInclusive (line ++ '\n' :: rest) = (line ++ ['\n']) :: splitInclusive rest := by
  induction line with
  | nil => simp [splitInclusive]
  | cons c cs ih =>
    simp only [List.mem_cons, not_or] at clean
    have head : c ≠ '\n' := fun eq => clean.1 eq.symm
    simp [splitInclusive, head, ih clean.2]

theorem splitInclusive_whole {line : Text} (clean : '\n' ∉ line) (some_char : line ≠ []) :
    splitInclusive line = [line] := by
  induction line with
  | nil => exact absurd rfl some_char
  | cons c cs ih =>
    simp only [List.mem_cons, not_or] at clean
    have head : c ≠ '\n' := fun eq => clean.1 eq.symm
    cases cs with
    | nil => simp [splitInclusive, head]
    | cons d ds => rw [splitInclusive, if_neg head, ih clean.2 (List.cons_ne_nil _ _)]

/-- Every text is some lines with their newlines and the rest of a line behind them. -/
theorem exists_unlines (text : Text) :
    ∃ ls last, text = unlines ls ++ last ∧ (∀ line ∈ ls, '\n' ∉ line) ∧ '\n' ∉ last := by
  induction text with
  | nil => exact ⟨[], [], rfl, nofun, nofun⟩
  | cons c cs ih =>
    obtain ⟨ls, last, rfl, clean, free⟩ := ih
    by_cases newline : c = '\n'
    · refine ⟨[] :: ls, last, by rw [newline]; rfl, ?_, free⟩
      exact List.forall_mem_cons.mpr ⟨nofun, clean⟩
    · cases ls with
      | nil =>
        refine ⟨[], c :: last, rfl, nofun, ?_⟩
        exact List.not_mem_cons_of_ne_of_not_mem (Ne.symm newline) free
      | cons line ls =>
        obtain ⟨head, later⟩ := List.forall_mem_cons.mp clean
        refine ⟨(c :: line) :: ls, last, rfl, List.forall_mem_cons.mpr ⟨?_, later⟩, free⟩
        exact List.not_mem_cons_of_ne_of_not_mem (Ne.symm newline) head

theorem splitInclusive_unlines_append {ls : List Text} (clean : ∀ line ∈ ls, '\n' ∉ line)
    (rest : Text) :
    splitInclusive (unlines ls ++ rest) = ls.map (· ++ ['\n']) ++ splitInclusive rest := by
  induction ls with
  | nil => rfl
  | cons line ls ih =>
    obtain ⟨head, later⟩ := List.forall_mem_cons.mp clean
    have below := ih later
    rw [unlines] at below
    rw [unlines, List.flatMap_cons, List.append_assoc, List.append_assoc, List.singleton_append,
      splitInclusive_line _ head, below]
    rfl

theorem flatten_splitInclusive (text : Text) : (splitInclusive text).flatten = text := by
  induction text with
  | nil => rfl
  | cons c cs ih =>
    rw [splitInclusive]
    split
    · rename_i newline
      rw [List.flatten_cons, ih, newline]
      rfl
    · cases pieces : splitInclusive cs with
      | nil =>
        rw [pieces] at ih
        rw [← ih]
        rfl
      | cons piece rest =>
        rw [pieces] at ih
        rw [← ih]
        rfl

/-- Pieces in front of others are whole lines. -/
theorem splitInclusive_front {text : Text} {front back : List Text}
    (pieces : splitInclusive text = front ++ back) (more : back ≠ []) :
    ∃ ls : List Text, (∀ line ∈ ls, '\n' ∉ line) ∧ front = ls.map (· ++ ['\n']) := by
  obtain ⟨ls, last, rfl, clean, free⟩ := exists_unlines text
  rw [splitInclusive_unlines_append clean] at pieces
  rcases List.append_eq_append_iff.mp pieces with ⟨extra, front_eq, rest⟩ | ⟨later, whole, -⟩
  · -- the text ends in one line at most
    have short : (splitInclusive last).length ≤ 1 := by
      by_cases none : last = []
      · rw [none]
        exact Nat.zero_le 1
      · rw [splitInclusive_whole free none]
        exact Nat.le_refl 1
    have some_piece := List.length_pos_iff.mpr more
    rw [rest, List.length_append] at short
    have no_extra : extra = [] := List.eq_nil_of_length_eq_zero (by omega)
    exact ⟨ls, clean, by rw [front_eq, no_extra, List.append_nil]⟩
  · obtain ⟨first, others, rfl, rfl, -⟩ := List.map_eq_append_iff.mp whole
    exact ⟨first, fun line member => clean line (List.mem_append_left _ member), rfl⟩

/-- The pieces behind others are those of the rest of the text. -/
theorem splitInclusive_back {text : Text} {front back : List Text}
    (pieces : splitInclusive text = front ++ back) : splitInclusive back.flatten = back := by
  by_cases more : back = []
  · rw [more]
    rfl
  · obtain ⟨ls, clean, rfl⟩ := splitInclusive_front pieces more
    have whole := flatten_splitInclusive text
    rw [pieces, List.flatten_append, ← List.flatMap_def] at whole
    rw [← whole] at pieces
    exact List.append_cancel_left ((splitInclusive_unlines_append clean _).symm.trans pieces)

theorem length_lines_le (text : Text) : (lines text).length ≤ text.length := by
  rw [lines, List.length_map]
  induction text with
  | nil => exact Nat.le_refl 0
  | cons c cs ih =>
    rw [splitInclusive]
    split
    · simpa using ih
    · cases pieces : splitInclusive cs with
      | nil => simp
      | cons piece rest =>
        rw [pieces] at ih
        simp only [List.length_cons] at ih ⊢
        omega

/-- The last line needs no newline. -/
theorem lines_last {line : Text} (clean : '\n' ∉ line) (some_char : line ≠ []) :
    lines line = [line] := by
  have last : line.getLast? ≠ some '\n' := fun last => clean (List.mem_of_getLast? last)
  rw [lines, splitInclusive_whole clean some_char, List.map_singleton, chopLine, stripLast,
    if_neg last]

theorem lines_unlines_append {ls : List Text} (clean : ∀ line ∈ ls, '\n' ∉ line) (rest : Text) :
    lines (unlines ls ++ rest) = ls.map chopCr ++ lines rest := by
  rw [lines, splitInclusive_unlines_append clean, List.map_append, List.map_map, lines]
  refine congrArg (· ++ _) (List.map_congr_left fun line _ => ?_)
  rw [Function.comp_apply, chopLine, stripLast_append]

/-- Reading back printed lines gives them with a final carriage return lost. -/
theorem lines_unlines {ls : List Text} (clean : ∀ line ∈ ls, '\n' ∉ line) :
    lines (unlines ls) = ls.map chopCr := by
  have whole := lines_unlines_append clean []
  rwa [List.append_nil, show lines [] = [] from rfl, List.append_nil] at whole

/-- A piece is a line, with its newline or without. -/
theorem mem_splitInclusive {s piece : Text} (member : piece ∈ splitInclusive s) :
    ∃ line, '\n' ∉ line ∧ (piece = line ∨ piece = line ++ ['\n']) := by
  induction s generalizing piece with
  | nil => cases member
  | cons c cs ih =>
    rw [splitInclusive] at member
    split at member
    · rcases List.mem_cons.mp member with rfl | later
      · exact ⟨[], List.not_mem_nil, .inr rfl⟩
      · exact ih later
    · rename_i other
      have kept {line : Text} (clean : '\n' ∉ line) : '\n' ∉ c :: line := by
        rintro (_ | ⟨_, inside⟩)
        · exact other rfl
        · exact clean inside
      cases shape : splitInclusive cs with
      | nil =>
        rw [shape] at member
        cases List.mem_singleton.mp member
        exact ⟨[c], kept List.not_mem_nil, .inl rfl⟩
      | cons first pieces =>
        rw [shape] at member
        rcases List.mem_cons.mp member with rfl | later
        · obtain ⟨line, clean, whole | ended⟩ := @ih first (by rw [shape]; exact List.mem_cons_self)
          · exact ⟨c :: line, kept clean, .inl (by rw [whole])⟩
          · exact ⟨c :: line, kept clean, .inr (by rw [ended]; rfl)⟩
        · exact ih (by rw [shape]; exact List.mem_cons_of_mem _ later)

theorem chopCr_subset (line : Text) : chopCr line ⊆ line := by
  unfold chopCr stripLast
  split
  · exact List.dropLast_subset line
  · exact List.Subset.refl line

/-- What is in front of a line keeps its characters. -/
theorem chopCr_append {s t : Text} (clean : '\r' ∉ s) : chopCr (s ++ t) = s ++ chopCr t := by
  cases t with
  | nil =>
    have last : (s ++ []).getLast? ≠ some '\r' := by
      rw [List.append_nil]
      exact fun last => clean (List.mem_of_getLast? last)
    rw [chopCr, stripLast, if_neg last]
    rfl
  | cons c cs =>
    have same : (s ++ c :: cs).getLast? = (c :: cs).getLast? := List.getLast?_append_cons s c cs
    unfold chopCr stripLast
    rw [same]
    split
    · exact List.dropLast_append_of_ne_nil (List.cons_ne_nil _ _)
    · rfl

/-- What is taken off a line is a carriage return or nothing. -/
theorem chopCr_rest (line : Text) :
    ∃ rest, line = chopCr line ++ rest ∧ (rest = [] ∨ rest = ['\r']) := by
  by_cases last : line.getLast? = some '\r'
  · refine ⟨['\r'], ?_, .inr rfl⟩
    rw [chopCr, stripLast, if_pos last]
    exact (List.dropLast_append_getLast? '\r' last).symm
  · refine ⟨[], ?_, .inl rfl⟩
    rw [chopCr, stripLast, if_neg last]
    exact (List.append_nil line).symm

theorem chopCr_eq_self {line : Text} : chopCr line = line ↔ line.getLast? ≠ some '\r' := by
  constructor
  · intro same last
    obtain ⟨front, shape⟩ := List.getLast?_eq_some_iff.mp last
    rw [shape, chopCr, stripLast_append] at same
    exact absurd (congrArg List.length same) (by simp)
  · intro last
    rw [chopCr, stripLast, if_neg last]
    rfl

/-- No line has a newline in it. -/
theorem not_mem_lines {s line : Text} (member : line ∈ lines s) : '\n' ∉ line := by
  obtain ⟨piece, inside, rfl⟩ := List.mem_map.mp member
  obtain ⟨whole, clean, shape | shape⟩ := mem_splitInclusive inside
  · have last : whole.getLast? ≠ some '\n' := fun last => clean (List.mem_of_getLast? last)
    rw [shape, chopLine, stripLast, if_neg last]
    exact clean
  · rw [shape, chopLine, stripLast_append]
    exact fun inside => clean (chopCr_subset whole inside)

/-- Lines that were ended with a carriage return and a newline. -/
theorem lines_crlf {ls : List Text} (clean : ∀ line ∈ ls, '\n' ∉ line) :
    lines (unlines (ls.map (· ++ ['\r']))) = ls := by
  rw [lines_unlines]
  · rw [List.map_map]
    refine (List.map_congr_left fun line _ => ?_).trans (List.map_id' ls)
    exact congrArg (Option.getD · (line ++ ['\r'])) (stripLast_append '\r' line)
  · intro line member
    obtain ⟨own, inside, rfl⟩ := List.mem_map.mp member
    simp [clean own inside]

/-- Printed lines can be told apart. -/
theorem unlines_injective {ls ms : List Text} (cleanLs : ∀ line ∈ ls, '\n' ∉ line)
    (cleanMs : ∀ line ∈ ms, '\n' ∉ line) (same : unlines ls = unlines ms) : ls = ms := by
  have pieces (ks : List Text) (clean : ∀ line ∈ ks, '\n' ∉ line) :
      splitInclusive (unlines ks) = ks.map (· ++ ['\n']) := by
    have whole := splitInclusive_unlines_append clean []
    rwa [List.append_nil, splitInclusive, List.append_nil] at whole
  have equal := congrArg splitInclusive same
  rw [pieces ls cleanLs, pieces ms cleanMs] at equal
  exact List.map_injective_iff.mpr (List.append_left_injective _) equal

/-- `slice::join` with a separator between the parts. -/
def join (sep : Text) : List Text → Text
  | [] => []
  | [part] => part
  | part :: parts => part ++ sep ++ join sep parts

/-- Joining with newlines and closing with one is printing every line, but for
the empty list, which prints nothing. -/
theorem join_newline_append {ls : List Text} (some_line : ls ≠ []) :
    join ['\n'] ls ++ ['\n'] = unlines ls := by
  induction ls with
  | nil => exact absurd rfl some_line
  | cons line ls ih =>
    cases ls with
    | nil => simp [join, unlines]
    | cons next rest =>
      have below := ih (by simp)
      simp only [join, unlines, List.flatMap_cons, List.append_assoc] at below ⊢
      rw [below]

theorem join_newline_concat (ls : List Text) (last : Text) :
    join ['\n'] (ls ++ [last]) = unlines ls ++ last := by
  have some_line : ls ++ [last] ≠ [] := List.append_ne_nil_of_right_ne_nil ls (List.cons_ne_nil _ _)
  have closed := join_newline_append some_line
  rw [unlines, List.flatMap_append, List.flatMap_singleton, ← List.append_assoc] at closed
  exact List.append_cancel_right closed

/-- Joined lines are read again without their carriage returns; an empty last one is not seen. -/
theorem lines_join (ls : List Text) (last : Text) (clean : ∀ line ∈ ls ++ [last], '\n' ∉ line) :
    lines (join ['\n'] (ls ++ [last])) =
      ls.map chopCr ++ if last = [] then [] else [last] := by
  rw [join_newline_concat, lines_unlines_append fun line member =>
    clean line (List.mem_append_left _ member)]
  split
  · rename_i empty
    rw [empty]
    rfl
  · rename_i some_char
    rw [lines_last (clean last (by simp)) some_char]

/-- A joined text is empty only for no part or one empty part. -/
theorem join_newline_eq_nil {ls : List Text} : join ['\n'] ls = [] ↔ ls = [] ∨ ls = [[]] := by
  match ls with
  | [] => simp [join]
  | [line] => simp [join]
  | line :: next :: rest => simp [join]

/-! ## Words -/

/-- The pieces between separators, empty ones kept. -/
def splitOn (sep : Char → Bool) : Text → List Text
  | [] => [[]]
  | c :: cs => if sep c then [] :: splitOn sep cs else (splitOn sep cs).modifyHead (c :: ·)

/-- `char::is_whitespace`: the Unicode property White_Space. -/
def isWhitespace (c : Char) : Bool :=
  let n := c.toNat
  decide (9 ≤ n ∧ n ≤ 13 ∨ n = 32 ∨ n = 0x85 ∨ n = 0xA0 ∨ n = 0x1680 ∨
    0x2000 ≤ n ∧ n ≤ 0x200A ∨ n = 0x2028 ∨ n = 0x2029 ∨ n = 0x202F ∨ n = 0x205F ∨ n = 0x3000)

/-- `str::split_whitespace`. -/
def splitWhitespace (s : Text) : List Text := (splitOn isWhitespace s).filter (· ≠ [])

/-- `str::trim`. -/
def trim (s : Text) : Text :=
  ((s.dropWhile isWhitespace).reverse.dropWhile isWhitespace).reverse

theorem splitOn_ne_nil (sep : Char → Bool) (s : Text) : splitOn sep s ≠ [] := by
  induction s with
  | nil => simp [splitOn]
  | cons c cs ih =>
    simp only [splitOn]
    split
    · simp
    · simpa using ih

theorem splitOn_append {sep : Char → Bool} {c : Char} (h : sep c = true) (s rest : Text) :
    splitOn sep (s ++ c :: rest) = splitOn sep s ++ splitOn sep rest := by
  induction s with
  | nil => simp [splitOn, h]
  | cons d ds ih =>
    simp only [List.cons_append, splitOn, ih]
    split
    · simp
    · obtain ⟨head, tail, shape⟩ := List.exists_cons_of_ne_nil (splitOn_ne_nil sep ds)
      simp [shape]

theorem splitOn_whole {sep : Char → Bool} {s : Text} (clean : ∀ c ∈ s, sep c = false) :
    splitOn sep s = [s] := by
  induction s with
  | nil => rfl
  | cons c cs ih =>
    simp [splitOn, clean c List.mem_cons_self, ih fun d hd => clean d (List.mem_cons_of_mem _ hd)]

/-- A piece has no separator. -/
theorem splitOn_clean {sep : Char → Bool} {s part : Text} (member : part ∈ splitOn sep s) :
    ∀ c ∈ part, sep c = false := by
  induction s generalizing part with
  | nil =>
    cases List.mem_singleton.mp member
    exact fun c inside => absurd inside List.not_mem_nil
  | cons c s ih =>
    rw [splitOn] at member
    split at member
    · rcases List.mem_cons.mp member with rfl | later
      · exact fun c inside => absurd inside List.not_mem_nil
      · exact ih later
    · rename_i other
      obtain ⟨first, parts, pieces⟩ := List.exists_cons_of_ne_nil (splitOn_ne_nil sep s)
      rw [pieces] at ih member
      rcases List.mem_cons.mp member with rfl | later
      · exact List.forall_mem_cons.mpr ⟨Bool.eq_false_iff.mpr other, ih List.mem_cons_self⟩
      · exact ih (List.mem_cons_of_mem _ later)

/-- A joined text is cut at its separators and where its parts are cut. -/
theorem splitOn_join {sep : Char → Bool} {c : Char} (h : sep c = true) {parts : List Text}
    (some_part : parts ≠ []) : splitOn sep (join [c] parts) = parts.flatMap (splitOn sep) := by
  induction parts with
  | nil => exact absurd rfl some_part
  | cons part parts ih =>
    cases parts with
    | nil => simp [join]
    | cons next rest =>
      rw [List.flatMap_cons, ← ih (by simp), join, List.append_assoc, List.singleton_append,
        splitOn_append h]
      exact nofun

theorem join_cons {sep part : Text} {parts : List Text} (some_part : parts ≠ []) :
    join sep (part :: parts) = part ++ sep ++ join sep parts := by
  cases parts with
  | nil => exact absurd rfl some_part
  | cons next rest => rfl

theorem join_append {sep : Text} {parts parts' : List Text} (left : parts ≠ [])
    (right : parts' ≠ []) : join sep (parts ++ parts') = join sep parts ++ sep ++ join sep parts' := by
  induction parts with
  | nil => exact absurd rfl left
  | cons part parts ih =>
    cases parts with
    | nil => exact join_cons right
    | cons next rest =>
      have below := ih (by simp)
      have more : next :: rest ≠ [] := by simp
      rw [List.cons_append, join_cons (List.append_ne_nil_of_left_ne_nil more _), below,
        join_cons more]
      simp only [List.append_assoc]

/-- A text is its pieces with the separators between them. -/
theorem join_splitOn (c : Char) (s : Text) : join [c] (splitOn (· == c) s) = s := by
  induction s with
  | nil => rfl
  | cons d ds ih =>
    have some_piece := splitOn_ne_nil (· == c) ds
    simp only [splitOn]
    split
    · rename_i same
      rw [join_cons some_piece, ih, eq_of_beq same]
      rfl
    · obtain ⟨first, pieces, shape⟩ := List.exists_cons_of_ne_nil some_piece
      rw [shape] at ih ⊢
      rw [← ih, List.modifyHead_cons]
      cases pieces <;> rfl

/-- Every part is at least one piece. -/
theorem length_le_pieces (sep : Char → Bool) (parts : List Text) :
    parts.length ≤ (parts.flatMap (splitOn sep)).length := by
  induction parts with
  | nil => exact Nat.le_refl _
  | cons part parts ih =>
    have some_piece := List.length_pos_of_ne_nil (splitOn_ne_nil sep part)
    rw [List.flatMap_cons, List.length_append, List.length_cons]
    omega

/-- Parts that are not cut are their own pieces. -/
theorem pieces_exact {c : Char} {parts : List Text}
    (whole : (parts.flatMap (splitOn (· == c))).length = parts.length) :
    parts.flatMap (splitOn (· == c)) = parts := by
  induction parts with
  | nil => rfl
  | cons part parts ih =>
    have some_piece := List.length_pos_of_ne_nil (splitOn_ne_nil (· == c) part)
    have others := length_le_pieces (· == c) parts
    rw [List.flatMap_cons, List.length_append, List.length_cons] at whole
    obtain ⟨piece, only⟩ := List.length_eq_one_iff.mp
      (show (splitOn (· == c) part).length = 1 by omega)
    have same : piece = part := by
      have joined := join_splitOn c part
      rwa [only] at joined
    rw [List.flatMap_cons, only, same, ih (by omega), List.singleton_append]

/-- Parts without separators are told apart from as many others by their joined text. -/
theorem join_injective {c : Char} {parts parts' : List Text} (clean : ∀ part ∈ parts, c ∉ part)
    (lengths : parts'.length = parts.length) (same : join [c] parts' = join [c] parts) :
    parts' = parts := by
  cases parts with
  | nil => exact List.eq_nil_of_length_eq_zero lengths
  | cons part rest =>
    have some_part : parts' ≠ [] := by
      rintro rfl
      cases lengths
    have whole : (part :: rest).flatMap (splitOn (· == c)) = part :: rest := by
      refine (List.flatMap_congr fun p member => splitOn_whole fun d inside => ?_).trans
        (List.flatMap_singleton' _)
      rw [beq_eq_false_iff_ne]
      rintro rfl
      exact clean p member inside
    have pieces := congrArg (splitOn (· == c)) same
    rw [@splitOn_join (· == c) c (beq_self_eq_true c) _ some_part,
      @splitOn_join (· == c) c (beq_self_eq_true c) _ (List.cons_ne_nil _ _), whole] at pieces
    rw [← pieces]
    exact (pieces_exact (by rw [pieces, lengths])).symm

theorem splitWhitespace_word {word : Text} (rest : Text) {c : Char} (space : isWhitespace c = true)
    (clean : ∀ d ∈ word, isWhitespace d = false) (some_char : word ≠ []) :
    splitWhitespace (word ++ c :: rest) = word :: splitWhitespace rest := by
  simp [splitWhitespace, splitOn_append space, splitOn_whole clean, some_char]

/-- A text without spaces is kept. -/
theorem trim_clean {s : Text} (clean : ∀ c ∈ s, isWhitespace c = false) : trim s = s := by
  have kept : ∀ part : Text, (∀ c ∈ part, isWhitespace c = false) →
      part.dropWhile isWhitespace = part := by
    intro part none
    cases part with
    | nil => rfl
    | cons c part =>
      rw [List.dropWhile_cons_of_neg (by rw [none c List.mem_cons_self]; exact Bool.false_ne_true)]
  rw [trim, kept s clean, kept _ fun c member => clean c (List.mem_reverse.mp member),
    List.reverse_reverse]

/-- A space behind a text is trimmed. -/
theorem trim_append_space {c : Char} (space : isWhitespace c = true) (s : Text) :
    trim (s ++ [c]) = trim s := by
  unfold trim
  rw [List.dropWhile_append]
  split
  · rename_i blank
    rw [List.isEmpty_iff.mp blank, List.dropWhile_cons_of_pos space]
    rfl
  · rw [List.reverse_append, List.reverse_singleton, List.singleton_append,
      List.dropWhile_cons_of_pos space]

/-! ## Lines of an object -/

/-- A text that begins with a bracket is not blank. -/
theorem trim_bracket (rest : Text) : trim ('{' :: rest) ≠ [] := by
  intro blank
  rw [trim, List.dropWhile_cons_of_neg (by decide), List.reverse_eq_nil_iff] at blank
  have all := List.dropWhile_eq_nil_iff.mp blank
  exact absurd (all '{' (by simp)) (by decide)

/-- A text as lines are: without control characters, and opening with a bracket. -/
def Lined (text : Text) : Prop := (∀ c ∈ text, 32 ≤ c.toNat) ∧ ∃ rest, text = '{' :: rest

theorem chopCr_lined {text : Text} (lined : Lined text) : chopCr text = text := by
  have last : text.getLast? ≠ some '\r' := fun last =>
    absurd (lined.1 '\r' (List.mem_of_getLast? last)) (by decide)
  rw [chopCr, stripLast, if_neg last, Option.getD_none]

theorem Lined.one_line {text : Text} (lined : Lined text) : '\n' ∉ text := fun member =>
  absurd (lined.1 _ member) (by decide)

theorem Lined.ne_nil {text : Text} (lined : Lined text) : text ≠ [] := by
  obtain ⟨rest, rfl⟩ := lined.2
  exact List.cons_ne_nil _ _

theorem Lined.not_blank {text : Text} (lined : Lined text) : trim text ≠ [] := by
  obtain ⟨rest, rfl⟩ := lined.2
  exact trim_bracket rest

/-- The lines of a file that was written line by line. -/
theorem lines_file {texts : List Text} (lined : ∀ t ∈ texts, Lined t) (rest : Text) :
    lines (unlines texts ++ rest) = texts ++ lines rest := by
  rw [lines_unlines_append fun t member => (lined t member).one_line]
  refine congrArg (· ++ lines rest) ?_
  refine (List.map_congr_left fun t member => chopCr_lined (lined t member)).trans ?_
  exact List.map_id' texts

theorem lines_whole {texts : List Text} (lined : ∀ t ∈ texts, Lined t) :
    lines (unlines texts) = texts := by
  have whole := lines_file lined []
  rwa [List.append_nil, show lines [] = [] from rfl, List.append_nil] at whole

/-! ## Searching -/

/-- The text before the last occurrence of a pattern: `&s[..s.rfind(pat)?]`. -/
def beforeLast (pat : Text) : Text → Option Text
  | [] => if pat = [] then some [] else none
  | c :: cs =>
    match beforeLast pat cs with
    | some before => some (c :: before)
    | none => if startsWith pat (c :: cs) then some [] else none

/-- The texts around the first occurrence of a character: `s.find(c)` with both
slices. -/
def splitFirst (c : Char) : Text → Option (Text × Text)
  | [] => none
  | d :: ds =>
    if d = c then some ([], ds)
    else (splitFirst c ds).map fun (before, after) => (d :: before, after)

theorem splitFirst_append {c : Char} {s : Text} (rest : Text) (clean : c ∉ s) :
    splitFirst c (s ++ c :: rest) = some (s, rest) := by
  induction s with
  | nil => simp [splitFirst]
  | cons d ds ih =>
    simp only [List.mem_cons, not_or] at clean
    simp [splitFirst, Ne.symm clean.1, ih clean.2]

theorem splitFirst_none {c : Char} {s : Text} (clean : c ∉ s) : splitFirst c s = none := by
  induction s with
  | nil => rfl
  | cons d ds ih =>
    simp only [List.mem_cons, not_or] at clean
    simp [splitFirst, Ne.symm clean.1, ih clean.2]

theorem splitFirst_eq_some {c : Char} {s before after : Text}
    (cut : splitFirst c s = some (before, after)) : s = before ++ c :: after ∧ c ∉ before := by
  by_cases member : c ∈ s
  · obtain ⟨front, back, shape, clean⟩ := List.eq_append_cons_of_mem member
    rw [shape, splitFirst_append back clean] at cut
    cases cut
    exact ⟨shape, clean⟩
  · rw [splitFirst_none member] at cut
    cases cut

/-- A pattern that occurs is found, at the occurrence given or at a later one. -/
theorem beforeLast_append (pat s rest : Text) :
    ∃ more, beforeLast pat (s ++ (pat ++ rest)) = some (s ++ more) := by
  induction s with
  | nil =>
    cases h : pat ++ rest with
    | nil =>
      obtain ⟨rfl, rfl⟩ := List.append_eq_nil_iff.mp h
      exact ⟨[], rfl⟩
    | cons c cs =>
      simp only [List.nil_append, beforeLast]
      cases later : beforeLast pat cs with
      | some before => exact ⟨c :: before, rfl⟩
      | none => exact ⟨[], by simp [← h, startsWith_append]⟩
  | cons c cs ih =>
    obtain ⟨more, found⟩ := ih
    exact ⟨more, by simp [beforeLast, found]⟩

theorem beforeLast_prefix {pat s before : Text} (found : beforeLast pat s = some before) :
    before <+: s := by
  induction s generalizing before with
  | nil =>
    simp only [beforeLast] at found
    split at found <;> cases found
    exact List.prefix_rfl
  | cons c cs ih =>
    simp only [beforeLast] at found
    split at found
    · rename_i later found'
      cases found
      exact List.cons_prefix_cons.mpr ⟨rfl, ih found'⟩
    · split at found <;> cases found
      exact List.nil_prefix

/-! ## Numbers -/

/-- The value of an ASCII digit below a radix of at most ten. -/
def digitValue (radix : Nat) (c : Char) : Option Nat :=
  if '0'.toNat ≤ c.toNat ∧ c.toNat < '0'.toNat + radix then some (c.toNat - '0'.toNat) else none

/-- Digits read from the most significant one, refused past `max`. -/
def readDigits (radix max : Nat) (acc : Nat) : Text → Option Nat
  | [] => some acc
  | c :: cs =>
    match digitValue radix c with
    | none => none
    | some d => if acc * radix + d ≤ max then readDigits radix max (acc * radix + d) cs else none

/-- `FromStr` and `from_str_radix` of an unsigned type with greatest value
`max`: one plus sign may precede at least one digit. -/
def parseUnsigned (radix max : Nat) (s : Text) : Option Nat :=
  let digits := match s with
    | '+' :: rest => rest
    | _ => s
  if digits = [] then none else readDigits radix max 0 digits

/-- `usize::MAX` on a 64-bit target. -/
def usizeMax : Nat := 2 ^ 64 - 1

/-- `str::parse::<usize>`. -/
def parseUsize (s : Text) : Option Nat := parseUnsigned 10 usizeMax s

/-- A number as `{}` prints it. -/
def printNat (n : Nat) : Text := Nat.toDigits 10 n

theorem digitValue_isDigit {c : Char} (h : c.isDigit = true) :
    digitValue 10 c = some (c.toNat - '0'.toNat) := by
  simp only [Char.isDigit, Bool.and_eq_true, decide_eq_true_eq, ge_iff_le,
    UInt32.le_iff_toNat_le] at h
  have low : '0'.toNat ≤ c.toNat := h.1
  have high : c.toNat ≤ '9'.toNat := h.2
  have nine : '9'.toNat = '0'.toNat + 9 := rfl
  simp only [digitValue]
  rw [if_pos ⟨low, by omega⟩]

/-- Reading decimal digits is their positional value, as long as it fits. -/
theorem readDigits_decimal {max acc : Nat} {cs : Text} (digits : ∀ c ∈ cs, c.isDigit = true)
    (fits : Nat.ofDigitChars 10 cs acc ≤ max) :
    readDigits 10 max acc cs = some (Nat.ofDigitChars 10 cs acc) := by
  induction cs generalizing acc with
  | nil => rfl
  | cons c cs ih =>
    have step := digitValue_isDigit (digits c List.mem_cons_self)
    simp only [Nat.ofDigitChars_cons, Nat.mul_comm 10 acc] at fits ⊢
    simp only [readDigits, step]
    have grows : ∀ (ds : Text) (a : Nat), a ≤ Nat.ofDigitChars 10 ds a := by
      intro ds
      induction ds with
      | nil => intro a; exact Nat.le_refl _
      | cons d ds ih =>
        intro a
        rw [Nat.ofDigitChars_cons]
        exact Nat.le_trans (by omega) (ih _)
    rw [if_pos (Nat.le_trans (grows cs _) fits)]
    exact ih (fun d hd => digits d (List.mem_cons_of_mem _ hd)) fits

theorem printNat_isDigit {n : Nat} {c : Char} (h : c ∈ printNat n) : c.isDigit = true :=
  Nat.isDigit_of_mem_toDigits (by omega) (by omega) h

theorem printNat_ne_nil (n : Nat) : printNat n ≠ [] := Nat.toDigits_ne_nil

theorem printNat_injective {n m : Nat} (same : printNat n = printNat m) : n = m := by
  have read : Nat.ofDigitChars 10 (printNat n) 0 = Nat.ofDigitChars 10 (printNat m) 0 := by
    rw [same]
  unfold printNat at read
  rwa [Nat.ofDigitChars_ten_toDigits, Nat.ofDigitChars_ten_toDigits] at read

/-- A printed number reads back as itself when its type holds it. -/
theorem parseUnsigned_printNat {max n : Nat} (fits : n ≤ max) :
    parseUnsigned 10 max (printNat n) = some n := by
  have value : Nat.ofDigitChars 10 (printNat n) 0 = n := Nat.ofDigitChars_ten_toDigits
  have read : readDigits 10 max 0 (printNat n) = some (Nat.ofDigitChars 10 (printNat n) 0) :=
    readDigits_decimal (fun c h => printNat_isDigit h) (by rw [value]; exact fits)
  rw [value] at read
  obtain ⟨c, cs, shape⟩ := List.exists_cons_of_ne_nil (printNat_ne_nil n)
  have no_sign : c ≠ '+' := by
    rintro rfl
    have sign : '+' ∈ printNat n := by rw [shape]; exact List.mem_cons_self
    exact absurd (printNat_isDigit sign) (by decide)
  rw [shape] at read ⊢
  unfold parseUnsigned
  split
  · rename_i rest eq
    exact absurd (List.cons.inj eq).1 no_sign
  · simpa using read

theorem parseUsize_printNat {n : Nat} (fits : n ≤ usizeMax) : parseUsize (printNat n) = some n :=
  parseUnsigned_printNat fits

/-! ## Bytes -/

/-- A text in bytes of seven bits, three for each character. -/
def septets (s : Text) : List UInt8 :=
  s.flatMap fun c =>
    [(c.toNat / 16384).toUInt8, (c.toNat / 128 % 128).toUInt8, (c.toNat % 128).toUInt8]

theorem toNat_lt_septets (c : Char) : c.toNat < 128 * 16384 := by
  have valid : c.toNat < 0xd800 ∨ 0xdfff < c.toNat ∧ c.toNat < 0x110000 := c.valid
  omega

theorem septets_injective : Function.Injective septets := by
  intro s t same
  induction s generalizing t with
  | nil => cases t <;> simp_all [septets]
  | cons c cs ih =>
    cases t with
    | nil => simp [septets] at same
    | cons d ds =>
      simp only [septets, List.flatMap_cons, List.cons_append, List.nil_append, List.cons.injEq]
        at same
      obtain ⟨high, middle, low, more⟩ := same
      have left := toNat_lt_septets c
      have right := toNat_lt_septets d
      have high := congrArg UInt8.toNat high
      have middle := congrArg UInt8.toNat middle
      have low := congrArg UInt8.toNat low
      simp only [Nat.toUInt8, UInt8.toNat_ofNat'] at high middle low
      have equal : c = d := by
        apply Char.toNat_inj.mp
        omega
      rw [equal, ih more]

theorem septets_lt {s : Text} {b : UInt8} (member : b ∈ septets s) : b.toNat < 128 := by
  obtain ⟨c, -, inside⟩ := List.mem_flatMap.mp member
  have bound := toNat_lt_septets c
  simp only [List.mem_cons, List.not_mem_nil, or_false] at inside
  rcases inside with rfl | rfl | rfl <;> simp only [Nat.toUInt8, UInt8.toNat_ofNat'] <;> omega

end Text

end Devit
