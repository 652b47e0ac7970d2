import Devit.HtmlExtraction
import Devit.OutputShaper

/-! Bounds of shaped output. Every format but JSON makes its summary without a slice that can
panic: lines are cut at their first colon, where a character begins. JSON strings, the beginning
of a text that is no JSON, and long summaries are cut at fixed places. -/
namespace Devit
open Text

namespace OutputShaper

/-- The text is short enough, or a character ends where it is cut. -/
def Fits (n : Nat) (text : Text) : Prop := byteLen text ≤ n ∨ IsBoundary n text

/-! ## Tracebacks -/

namespace PythonTraceback

theorem beforeColon_isSome (line : Text) : (beforeColon line).isSome = true := by
  unfold beforeColon
  split
  · rfl
  · rename_i i found
    rw [Option.isSome_map, sliceTo_isSome]
    exact ⟨line.take i, line.drop i, (List.take_append_drop i line).symm, rfl⟩

theorem step_isSome (s : Tracebacks) (line : Text) : (step s line).isSome = true := by
  unfold step
  split
  · rfl
  · split
    · dsimp only
      split
      · rw [Option.isSome_map, beforeColon_isSome]
      · rfl
    · split
      · rw [Option.isSome_map, beforeColon_isSome]
      · rfl

theorem collect_isSome (output : Text) : (collect output).isSome = true := by
  unfold collect
  generalize (⟨[], [], false, []⟩ : Tracebacks) = s
  induction lines output generalizing s with
  | nil => rfl
  | cons line rest ih =>
    obtain ⟨next, stepped⟩ := Option.isSome_iff_exists.mp (step_isSome s line)
    rw [List.foldlM_cons, stepped]
    exact ih next

theorem shape_isSome (crates : ShaperCrates) (output : Text) (hint : IntentHint) :
    (shape crates output hint).isSome = true := by
  rw [shape, Option.isSome_map, collect_isSome]

end PythonTraceback

/-! ## JSON -/

namespace JsonShaper

/-- The strings that a summary of so many levels shortens. -/
def shortened : Nat → Json → List Text
  | 0, _ => []
  | left + 1, .object fields => (fields.take 10).flatMap fun (_, value) => shortened left value
  | left + 1, .array (first :: _) => shortened left first
  | _ + 1, .string s => if byteLen s > 50 then [s] else []
  | _ + 1, _ => []

theorem summarizeLevels_isSome {left depth : Nat} {value : Json} :
    (summarizeLevels left depth value).isSome = true ↔
      ∀ s ∈ shortened left value, IsBoundary 47 s := by
  induction left generalizing depth value with
  | zero => exact iff_of_true rfl fun s member => absurd member List.not_mem_nil
  | succ left ih =>
    cases value with
    | object fields =>
      have shown : (((fields.take 10).mapM fun (key, value) => do
          let summary ← summarizeLevels left (depth + 1) value
          some (indent depth ++ '"' :: key ++ "\": ".toList ++ summary)).isSome = true) ↔
            ∀ entry ∈ fields.take 10, ∀ s ∈ shortened left entry.2, IsBoundary 47 s := by
        rw [mapM_isSome]
        refine forall₂_congr fun (key, value) _ => ?_
        rw [← @ih (depth + 1)]
        dsimp only
        cases summarizeLevels left (depth + 1) value <;> rfl
      have parts : (∀ s ∈ shortened (left + 1) (.object fields), IsBoundary 47 s) ↔
          ∀ entry ∈ fields.take 10, ∀ s ∈ shortened left entry.2, IsBoundary 47 s := by
        rw [shortened]
        simp only [List.mem_flatMap]
        exact ⟨fun all entry member s inside => all s ⟨entry, member, inside⟩,
          fun all s ⟨entry, member, inside⟩ => all entry member s inside⟩
      rw [parts, ← shown, summarizeLevels]
      cases (fields.take 10).mapM fun (key, value) => do
        let summary ← summarizeLevels left (depth + 1) value
        some (indent depth ++ '"' :: key ++ "\": ".toList ++ summary) <;> rfl
    | array items =>
      cases items with
      | nil => exact iff_of_true rfl fun s member => absurd member List.not_mem_nil
      | cons first items =>
        rw [shortened, ← @ih (depth + 1), summarizeLevels]
        cases summarizeLevels left (depth + 1) first <;> rfl
    | string s =>
      rw [shortened, summarizeLevels]
      split
      · rw [Option.isSome_map, sliceTo_isSome, List.forall_mem_singleton]
      · exact iff_of_true rfl fun s member => absurd member List.not_mem_nil
    | null => exact iff_of_true rfl fun s member => absurd member List.not_mem_nil
    | bool b => exact iff_of_true rfl fun s member => absurd member List.not_mem_nil
    | unsigned n => exact iff_of_true rfl fun s member => absurd member List.not_mem_nil
    | negative n => exact iff_of_true rfl fun s member => absurd member List.not_mem_nil
    | float x => exact iff_of_true rfl fun s member => absurd member List.not_mem_nil

/-- The slices of the format: the strings that are shortened, or the beginning of a text that
does not parse. -/
def SlicesFit (crates : ShaperCrates) (output : Text) : Prop :=
  match crates.fromStr output with
  | .ok value => ∀ s ∈ shortened 3 value, IsBoundary 47 s
  | .error _ => Fits 500 output

theorem slice_first {n : Nat} {text : Text} :
    (sliceTo (min (byteLen text) n) text).isSome = true ↔ Fits n text := by
  rw [sliceTo_isSome, Fits]
  by_cases short : byteLen text ≤ n
  · rw [min_eq_left short]
    exact iff_of_true ⟨text, [], (List.append_nil _).symm, rfl⟩ (.inl short)
  · rw [min_eq_right (Nat.le_of_not_le short), or_iff_right short]

theorem shape_isSome {crates : ShaperCrates} {output : Text} :
    (shape crates output).isSome = true ↔ SlicesFit crates output := by
  unfold shape SlicesFit
  cases crates.fromStr output with
  | ok value =>
    dsimp only
    rw [← @summarizeLevels_isSome _ 0, summarizeJson]
    cases summarizeLevels (3 - 0) 0 value <;> rfl
  | error e =>
    dsimp only
    rw [← slice_first]
    cases sliceTo (min (byteLen output) 500) output <;> rfl

/-- The first format that the output looks like is JSON. -/
def Chosen (output : Text) : Prop :=
  GccClang.detect output = false ∧ RustCargo.detect output = false ∧
    PythonTraceback.detect output = false ∧ detect output = true

end JsonShaper

/-! ## The shaper -/

variable {crates : ShaperCrates} {threshold : Nat} {output : Text} {hint : IntentHint}

/-- The formats in their order. -/
theorem detectAndShape_eq :
    ((new crates).withThreshold threshold).detectAndShape output hint =
      if GccClang.detect output then some (.gccClang, GccClang.shape output hint)
      else if RustCargo.detect output then some (.rustCargo, RustCargo.shape output hint)
      else if PythonTraceback.detect output then
        (PythonTraceback.shape crates output hint).map fun shaped => (.python, shaped)
      else if JsonShaper.detect output then
        (JsonShaper.shape crates output).map fun shaped => (.json, shaped)
      else if DirectoryShaper.detect output then
        some (.directoryTree, DirectoryShaper.shape crates output)
      else if LogShaper.detect output then some (.logFile, LogShaper.shape crates output hint)
      else
        some (.plain, plainText output,
          { lineCount := (lines output).length, truncated := true }) := by
  unfold detectAndShape withThreshold new formats
  simp only [List.find?_cons]
  cases GccClang.detect output <;> cases RustCargo.detect output <;>
    cases PythonTraceback.detect output <;> cases JsonShaper.detect output <;>
    cases DirectoryShaper.detect output <;> cases LogShaper.detect output <;> rfl

/-- **Formats.** A summary is made unless a slice of the JSON format panics. -/
theorem detectAndShape_isSome :
    (((new crates).withThreshold threshold).detectAndShape output hint).isSome = true ↔
      (JsonShaper.Chosen output → JsonShaper.SlicesFit crates output) := by
  rw [detectAndShape_eq, JsonShaper.Chosen]
  cases GccClang.detect output with
  | true => exact iff_of_true rfl fun chosen => nomatch chosen.1
  | false =>
    cases RustCargo.detect output with
    | true => exact iff_of_true rfl fun chosen => nomatch chosen.2.1
    | false =>
      cases PythonTraceback.detect output with
      | true =>
        refine iff_of_true ?_ fun chosen => nomatch chosen.2.2.1
        exact Option.isSome_map.trans (PythonTraceback.shape_isSome crates output hint)
      | false =>
        cases JsonShaper.detect output with
        | true =>
          rw [← JsonShaper.shape_isSome]
          cases JsonShaper.shape crates output with
          | none => exact ⟨fun made _ => made, fun fits => fits ⟨rfl, rfl, rfl, rfl⟩⟩
          | some shaped => exact iff_of_true rfl fun _ => rfl
        | false =>
          refine iff_of_true ?_ fun chosen => nomatch chosen.2.2.2
          cases DirectoryShaper.detect output <;> cases LogShaper.detect output <;> rfl

/-- The output is shaped, and what is shaped is within the bound. -/
def Bounded (s : OutputShaper) (saved : Option PathBuf) (output : Text) (hint : IntentHint) :
    Prop :=
  ∃ shaped, s.shape saved output hint = some shaped ∧
    (hint ≠ .raw → byteLen output > s.threshold →
      byteLen shaped.compact ≤ s.maxCompactSize + byteLen truncationNote)

theorem truncate_isSome {s : OutputShaper} {compact : Text} :
    (s.truncate compact).isSome = true ↔ Fits s.maxCompactSize compact := by
  unfold truncate Fits
  split
  · rename_i long
    rw [Option.isSome_map, sliceTo_isSome, or_iff_right (Nat.not_le.mpr long)]
  · rename_i short
    exact iff_of_true rfl (.inl (Nat.not_lt.mp short))

theorem truncate_le {s : OutputShaper} {compact cut : Text} (done : s.truncate compact = some cut) :
    byteLen cut ≤ s.maxCompactSize + byteLen truncationNote := by
  unfold truncate at done
  split at done
  · obtain ⟨front, sliced, rfl⟩ := Option.map_eq_some_iff.mp done
    rw [byteLen_append, (sliceTo_eq_some sliced).2]
  · rename_i short
    cases done
    omega

/-- **Any formats.** A text is returned as it is, or shaped without a panic to one that can be
cut. -/
theorem shape_isSome {s : OutputShaper} {saved : Option PathBuf} :
    (s.shape saved output hint).isSome = true ↔ hint = .raw ∨ byteLen output ≤ s.threshold ∨
      (s.detectAndShape output hint).isSome = true ∧
        ∀ shaped, s.detectAndShape output hint = some shaped →
          Fits s.maxCompactSize shaped.2.1 := by
  unfold shape
  dsimp only
  by_cases passed : hint = .raw ∨ byteLen output ≤ s.threshold
  · rw [if_pos passed]
    exact iff_of_true rfl (passed.imp_right .inl)
  · rw [if_neg passed, ← or_assoc, or_iff_right passed]
    cases s.detectAndShape output hint with
    | none => exact iff_of_false Bool.false_ne_true fun made => nomatch made.1
    | some summary =>
      obtain ⟨format, compact, metadata⟩ := summary
      have cut : (s.truncate compact).isSome = true ↔ ∀ shaped : _ × _ × _,
          some (format, compact, metadata) = some shaped → Fits s.maxCompactSize shaped.2.1 := by
        rw [truncate_isSome]
        exact ⟨fun fits shaped same => by cases same; exact fits, fun fits => fits _ rfl⟩
      rw [← cut, Option.bind_eq_bind, Option.bind_some]
      dsimp only
      cases s.truncate compact with
      | none => exact iff_of_false Bool.false_ne_true fun made => nomatch made.2
      | some text => exact iff_of_true rfl ⟨rfl, rfl⟩

theorem shape_le {s : OutputShaper} {saved : Option PathBuf} {shaped : ShapedOutput}
    (done : s.shape saved output hint = some shaped) (processed : hint ≠ .raw)
    (long : byteLen output > s.threshold) :
    byteLen shaped.compact ≤ s.maxCompactSize + byteLen truncationNote := by
  unfold shape at done
  rw [if_neg (not_or.mpr ⟨processed, Nat.not_le.mpr long⟩)] at done
  obtain ⟨summary, -, rest⟩ := Option.bind_eq_some_iff.mp done
  obtain ⟨cut, truncated, same⟩ := Option.bind_eq_some_iff.mp rest
  cases same
  exact truncate_le truncated

theorem bounded_iff {s : OutputShaper} {saved : Option PathBuf} :
    Bounded s saved output hint ↔ (s.shape saved output hint).isSome = true := by
  rw [Option.isSome_iff_exists]
  exact ⟨fun ⟨shaped, done, _⟩ => ⟨shaped, done⟩,
    fun ⟨shaped, done⟩ => ⟨shaped, done, shape_le done⟩⟩

/-- **Shaping.** An output is returned as it is if that is asked for or it is short. Otherwise it
is shaped to a bounded text exactly if the slices of JSON, where the output looks like that, and
the cut of the summary fall between characters. -/
theorem shape_bounded_iff (crates : ShaperCrates) (threshold : Nat) (saved : Option PathBuf)
    (output : Text) (hint : IntentHint) :
    Bounded ((new crates).withThreshold threshold) saved output hint ↔
      hint = .raw ∨ byteLen output ≤ threshold ∨
        (JsonShaper.Chosen output → JsonShaper.SlicesFit crates output) ∧
          ∀ shaped,
            ((new crates).withThreshold threshold).detectAndShape output hint = some shaped →
              Fits 8192 shaped.2.1 := by
  rw [bounded_iff, shape_isSome, detectAndShape_isSome]
  rfl

/-! ## An output that is cut inside a character -/

section
open HtmlExtraction

/-- No text is JSON, the letters are capitals, and maps are walked as they were filled. -/
def plainCrates : ShaperCrates where
  fromStr _ := .error "expected value at line 1 column 1".toList
  toUppercase text := text
  order entries := entries

theorem mem_accents {n : Nat} {c : Char} (member : c ∈ accents n) : c = 'a' ∨ c = 'é' :=
  (List.mem_cons.mp member).imp_right List.eq_of_mem_replicate

theorem has_accents {pat : String} (n : Nat)
    (other : pat.toList.any (fun c => c ≠ 'a' ∧ c ≠ 'é') = true) : has pat (accents n) = false := by
  obtain ⟨c, member, outside⟩ := List.any_eq_true.mp other
  obtain ⟨first, second⟩ := of_decide_eq_true outside
  rw [has, ← Bool.not_eq_true, contains_iff]
  intro inside
  exact (mem_accents (inside.subset member)).elim first second

theorem lines_accents (n : Nat) : lines (accents n) = [accents n] := by
  refine lines_last (fun member => ?_) (List.cons_ne_nil _ _)
  exact (mem_accents member).elim (by decide) (by decide)

theorem trim_accents (n : Nat) : trim (accents n) = accents n := by
  refine trim_clean fun c member => ?_
  rcases mem_accents member with rfl | rfl <;> decide

/-- The text is in no format. -/
theorem accents_plain (threshold n : Nat) :
    ((new plainCrates).withThreshold threshold).detectAndShape (accents n) .auto =
      some (.plain, accents n, { lineCount := 1, truncated := true }) := by
  have gcc : GccClang.detect (accents n) = false := by
    simp only [GccClang.detect, Bool.or_eq_false_iff]
    exact ⟨⟨has_accents n (by decide), has_accents n (by decide)⟩, has_accents n (by decide)⟩
  have cargo : RustCargo.detect (accents n) = false := by
    simp only [RustCargo.detect, Bool.or_eq_false_iff, Bool.and_eq_false_iff]
    exact ⟨⟨⟨has_accents n (by decide), .inl (has_accents n (by decide))⟩,
      has_accents n (by decide)⟩, has_accents n (by decide)⟩
  have python : PythonTraceback.detect (accents n) = false := by
    simp only [PythonTraceback.detect, Bool.or_eq_false_iff, Bool.and_eq_false_iff]
    exact ⟨⟨⟨⟨⟨has_accents n (by decide), .inl (has_accents n (by decide))⟩,
      has_accents n (by decide)⟩, has_accents n (by decide)⟩, has_accents n (by decide)⟩,
      has_accents n (by decide)⟩
  have json : JsonShaper.detect (accents n) = false := by
    rw [JsonShaper.detect, trim_accents]
    exact decide_eq_false fun shape => shape.elim (fun first => absurd first.1 (by simp [accents]))
      fun first => absurd first.1 (by simp [accents])
  have directory : DirectoryShaper.detect (accents n) = false := by
    rw [DirectoryShaper.detect, lines_accents]
    exact decide_eq_false fun many => absurd many.1 (Nat.not_le.mpr (by decide : 1 < 20))
  have log : LogShaper.detect (accents n) = false := by
    have absent : LogShaper.logPatterns.countP (fun pat => has pat (accents n)) = 0 := by
      refine List.countP_eq_zero.mpr fun pat member => ?_
      have other : LogShaper.logPatterns.all
          (fun pat => pat.toList.any fun c => c ≠ 'a' ∧ c ≠ 'é') = true := by decide
      rw [has_accents n (List.all_eq_true.mp other pat member)]
      exact Bool.false_ne_true
    rw [LogShaper.detect, absent]
    rfl
  rw [detectAndShape_eq, gcc, cargo, python, json, directory, log, plainText, lines_accents]
  rfl

/-- An output of `a` and five thousand accents panics. -/
theorem accents_unshaped :
    (new plainCrates).shape none (accents 5000) .auto = none ∧
      ¬ Bounded (new plainCrates) none (accents 5000) .auto := by
  have panics : ¬ ((new plainCrates).shape none (accents 5000) .auto).isSome = true := by
    rw [shape_isSome]
    rintro (raw | short | ⟨-, fits⟩)
    · cases raw
    · rw [byteLen_accents] at short
      exact absurd short (by decide)
    · rcases fits _ (accents_plain 4096 5000) with short | boundary
      · rw [byteLen_accents] at short
        exact absurd short (by decide)
      · exact absurd (accents_boundary boundary) (by decide)
  exact ⟨Option.not_isSome_iff_eq_none.mp panics, mt bounded_iff.mp panics⟩

end

end OutputShaper

end Devit
