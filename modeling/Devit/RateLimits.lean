import Devit.HeaderPaths
import Devit.Library.Json
import Devit.Library.Search
import Mathlib.Data.List.DropRight

/-! How the rate limit of a capability is written as text and read back. What is written is
a count and a window; read is what people may write: names and their plurals, free windows,
numbers alone. The letter `s` is trimmed at both ends, so `second` is not found again. -/
namespace Devit
open Text

/-- So many actions at most in any time of so many seconds. -/
structure CapabilityRateLimit where
  maxActions : UInt32
  perSeconds : UInt64
  deriving DecidableEq, Repr

namespace CapabilityRateLimit

def perMinute (maxActions : UInt32) : CapabilityRateLimit := ⟨maxActions, 60⟩

/-- `CapabilityRateLimit::default`. -/
def standard : CapabilityRateLimit := perMinute 10

/-! ## Writing -/

def windowText (perSeconds : UInt64) : Text :=
  if perSeconds = 1 then "second".toList
  else if perSeconds = 60 then "minute".toList
  else if perSeconds = 3600 then "hour".toList
  else printNat perSeconds.toNat ++ ['s']

/-- `capability_rate_limit_serde::serialize`, by the text. -/
def serialize (value : CapabilityRateLimit) : Text :=
  printNat value.maxActions.toNat ++ '/' :: windowText value.perSeconds

/-! ## Reading -/

/-- `str::trim_matches` for characters. -/
def trimMatches (p : Char → Bool) (s : Text) : Text := (s.dropWhile p).rdropWhile p

def u32Max : Nat := 2 ^ 32 - 1

def u64Max : Nat := 2 ^ 64 - 1

/-- A number and what it is multiplied by, from the last letter. -/
def windowParts (trimmed : Text) : Text × Nat :=
  match stripLast 'h' trimmed, stripLast 'm' trimmed, stripLast 's' trimmed with
  | some stripped, _, _ => (stripped, 3600)
  | none, some stripped, _ => (stripped, 60)
  | none, none, some stripped => (stripped, 1)
  | none, none, none => (trimmed, 1)

def parseFreeFormWindow (raw : Text) : Option UInt64 :=
  let trimmed := trim raw
  if trimmed = [] then some 60
  else
    let (numPart, multiplier) := windowParts trimmed
    match parseUnsigned 10 u64Max (trim numPart) with
    | none => none
    | some value =>
      let seconds := min (value * multiplier) u64Max
      if seconds = 0 then none else some (UInt64.ofNat seconds)

def parseWindow (periodStr : Text) : Except Text UInt64 :=
  let period := trimMatches (fun c => c = 's' ∨ c = ' ') periodStr
  if period = "sec".toList ∨ period = "second".toList then .ok 1
  else if period = "min".toList ∨ period = "minute".toList then .ok 60
  else if period = "hour".toList ∨ period = "hr".toList then .ok 3600
  else
    match parseFreeFormWindow period with
    | some perSeconds => .ok perSeconds
    | none => .error ("invalid rate limit window '".toList ++ periodStr ++ ['\''])

/-- The count and the window, at a slash or else at `per`. -/
def splitRateLimit (normalized : Text) : Option (Text × Text) :=
  match splitFirst '/' normalized with
  | some (left, right) => some (trim left, trim right)
  | none =>
    match find "per".toList normalized with
    | some idx =>
      some (trim (normalized.take idx), trim (trimStartMatches "per".toList (normalized.drop idx)))
    | none => none

section
-- `str::to_lowercase`.
variable (lowercase : Text → Text)

def parseRateLimitStr (raw : Text) : Except Text CapabilityRateLimit :=
  let normalized := lowercase (trim raw)
  if normalized = [] then .ok standard
  else
    match splitRateLimit normalized with
    | none => .error ("invalid rate limit '".toList ++ raw ++ ['\''])
    | some (countStr, periodStr) =>
      match parseUnsigned 10 u32Max countStr with
      | none => .error ("invalid rate limit count '".toList ++ countStr ++ ['\''])
      | some count => (parseWindow periodStr).map fun perSeconds => ⟨UInt32.ofNat count, perSeconds⟩

def toU32 (n : UInt64) : Option UInt32 :=
  if n.toNat ≤ u32Max then some (UInt32.ofNat n.toNat) else none

/-- The first of the keys that the object has, as a number. -/
def firstU64 (keys : List String) (map : Json) : Option UInt64 :=
  (keys.findSome? fun key => map.get key.toList).bind Json.asU64

def parseValue (value : Json) : Except Text CapabilityRateLimit :=
  match value with
  | .string s => parseRateLimitStr lowercase s
  | .object fields =>
    match firstU64 ["count", "max", "max_actions"] (.object fields) with
    | none => .error "missing count field".toList
    | some maxActions =>
      match firstU64 ["per_seconds", "window_secs"] (.object fields) with
      | none => .error "missing per_seconds field".toList
      | some perSeconds =>
        match toU32 maxActions with
        | none => .error "max_actions exceeds u32".toList
        | some maxActions => .ok ⟨maxActions, perSeconds⟩
  | .unsigned count =>
    match toU32 count with
    | some count => .ok (perMinute count)
    | none => .error "invalid numeric rate limit".toList
  | .negative _ => .error "invalid numeric rate limit".toList
  | .float _ => .error "invalid numeric rate limit".toList
  | _ => .error "unsupported rate limit format".toList

/-- `capability_rate_limit_serde::deserialize`. -/
def deserialize (raw : Json) : Except Text CapabilityRateLimit := parseValue lowercase raw

end

/-! ## Reading what was written -/

variable {lowercase : Text → Text} {value : CapabilityRateLimit}

/-- Digits, small letters and the slash. -/
def isWritten (c : Char) : Bool := c.isDigit || c.isLower || c = '/'

theorem written_codes {c : Char} (written : isWritten c = true) : 47 ≤ c.toNat ∧ c.toNat ≤ 57 ∨
    97 ≤ c.toNat ∧ c.toNat ≤ 122 := by
  rw [isWritten] at written
  delta Char.isDigit Char.isLower at written
  simp only [Bool.or_eq_true, Bool.and_eq_true, decide_eq_true_eq, ge_iff_le,
    UInt32.le_iff_toNat_le] at written
  rcases written with (⟨low, high⟩ | ⟨low, high⟩) | rfl
  · exact .inl ⟨Nat.le_trans (by decide) low, high⟩
  · exact .inr ⟨low, high⟩
  · exact .inl (by decide)

theorem written_not_space {c : Char} (written : isWritten c = true) : isWhitespace c = false := by
  have codes := written_codes written
  simp only [isWhitespace, decide_eq_false_iff_not]
  omega

theorem printNat_written (n : Nat) : ∀ c ∈ printNat n, isWritten c = true := by
  intro c member
  simp [isWritten, printNat_isDigit member]

theorem windowText_written (perSeconds : UInt64) :
    ∀ c ∈ windowText perSeconds, isWritten c = true := by
  unfold windowText
  split
  · exact List.all_eq_true.mp (by decide)
  split
  · exact List.all_eq_true.mp (by decide)
  split
  · exact List.all_eq_true.mp (by decide)
  · intro c member
    rcases List.mem_append.mp member with digit | letter
    · exact printNat_written _ c digit
    · rw [List.mem_singleton.mp letter]
      decide

theorem trim_written {s : Text} (written : ∀ c ∈ s, isWritten c = true) : trim s = s :=
  trim_clean fun c member => written_not_space (written c member)

/-- The count and the window are found where they were written. -/
theorem splitRateLimit_serialize : splitRateLimit (serialize value) =
    some (printNat value.maxActions.toNat, windowText value.perSeconds) := by
  have clean : '/' ∉ printNat value.maxActions.toNat := fun slash =>
    absurd (printNat_isDigit slash) (by decide)
  rw [serialize, splitRateLimit, splitFirst_append _ clean]
  dsimp only
  rw [trim_written (printNat_written _), trim_written (windowText_written _)]

theorem stripLast_digits {n : Nat} {c : Char} (letter : c.isDigit = false) :
    stripLast c (printNat n) = none := by
  rw [stripLast, if_neg]
  intro last
  have digit := printNat_isDigit (List.mem_of_getLast? last)
  rw [letter] at digit
  cases digit

theorem parseFreeFormWindow_printNat {n : UInt64} :
    parseFreeFormWindow (printNat n.toNat) = if n = 0 then none else some n := by
  have fits : n.toNat ≤ u64Max := Nat.le_of_lt_succ n.toNat_lt
  have whole : min (n.toNat * 1) u64Max = n.toNat := by omega
  have zero : n.toNat = 0 ↔ n = 0 := by
    rw [← UInt64.toNat_inj]
    rfl
  rw [parseFreeFormWindow, trim_written (printNat_written _), if_neg (printNat_ne_nil _),
    windowParts, stripLast_digits (by decide), stripLast_digits (by decide),
    stripLast_digits (by decide)]
  dsimp only
  rw [trim_written (printNat_written _), parseUnsigned_printNat fits]
  simp only [whole, zero, UInt64.ofNat_toNat]

/-- Digits before the letter `s` are what trimming leaves. -/
theorem trimMatches_seconds (n : Nat) :
    trimMatches (fun c => c = 's' ∨ c = ' ') (printNat n ++ ['s']) = printNat n := by
  have digits : ∀ c ∈ printNat n, decide (c = 's' ∨ c = ' ') = false := by
    intro c member
    rw [decide_eq_false_iff_not]
    rintro (rfl | rfl)
    · exact absurd (printNat_isDigit member) (by decide)
    · exact absurd (printNat_isDigit member) (by decide)
  obtain ⟨first, rest, shape⟩ := List.exists_cons_of_ne_nil (printNat_ne_nil n)
  obtain ⟨init, last, shape'⟩ :=
    (List.eq_nil_or_concat (printNat n)).resolve_left (printNat_ne_nil n)
  have kept : (printNat n ++ ['s']).dropWhile (fun c => c = 's' ∨ c = ' ') =
      printNat n ++ ['s'] := by
    have here := digits first (by rw [shape]; exact List.mem_cons_self)
    rw [shape, List.cons_append,
      List.dropWhile_cons_of_neg (by rw [here]; exact Bool.false_ne_true)]
  rw [List.concat_eq_append] at shape'
  have ends := digits last (by rw [shape']; simp)
  rw [trimMatches, kept, List.rdropWhile_concat_pos _ _ _ (by decide), shape',
    List.rdropWhile_concat_neg _ _ _ (by rw [ends]; exact Bool.false_ne_true)]

theorem parseWindow_windowText (perSeconds : UInt64) :
    parseWindow (windowText perSeconds) = .ok perSeconds ↔ perSeconds ≠ 0 ∧ perSeconds ≠ 1 := by
  by_cases one : perSeconds = 1
  · subst one
    exact iff_of_false (by decide +kernel) (by decide)
  by_cases sixty : perSeconds = 60
  · subst sixty
    exact iff_of_true (by decide +kernel) (by decide)
  by_cases hour : perSeconds = 3600
  · subst hour
    exact iff_of_true (by decide +kernel) (by decide)
  have unnamed : ∀ name : Text, name.all Char.isDigit = false →
      printNat perSeconds.toNat ≠ name := by
    rintro name letter rfl
    rw [List.all_eq_true.mpr fun c member => printNat_isDigit member] at letter
    cases letter
  rw [windowText, if_neg one, if_neg sixty, if_neg hour, parseWindow, trimMatches_seconds,
    if_neg (not_or.mpr ⟨unnamed _ (by decide), unnamed _ (by decide)⟩),
    if_neg (not_or.mpr ⟨unnamed _ (by decide), unnamed _ (by decide)⟩),
    if_neg (not_or.mpr ⟨unnamed _ (by decide), unnamed _ (by decide)⟩),
    parseFreeFormWindow_printNat]
  by_cases zero : perSeconds = 0
  · simp [zero]
  · simp [zero, one]

/-- **Round trip.** A written rate limit is read back exactly if its window is no single
second. -/
theorem rate_limit_round_trip_iff
    (keeps : ∀ s : Text, (∀ c ∈ s, c.toNat < 128 ∧ c.isUpper = false) → lowercase s = s)
    (some_second : 1 ≤ value.perSeconds) :
    deserialize lowercase (.string (serialize value)) = .ok value ↔ value.perSeconds ≠ 1 := by
  have written : ∀ c ∈ serialize value, isWritten c = true := by
    intro c member
    rcases List.mem_append.mp member with digit | later
    · exact printNat_written _ c digit
    · rcases List.mem_cons.mp later with rfl | letter
      · decide
      · exact windowText_written _ c letter
  have low : lowercase (serialize value) = serialize value := by
    refine keeps _ fun c member => ?_
    have codes := written_codes (written c member)
    refine ⟨by omega, ?_⟩
    delta Char.isUpper
    simp only [decide_eq_false_iff_not, ge_iff_le, UInt32.le_iff_toNat_le]
    have upper : ('Z'.val).toNat = 90 := rfl
    have lower : ('A'.val).toNat = 65 := rfl
    have code : c.toNat = c.val.toNat := rfl
    omega
  have filled : serialize value ≠ [] := by simp [serialize]
  have fits : value.maxActions.toNat ≤ u32Max := Nat.le_of_lt_succ value.maxActions.toNat_lt
  have positive : value.perSeconds ≠ 0 := by
    intro zero
    rw [zero] at some_second
    exact absurd some_second (by decide)
  rw [deserialize, parseValue, parseRateLimitStr, trim_written written, low, if_neg filled,
    splitRateLimit_serialize]
  dsimp only
  rw [parseUnsigned_printNat fits]
  dsimp only
  refine Iff.trans ?_ ((parseWindow_windowText value.perSeconds).trans (and_iff_right positive))
  cases parseWindow (windowText value.perSeconds) with
  | error e =>
    simp only [Except.map]
    exact iff_of_false (by simp) (by simp)
  | ok perSeconds =>
    rw [UInt32.ofNat_toNat]
    constructor
    · intro same
      exact congrArg (Except.map CapabilityRateLimit.perSeconds) same
    · intro same
      cases same
      rfl

/-- Thirty actions in 90 seconds are read back. -/
theorem ninety_seconds_round_trip :
    deserialize (List.map Char.toLower) (.string (serialize ⟨30, 90⟩)) = .ok ⟨30, 90⟩ := by
  refine (rate_limit_round_trip_iff (fun s plain => ?_) (by decide)).mpr (by decide)
  refine (List.map_congr_left fun c member => ?_).trans (List.map_id s)
  have small : ¬ (c.val ≥ 'A'.val ∧ c.val ≤ 'Z'.val) := of_decide_eq_false (plain c member).2
  exact dif_neg small

/-- Ten actions in a second are not read back. -/
theorem one_second_refused : serialize ⟨10, 1⟩ = "10/second".toList ∧
    deserialize (List.map Char.toLower) (.string (serialize ⟨10, 1⟩)) =
      .error "invalid rate limit window 'second'".toList := by
  decide +kernel

end CapabilityRateLimit

end Devit
