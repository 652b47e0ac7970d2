import Devit.Library.Text

/-! Texts as bytes. Decoding puts a replacement character for what is not UTF-8. What is cut
off by an ASCII byte, or by the end, is replaced once, so a text falls apart at such bytes. -/
namespace Devit.Text

/-- `str::len`, which counts bytes. -/
def byteLen (s : Text) : Nat := (s.map Char.utf8Size).sum

theorem byteLen_append (a b : Text) : byteLen (a ++ b) = byteLen a + byteLen b := by
  simp [byteLen]

/-- The first `n` bytes of a text; there is no such slice unless a character ends there. -/
def sliceTo (n : Nat) : Text → Option Text
  | [] => if n = 0 then some [] else none
  | c :: cs =>
    if n = 0 then some []
    else if n < c.utf8Size then none
    else (sliceTo (n - c.utf8Size) cs).map (c :: ·)

/-- A character of the text ends behind so many bytes, or the text begins there. -/
def IsBoundary (n : Nat) (s : Text) : Prop := ∃ front back, s = front ++ back ∧ byteLen front = n

theorem byteLen_cons (c : Char) (cs : Text) : byteLen (c :: cs) = c.utf8Size + byteLen cs := by
  simp [byteLen]

theorem sliceTo_isSome {n : Nat} {s : Text} : (sliceTo n s).isSome = true ↔ IsBoundary n s := by
  induction s generalizing n with
  | nil =>
    unfold sliceTo IsBoundary
    by_cases none : n = 0 <;> simp [none, byteLen, eq_comm]
  | cons c cs ih =>
    have wide := c.utf8Size_pos
    rw [sliceTo]
    split
    · rename_i none
      exact iff_of_true rfl ⟨[], c :: cs, rfl, none.symm⟩
    · rename_i some_byte
      split
      · rename_i inside
        refine iff_of_false Bool.false_ne_true ?_
        rintro ⟨front, back, shape, size⟩
        cases front with
        | nil => exact some_byte size.symm
        | cons d front =>
          cases (List.cons.inj shape).1
          rw [byteLen_cons] at size
          omega
      · rename_i outside
        rw [Option.isSome_map, ih]
        constructor
        · rintro ⟨front, back, rfl, size⟩
          exact ⟨c :: front, back, rfl, by rw [byteLen_cons, size]; omega⟩
        · rintro ⟨front, back, shape, size⟩
          cases front with
          | nil => exact absurd size.symm some_byte
          | cons d front =>
            obtain ⟨rfl, rest⟩ := List.cons.inj shape
            rw [byteLen_cons] at size
            exact ⟨front, back, rest, by omega⟩

theorem sliceTo_eq_some {n : Nat} {s out : Text} (cut : sliceTo n s = some out) :
    out <+: s ∧ byteLen out = n := by
  induction s generalizing n out with
  | nil =>
    rw [sliceTo] at cut
    split at cut
    · rename_i none
      cases cut
      exact ⟨List.prefix_refl _, none.symm⟩
    · cases cut
  | cons c cs ih =>
    rw [sliceTo] at cut
    split at cut
    · rename_i none
      cases cut
      exact ⟨List.nil_prefix, none.symm⟩
    · split at cut
      · cases cut
      · rename_i outside
        obtain ⟨rest, later, rfl⟩ := Option.map_eq_some_iff.mp cut
        obtain ⟨inside, size⟩ := ih later
        refine ⟨List.cons_prefix_cons.mpr ⟨rfl, inside⟩, ?_⟩
        rw [byteLen_cons, size]
        omega

/-- In a text of ASCII characters one ends behind every byte. -/
theorem isBoundary_ascii {n : Nat} {s : Text} (ascii : ∀ c ∈ s, c.utf8Size = 1)
    (short : n ≤ byteLen s) : IsBoundary n s := by
  have bytes : ∀ part : Text, (∀ c ∈ part, c.utf8Size = 1) → byteLen part = part.length := by
    intro part plain
    induction part with
    | nil => rfl
    | cons c part ih =>
      obtain ⟨here, later⟩ := List.forall_mem_cons.mp plain
      rw [byteLen_cons, here, ih later, List.length_cons, Nat.add_comm]
  rw [bytes s ascii] at short
  refine ⟨s.take n, s.drop n, (List.take_append_drop n s).symm, ?_⟩
  rw [bytes _ fun c member => ascii c (List.mem_of_mem_take member), List.length_take]
  omega

def replacement : Char := '\uFFFD'

/-- A character of several bytes, with so many to come: the value so far, and the range
that the next byte must lie in. -/
structure Pending where
  value : Nat
  left : Nat
  low : Nat
  high : Nat
  above_ascii : 128 ≤ low

def continuation (value left : Nat) : Pending := ⟨value, left, 0x80, 0xBF, by decide⟩

/-- What a first byte announces. -/
def lead (b : Nat) : Option Pending :=
  if 0xC2 ≤ b ∧ b ≤ 0xDF then some (continuation (b - 0xC0) 1)
  else if b = 0xE0 then some ⟨0, 2, 0xA0, 0xBF, by decide⟩
  else if b = 0xED then some ⟨0xD, 2, 0x80, 0x9F, by decide⟩
  else if 0xE1 ≤ b ∧ b ≤ 0xEF then some (continuation (b - 0xE0) 2)
  else if b = 0xF0 then some ⟨0, 3, 0x90, 0xBF, by decide⟩
  else if b = 0xF4 then some ⟨4, 3, 0x80, 0x8F, by decide⟩
  else if 0xF1 ≤ b ∧ b ≤ 0xF3 then some (continuation (b - 0xF0) 3)
  else none

/-- The characters that a byte completes, and what is begun behind them. -/
def byteStep (pending : Option Pending) (byte : UInt8) : Text × Option Pending :=
  let b := byte.toNat
  let begun : Text × Option Pending :=
    if b < 128 then ([Char.ofNat b], none)
    else match lead b with
      | some next => ([], some next)
      | none => ([replacement], none)
  match pending with
  | none => begun
  | some p =>
    if p.low ≤ b ∧ b ≤ p.high then
      let value := p.value * 64 + (b - 0x80)
      if p.left = 1 then ([Char.ofNat value], none)
      else ([], some (continuation value (p.left - 1)))
    else (replacement :: begun.1, begun.2)

def decodeFrom (pending : Option Pending) : List UInt8 → Text
  | [] => if pending.isSome then [replacement] else []
  | byte :: bytes =>
    (byteStep pending byte).1 ++ decodeFrom (byteStep pending byte).2 bytes

/-- `String::from_utf8_lossy`. -/
def utf8Lossy (bytes : List UInt8) : Text := decodeFrom none bytes

example : utf8Lossy [0x61, 0xE2, 0x82, 0xAC, 0xE2, 0x82] = ['a', '€', replacement] := by decide

end Devit.Text
