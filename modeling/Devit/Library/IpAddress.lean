import Devit.Library.Text

/-! Internet addresses and the texts they are written as, as `std::net` parses them. An IPv4
address is four decimal numbers without leading zeros. An IPv6 address is eight groups, the last
two perhaps written as an IPv4 address, and one run of zeros may be left out. What is in brackets
is no address here. -/
namespace Devit
open Text

structure Ipv4Addr where
  a : UInt8
  b : UInt8
  c : UInt8
  d : UInt8
  deriving DecidableEq

structure Ipv6Addr where
  segments : List UInt16
  eight : segments.length = 8
  deriving DecidableEq

inductive IpAddr where
  | v4 (addr : Ipv4Addr)
  | v6 (addr : Ipv6Addr)
  deriving DecidableEq

/-! ## Kinds of addresses -/

/-- `Ipv4Addr::is_loopback`. -/
def Ipv4Addr.isLoopback (addr : Ipv4Addr) : Bool := addr.a = 127

/-- `Ipv4Addr::is_private`. -/
def Ipv4Addr.isPrivate (addr : Ipv4Addr) : Bool :=
  addr.a = 10 ∨ (addr.a = 172 ∧ 16 ≤ addr.b ∧ addr.b ≤ 31) ∨ (addr.a = 192 ∧ addr.b = 168)

/-- `Ipv4Addr::is_link_local`. -/
def Ipv4Addr.isLinkLocal (addr : Ipv4Addr) : Bool := addr.a = 169 ∧ addr.b = 254

/-- `Ipv4Addr::is_unspecified`. -/
def Ipv4Addr.isUnspecified (addr : Ipv4Addr) : Bool := addr = ⟨0, 0, 0, 0⟩

/-- `Ipv6Addr::is_loopback`. -/
def Ipv6Addr.isLoopback (addr : Ipv6Addr) : Bool := addr.segments = [0, 0, 0, 0, 0, 0, 0, 1]

/-- `Ipv6Addr::is_unspecified`. -/
def Ipv6Addr.isUnspecified (addr : Ipv6Addr) : Bool := addr.segments = [0, 0, 0, 0, 0, 0, 0, 0]

/-- `Ipv6Addr::is_unique_local`. -/
def Ipv6Addr.isUniqueLocal (addr : Ipv6Addr) : Bool :=
  addr.segments.head?.any fun first => first &&& 0xfe00 = 0xfc00

/-- `Ipv6Addr::is_unicast_link_local`. -/
def Ipv6Addr.isUnicastLinkLocal (addr : Ipv6Addr) : Bool :=
  addr.segments.head?.any fun first => first &&& 0xffc0 = 0xfe80

/-- `Ipv6Addr::to_ipv4_mapped`. -/
def Ipv6Addr.toIpv4Mapped (addr : Ipv6Addr) : Option Ipv4Addr :=
  match addr.segments with
  | [0, 0, 0, 0, 0, 0xffff, ab, cd] =>
    some ⟨UInt8.ofNat (ab.toNat / 256), UInt8.ofNat (ab.toNat % 256), UInt8.ofNat (cd.toNat / 256),
      UInt8.ofNat (cd.toNat % 256)⟩
  | _ => none

/-- `IpAddr::is_loopback`. -/
def IpAddr.isLoopback : IpAddr → Bool
  | .v4 addr => addr.isLoopback
  | .v6 addr => addr.isLoopback

/-- The two groups of an embedded address. -/
def Ipv4Addr.groups (addr : Ipv4Addr) : List UInt16 :=
  [UInt16.ofNat (addr.a.toNat * 256 + addr.b.toNat),
    UInt16.ofNat (addr.c.toNat * 256 + addr.d.toNat)]

namespace IpAddress

/-! ## Reading -/

/-- `char::to_digit`. -/
def toDigit (radix : Nat) (c : Char) : Option Nat :=
  let value :=
    if c.isDigit then c.toNat - '0'.toNat
    else if 'a' ≤ c ∧ c ≤ 'z' then c.toNat - 'a'.toNat + 10
    else if 'A' ≤ c ∧ c ≤ 'Z' then c.toNat - 'A'.toNat + 10
    else radix
  if value < radix then some value else none

def digitsValue (radix : Nat) (digits : Text) : Nat :=
  digits.foldl (fun value c => value * radix + (toDigit radix c).getD 0) 0

/-- A number of a few digits, and the text behind it. -/
def readNumber (radix maxDigits : Nat) (allowZeroPrefix : Bool) (max : Nat) (s : Text) :
    Option (Nat × Text) :=
  let digits := s.takeWhile fun c => (toDigit radix c).isSome
  if digits.length > maxDigits ∨ digits = [] then none
  else if !allowZeroPrefix ∧ s.head? = some '0' ∧ digits.length > 1 then none
  else if digitsValue radix digits ≤ max then
    some (digitsValue radix digits, s.drop digits.length)
  else none

def readGivenChar (c : Char) : Text → Option Text
  | [] => none
  | d :: s => if d = c then some s else none

/-- What is read behind a separator, which does not stand in front of the first item. -/
def readSeparator {α : Type} (sep : Char) (index : Nat) (inner : Text → Option (α × Text))
    (s : Text) : Option (α × Text) :=
  if index > 0 then (readGivenChar sep s).bind inner else inner s

def readOctet (s : Text) : Option (UInt8 × Text) :=
  (readNumber 10 3 false 255 s).map fun (n, rest) => (UInt8.ofNat n, rest)

def readIpv4Addr (s : Text) : Option (Ipv4Addr × Text) := do
  let (a, s) ← readOctet s
  let (b, s) ← readSeparator '.' 1 readOctet s
  let (c, s) ← readSeparator '.' 2 readOctet s
  let (d, s) ← readSeparator '.' 3 readOctet s
  some (⟨a, b, c, d⟩, s)

def readGroup (s : Text) : Option (UInt16 × Text) :=
  (readNumber 16 4 true 65535 s).map fun (n, rest) => (UInt16.ofNat n, rest)

/-- As many groups as there are, up to a limit, and whether they end in an embedded address. -/
def readGroups (i : Nat) : Nat → Text → List UInt16 × Bool × Text
  | 0, s => ([], false, s)
  | left + 1, s =>
    match (if left > 0 then readSeparator ':' i readIpv4Addr s else none) with
    | some (addr, rest) => (addr.groups, true, rest)
    | none =>
      match readSeparator ':' i readGroup s with
      | none => ([], false, s)
      | some (group, rest) =>
        let (groups, ipv4, rest) := readGroups (i + 1) left rest
        (group :: groups, ipv4, rest)

theorem readGroups_length (i limit : Nat) (s : Text) : (readGroups i limit s).1.length ≤ limit := by
  induction limit generalizing i s with
  | zero => exact Nat.le_refl 0
  | succ left ih =>
    rw [readGroups]
    split
    · rename_i addr rest embedded
      split at embedded
      · rename_i more
        exact Nat.succ_le_succ more
      · cases embedded
    · split
      · exact Nat.zero_le _
      · exact Nat.succ_le_succ (ih _ _)

def readIpv6Addr (s : Text) : Option (Ipv6Addr × Text) :=
  let head := readGroups 0 8 s
  if whole : head.1.length = 8 then some (⟨head.1, whole⟩, head.2.2)
  else if head.2.1 then none
  else
    ((readGivenChar ':' head.2.2).bind (readGivenChar ':')).map fun s =>
      let tail := readGroups 0 (8 - (head.1.length + 1)) s
      (⟨head.1 ++ List.replicate (8 - head.1.length - tail.1.length) 0 ++ tail.1, by
        have headFits : head.1.length ≤ 8 := readGroups_length 0 8 _
        have tailFits : tail.1.length ≤ 8 - (head.1.length + 1) := readGroups_length 0 _ s
        simp only [List.length_append, List.length_replicate]
        omega⟩, tail.2.2)

/-- `IpAddr::from_str`: nothing may follow. -/
def parse (s : Text) : Option IpAddr :=
  match readIpv4Addr s with
  | some (addr, rest) => if rest = [] then some (.v4 addr) else none
  | none =>
    match readIpv6Addr s with
    | some (addr, rest) => if rest = [] then some (.v6 addr) else none
    | none => none

/-! ## Writing -/

def printIpv4 (addr : Ipv4Addr) : Text :=
  printNat addr.a.toNat ++ '.' :: (printNat addr.b.toNat ++ '.' :: (printNat addr.c.toNat ++
    '.' :: printNat addr.d.toNat))

/-! ## There and back -/

theorem toDigit_isDigit {c : Char} (digit : c.isDigit = true) :
    toDigit 10 c = some (c.toNat - '0'.toNat) := by
  have small : c.toNat - '0'.toNat < 10 := by
    simp only [Char.isDigit, Bool.and_eq_true, decide_eq_true_eq, ge_iff_le,
      UInt32.le_iff_toNat_le] at digit
    have high : c.toNat ≤ '9'.toNat := digit.2
    have nine : '9'.toNat = '0'.toNat + 9 := rfl
    omega
  simp only [toDigit, digit, if_true, small]

theorem digitsValue_decimal {digits : Text} (all : ∀ c ∈ digits, c.isDigit = true) :
    digitsValue 10 digits = Nat.ofDigitChars 10 digits 0 := by
  have general (start : Nat) : digits.foldl (fun value c => value * 10 + (toDigit 10 c).getD 0)
      start = Nat.ofDigitChars 10 digits start := by
    induction digits generalizing start with
    | nil => rfl
    | cons c cs ih =>
      rw [List.foldl_cons, Nat.ofDigitChars_cons, toDigit_isDigit (all c List.mem_cons_self),
        ih fun d member => all d (List.mem_cons_of_mem _ member), Option.getD_some, Nat.mul_comm]
  exact general 0

/-- What stands behind a number is no digit. -/
def NumberEnds (rest : Text) : Prop := ∀ c ∈ rest.head?, toDigit 10 c = none

theorem takeWhile_digits {digits rest : Text} (all : ∀ c ∈ digits, c.isDigit = true)
    (ends : NumberEnds rest) :
    (digits ++ rest).takeWhile (fun c => (toDigit 10 c).isSome) = digits := by
  rw [List.takeWhile_append_of_pos fun c member => by rw [toDigit_isDigit (all c member)]; rfl]
  cases rest with
  | nil => simp
  | cons c rest => simp [ends c rfl]

theorem printNat_small {n : Nat} (small : n ≤ 255) :
    (printNat n).length ≤ 3 ∧ ((printNat n).head? = some '0' → (printNat n).length = 1) := by
  have all : ∀ n < 256, (printNat n).length ≤ 3 ∧
      ((printNat n).head? = some '0' → (printNat n).length = 1) := by
    decide +kernel
  exact all n (by omega)

theorem readOctet_print (octet : UInt8) {rest : Text} (ends : NumberEnds rest) :
    readOctet (printNat octet.toNat ++ rest) = some (octet, rest) := by
  have digits : ∀ c ∈ printNat octet.toNat, c.isDigit = true := fun c => printNat_isDigit
  have small : octet.toNat ≤ 255 := Nat.le_of_lt_succ octet.toNat_lt
  obtain ⟨short, zero⟩ := printNat_small small
  have value : digitsValue 10 (printNat octet.toNat) = octet.toNat := by
    rw [digitsValue_decimal digits, printNat, Nat.ofDigitChars_ten_toDigits]
  have filled := printNat_ne_nil octet.toNat
  have noZero : ¬ ((printNat octet.toNat ++ rest).head? = some '0' ∧
      (printNat octet.toNat).length > 1) := by
    rintro ⟨first, long⟩
    rw [List.head?_append_of_ne_nil _ filled] at first
    exact absurd (zero first) (by omega)
  rw [readOctet, readNumber]
  dsimp only
  rw [takeWhile_digits digits ends, value, if_neg (by simp [filled, short]),
    if_neg (by simpa using noZero),
    if_pos small, List.drop_left]
  simp

/-- An address is read back from its text. -/
theorem parse_printIpv4 (addr : Ipv4Addr) : parse (printIpv4 addr) = some (.v4 addr) := by
  have dot (rest : Text) : NumberEnds ('.' :: rest) := by
    rintro c ⟨⟩
    decide
  have done : NumberEnds [] := nofun
  have last := readOctet_print addr.d done
  rw [List.append_nil] at last
  have read : readIpv4Addr (printIpv4 addr) = some (addr, []) := by
    simp [readIpv4Addr, printIpv4, readOctet_print _ (dot _), readSeparator, readGivenChar, last]
  rw [parse, read]
  rfl

/-- An address in brackets is not read. -/
theorem parse_bracket (s : Text) : parse ('[' :: s) = none := by
  have number (radix maxDigits : Nat) (zero : Bool) (max : Nat) (none : toDigit radix '[' = none) :
      readNumber radix maxDigits zero max ('[' :: s) = Option.none := by
    simp [readNumber, none]
  have octet : readOctet ('[' :: s) = none := by
    rw [readOctet, number 10 3 false 255 (by decide), Option.map_none]
  have group : readGroup ('[' :: s) = none := by
    rw [readGroup, number 16 4 true 65535 (by decide), Option.map_none]
  have four : readIpv4Addr ('[' :: s) = none := by
    rw [readIpv4Addr, octet]
    rfl
  have groups : readGroups 0 8 ('[' :: s) = ([], false, '[' :: s) := by
    rw [readGroups]
    simp [readSeparator, four, group]
  have six : readIpv6Addr ('[' :: s) = none := by
    unfold readIpv6Addr
    simp [groups, readGivenChar]
  rw [parse, four, six]

example : parse "::1".toList = some (.v6 ⟨[0, 0, 0, 0, 0, 0, 0, 1], rfl⟩) := by decide +kernel

end IpAddress
end Devit
