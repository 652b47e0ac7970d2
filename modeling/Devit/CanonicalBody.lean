import Devit.DaemonState
import Devit.Library.JsonBrackets

/-! What a message authentication code vouches for. The fields of a message are
written one behind the other with a bar between them, and all but the time and the
payload may hold bars themselves. The payload can always be told apart. The fields
before it can when the first four hold no bar, and no piece of the nonce that ends
in one reads as a time; otherwise another message has the same body. -/
namespace Devit
open Text

namespace CanonicalBody
open Daemon

/-- The fields that a body is made of. -/
def SameFields (m other : Msg) : Prop :=
  other.msgType = m.msgType ∧ other.msgId = m.msgId ∧ other.sender = m.sender ∧
    other.recipient = m.recipient ∧ other.ts = m.ts ∧ other.nonce = m.nonce ∧
    other.payload = m.payload

def isBar (c : Char) : Bool := c == '|'

/-- The fields before the time. -/
def names (m : Msg) : List Text := [m.msgType, m.msgId, m.sender, m.recipient]

/-- None of the fields before the time holds a bar, and no piece of the nonce that ends
in a bar is a time. -/
def Unambiguous (m : Msg) : Prop :=
  (∀ name ∈ names m, '|' ∉ name) ∧
    ∀ piece ∈ (splitOn isBar m.nonce).dropLast, ∀ time : UInt64, piece ≠ printNat time.toNat

/-- The body but for the payload. -/
def heading (m : Msg) : Text := join ['|'] (names m ++ [printNat m.ts.toNat, m.nonce])

variable {m other : Msg}

theorem canonicalBody_eq (m : Msg) : canonicalBody m = heading m ++ '|' :: m.payload.render := by
  simp [canonicalBody, heading, names, join]

/-- The payload is told apart from what precedes it. -/
theorem heading_of_same (same : canonicalBody other = canonicalBody m) :
    heading other = heading m ∧ other.payload = m.payload := by
  rw [canonicalBody_eq, canonicalBody_eq] at same
  exact Json.append_render_injective (by decide) same

/-- The pieces of a heading: those of the names, the time, those of the nonce. -/
theorem splitOn_heading (m : Msg) : splitOn isBar (heading m) =
    (names m).flatMap (splitOn isBar) ++ printNat m.ts.toNat :: splitOn isBar m.nonce := by
  have time : splitOn isBar (printNat m.ts.toNat) = [printNat m.ts.toNat] := by
    refine splitOn_whole fun c member => ?_
    have digit := printNat_isDigit member
    unfold isBar
    rw [beq_eq_false_iff_ne]
    rintro rfl
    exact absurd digit (by decide)
  rw [heading, @splitOn_join isBar '|' rfl _ (by simp [names]), List.flatMap_append]
  simp only [List.flatMap_cons, List.flatMap_nil, List.append_nil, time, List.singleton_append]

theorem pieces_of_plain (plain : ∀ name ∈ names m, '|' ∉ name) :
    (names m).flatMap (splitOn isBar) = names m := by
  have whole : ∀ name ∈ names m, splitOn isBar name = [name] := by
    intro name member
    refine splitOn_whole fun c inside => ?_
    unfold isBar
    rw [beq_eq_false_iff_ne]
    rintro rfl
    exact plain name member inside
  rw [List.flatMap_congr whole]
  simp

/-- The other message's names take in the first four pieces, at least. -/
theorem pieces_beyond (clear : Unambiguous m) (headings : heading other = heading m) :
    ∃ more, (names other).flatMap (splitOn isBar) = names m ++ more ∧
      printNat m.ts.toNat :: splitOn isBar m.nonce =
        more ++ printNat other.ts.toNat :: splitOn isBar other.nonce := by
  have pieces := congrArg (splitOn isBar) headings
  rw [splitOn_heading, splitOn_heading, pieces_of_plain clear.1] at pieces
  rcases List.append_eq_append_iff.mp pieces with ⟨less, front, rest⟩ | ⟨more, front, rest⟩
  · have enough := length_le_pieces isBar (names other)
    have four : (names m).length = (names other).length := rfl
    have lengths := congrArg List.length front
    rw [List.length_append] at lengths
    obtain rfl : less = [] := List.length_eq_zero_iff.mp (by omega)
    refine ⟨[], ?_, rest.symm⟩
    rw [front, List.append_nil, List.append_nil]
  · exact ⟨more, front, rest⟩

/-- **A body without ambiguity gives its fields back.** -/
theorem same_of_unambiguous (clear : Unambiguous m)
    (same : canonicalBody other = canonicalBody m) : SameFields m other := by
  obtain ⟨headings, payload⟩ := heading_of_same same
  obtain ⟨more, front, rest⟩ := pieces_beyond clear headings
  cases more with
  | nil =>
    rw [List.append_nil] at front
    have exactly : (names other).flatMap (splitOn isBar) = names other :=
      pieces_exact (c := '|') ((congrArg List.length front).trans rfl)
    have equal : names other = names m := exactly.symm.trans front
    obtain ⟨time, nonce⟩ := List.cons.inj rest
    simp only [names, List.cons.injEq, and_true] at equal
    obtain ⟨type, id, sender, recipient⟩ := equal
    refine ⟨type, id, sender, recipient, (UInt64.toNat.inj (printNat_injective time)).symm, ?_,
      payload⟩
    rw [← join_splitOn '|' other.nonce, ← join_splitOn '|' m.nonce]
    exact congrArg _ nonce.symm
  | cons piece more =>
    -- Otherwise the other message's time is a piece of the nonce, with its nonce behind it.
    have nonce : splitOn isBar m.nonce =
        more ++ printNat other.ts.toNat :: splitOn isBar other.nonce := (List.cons.inj rest).2
    refine absurd rfl (clear.2 (printNat other.ts.toNat) ?_ other.ts)
    rw [nonce, List.dropLast_append_of_ne_nil (List.cons_ne_nil _ _),
      List.dropLast_cons_of_ne_nil (splitOn_ne_nil isBar other.nonce)]
    exact List.mem_append_right _ List.mem_cons_self

/-! ## Where a body is ambiguous -/

theorem bar_splits {name : Text} (bar : '|' ∈ name) :
    ∃ front back, name = front ++ '|' :: back ∧ front ≠ name ∧ back ≠ name := by
  obtain ⟨front, back, rfl⟩ := List.append_of_mem bar
  refine ⟨front, back, rfl, ?_, ?_⟩ <;>
  · intro same
    have lengths := congrArg List.length same
    simp only [List.length_append, List.length_cons] at lengths
    omega

/-- A bar in a name is taken for the one behind or before it. -/
theorem plain_of_determined
    (determined : ∀ other, canonicalBody other = canonicalBody m → SameFields m other) :
    ∀ name ∈ names m, '|' ∉ name := by
  intro name member bar
  obtain ⟨front, back, shape, shorter, shorter'⟩ := bar_splits bar
  simp only [names, List.mem_cons, List.not_mem_nil, or_false] at member
  rcases member with rfl | rfl | rfl | rfl
  · have moved := determined { m with msgType := front, msgId := back ++ '|' :: m.msgId }
      (by simp [canonicalBody, join, shape])
    exact shorter moved.1
  · have moved := determined { m with msgId := front, sender := back ++ '|' :: m.sender }
      (by simp [canonicalBody, join, shape])
    exact shorter moved.2.1
  · have moved := determined { m with sender := front, recipient := back ++ '|' :: m.recipient }
      (by simp [canonicalBody, join, shape])
    exact shorter moved.2.2.1
  · have moved := determined { m with sender := m.sender ++ '|' :: front, recipient := back }
      (by simp [canonicalBody, join, shape])
    exact shorter' moved.2.2.2.1

theorem canonicalBody_tail (m : Msg) : canonicalBody m =
    m.msgType ++ '|' :: (m.msgId ++ '|' :: (m.sender ++ '|' ::
      (join ['|'] [m.recipient, printNat m.ts.toNat, m.nonce] ++ '|' :: m.payload.render))) := by
  simp [canonicalBody, join]

/-- What stands between the first of some parts and the last of them can be joined to
either. -/
theorem join_shifted {sep first second part : Text} {before behind : List Text}
    (some_behind : behind ≠ []) :
    join sep [join sep (first :: second :: before), part, join sep behind] =
      join sep [first, second, join sep (before ++ part :: behind)] := by
  have whole : join sep (first :: second :: (before ++ part :: behind)) =
      join sep (first :: second :: before) ++ sep ++ join sep (part :: behind) :=
    @join_append sep (first :: second :: before) _ (List.cons_ne_nil _ _) (List.cons_ne_nil _ _)
  rw [join_cons (List.cons_ne_nil _ _), join_cons (by simp), join_cons some_behind] at whole
  simpa only [join, List.append_assoc] using whole.symm

/-- A time within the nonce is taken for the time of the message. -/
theorem timeless_of_determined
    (determined : ∀ other, canonicalBody other = canonicalBody m → SameFields m other) :
    ∀ piece ∈ (splitOn isBar m.nonce).dropLast, ∀ time : UInt64, piece ≠ printNat time.toNat := by
  rintro piece member time rfl
  obtain ⟨before, between, split⟩ := List.append_of_mem member
  obtain ⟨behind, some_behind, whole⟩ : ∃ behind, behind ≠ [] ∧
      splitOn isBar m.nonce = before ++ printNat time.toNat :: behind := by
    have some_piece := splitOn_ne_nil isBar m.nonce
    refine ⟨between ++ [(splitOn isBar m.nonce).getLast some_piece], by simp, ?_⟩
    rw [← List.cons_append, ← List.append_assoc, ← split, List.dropLast_append_getLast]
  have nonce : m.nonce = join ['|'] (before ++ printNat time.toNat :: behind) := by
    rw [← whole]
    exact (join_splitOn '|' m.nonce).symm
  -- The time and what precedes the piece go to the recipient, the piece becomes the time.
  have moved := determined
    { m with
      recipient := join ['|'] (m.recipient :: printNat m.ts.toNat :: before)
      ts := time
      nonce := join ['|'] behind } (by
    rw [canonicalBody_tail, canonicalBody_tail, nonce, join_shifted some_behind])
  have lengths := congrArg List.length moved.2.2.2.1
  rw [join_cons (List.cons_ne_nil _ _)] at lengths
  simp only [List.length_append, List.length_cons] at lengths
  omega

/-- **Bodies determine their messages exactly where nothing can be shifted.** -/
theorem determined_iff : (∀ other, canonicalBody other = canonicalBody m → SameFields m other) ↔
    Unambiguous m :=
  ⟨fun determined => ⟨plain_of_determined determined, timeless_of_determined determined⟩,
    fun clear _ => same_of_unambiguous clear⟩

/-- What carries the code of an accepted message is accepted just for the same body. -/
theorem accepted_iff {crates : DaemonCrates} {secret : Text}
    (injective : Function.Injective (crates.mac secret)) (accepted : verifyHmac crates secret m = true)
    (carried : other.hmac = m.hmac) :
    verifyHmac crates secret other = true ↔ canonicalBody other = canonicalBody m := by
  simp only [verifyHmac, beq_iff_eq] at accepted ⊢
  rw [carried, accepted]
  exact ⟨fun same => (injective same).symm, fun same => by rw [same]⟩

/-- **A body gives its fields back, and an accepted code vouches for one message, exactly
where nothing can be shifted.** -/
theorem vouched_iff (m : Msg) :
    ((∀ other, canonicalBody other = canonicalBody m → SameFields m other) ↔ Unambiguous m) ∧
    ∀ crates secret, Function.Injective (crates.mac secret) → verifyHmac crates secret m = true →
      ((∀ other, other.hmac = m.hmac → verifyHmac crates secret other = true → SameFields m other) ↔
        Unambiguous m) := by
  refine ⟨determined_iff, fun crates secret injective accepted => ?_⟩
  rw [← determined_iff]
  constructor
  · intro vouched other same
    -- The code is not part of the body, so the other message can carry it.
    have carries : canonicalBody { other with hmac := m.hmac } = canonicalBody m := same
    have accepts := @accepted_iff m { other with hmac := m.hmac } crates secret injective accepted rfl
    exact vouched { other with hmac := m.hmac } rfl (accepts.mpr carries)
  · intro determined other carried verified
    exact determined other ((accepted_iff injective accepted carried).mp verified)

/-! ## Two messages with one body -/

/-- Codes that keep every character of the secret and the body. -/
def wideCrates : DaemonCrates where
  mac := fun secret body => septets (secret ++ body)
  encode := fun bytes => bytes.map fun b => Char.ofNat b.toNat
  decode := fun code => some (code.map fun c => c.toNat.toUInt8)
  statusJson := fun _ => .null

theorem wideCrates_injective (secret : Text) : Function.Injective (wideCrates.mac secret) :=
  fun _ _ same => List.append_cancel_left (septets_injective same)

/-- An acknowledgement of the task `a` from the worker `b|c`, and one of the task `a|b`
from the worker `c`. -/
def acknowledgement (id sender : String) : Msg :=
  signMsg wideCrates ['s'] {
    msgType := "ACK".toList
    msgId := id.toList
    sender := sender.toList
    recipient := "d".toList
    ts := 7
    nonce := "n".toList
    hmac := []
    payload := .null }

/-- One code is accepted for both. -/
theorem bar_moves_task : canonicalBody (acknowledgement "a" "b|c") =
      canonicalBody (acknowledgement "a|b" "c") ∧
    (acknowledgement "a" "b|c").hmac = (acknowledgement "a|b" "c").hmac ∧
    verifyHmac wideCrates ['s'] (acknowledgement "a" "b|c") = true ∧
    verifyHmac wideCrates ['s'] (acknowledgement "a|b" "c") = true ∧
    ¬ SameFields (acknowledgement "a" "b|c") (acknowledgement "a|b" "c") := by
  refine ⟨by decide +kernel, by decide +kernel, by decide +kernel, by decide +kernel, ?_⟩
  intro same
  exact absurd same.2.1 (by decide +kernel)

/-- Without bars the code vouches for the task. -/
theorem plain_vouched : Unambiguous (acknowledgement "a" "c") ∧
    ∀ other, other.hmac = (acknowledgement "a" "c").hmac → verifyHmac wideCrates ['s'] other = true →
      SameFields (acknowledgement "a" "c") other := by
  have clear : Unambiguous (acknowledgement "a" "c") := by
    refine ⟨by decide +kernel, fun piece member => ?_⟩
    have none_left : (splitOn isBar (acknowledgement "a" "c").nonce).dropLast = [] := by
      decide +kernel
    rw [none_left] at member
    cases member
  exact ⟨clear, ((vouched_iff (acknowledgement "a" "c")).2 wideCrates ['s']
    (wideCrates_injective ['s']) (by decide +kernel)).mpr clear⟩

end CanonicalBody

end Devit
