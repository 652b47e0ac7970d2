import Devit.DaemonHandlers
import Devit.Library.Utf8

/-! What becomes of a message that does not carry its code. It is dropped with a warning,
and the warning shows the first bytes of the code that was sent: where these end inside a
character, the slice panics, and the message is not dropped in good order. -/
namespace Devit
open Text

namespace Daemon

def logSnippetLimit : Nat := 512

structure HmacCheck where
  valid : Bool
  expected : Text
  provided : Text
  body : Text

def verifyHmacDetailed (crates : DaemonCrates) (msg : Msg) (secret : Text) : HmacCheck where
  valid := (crates.decode msg.hmac).getD [] == crates.mac secret (canonicalBody msg)
  expected := crates.encode (crates.mac secret (canonicalBody msg))
  provided := msg.hmac
  body := canonicalBody msg

/-- The slice panics unless a character ends behind its bytes. -/
def shortenSig (sig : Text) : Option Text :=
  if byteLen sig ≤ 12 then some sig else (sliceTo 12 sig).map (· ++ ['…'])

def summarizeBody (body : Text) : Text :=
  let totalChars := body.length
  if totalChars ≤ logSnippetLimit then body
  else body.take logSnippetLimit ++ "… (truncated ".toList ++
    printNat (totalChars - logSnippetLimit) ++ " chars)".toList

/-- What is logged of a message that is dropped. -/
structure InvalidHmac where
  sender : Text
  recipient : Text
  msgType : Text
  msgId : Text
  ts : UInt64
  nonce : Text
  providedSig : Text
  expectedSig : Text
  body : Text
  deriving DecidableEq

/-- The warning, unless a slice panics. -/
def warnInvalidHmac (msg : Msg) (check : HmacCheck) : Option InvalidHmac := do
  let providedSig ← shortenSig check.provided
  let expectedSig ← shortenSig check.expected
  some {
    sender := msg.sender
    recipient := msg.recipient
    msgType := msg.msgType
    msgId := msg.msgId
    ts := msg.ts
    nonce := msg.nonce
    providedSig := providedSig
    expectedSig := expectedSig
    body := summarizeBody check.body }

/-- How the handling of a message ends. -/
inductive Handled where
  | returned (warning : Option InvalidHmac) (answer : Option Msg) (s : State)
  | panicked

/-- `handle_message`, with what it logs of a message that it drops. -/
def receive (crates : DaemonCrates) (reading : Reading) (msg : Msg) (s : State) : Handled :=
  let check := verifyHmacDetailed crates msg s.secret
  if check.valid = false then
    match warnInvalidHmac msg check with
    | some warning => .returned (some warning) none s
    | none => .panicked
  else
    let (answer, s) := handleMessage crates reading msg s
    .returned none answer s

end Daemon

namespace RejectedMessages
open Daemon

/-- The message has no effect: nothing is answered, and the state stays. -/
def NoEffect (s : State) : Handled → Prop
  | .returned _ answer s' => answer = none ∧ s' = s
  | .panicked => False

/-- A code of 12 bytes at most, or one with a character that ends behind them. -/
def Shortens (sig : Text) : Prop := byteLen sig ≤ 12 ∨ IsBoundary 12 sig

variable {crates : DaemonCrates} {reading : Reading} {msg : Msg} {s : State}

theorem shortenSig_isSome {sig : Text} : (shortenSig sig).isSome = true ↔ Shortens sig := by
  unfold shortenSig Shortens
  split
  · rename_i short
    exact iff_of_true rfl (.inl short)
  · rename_i long
    rw [Option.isSome_map, sliceTo_isSome, or_iff_right long]

theorem shortens_ascii {sig : Text} (ascii : ∀ c ∈ sig, c.utf8Size = 1) : Shortens sig := by
  by_cases short : byteLen sig ≤ 12
  · exact .inl short
  · exact .inr (isBoundary_ascii ascii (by omega))

theorem warn_isSome (check : HmacCheck) :
    (warnInvalidHmac msg check).isSome = true ↔ Shortens check.provided ∧ Shortens check.expected := by
  rw [← shortenSig_isSome, ← shortenSig_isSome, warnInvalidHmac]
  cases shortenSig check.provided with
  | none => simp
  | some providedSig => cases shortenSig check.expected <;> simp

/-- Where nothing panics, messages are handled as without the warning. -/
theorem receive_returned {warning : Option InvalidHmac} {answer : Option Msg} {s' : State}
    (ran : receive crates reading msg s = .returned warning answer s') :
    handleMessage crates reading msg s = (answer, s') := by
  unfold receive at ran
  dsimp only at ran
  split at ran
  · rename_i forged
    split at ran
    · cases ran
      unfold handleMessage
      rw [if_pos (show verifyHmac crates s.secret msg = false from forged)]
    · cases ran
  · cases ran
    rfl

theorem receive_forged (forged : verifyHmac crates s.secret msg = false) :
    receive crates reading msg s =
      match warnInvalidHmac msg (verifyHmacDetailed crates msg s.secret) with
      | some warning => .returned (some warning) none s
      | none => .panicked := by
  have invalid : (verifyHmacDetailed crates msg s.secret).valid = false := forged
  unfold receive
  simp only [invalid, if_true]

/-- **Dropping.** A message that does not carry its code has no effect, and no slice panics,
exactly if the code that it carries can be shortened. -/
theorem forged_without_effect_iff
    (ascii : ∀ bytes, ∀ c ∈ crates.encode bytes, c.utf8Size = 1)
    (forged : verifyHmac crates s.secret msg = false) :
    NoEffect s (receive crates reading msg s) ↔ byteLen msg.hmac ≤ 12 ∨ IsBoundary 12 msg.hmac := by
  have expected := shortens_ascii (ascii (crates.mac s.secret (canonicalBody msg)))
  have warns : _ ↔ Shortens msg.hmac :=
    (@warn_isSome msg (verifyHmacDetailed crates msg s.secret)).trans (and_iff_left expected)
  change _ ↔ Shortens msg.hmac
  rw [receive_forged forged]
  refine Iff.trans ?_ warns
  cases warnInvalidHmac msg (verifyHmacDetailed crates msg s.secret) with
  | none => exact iff_of_false id Bool.false_ne_true
  | some warning => exact iff_of_true ⟨rfl, rfl⟩ rfl

/-! ## Two forged messages -/

def alphabet : Text := "ABCDEFGHIJKLMNOPQRSTUVWXYZabcdefghijklmnopqrstuvwxyz0123456789+/".toList

def sextet (n : Nat) : Char := alphabet.getD (n % 64) 'A'

/-- Base 64, with padding. -/
def encode64 : List UInt8 → Text
  | [] => []
  | [a] => [sextet (a.toNat / 4), sextet (a.toNat * 16), '=', '=']
  | [a, b] =>
    [sextet (a.toNat / 4), sextet (a.toNat * 16 + b.toNat / 16), sextet (b.toNat * 4), '=']
  | a :: b :: c :: rest =>
    sextet (a.toNat / 4) :: sextet (a.toNat * 16 + b.toNat / 16) ::
      sextet (b.toNat * 4 + c.toNat / 64) :: sextet c.toNat :: encode64 rest

theorem sextet_ascii (n : Nat) : (sextet n).utf8Size = 1 := by
  have all : ∀ k < 64, (alphabet.getD k 'A').utf8Size = 1 := by decide +kernel
  exact all (n % 64) (Nat.mod_lt _ (by decide))

theorem encode64_ascii (bytes : List UInt8) : ∀ c ∈ encode64 bytes, c.utf8Size = 1 := by
  have padding : ('=' : Char).utf8Size = 1 := by decide
  induction bytes using encode64.induct with
  | case1 => simp [encode64]
  | case2 a => simp [encode64, sextet_ascii, padding]
  | case3 a b => simp [encode64, sextet_ascii, padding]
  | case4 a b c rest ih => simpa [encode64, sextet_ascii] using ih

/-- Codes that nothing is decoded from. -/
def strictCrates : DaemonCrates where
  mac := fun secret body => (secret ++ body).map fun c => c.toNat.toUInt8
  encode := encode64
  decode := fun _ => none
  statusJson := fun _ => .null

theorem kept_order (keys : List Text) : (id keys).Perm keys := .refl keys

def quietReading : Reading where
  instant := 0
  utc := 0
  utcText := []
  utcFullText := []
  ts := 0
  uuid := fun k => printNat k
  screenshot := .error ("E_SCREENSHOT_DENIED".toList, [])
  order := id
  ordered := kept_order

/-- A poll with this code. -/
def pollWith (hmac : String) : Msg where
  msgType := "POLL".toList
  msgId := "p".toList
  sender := "c".toList
  recipient := "orchestrator".toList
  ts := 1
  nonce := "n".toList
  hmac := hmac.toList
  payload := .null

def daemonState : State := newState ['s'] [] "0".toList none []

theorem poll_forged (hmac : String) :
    verifyHmac strictCrates daemonState.secret (pollWith hmac) = false := rfl

/-- A code of accented letters that can be shortened is refused without effect. -/
theorem shortened_poll_dropped :
    NoEffect daemonState (receive strictCrates quietReading (pollWith "éééééééé") daemonState) := by
  refine (forged_without_effect_iff encode64_ascii (poll_forged _)).mpr (.inr ?_)
  exact ⟨"éééééé".toList, "éé".toList, by decide +kernel, by decide +kernel⟩

/-- A letter of the code has its bytes on both sides of the cut. -/
theorem split_letter_panics :
    verifyHmac strictCrates daemonState.secret (pollWith "aéééééééé") = false ∧
      receive strictCrates quietReading (pollWith "aéééééééé") daemonState = .panicked ∧
      ¬ NoEffect daemonState
        (receive strictCrates quietReading (pollWith "aéééééééé") daemonState) := by
  have unsliced : shortenSig (pollWith "aéééééééé").hmac = none := by decide +kernel
  have panics :
      receive strictCrates quietReading (pollWith "aéééééééé") daemonState = .panicked := by
    rw [receive_forged (poll_forged _), warnInvalidHmac, verifyHmacDetailed]
    simp only [unsliced]
    rfl
  exact ⟨poll_forged _, panics, by rw [panics]; exact id⟩

end RejectedMessages

end Devit
