import Devit.Library.JsonBrackets
import Devit.Snapshot

/-! The core engine's journal on disk. A manager is built without a key, so it signs
nothing; with signatures asked for, no line of any file is then taken as signed. -/
namespace Devit
open Text

/-- `OperationType`. -/
inductive OperationType where
  | snapshot
  | patchPreview
  | patchApply
  | testRun
  | configChange
  | policyCheck
  | journalMaintenance
  deriving DecidableEq, Repr

inductive SandboxProfile where
  | strict
  | permissive
  deriving DecidableEq, Repr

structure JournalEntry where
  id : Text
  /-- As chrono writes it. -/
  timestamp : Text
  operation : OperationType
  actor : Text
  approvalLevel : ApprovalLevel
  sandboxProfile : SandboxProfile
  success : Bool
  durationMs : Option UInt64
  affectedFiles : List PathBuf
  metadata : Json
  signature : Option Text

/-- The manager, as far as it writes and checks entries. -/
structure JournalManager where
  journalPath : PathBuf
  signingKey : Option (List UInt8)
  signEntries : Bool
  deriving DecidableEq

structure EntryVerification where
  entryId : Text
  signatureValid : Bool
  formatValid : Bool
  issues : List Text
  deriving DecidableEq

/-- What the manager takes from other crates. -/
structure SigningCrates where
  /-- HMAC-SHA256 of a text under a key. -/
  mac : List UInt8 → Text → List UInt8
  /-- `serde_json::from_str`. -/
  fromStr : Text → Except Text Json

/-! ## Entries as JSON -/

def OperationType.name : OperationType → String
  | .snapshot => "Snapshot"
  | .patchPreview => "PatchPreview"
  | .patchApply => "PatchApply"
  | .testRun => "TestRun"
  | .configChange => "ConfigChange"
  | .policyCheck => "PolicyCheck"
  | .journalMaintenance => "JournalMaintenance"

def SandboxProfile.name : SandboxProfile → String
  | .strict => "Strict"
  | .permissive => "Permissive"

def ApprovalLevel.toValue : ApprovalLevel → Json
  | .untrusted => .string "Untrusted".toList
  | .ask => .string "Ask".toList
  | .moderate => .string "Moderate".toList
  | .trusted => .string "Trusted".toList
  | .privileged allowedPaths => .ofFields [("Privileged", .ofFields
      [("allowed_paths", .array (allowedPaths.map fun path => .string path.text))])]

/-- `serde_json::to_value` of an entry. -/
def JournalEntry.toValue (entry : JournalEntry) : Json :=
  .ofFields [
    ("id", .string entry.id),
    ("timestamp", .string entry.timestamp),
    ("operation", .string entry.operation.name.toList),
    ("actor", .string entry.actor),
    ("approval_level", entry.approvalLevel.toValue),
    ("sandbox_profile", .string entry.sandboxProfile.name.toList),
    ("success", .bool entry.success),
    ("duration_ms", .ofOption (entry.durationMs.map .unsigned)),
    ("affected_files", .array (entry.affectedFiles.map fun path => .string path.text)),
    ("metadata", entry.metadata),
    ("signature", .ofOption (entry.signature.map .string))]

/-- A line of the journal, given the entry, its signature and the time. -/
def signedLine (entry : Json) (signature : Option Text) (timestamp : Text) : Json :=
  .ofFields [
    ("entry", entry),
    ("signature", .ofOption (signature.map .string)),
    ("timestamp", .string timestamp)]

namespace JournalManager

/-- `JournalManager::new`: there is no key. -/
def new (journalPath : PathBuf) (signEntries : Bool) : JournalManager :=
  ⟨journalPath, none, signEntries⟩

section
variable (crates : SigningCrates) (manager : JournalManager)

/-- `sign_entry`. -/
def signEntry (entry : Json) : Option Text :=
  manager.signingKey.map fun key => hexEncode (crates.mac key entry.render)

/-- What `append_entry` writes. -/
def entryLine (entry : JournalEntry) (now : Text) : Json :=
  signedLine entry.toValue
    (if manager.signEntries then manager.signEntry crates entry.toValue else none) now

/-- `append_entry`, on a journal file that may not be there yet. -/
def appendEntry (file : Option Text) (appended : JournalEntry × Text) : Option Text :=
  some (file.getD [] ++ ((manager.entryLine crates appended.1 appended.2).render ++ ['\n']))

/-- One line that is not blank. -/
def verifyLine (lineNumber : Nat) (line : Text) : EntryVerification :=
  let entryId := "line_".toList ++ printNat lineNumber
  match crates.fromStr line with
  | .error message => ⟨entryId, false, false, ["Invalid JSON: ".toList ++ message]⟩
  | .ok signed =>
    let (signatureValid, issues) :=
      if manager.signEntries then
        match signed.get "entry".toList, signed.get "signature".toList with
        | some entryValue, some sigValue =>
          match sigValue.asStr with
          | some sigStr => (manager.signEntry crates entryValue == some sigStr, [])
          | none => (false, ["Invalid signature format".toList])
        | _, _ => (false, ["Missing entry or signature field".toList])
      else (true, [])
    let formatValid :=
      (signed.get "entry".toList).isSome && (signed.get "timestamp".toList).isSome
    ⟨entryId, signatureValid, formatValid,
      if formatValid then issues else issues ++ ["Invalid entry format".toList]⟩

/-- The loop of `verify_integrity`, from the line with a number on. -/
def verifyLines : Nat → List Text → List EntryVerification
  | _, [] => []
  | lineNumber, line :: rest =>
    if trim line = [] then verifyLines (lineNumber + 1) rest
    else verifyLine crates manager lineNumber line :: verifyLines (lineNumber + 1) rest

/-- `verify_integrity`. -/
def verifyIntegrity (file : Option Text) : List EntryVerification :=
  match file with
  | none => []
  | some text => verifyLines crates manager 1 (lines text)

/-- The journal file after some entries, each with the time it was appended at. -/
def fileAfter (appended : List (JournalEntry × Text)) : Option Text :=
  appended.foldl (appendEntry crates manager) none

/-- The lines of the journal file after some entries. -/
def writtenLines (appended : List (JournalEntry × Text)) : List Text :=
  appended.map fun e => (manager.entryLine crates e.1 e.2).render

/-- A written line with another value for its entry. -/
def tamperedLine (e : JournalEntry × Text) (value : Json) : Text :=
  (signedLine value (if manager.signEntries then manager.signEntry crates e.1.toValue else none)
    e.2).render

/-- What a signed journal promises: the entries are found valid one by one, and one that
was changed is found out. -/
structure Verifies (appended : List (JournalEntry × Text)) : Prop where
  each : (manager.verifyIntegrity crates (manager.fileAfter crates appended)).length =
    appended.length
  valid : ∀ (i : Nat) result,
    (manager.verifyIntegrity crates (manager.fileAfter crates appended))[i]? = some result →
      result.entryId = "line_".toList ++ printNat (i + 1) ∧ result.signatureValid = true ∧
        result.formatValid = true
  tampered : ∀ before e after value, appended = before ++ e :: after → value ≠ e.1.toValue →
    ∃ result, (manager.verifyIntegrity crates (some (unlines
        (manager.writtenLines crates before ++
          manager.tamperedLine crates e value :: manager.writtenLines crates after))))[before.length]? =
      some result ∧ result.signatureValid = false

end

variable {crates : SigningCrates} {manager : JournalManager}

/-! ## Without a key -/

/-- Without a key, a line is never found to be signed. -/
theorem verifyLine_unsigned (asked : manager.signEntries = true)
    (keyless : manager.signingKey = none) (lineNumber : Nat) (line : Text) :
    (manager.verifyLine crates lineNumber line).signatureValid = false := by
  unfold verifyLine
  cases crates.fromStr line with
  | error message => rfl
  | ok signed =>
    simp only [asked, if_true, signEntry, keyless, Option.map_none]
    cases signed.get "entry".toList with
    | none => rfl
    | some entryValue =>
      cases signed.get "signature".toList with
      | none => rfl
      | some sigValue =>
        dsimp only
        cases sigValue.asStr with
        | none => rfl
        | some sigStr => rfl

theorem verifyLines_unsigned (asked : manager.signEntries = true)
    (keyless : manager.signingKey = none) {ls : List Text} {lineNumber : Nat}
    {result : EntryVerification} (member : result ∈ manager.verifyLines crates lineNumber ls) :
    result.signatureValid = false := by
  induction ls generalizing lineNumber with
  | nil => cases member
  | cons line ls ih =>
    rw [verifyLines] at member
    split at member
    · exact ih member
    · rcases List.mem_cons.mp member with rfl | later
      · exact verifyLine_unsigned asked keyless lineNumber line
      · exact ih later

theorem verifyIntegrity_unsigned (asked : manager.signEntries = true)
    (keyless : manager.signingKey = none) {file : Option Text} {result : EntryVerification}
    (member : result ∈ manager.verifyIntegrity crates file) : result.signatureValid = false := by
  cases file with
  | none => cases member
  | some text => exact verifyLines_unsigned asked keyless member

/-! ## What was written -/

theorem signedLine_eq (entry : Json) (signature : Option Text) (timestamp : Text) :
    signedLine entry signature timestamp = .object [("entry".toList, entry),
      ("signature".toList, .ofOption (signature.map .string)),
      ("timestamp".toList, .string timestamp)] := by
  have signature_entry : "signature".toList ≠ "entry".toList := by decide
  have timestamp_entry : "timestamp".toList ≠ "entry".toList := by decide
  have timestamp_signature : "timestamp".toList ≠ "signature".toList := by decide
  have behind : List.lex "signature".toList "entry".toList (fun a b => decide (a < b)) = false ∧
      List.lex "timestamp".toList "entry".toList (fun a b => decide (a < b)) = false ∧
      List.lex "timestamp".toList "signature".toList (fun a b => decide (a < b)) = false := by
    decide +kernel
  simp only [signedLine, Json.ofFields, List.foldl_cons, List.foldl_nil, Json.insertField,
    if_neg signature_entry, if_neg timestamp_entry, if_neg timestamp_signature, behind,
    Bool.false_eq_true, if_false]

theorem get_signedLine (entry : Json) (signature : Option Text) (timestamp : Text) :
    (signedLine entry signature timestamp).get "entry".toList = some entry ∧
      (signedLine entry signature timestamp).get "signature".toList =
        some (.ofOption (signature.map .string)) ∧
      (signedLine entry signature timestamp).get "timestamp".toList = some (.string timestamp) := by
  rw [signedLine_eq]
  exact ⟨rfl, rfl, rfl⟩

theorem signedLine_lined (entry : Json) (signature : Option Text) (timestamp : Text) :
    Lined (signedLine entry signature timestamp).render := by
  refine ⟨Json.render_printable _, ?_⟩
  rw [signedLine_eq, Json.render]
  exact ⟨_, rfl⟩

theorem fileAfter_concat (appended : List (JournalEntry × Text)) (e : JournalEntry × Text) :
    manager.fileAfter crates (appended ++ [e]) =
      some ((manager.fileAfter crates appended).getD [] ++
        ((manager.entryLine crates e.1 e.2).render ++ ['\n'])) := by
  rw [fileAfter, List.foldl_append]
  rfl

/-- The file holds the lines that were written. -/
theorem fileAfter_getD (appended : List (JournalEntry × Text)) :
    (manager.fileAfter crates appended).getD [] = unlines (manager.writtenLines crates appended) := by
  induction appended using List.reverseRecOn with
  | nil => rfl
  | append_singleton appended e ih =>
    rw [fileAfter_concat, ih, Option.getD_some, writtenLines, writtenLines, unlines, unlines,
      List.map_append, List.flatMap_append]
    simp only [List.map_cons, List.map_nil, List.flatMap_cons, List.flatMap_nil, List.append_nil]

theorem fileAfter_filled {appended : List (JournalEntry × Text)} (filled : appended ≠ []) :
    manager.fileAfter crates appended = some (unlines (manager.writtenLines crates appended)) := by
  rw [← fileAfter_getD]
  rcases List.eq_nil_or_concat appended with none | ⟨before, e, shape⟩
  · exact absurd none filled
  · rw [shape, List.concat_eq_append, fileAfter_concat, Option.getD_some]

/-- A written line that is read as it was written, without its key. -/
theorem verifyLine_written (asked : manager.signEntries = true) (keyless : manager.signingKey = none)
    {e : JournalEntry × Text} (reads : crates.fromStr (manager.entryLine crates e.1 e.2).render =
      .ok (manager.entryLine crates e.1 e.2)) (lineNumber : Nat) :
    manager.verifyLine crates lineNumber (manager.entryLine crates e.1 e.2).render =
      ⟨"line_".toList ++ printNat lineNumber, false, true, ["Invalid signature format".toList]⟩ := by
  unfold verifyLine
  rw [reads]
  obtain ⟨its_entry, its_signature, its_time⟩ := get_signedLine e.1.toValue none e.2
  simp only [entryLine, asked, if_true, signEntry, keyless, Option.map_none, its_entry, its_signature,
    its_time]
  rfl

theorem verifyLines_written (asked : manager.signEntries = true)
    (keyless : manager.signingKey = none) {appended : List (JournalEntry × Text)}
    (reads : ∀ e ∈ appended, crates.fromStr (manager.entryLine crates e.1 e.2).render =
      .ok (manager.entryLine crates e.1 e.2)) (lineNumber : Nat) :
    manager.verifyLines crates lineNumber (manager.writtenLines crates appended) =
      appended.mapIdx fun i _ => ⟨"line_".toList ++ printNat (lineNumber + i), false, true,
        ["Invalid signature format".toList]⟩ := by
  induction appended generalizing lineNumber with
  | nil => rfl
  | cons e appended ih =>
    have later := ih (fun other member => reads other (List.mem_cons_of_mem _ member))
      (lineNumber + 1)
    have visible : trim (manager.entryLine crates e.1 e.2).render ≠ [] :=
      (signedLine_lined _ _ _).not_blank
    rw [writtenLines, List.map_cons, verifyLines, if_neg visible,
      verifyLine_written asked keyless (reads e List.mem_cons_self), List.mapIdx_cons]
    rw [writtenLines] at later
    simp only [later, Nat.add_zero, Nat.add_assoc, Nat.add_comm 1]

/-- **What is found.** A journal that is read as it was written gives one result for each
entry, in order; the form is right, and no signature is. -/
theorem results_written (asked : manager.signEntries = true) (keyless : manager.signingKey = none)
    {appended : List (JournalEntry × Text)}
    (reads : ∀ e ∈ appended, crates.fromStr (manager.entryLine crates e.1 e.2).render =
      .ok (manager.entryLine crates e.1 e.2)) :
    manager.verifyIntegrity crates (manager.fileAfter crates appended) =
      appended.mapIdx fun i _ => ⟨"line_".toList ++ printNat (1 + i), false, true,
        ["Invalid signature format".toList]⟩ := by
  by_cases none : appended = []
  · rw [none]
    rfl
  · have lined : ∀ t ∈ manager.writtenLines crates appended, Lined t := by
      intro t member
      obtain ⟨e, -, rfl⟩ := List.mem_map.mp member
      exact signedLine_lined _ _ _
    rw [fileAfter_filled none, verifyIntegrity, lines_whole lined]
    exact verifyLines_written asked keyless reads 1

/-! ## Signed journals -/

/-- **Signing.** A journal of a manager that was asked to sign keeps its promise exactly
if nothing was appended. -/
theorem signed_verifies_iff (crates : SigningCrates) (journalPath : PathBuf)
    (appended : List (JournalEntry × Text)) :
    (JournalManager.new journalPath true).Verifies crates appended ↔ appended = [] := by
  constructor
  · intro verifies
    by_contra filled
    have some_result : 0 < ((JournalManager.new journalPath true).verifyIntegrity crates
        ((JournalManager.new journalPath true).fileAfter crates appended)).length := by
      rw [verifies.each]
      exact List.length_pos_iff.mpr filled
    have first := List.getElem?_eq_getElem some_result
    have valid := (verifies.valid 0 _ first).2.1
    rw [verifyIntegrity_unsigned rfl rfl (List.mem_of_getElem? first)] at valid
    cases valid
  · rintro rfl
    refine ⟨rfl, ?_, ?_⟩
    · intro i result found
      cases found
    · intro before e after value shape
      simp at shape

/-- An entry about a test run. -/
def testRun : JournalEntry where
  id := "e1".toList
  timestamp := "2025-01-01T00:00:00Z".toList
  operation := .testRun
  actor := "agent".toList
  approvalLevel := .ask
  sandboxProfile := .strict
  success := true
  durationMs := none
  affectedFiles := []
  metadata := .null
  signature := none

/-- The time it is appended at. -/
def testRunAt : Text := "2025-01-01T00:00:01+00:00".toList

/-- Crates that read the one line there is. -/
def oneLineCrates : SigningCrates where
  mac _ text := textBytes text
  fromStr line :=
    let written := (JournalManager.new ⟨"j".toList⟩ true).entryLine ⟨fun _ _ => [], fun _ => .error []⟩
      testRun testRunAt
    if line = written.render then .ok written else .error "expected value".toList

/-- The one entry is found with a signature that is not valid. -/
theorem appended_entry_unsigned :
    (JournalManager.new ⟨"j".toList⟩ true).verifyIntegrity oneLineCrates
      ((JournalManager.new ⟨"j".toList⟩ true).fileAfter oneLineCrates [(testRun, testRunAt)]) =
        [⟨"line_1".toList, false, true, ["Invalid signature format".toList]⟩] ∧
    ¬ (JournalManager.new ⟨"j".toList⟩ true).Verifies oneLineCrates [(testRun, testRunAt)] := by
  have found : (JournalManager.new ⟨"j".toList⟩ true).verifyIntegrity oneLineCrates
      ((JournalManager.new ⟨"j".toList⟩ true).fileAfter oneLineCrates [(testRun, testRunAt)]) =
        [⟨"line_1".toList, false, true, ["Invalid signature format".toList]⟩] := by
    decide +kernel
  refine ⟨found, fun verifies => ?_⟩
  have valid := (verifies.valid 0 _ (by rw [found]; rfl)).2.1
  cases valid

end JournalManager

end Devit
