import Devit.Library.Text

/-! Compacting a conversation: its older messages are handed to a model that summarizes
them, and the rest are kept. The number of messages handed over is counted without a
leading system message, but is then used as a position among all messages. -/
namespace Devit
open Text

namespace Compaction

structure ChatMessage where
  role : Text
  content : Text
  deriving DecidableEq, Repr

structure BackendMessage where
  role : Text
  content : Text
  images : Option (List Text)
  deriving DecidableEq, Repr

structure CompactMessage where
  role : Text
  content : Text
  deriving DecidableEq, Repr

structure TopicSummary where
  title : Text
  summary : Text
  tokenCount : Nat
  originalMessageCount : Nat
  deriving DecidableEq, Repr

structure CompactResult where
  topic : TopicSummary
  remainingMessages : List CompactMessage
  compressedCount : Nat
  deriving DecidableEq, Repr

/-- The products of a number with the single-precision 0.5 and 0.6, as whole numbers. -/
structure Rounding where
  half : Nat → Nat
  sixTenths : Nat → Nat

def defaultMaxContext : Nat := 8192
def systemPromptOverhead : Nat := 2500

def estimateTokens (text : Text) : Nat := (text.length + 2) / 3

def estimateMessageTokens (msg : BackendMessage) : Nat :=
  estimateTokens msg.content + 4 + ((msg.images.map fun images => images.length * 256).getD 0)

def totalTokens (messages : List BackendMessage) : Nat :=
  (messages.map estimateMessageTokens).sum + systemPromptOverhead

/-- `&messages[i..j]`: nothing where the language panics. -/
def sliceMessages (messages : List BackendMessage) (i j : Nat) : Option (List BackendMessage) :=
  if i ≤ j ∧ j ≤ messages.length then some ((messages.take j).drop i) else none

/-! ## What is handed over -/

/-- How many of the messages, the last one first, are kept. -/
def keepCount (target : Nat) : Nat → Nat → List BackendMessage → Nat
  | _, kept, [] => kept
  | tokens, kept, msg :: earlier =>
    if tokens + estimateMessageTokens msg > target ∧ kept > 1 then kept
    else keepCount target (tokens + estimateMessageTokens msg) (kept + 1) earlier

/-- The conversation begins with a system message. -/
def systemLed (messages : List BackendMessage) : Bool :=
  messages.head?.any fun msg => msg.role == "system".toList

def startIdx (messages : List BackendMessage) : Nat := if systemLed messages then 1 else 0

/-- The number and the messages to be compressed, if any are. -/
def checkCompressionNeeded (rounding : Rounding) (messages : List BackendMessage)
    (maxContext : Nat) : Option (Option (Nat × List BackendMessage)) :=
  if totalTokens messages < rounding.half maxContext ∨ messages.length < 6 then some none
  else
    let kept := keepCount (rounding.sixTenths maxContext) 0 0 messages.reverse
    let compressCount := messages.length - kept
    if compressCount < 2 then some none
    else if compressCount ≤ startIdx messages then some none
    else do
      let toCompress ← sliceMessages messages (startIdx messages) compressCount
      some (some (compressCount - startIdx messages, toCompress))

def noneNeeded (rounding : Rounding) (messages : List BackendMessage) (maxContext : Nat) : Text :=
  "No compression needed - ".toList ++ printNat messages.length ++ " messages, ~".toList ++
    printNat (totalTokens messages) ++ " tokens (threshold: ".toList ++
    printNat (rounding.half maxContext) ++ "). Use /compact force to override.".toList

/-- The choice that `compact_context` makes: more than half of a conversation that is long
enough, if it is told to; otherwise what is needed. -/
def choose (rounding : Rounding) (messages : List BackendMessage) (maxContext : Nat)
    (force : Bool) : Option (Except Text (Nat × List BackendMessage)) :=
  if force ∧ messages.length ≥ 6 then
    let compressCount := rounding.sixTenths messages.length
    if compressCount < 2 then
      some (.error ("Not enough messages to compress - ".toList ++ printNat messages.length ++
        " messages (need at least 6)".toList))
    else do
      let toCompress ← sliceMessages messages (startIdx messages) compressCount
      some (.ok (compressCount - startIdx messages, toCompress))
  else do
    match ← checkCompressionNeeded rounding messages maxContext with
    | none => some (.error (noneNeeded rounding messages maxContext))
    | some chosen => some (.ok chosen)

/-! ## The summary -/

def summarizePrompt : Text :=
  unlines (["Summarize the following conversation segment into a concise topic summary.", "",
    "Format your response as:", "TITLE: [2-5 word topic title]",
    "SUMMARY: [2-4 bullet points capturing key information, decisions, and context needed for " ++
      "future reference]", "", "Focus on:", "- Key decisions made", "- Important information shared",
    "- Context needed to continue the conversation", "- Any unresolved questions or tasks", "",
    "Conversation to summarize:"].map String.toList)

def roleLabel (role : Text) : Text :=
  if role = "user".toList then "User".toList
  else if role = "assistant".toList then "Assistant".toList
  else if role = "system".toList then "System".toList
  else if role = "tool".toList then "Tool Result".toList
  else role

def buildCompressionPrompt (messages : List BackendMessage) : Text :=
  summarizePrompt ++ messages.flatMap fun msg =>
    ['\n'] ++ roleLabel msg.role ++ ": ".toList ++ msg.content ++ ['\n']

/-- What was read of an answer: its title, its summary, and whether that has begun. -/
def readLine (found : Text × Text × Bool) (raw : Text) : Text × Text × Bool :=
  let (title, summary, inSummary) := found
  let line := trim raw
  match stripPrefix "TITLE:".toList line with
  | some rest => (trim rest, summary, inSummary)
  | none =>
    match stripPrefix "SUMMARY:".toList line with
    | some rest =>
      (title, if trim rest ≠ [] then summary ++ trim rest ++ ['\n'] else summary, true)
    | none =>
      if inSummary ∧ line ≠ [] then (title, summary ++ line ++ ['\n'], true)
      else (title, summary, inSummary)

def parseSummaryResponse (response : Text) (originalMessageCount : Nat) : TopicSummary :=
  let (title, summary, _) := (lines response).foldl readLine ([], [], false)
  let title := if title = [] then "Conversation segment".toList else title
  let summary := if summary = [] then trim response else summary
  { title := title
    summary := trim summary
    tokenCount := estimateTokens title + estimateTokens summary + 10
    originalMessageCount := originalMessageCount }

/-! ## Compacting -/

/-- What compacting came to: the messages handed to the model, and the answer made of what
it said. -/
structure Compacted where
  handed : List BackendMessage
  answer : Except Text CompactResult
  deriving DecidableEq

def asBackend (msg : ChatMessage) : BackendMessage := ⟨msg.role, msg.content, none⟩

def asCompact (msg : BackendMessage) : CompactMessage := ⟨msg.role, msg.content⟩

/-- `compact_context`, with the model that is asked for the summary. It is refused before
anything is handed over, or it is not. -/
def compactContext (rounding : Rounding) (chat : Text → Except Text Text)
    (messages : List ChatMessage) (maxContext : Nat) (force : Option Bool) :
    Option (Except Text Compacted) := do
  let backendMessages := messages.map asBackend
  match ← choose rounding backendMessages maxContext (force.getD false) with
  | .error message => some (.error message)
  | .ok (compressCount, toCompress) =>
    match chat (buildCompressionPrompt toCompress) with
    | .error message => some (.ok ⟨toCompress, .error message⟩)
    | .ok response => do
      let remaining ← sliceMessages backendMessages compressCount backendMessages.length
      some (.ok ⟨toCompress, .ok {
        topic := parseSummaryResponse response toCompress.length
        remainingMessages := remaining.map asCompact
        compressedCount := compressCount }⟩)

/-- The conversation without a leading system message. -/
def conversation (messages : List BackendMessage) : List BackendMessage :=
  messages.drop (startIdx messages)

/-- What is handed over, and what remains, make up the conversation. -/
def Partitions (messages : List ChatMessage) (handed : List BackendMessage)
    (result : CompactResult) : Prop :=
  handed.map asCompact ++ result.remainingMessages =
      (conversation (messages.map asBackend)).map asCompact ∧
    result.compressedCount = handed.length

/-! ## The cut -/

theorem sliceMessages_eq_some {messages part : List BackendMessage} {i j : Nat}
    (cut : sliceMessages messages i j = some part) :
    i ≤ j ∧ j ≤ messages.length ∧ part = (messages.take j).drop i := by
  unfold sliceMessages at cut
  split at cut
  · rename_i inside
    cases cut
    exact ⟨inside.1, inside.2, rfl⟩
  · cases cut

/-- Both ways of choosing cut the conversation at one place, and count from its start. -/
theorem choose_spec {rounding : Rounding} {messages handed : List BackendMessage}
    {maxContext count : Nat} {force : Bool}
    (chosen : choose rounding messages maxContext force = some (.ok (count, handed))) :
    ∃ cut, 2 ≤ cut ∧ cut ≤ messages.length ∧ count = cut - startIdx messages ∧
      handed = (messages.take cut).drop (startIdx messages) := by
  have sliced : ∀ cut, 2 ≤ cut →
      ∀ part, sliceMessages messages (startIdx messages) cut = some part →
      (cut - startIdx messages, part) = (count, handed) →
      ∃ cut, 2 ≤ cut ∧ cut ≤ messages.length ∧ count = cut - startIdx messages ∧
        handed = (messages.take cut).drop (startIdx messages) := by
    intro cut enough part sliced same
    obtain ⟨-, short, rfl⟩ := sliceMessages_eq_some sliced
    cases same
    exact ⟨cut, enough, short, rfl, rfl⟩
  unfold choose at chosen
  split at chosen
  · dsimp only at chosen
    split at chosen
    · cases chosen
    · rename_i enough
      obtain ⟨part, cut, same⟩ := Option.bind_eq_some_iff.mp chosen
      cases same
      exact sliced _ (by omega) _ cut rfl
  · obtain ⟨needed, checked, same⟩ := Option.bind_eq_some_iff.mp chosen
    cases needed with
    | none => cases same
    | some pair =>
      cases same
      unfold checkCompressionNeeded at checked
      split at checked
      · cases checked
      · dsimp only at checked
        split at checked
        · cases checked
        · rename_i enough
          split at checked
          · cases checked
          · obtain ⟨part, cut, same⟩ := Option.bind_eq_some_iff.mp checked
            cases same
            exact sliced _ (by omega) _ cut rfl

theorem startIdx_le (messages : List BackendMessage) : startIdx messages ≤ 1 := by
  unfold startIdx
  split <;> omega

/-- **Compaction.** Where a summary is made, the messages handed over and those that remain
make up the conversation exactly when it does not begin with a system message. With one,
the last message handed over remains as well. -/
theorem partitions_iff {rounding : Rounding} {chat : Text → Except Text Text}
    {messages : List ChatMessage} {maxContext : Nat} {force : Option Bool}
    {handed : List BackendMessage} {result : CompactResult}
    (compacted : compactContext rounding chat messages maxContext force =
      some (.ok ⟨handed, .ok result⟩)) :
    Partitions messages handed result ↔ systemLed (messages.map asBackend) = false := by
  obtain ⟨choice, chosen, ran⟩ := Option.bind_eq_some_iff.mp compacted
  cases choice with
  | error message => cases ran
  | ok pair =>
    obtain ⟨count, part⟩ := pair
    dsimp only at ran
    cases answered : chat (buildCompressionPrompt part) with
    | error message =>
      rw [answered] at ran
      cases ran
    | ok response =>
      rw [answered] at ran
      obtain ⟨remaining, sliced, same⟩ := Option.bind_eq_some_iff.mp ran
      cases same
      obtain ⟨cut, enough, short, counted, shape⟩ := choose_spec chosen
      obtain ⟨-, -, rfl⟩ := sliceMessages_eq_some sliced
      rw [List.take_length, Partitions]
      generalize messages.map asBackend = backend at chosen shape counted short ⊢
      have start := startIdx_le backend
      have size : handed.length = cut - startIdx backend := by
        rw [shape, List.length_drop, List.length_take, Nat.min_eq_left short]
      constructor
      · rintro ⟨whole, -⟩
        have lengths := congrArg List.length whole
        simp only [List.length_append, List.length_map, List.length_drop, conversation, size,
          counted] at lengths
        cases led : systemLed backend with
        | false => rfl
        | true =>
          have one : startIdx backend = 1 := by rw [startIdx, led]; rfl
          omega
      · intro unled
        have zero : startIdx backend = 0 := by rw [startIdx, unled]; rfl
        rw [zero, List.drop_zero] at shape
        rw [zero, Nat.sub_zero] at counted size
        refine ⟨?_, by rw [size, counted]⟩
        rw [conversation, zero, List.drop_zero, shape, counted, ← List.map_append,
          List.take_append_drop]

/-- The products on small numbers. -/
def smallRounding : Rounding := ⟨fun n => n / 2, fun n => n * 3 / 5⟩

/-- A model that always gives one answer. -/
def summarized : Text → Except Text Text := fun _ => .ok "TITLE: Greetings".toList

def greeting (role : String) : ChatMessage := ⟨role.toList, "hi".toList⟩

/-- What the answer says of messages of which so many were handed over. -/
def greetings (count : Nat) : TopicSummary := ⟨"Greetings".toList, "TITLE: Greetings".toList, 19, count⟩

/-- Six messages without a system message are cut after the third. -/
theorem unled_partitions :
    Partitions (List.replicate 6 (greeting "user"))
      (List.replicate 3 ⟨"user".toList, "hi".toList, none⟩)
      ⟨greetings 3, List.replicate 3 ⟨"user".toList, "hi".toList⟩, 3⟩ := by
  have compacted : compactContext smallRounding summarized (List.replicate 6 (greeting "user"))
      defaultMaxContext (some true) = some (.ok ⟨List.replicate 3 ⟨"user".toList, "hi".toList, none⟩,
        .ok ⟨greetings 3, List.replicate 3 ⟨"user".toList, "hi".toList⟩, 3⟩⟩) := by decide +kernel
  exact (partitions_iff compacted).mpr (by decide +kernel)

/-- With a system message in front, the third message is handed over and remains. -/
theorem led_overlaps :
    compactContext smallRounding summarized (greeting "system" :: List.replicate 5 (greeting "user"))
        defaultMaxContext (some true) =
      some (.ok ⟨List.replicate 2 ⟨"user".toList, "hi".toList, none⟩,
        .ok ⟨greetings 2, List.replicate 4 ⟨"user".toList, "hi".toList⟩, 2⟩⟩) ∧
      ¬ Partitions (greeting "system" :: List.replicate 5 (greeting "user"))
        (List.replicate 2 ⟨"user".toList, "hi".toList, none⟩)
        ⟨greetings 2, List.replicate 4 ⟨"user".toList, "hi".toList⟩, 2⟩ := by
  refine ⟨by decide +kernel, ?_⟩
  rintro ⟨whole, -⟩
  exact absurd (congrArg List.length whole) (by decide +kernel)

end Compaction

end Devit
