import Devit.Library.LineStream
import Devit.Library.OrderedTable
import Devit.ThinkingTags
import Devit.ToolCalling

/-! The tasks of three backends that read the answer of a language model line by line and
send it on. One of them sends nothing at the end of a stream that its server did not
finish, so its streams end only where the server says so or the network fails. A line that
is cut by the border of two chunks is read as two lines. -/
namespace Devit
open Text

namespace ChatStreams

inductive FinishReason where
  | stop
  | length
  | contentFilter
  | toolCalls
  | other
  deriving DecidableEq

structure Usage where
  promptTokens : UInt32
  completionTokens : UInt32
  totalTokens : UInt32
  deriving DecidableEq

structure RawChatResponse where
  content : Text
  finishReason : Option FinishReason
  usage : Option Usage
  toolCalls : Option (List ToolCall)

def RawChatResponse.new (content : Text) : RawChatResponse := ⟨content, none, none, none⟩

inductive StreamChunk where
  | delta (text : Text)
  | thinking (text : Text)
  | done (response : RawChatResponse)
  | error (message : Text)

namespace StreamChunk

/-- `Done` or `Error`. -/
def terminal : StreamChunk → Bool
  | .done _ => true
  | .error _ => true
  | _ => false

def ofSegment : ThinkingTags.ParsedSegment → StreamChunk
  | .thinking text => .thinking text
  | .content text => .delta text

end StreamChunk

/-- A text that is there and not empty. -/
def nonEmpty (text : Option Text) : Option Text := text.filter (· ≠ [])

/-- A line of server-sent events, as two of the backends read it. -/
def hearData {μ : Type} (read : Text → Option μ) (line : Text) : Option μ :=
  let line := trim line
  if line = [] ∨ line = "[DONE]".toList then none
  else read ((stripPrefix "data: ".toList line).getD line)

/-- A finish reason that finishes a stream. -/
def finishing (reason : Option Text) : Option Text :=
  reason.filter fun reason => reason ≠ "null".toList ∧ reason ≠ []

/-! ## llama.cpp -/

namespace LlamaCpp

structure OpenAIFunctionDelta where
  name : Option Text
  arguments : Option Text

structure OpenAIToolCallDelta where
  index : Nat
  id : Option Text
  function : Option OpenAIFunctionDelta

structure OpenAIStreamDelta where
  content : Option Text
  reasoningContent : Option Text
  toolCalls : Option (List OpenAIToolCallDelta)

structure OpenAIStreamChoice where
  delta : Option OpenAIStreamDelta
  finishReason : Option Text

structure OpenAIStreamChunk where
  choices : List OpenAIStreamChoice
  usage : Option Usage

@[ext] structure AccumulatedToolCall where
  id : Text
  name : Text
  arguments : Text
  deriving DecidableEq

/-- `AccumulatedToolCall::default`. -/
def emptyCall : AccumulatedToolCall := ⟨[], [], []⟩

def OpenAIToolCallDelta.change (tc : OpenAIToolCallDelta) (entry : AccumulatedToolCall) :
    AccumulatedToolCall where
  id := tc.id.getD entry.id
  name := (tc.function.bind (·.name)).getD entry.name
  arguments := entry.arguments ++ (tc.function.bind (·.arguments)).getD []

/-- Fragments are put to the entries of their indexes, in a map that is read in the order of
the indexes. -/
def mergeAll (calls : List (Nat × AccumulatedToolCall)) (fragments : List OpenAIToolCallDelta) :
    List (Nat × AccumulatedToolCall) :=
  fragments.foldl (fun calls tc => OrderedTable.upsert emptyCall tc.index tc.change calls) calls

def toolCallsToXml (toolCalls : List (Nat × AccumulatedToolCall)) : Text :=
  toolCalls.flatMap fun (_, tc) =>
    "\n<tool_call>\n<tool_name>".toList ++ tc.name ++ "</tool_name>\n<arguments>\n".toList ++
      tc.arguments ++ "\n</arguments>\n</tool_call>".toList

def buildLlamacppResponse (content finishReason : Text) (usage : Option Usage) :
    RawChatResponse :=
  let reason : FinishReason :=
    if finishReason = "stop".toList ∨ finishReason = "tool_calls".toList then .stop
    else if finishReason = "length".toList then .length
    else .other
  { RawChatResponse.new content with finishReason := some reason, usage := usage }

structure State where
  accumulatedContent : Text
  finalUsage : Option Usage
  toolCalls : List (Nat × AccumulatedToolCall)

def OpenAIStreamChunk.delta (chunk : OpenAIStreamChunk) : Option OpenAIStreamDelta :=
  chunk.choices.head?.bind (·.delta)

def OpenAIStreamChunk.finish (chunk : OpenAIStreamChunk) : Option Text :=
  finishing (chunk.choices.head?.bind (·.finishReason))

/-- The fragments of tool calls that a chunk brings. -/
def OpenAIStreamChunk.fragments (chunk : OpenAIStreamChunk) : List OpenAIToolCallDelta :=
  (chunk.delta.bind (·.toolCalls)).getD []

/-- What is sent of a chunk, and the state behind it, apart from its finish reason. -/
def absorb (state : State) (chunk : OpenAIStreamChunk) : List StreamChunk × State :=
  let reasoning := nonEmpty (chunk.delta.bind (·.reasoningContent))
  let content := nonEmpty (chunk.delta.bind (·.content))
  ((reasoning.map StreamChunk.thinking).toList ++ (content.map StreamChunk.delta).toList,
    { accumulatedContent := state.accumulatedContent ++ content.getD []
      finalUsage := chunk.usage <|> state.finalUsage
      toolCalls := mergeAll state.toolCalls chunk.fragments })

/-- What is sent at a finish reason. -/
def finishStream (state : State) (reason : Text) : List StreamChunk :=
  if reason = "tool_calls".toList ∧ state.toolCalls ≠ [] then
    let xml := toolCallsToXml state.toolCalls
    [.delta xml, .done (buildLlamacppResponse (state.accumulatedContent ++ xml) reason
      state.finalUsage)]
  else [.done (buildLlamacppResponse state.accumulatedContent reason state.finalUsage)]

/-- What is sent behind a chunk with a finish reason. -/
def finish (state : State) (chunk : OpenAIStreamChunk) : Option (List StreamChunk) :=
  chunk.finish.map (finishStream state)

def task (read : Text → Option OpenAIStreamChunk) :
    LineTask OpenAIStreamChunk State StreamChunk where
  hear := hearData read
  handle := LineTask.inTwo absorb finish
  failed := .error
  ended state :=
    [.done (buildLlamacppResponse state.accumulatedContent "stop".toList state.finalUsage)]

def initial : State := ⟨[], none, []⟩

/-- The task of `LlamaCppBackend::chat_stream`, with `serde_json::from_str`. -/
def chatStream (read : Text → Option OpenAIStreamChunk) (arrivals : List Arrival) :
    List StreamChunk := (task read).run initial arrivals

end LlamaCpp

/-! ## LM Studio -/

namespace Lmstudio
open ThinkingTags

structure OpenAIStreamDelta where
  content : Option Text

structure OpenAIStreamChoice where
  delta : Option OpenAIStreamDelta
  finishReason : Option Text

structure OpenAIStreamChunk where
  choices : List OpenAIStreamChoice
  usage : Option Usage

def buildLmstudioResponse (content finishReason : Text) (usage : Option Usage) :
    RawChatResponse :=
  let reason : FinishReason :=
    if finishReason = "stop".toList then .stop
    else if finishReason = "length".toList then .length
    else .other
  { RawChatResponse.new content with finishReason := some reason, usage := usage }

structure State where
  accumulatedContent : Text
  parser : ThinkingTagParser
  finalUsage : Option Usage

def OpenAIStreamChunk.finish (chunk : OpenAIStreamChunk) : Option Text :=
  finishing (chunk.choices.head?.bind (·.finishReason))

def absorb (state : State) (chunk : OpenAIStreamChunk) : List StreamChunk × State :=
  let finalUsage := chunk.usage <|> state.finalUsage
  match nonEmpty ((chunk.choices.head?.bind (·.delta)).bind (·.content)) with
  | some content =>
    let (segments, parser) := state.parser.feed content
    (segments.map .ofSegment, ⟨state.accumulatedContent ++ content, parser, finalUsage⟩)
  | none => ([], { state with finalUsage := finalUsage })

/-- What is sent at the end of the stream, or at a finish reason. -/
def finishStream (state : State) (reason : Text) : List StreamChunk :=
  state.parser.flush.map .ofSegment ++
    [.done (buildLmstudioResponse state.accumulatedContent reason state.finalUsage)]

/-- What is sent behind a chunk with a finish reason. -/
def finish (state : State) (chunk : OpenAIStreamChunk) : Option (List StreamChunk) :=
  chunk.finish.map (finishStream state)

def task (read : Text → Option OpenAIStreamChunk) :
    LineTask OpenAIStreamChunk State StreamChunk where
  hear := hearData read
  handle := LineTask.inTwo absorb finish
  failed := .error
  ended state := finishStream state "stop".toList

def initial : State := ⟨[], .new, none⟩

/-- The task of `LmstudioBackend::chat_stream`. -/
def chatStream (read : Text → Option OpenAIStreamChunk) (arrivals : List Arrival) :
    List StreamChunk := (task read).run initial arrivals

end Lmstudio

/-! ## Ollama -/

namespace Ollama

structure OllamaToolCall where
  name : Text
  arguments : Json

structure OllamaMessageResponse where
  content : Text
  toolCalls : Option (List OllamaToolCall)
  thinking : Option Text

structure OllamaStreamChunk where
  message : OllamaMessageResponse
  done : Bool
  doneReason : Option Text
  promptEvalCount : Option Int
  evalCount : Option Int

section
-- `serde_json::from_str` for any value
variable (parse : Text → Option Json)

/-- Arguments that are a string are read once more. -/
def normalizeArguments : Json → Json
  | .string s => (parse s).getD (.string s)
  | arguments => arguments

def convert (call : OllamaToolCall) : ToolCall := ⟨call.name, normalizeArguments parse call.arguments⟩

/-- `u32::try_from`, or zero. -/
def toU32 (n : Int) : UInt32 := if 0 ≤ n ∧ n < 2 ^ 32 then UInt32.ofNat n.toNat else 0

/-- `i64::saturating_add`. -/
def saturatingAdd (a b : Int) : Int := max (-2 ^ 63) (min (2 ^ 63 - 1) (a + b))

structure State where
  accumulatedContent : Text
  toolCalls : Option (List ToolCall)

def absorb (state : State) (chunk : OllamaStreamChunk) : List StreamChunk × State :=
  let thinking := nonEmpty chunk.message.thinking
  let content := nonEmpty (some chunk.message.content)
  ((thinking.map StreamChunk.thinking).toList ++ (content.map StreamChunk.delta).toList,
    { accumulatedContent := state.accumulatedContent ++ chunk.message.content
      toolCalls := chunk.message.toolCalls.map (List.map (convert parse)) <|> state.toolCalls })

def finalResponse (state : State) (chunk : OllamaStreamChunk) : RawChatResponse where
  content := state.accumulatedContent
  finishReason :=
    if chunk.doneReason = some "stop".toList then some .stop
    else if chunk.doneReason = some "length".toList then some .length
    else some .other
  usage := some {
    promptTokens := toU32 (chunk.promptEvalCount.getD 0)
    completionTokens := toU32 (chunk.evalCount.getD 0)
    totalTokens :=
      toU32 (saturatingAdd (chunk.promptEvalCount.getD 0) (chunk.evalCount.getD 0)) }
  toolCalls := state.toolCalls

def finish (state : State) (chunk : OllamaStreamChunk) : Option (List StreamChunk) :=
  if chunk.done then some [.done (finalResponse state chunk)] else none

/-- At the end of the stream nothing is sent. -/
def task (read : Text → Option OllamaStreamChunk) :
    LineTask OllamaStreamChunk State StreamChunk where
  hear line := if trim line = [] then none else read line
  handle := LineTask.inTwo (absorb parse) finish
  failed := .error
  ended _ := []

def initial : State := ⟨[], none⟩

/-- The task of `OllamaBackend::chat_stream`. -/
def chatStream (read : Text → Option OllamaStreamChunk) (arrivals : List Arrival) :
    List StreamChunk := (task parse read).run initial arrivals

end

end Ollama

/-! ## What each message does -/

open LineTask StreamChunk

theorem single_endsOnce (response : RawChatResponse) : EndsOnce terminal [.done response] :=
  ⟨[], .done response, rfl, rfl, nofun⟩

theorem segments_plain (segments : List ThinkingTags.ParsedSegment) :
    ∀ item ∈ segments.map StreamChunk.ofSegment, terminal item = false := by
  intro item member
  obtain ⟨segment, -, rfl⟩ := List.mem_map.mp member
  cases segment <;> rfl

/-- Thinking and content that are sent. -/
theorem texts_plain (thinking content : Option Text) :
    ∀ item ∈ (thinking.map StreamChunk.thinking).toList ++ (content.map StreamChunk.delta).toList,
      terminal item = false := by
  intro item member
  cases thinking <;> cases content <;> simp at member
  · rw [member]; rfl
  · rw [member]; rfl
  · rcases member with rfl | rfl <;> rfl

theorem LlamaCpp.finishStream_endsOnce (state : LlamaCpp.State) (reason : Text) :
    EndsOnce terminal (LlamaCpp.finishStream state reason) := by
  unfold LlamaCpp.finishStream
  split
  · refine ⟨[.delta _], .done _, rfl, rfl, ?_⟩
    intro item member
    rw [List.mem_singleton.mp member]
    rfl
  · exact single_endsOnce _

theorem LlamaCpp.absorb_plain (state : LlamaCpp.State) (chunk : LlamaCpp.OpenAIStreamChunk) :
    ∀ item ∈ (LlamaCpp.absorb state chunk).1, terminal item = false := texts_plain _ _

theorem LlamaCpp.steady (read : Text → Option LlamaCpp.OpenAIStreamChunk) :
    Steady (LlamaCpp.task read) terminal (fun chunk => chunk.finish.isSome) := by
  refine steady_inTwo rfl LlamaCpp.absorb_plain ?_ ?_ fun _ => rfl
  · exact fun state chunk => Option.isSome_map
  · intro state chunk last ends
    obtain ⟨reason, -, rfl⟩ := Option.map_eq_some_iff.mp ends
    exact LlamaCpp.finishStream_endsOnce state reason

theorem Lmstudio.absorb_plain (state : Lmstudio.State) (chunk : Lmstudio.OpenAIStreamChunk) :
    ∀ item ∈ (Lmstudio.absorb state chunk).1, terminal item = false := by
  unfold Lmstudio.absorb
  dsimp only
  split
  · exact segments_plain _
  · nofun

theorem Lmstudio.finishStream_endsOnce (state : Lmstudio.State) (reason : Text) :
    EndsOnce terminal (Lmstudio.finishStream state reason) :=
  (single_endsOnce _).after (segments_plain _)

theorem Lmstudio.steady (read : Text → Option Lmstudio.OpenAIStreamChunk) :
    Steady (Lmstudio.task read) terminal (fun chunk => chunk.finish.isSome) := by
  refine steady_inTwo rfl Lmstudio.absorb_plain ?_ ?_ fun _ => rfl
  · exact fun state chunk => Option.isSome_map
  · intro state chunk last ends
    obtain ⟨reason, -, rfl⟩ := Option.map_eq_some_iff.mp ends
    exact Lmstudio.finishStream_endsOnce state reason

theorem Ollama.absorb_plain (parse : Text → Option Json) (state : Ollama.State)
    (chunk : Ollama.OllamaStreamChunk) :
    ∀ item ∈ (Ollama.absorb parse state chunk).1, terminal item = false := texts_plain _ _

theorem Ollama.steady (parse : Text → Option Json) (read : Text → Option Ollama.OllamaStreamChunk) :
    Steady (Ollama.task parse read) terminal (·.done) := by
  refine steady_inTwo rfl (Ollama.absorb_plain parse) ?_ ?_ fun _ => rfl
  · intro state chunk
    cases done : chunk.done <;> simp [Ollama.finish, done]
  · intro state chunk last ends
    unfold Ollama.finish at ends
    split at ends
    · cases ends
      exact single_endsOnce _
    · cases ends

/-! ## Ending once -/

/-- **Ending once.** The three tasks each send one terminal chunk, last, exactly on the
streams on which the network fails or a line tells Ollama's task that it is done. -/
theorem streams_endOnce_iff (readLlamaCpp : Text → Option LlamaCpp.OpenAIStreamChunk)
    (readLmstudio : Text → Option Lmstudio.OpenAIStreamChunk)
    (readOllama : Text → Option Ollama.OllamaStreamChunk) (parse : Text → Option Json)
    (arrivals : List Arrival) :
    (EndsOnce terminal (LlamaCpp.chatStream readLlamaCpp arrivals) ∧
      EndsOnce terminal (Lmstudio.chatStream readLmstudio arrivals) ∧
      EndsOnce terminal (Ollama.chatStream parse readOllama arrivals)) ↔
    arrivals.any ((Ollama.task parse readOllama).stops (·.done)) = true := by
  have llamaCpp := run_endsOnce (LlamaCpp.steady readLlamaCpp) (fun _ => single_endsOnce _)
    LlamaCpp.initial arrivals
  have lmstudio := run_endsOnce (Lmstudio.steady readLmstudio)
    (fun state => Lmstudio.finishStream_endsOnce state _) Lmstudio.initial arrivals
  have ollama := run_endsOnce_iff (Ollama.steady parse readOllama) (fun _ => rfl)
    Ollama.initial arrivals
  exact ⟨fun ends => ollama.mp ends.2.2, fun stopped => ⟨llamaCpp, lmstudio, ollama.mpr stopped⟩⟩

/-- A line with some content, and how it is read. -/
def ollamaLine : Text := "\x7b\"message\":\x7b\"content\":\"hi\"\x7d\x7d".toList

def readOllamaLine (line : Text) : Option Ollama.OllamaStreamChunk :=
  if line = ollamaLine then some ⟨⟨"hi".toList, none, none⟩, false, none, none, none⟩ else none

def asciiBytes (text : Text) : List UInt8 := text.map fun c => UInt8.ofNat c.toNat

/-- The server closes the stream behind a line with content. -/
theorem ollama_left_open :
    (Ollama.chatStream (fun _ => none) readOllamaLine
        [.bytes (asciiBytes (ollamaLine ++ ['\n']))]).all (fun chunk => !terminal chunk) = true ∧
      ¬ EndsOnce terminal (Ollama.chatStream (fun _ => none) readOllamaLine
        [.bytes (asciiBytes (ollamaLine ++ ['\n']))]) := by
  have quiet : (Ollama.chatStream (fun _ => none) readOllamaLine
      [.bytes (asciiBytes (ollamaLine ++ ['\n']))]).all (fun chunk => !terminal chunk) = true := by
    decide +kernel
  refine ⟨quiet, not_endsOnce ?_⟩
  intro item member
  simpa using List.all_eq_true.mp quiet item member

/-! ## Cutting into chunks -/

/-- What a receiver makes of what is sent: the text, the thinking and the content of the
final response. -/
structure Shown where
  delta : Text
  thinking : Text
  content : Option Text
  deriving DecidableEq

def shown (sent : List StreamChunk) : Shown where
  delta := sent.flatMap fun
    | .delta text => text
    | _ => []
  thinking := sent.flatMap fun
    | .thinking text => text
    | _ => []
  content := sent.findSome? fun
    | .done response => some response.content
    | _ => none

end ChatStreams

end Devit
