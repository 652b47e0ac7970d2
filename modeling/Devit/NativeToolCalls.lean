import Devit.ChatStreams

/-! Tool calls that a server streams with an answer. Ollama's task keeps the calls of the
last line that has any, so calls are lost where lines before it have some; and it says
nothing where the stream is not finished. The task of llama.cpp puts the fragments of each
call together, prints the calls where the finish reason is that of tool calls, and leaves
it to the parser to find them. -/
namespace Devit
open Text

namespace ChatStreams
open LineTask

/-- The response that a stream ends with. -/
def lastResponse (sent : List StreamChunk) : Option RawChatResponse :=
  sent.findSome? fun
    | .done response => some response
    | _ => none

theorem lastResponse_plain {sent : List StreamChunk}
    (plain : ∀ item ∈ sent, StreamChunk.terminal item = false) (rest : List StreamChunk) :
    lastResponse (sent ++ rest) = lastResponse rest := by
  have none : lastResponse sent = none := by
    refine List.findSome?_eq_none_iff.mpr fun item member => ?_
    have quiet := plain item member
    cases item with
    | done response => cases quiet
    | _ => rfl
  rw [lastResponse, List.findSome?_append]
  exact congrArg (Option.or · _) none

/-! ## Ollama -/

namespace Ollama

/-- The lists of calls that chunks bring. -/
def callLists (chunks : List OllamaStreamChunk) : List (List OllamaToolCall) :=
  chunks.filterMap (·.message.toolCalls)

def asCall (call : OllamaToolCall) : ToolCall := ⟨call.name, call.arguments⟩

/-- The final response has these calls. -/
def Delivers (sent : List StreamChunk) (calls : List OllamaToolCall) : Prop :=
  (lastResponse sent).map (fun response => response.toolCalls.getD []) = some (calls.map asCall)

variable {parse : Text → Option Json} {read : Text → Option OllamaStreamChunk}

theorem absorbAll_toolCalls (state : State) (chunks : List OllamaStreamChunk) :
    (absorbAll (absorb parse) state chunks).toolCalls =
      ((callLists chunks).getLast?.map (List.map (convert parse)) <|> state.toolCalls) := by
  induction chunks generalizing state with
  | nil => rfl
  | cons chunk chunks ih =>
    have later := ih (absorb parse state chunk).2
    rw [absorbAll, List.foldl_cons]
    refine later.trans ?_
    cases listed : chunk.message.toolCalls with
    | none => simp [absorb, callLists, listed]
    | some calls =>
      have lists : callLists (chunk :: chunks) = calls :: callLists chunks := by
        simp [callLists, listed]
      rw [lists, List.getLast?_cons]
      cases (callLists chunks).getLast? with
      | none => simp [absorb, listed]
      | some last => simp

/-- Only the last of some lists has anything. -/
theorem getLast_eq_flatten {α β : Type} (f : α → β) (lists : List (List α)) :
    (lists.getLast?.map (List.map f)).getD [] = lists.flatten.map f ↔
      ∀ list ∈ lists.dropLast, list = [] := by
  rcases List.eq_nil_or_concat' lists with rfl | ⟨front, last, rfl⟩
  · simp
  · simp only [List.getLast?_concat, Option.map_some, Option.getD_some, List.flatten_append,
      List.flatten_singleton, List.map_append, List.dropLast_concat]
    rw [List.self_eq_append_left, List.map_eq_nil_iff, List.flatten_eq_nil_iff]

/-- **Ollama.** The calls of a stream are delivered exactly where a line says that it is
done, and of the lines with calls up to it only the last has any. -/
theorem delivers_iff {chunks : List (List UInt8)} {heard : List OllamaStreamChunk}
    (hears : (task parse read).heard (·.done) chunks = heard)
    (objects : ∀ call ∈ (callLists heard).flatten, ∃ fields, call.arguments = .object fields) :
    Delivers (chatStream parse read (chunks.map .bytes)) (callLists heard).flatten ↔
      heard.any (·.done) = true ∧ ∀ calls ∈ (callLists heard).dropLast, calls = [] := by
  have sends : chatStream parse read (chunks.map .bytes) =
      (task parse read).sendAll initial heard := by
    rw [← hears]
    exact run_eq_sendAll (steady parse read) initial chunks
  have converts : (callLists heard).getLast?.map (List.map (convert parse)) =
      (callLists heard).getLast?.map (List.map asCall) := by
    cases last : (callLists heard).getLast? with
    | none => rfl
    | some calls =>
      have inside : calls ∈ callLists heard := List.mem_of_getLast? last
      refine congrArg some (List.map_congr_left fun call member => ?_)
      obtain ⟨fields, shape⟩ := objects call (List.mem_flatten.mpr ⟨calls, inside, member⟩)
      rw [convert, asCall, shape]
      rfl
  have quiet : ∀ state chunk, ∀ item ∈ (absorb parse state chunk).1,
      StreamChunk.terminal item = false := absorb_plain parse
  rw [Delivers, sends]
  rcases upTo_cases (·.done) (chunks.flatMap (task parse read).messages) with
    none | ⟨front, last, shape, done, unfinished⟩
  · -- nothing is sent at the end of the stream
    rw [LineTask.heard] at hears
    rw [hears] at none
    obtain ⟨sent, sends, plain⟩ := @sendAll_unfinished _ _ _ (task parse read) _ _ _ rfl quiet heard
      (fun chunk member state => by simp [finish, none chunk member]) initial
    have lacking : heard.any (·.done) = false := List.any_eq_false.mpr fun chunk member => by
      rw [none chunk member]
      exact Bool.false_ne_true
    rw [sends, lastResponse_plain plain, lacking]
    refine iff_of_false ?_ fun both => Bool.false_ne_true both.1
    rintro ⟨⟩
  · rw [LineTask.heard, shape] at hears
    subst hears
    obtain ⟨sent, sends, plain⟩ := @sendAll_finished _ _ _ (task parse read) _ _ _ rfl quiet front last
      (fun chunk member state => by simp [finish, unfinished chunk member]) initial _
      (by rw [finish, if_pos done])
    have finished : (front ++ [last]).any (·.done) = true := by simp [done]
    rw [sends, lastResponse_plain plain, finished]
    have delivered : (lastResponse [.done (finalResponse
        (absorbAll (absorb parse) initial (front ++ [last])) last)]).map
          (fun response => response.toolCalls.getD []) =
        some (((callLists (front ++ [last])).getLast?.map (List.map asCall)).getD []) := by
      have calls := @absorbAll_toolCalls parse initial (front ++ [last])
      rw [converts] at calls
      refine (congrArg (fun calls : Option (List ToolCall) => some (calls.getD [])) calls).trans ?_
      cases (callLists (front ++ [last])).getLast? <;> rfl
    rw [delivered, Option.some_inj, getLast_eq_flatten, eq_self, true_and]

end Ollama

/-! ## llama.cpp -/

namespace LlamaCpp
open OrderedTable

/-- A tool call with its index, and the JSON text of its arguments. -/
structure NativeCall where
  index : Nat
  call : ToolCall
  text : Text

/-- The fragments of one call. -/
def fragmentsOf (index : Nat) (fragments : List OpenAIToolCallDelta) : List OpenAIToolCallDelta :=
  fragments.filter (·.index = index)

def nameParts (fragments : List OpenAIToolCallDelta) : List Text :=
  fragments.filterMap fun tc => tc.function.bind (·.name)

def argumentParts (fragments : List OpenAIToolCallDelta) : List Text :=
  fragments.filterMap fun tc => tc.function.bind (·.arguments)

/-- Fragments that make up these calls: the parts of each name and of each argument text,
in the order in which they come. -/
structure Fragmented (calls : List NativeCall) (fragments : List OpenAIToolCallDelta) : Prop where
  ordered : calls.Pairwise (·.index < ·.index)
  known : ∀ tc ∈ fragments, ∃ c ∈ calls, c.index = tc.index
  present : ∀ c ∈ calls, fragmentsOf c.index fragments ≠ []
  name : ∀ c ∈ calls, (nameParts (fragmentsOf c.index fragments)).flatten = c.call.name
  arguments : ∀ c ∈ calls, (argumentParts (fragmentsOf c.index fragments)).flatten = c.text

/-- What the fragments of one call add up to. -/
def accumulate (entry : AccumulatedToolCall) (fragments : List OpenAIToolCallDelta) :
    AccumulatedToolCall := fragments.foldl (fun entry tc => tc.change entry) entry

theorem mergeAll_ordered {calls : List (Nat × AccumulatedToolCall)} (ordered : Ordered calls)
    (fragments : List OpenAIToolCallDelta) : Ordered (mergeAll calls fragments) := by
  induction fragments generalizing calls with
  | nil => exact ordered
  | cons tc fragments ih => exact ih (upsert_ordered ordered)

/-- The entry at an index is what the fragments with that index add up to. -/
theorem get_mergeAll {calls : List (Nat × AccumulatedToolCall)} (ordered : Ordered calls)
    (fragments : List OpenAIToolCallDelta) (index : Nat) :
    get index (mergeAll calls fragments) =
      if fragmentsOf index fragments = [] then get index calls
      else some (accumulate ((get index calls).getD emptyCall) (fragmentsOf index fragments)) := by
  induction fragments generalizing calls with
  | nil => rfl
  | cons tc fragments ih =>
    have folded : mergeAll calls (tc :: fragments) =
        mergeAll (upsert emptyCall tc.index tc.change calls) fragments := rfl
    rw [folded, ih (upsert_ordered ordered), get_upsert ordered]
    by_cases same : index = tc.index
    · have more : fragmentsOf index (tc :: fragments) = tc :: fragmentsOf index fragments := by
        rw [fragmentsOf, List.filter_cons_of_pos (by simp [same])]
        rfl
      rw [if_pos same, more, if_neg (List.cons_ne_nil _ _), ← same]
      split
      · rename_i none
        rw [none]
        rfl
      · rfl
    · have fewer : fragmentsOf index (tc :: fragments) = fragmentsOf index fragments := by
        rw [fragmentsOf, List.filter_cons_of_neg (by simpa using Ne.symm same)]
        rfl
      rw [if_neg same, fewer]

theorem accumulate_arguments (entry : AccumulatedToolCall) (fragments : List OpenAIToolCallDelta) :
    (accumulate entry fragments).arguments =
      entry.arguments ++ (argumentParts fragments).flatten := by
  induction fragments generalizing entry with
  | nil => simp [accumulate, argumentParts]
  | cons tc fragments ih =>
    refine (ih (tc.change entry)).trans ?_
    cases part : tc.function.bind (·.arguments) <;>
      simp [OpenAIToolCallDelta.change, argumentParts, part]

theorem accumulate_name (entry : AccumulatedToolCall) (fragments : List OpenAIToolCallDelta) :
    (accumulate entry fragments).name = (nameParts fragments).getLast?.getD entry.name := by
  induction fragments generalizing entry with
  | nil => rfl
  | cons tc fragments ih =>
    refine (ih (tc.change entry)).trans ?_
    cases part : tc.function.bind (·.name) with
    | none => simp [OpenAIToolCallDelta.change, nameParts, part]
    | some name =>
      simp [OpenAIToolCallDelta.change, nameParts, part, List.getLast?_cons]

/-- The name of each call comes whole: its last part is all of it. -/
def NamesWhole (calls : List NativeCall) (fragments : List OpenAIToolCallDelta) : Prop :=
  ∀ c ∈ calls, (nameParts (fragmentsOf c.index fragments)).getLast?.getD [] = c.call.name

/-- The entries of fragmented calls, but for their ids, which nothing reads. -/
theorem mergeAll_fragmented {calls : List NativeCall} {fragments : List OpenAIToolCallDelta}
    (fragmented : Fragmented calls fragments) (whole : NamesWhole calls fragments) :
    mergeAll [] fragments = calls.map fun c => (c.index,
      ⟨(accumulate emptyCall (fragmentsOf c.index fragments)).id, c.call.name, c.text⟩) := by
  have ordered : Ordered (calls.map fun c => (c.index,
      (⟨(accumulate emptyCall (fragmentsOf c.index fragments)).id, c.call.name, c.text⟩ :
        AccumulatedToolCall))) := List.pairwise_map.mpr fragmented.ordered
  refine ordered_ext (mergeAll_ordered .nil fragments) ordered fun index => ?_
  rw [get_mergeAll .nil]
  by_cases known : ∃ c ∈ calls, c.index = index
  · obtain ⟨c, member, rfl⟩ := known
    rw [if_neg (fragmented.present c member),
      get_of_mem ordered (List.mem_map_of_mem member)]
    have name := accumulate_name emptyCall (fragmentsOf c.index fragments)
    have arguments := accumulate_arguments emptyCall (fragmentsOf c.index fragments)
    rw [fragmented.arguments c member] at arguments
    rw [show emptyCall.name = [] from rfl, whole c member] at name
    exact congrArg some (AccumulatedToolCall.ext rfl name arguments)
  · have none : fragmentsOf index fragments = [] := by
      refine List.filter_eq_nil_iff.mpr fun tc member same => ?_
      obtain ⟨c, inside, index_eq⟩ := fragmented.known tc member
      exact known ⟨c, inside, index_eq.trans (of_decide_eq_true same)⟩
    rw [if_pos none]
    refine (get_of_absent fun entry member same => ?_).symm
    obtain ⟨c, inside, rfl⟩ := List.mem_map.mp member
    exact known ⟨c, inside, same.symm⟩

/-! ### What is sent of them -/

open DevItFormatParser

def contentOf (chunks : List OpenAIStreamChunk) : Text :=
  chunks.flatMap fun chunk => (nonEmpty (chunk.delta.bind (·.content))).getD []

def fragmentsIn (chunks : List OpenAIStreamChunk) : List OpenAIToolCallDelta :=
  chunks.flatMap (·.fragments)

theorem absorbAll_state (state : State) (chunks : List OpenAIStreamChunk) :
    (absorbAll absorb state chunks).accumulatedContent =
        state.accumulatedContent ++ contentOf chunks ∧
      (absorbAll absorb state chunks).toolCalls = mergeAll state.toolCalls (fragmentsIn chunks) := by
  induction chunks generalizing state with
  | nil => exact ⟨(List.append_nil _).symm, rfl⟩
  | cons chunk chunks ih =>
    obtain ⟨content, calls⟩ := ih (absorb state chunk).2
    refine ⟨content.trans ?_, calls.trans ?_⟩
    · rw [contentOf, contentOf, List.flatMap_cons, ← List.append_assoc]
      rfl
    · rw [fragmentsIn, fragmentsIn, List.flatMap_cons, mergeAll, mergeAll, List.foldl_append]
      rfl

/-- Calls as they are printed behind one another. -/
def printed : List NativeCall → List Printed
  | [] => []
  | [c] => [⟨c.call, c.text, []⟩]
  | c :: d :: rest => ⟨c.call, c.text, ['\n']⟩ :: printed (d :: rest)

/-- The text in front of the first call. -/
def front (content : Text) (calls : List NativeCall) : Text :=
  if calls = [] then content else content ++ ['\n']

theorem printed_calls (calls : List NativeCall) :
    (printed calls).map (·.call) = calls.map (·.call) := by
  induction calls using printed.induct with
  | case1 => rfl
  | case2 c => rfl
  | case3 c d rest ih =>
    rw [printed, List.map_cons, ih]
    rfl

theorem printed_read {parse : Text → Option Json} {calls : List NativeCall}
    (reads : ∀ c ∈ calls, parse (trim c.text) = some c.call.arguments) :
    ∀ c ∈ printed calls, parse (trim c.text) = some c.call.arguments := by
  induction calls using printed.induct with
  | case1 => nofun
  | case2 c => exact List.forall_mem_singleton.mpr (reads c List.mem_cons_self)
  | case3 c d rest ih =>
    obtain ⟨first, others⟩ := List.forall_mem_cons.mp reads
    exact List.forall_mem_cons.mpr ⟨first, ih others⟩

theorem toolCallsToXml_eq (calls : List (Nat × AccumulatedToolCall)) :
    toolCallsToXml calls = calls.flatMap fun (_, tc) => '\n' :: printCall tc.name tc.arguments := by
  have opening : "\n<tool_call>\n<tool_name>".toList =
      ['\n'] ++ (callOpen ++ (['\n'] ++ nameOpen)) := by decide
  have middle : "</tool_name>\n<arguments>\n".toList =
      nameClose ++ (['\n'] ++ (argsOpen ++ ['\n'])) := by decide
  have closing : "\n</arguments>\n</tool_call>".toList =
      ['\n'] ++ (argsClose ++ (['\n'] ++ callClose)) := by decide
  refine List.flatMap_congr fun entry _ => ?_
  rw [opening, middle, closing]
  simp only [printCall, List.append_assoc, List.cons_append, List.nil_append]

/-- The calls behind the content, as the parser is given them. -/
theorem embed_printed {calls : List NativeCall} (some_call : calls ≠ []) (content : Text) :
    embed (content ++ ['\n']) (printed calls) =
      content ++ calls.flatMap fun c => '\n' :: printCall c.call.name c.text := by
  induction calls using printed.induct generalizing content with
  | case1 => exact absurd rfl some_call
  | case2 c => simp [printed, embed]
  | case3 c d rest ih =>
    have later := ih (List.cons_ne_nil _ _) (content ++ '\n' :: printCall c.call.name c.text)
    rw [printed, embed, List.flatMap_cons, List.flatMap_cons]
    rw [embed] at later
    simpa only [List.append_assoc, List.cons_append, List.nil_append] using later

/-- What keeps calls intact: names come whole, the finish reason is that of tool calls, and
the calls printed behind the content can be read back with their names. -/
structure Intact (parse : Text → Option Json) (heard : List OpenAIStreamChunk)
    (calls : List NativeCall) : Prop where
  names : NamesWhole calls (fragmentsIn heard)
  finish : calls ≠ [] → heard.getLast?.bind (·.finish) = some "tool_calls".toList
  readable : Readable parse (front (contentOf heard) calls) (printed calls)
  clean : ∀ c ∈ calls, asRead c.call = c.call

/-- The calls are read back from the final response. -/
def Delivers (parse : Text → Option Json) (sent : List StreamChunk) (calls : List NativeCall) :
    Prop :=
  (lastResponse sent).map (fun response => DevItFormatParser.parse parse response.content) =
    some (some (calls.map (·.call)))

variable {parse : Text → Option Json} {read : Text → Option OpenAIStreamChunk}

/-- The content of the final response, where calls are intact. -/
theorem lastResponse_content {chunks : List (List UInt8)} {heard : List OpenAIStreamChunk}
    {calls : List NativeCall}
    (hears : (task read).heard (·.finish.isSome) chunks = heard)
    (fragmented : Fragmented calls (fragmentsIn heard)) (intact : Intact parse heard calls) :
    (lastResponse (chatStream read (chunks.map .bytes))).map (·.content) =
      some (embed (front (contentOf heard) calls) (printed calls)) := by
  have sends : chatStream read (chunks.map .bytes) = (task read).sendAll initial heard := by
    rw [← hears]
    exact run_eq_sendAll (steady read) initial chunks
  obtain ⟨content, merged⟩ := absorbAll_state initial heard
  have entries := merged.trans (mergeAll_fragmented fragmented intact.names)
  have unfinished {messages : List OpenAIStreamChunk}
      (quiet : ∀ chunk ∈ messages, chunk.finish.isSome = false) :
      ∀ chunk ∈ messages, ∀ state, finish state chunk = none := by
    intro chunk member state
    have none : chunk.finish = none := by simpa using quiet chunk member
    rw [finish, none]
    rfl
  rw [sends]
  rcases upTo_cases (·.finish.isSome) (chunks.flatMap (task read).messages) with
    none | ⟨first, last, shape, done, quiet⟩
  · rw [LineTask.heard] at hears
    rw [hears] at none
    obtain ⟨sent, ran, plain⟩ := @sendAll_unfinished _ _ _ (task read) _ _ _ rfl absorb_plain heard
      (unfinished none) initial
    have uncalled : calls = [] := by
      by_contra some_call
      obtain ⟨last, ends, finishes⟩ := Option.bind_eq_some_iff.mp (intact.finish some_call)
      have quiet := none last (List.mem_of_getLast? ends)
      rw [finishes] at quiet
      cases quiet
    rw [ran, lastResponse_plain plain, uncalled]
    exact congrArg some (content.trans (List.append_nil _).symm)
  · rw [LineTask.heard, shape] at hears
    subst hears
    obtain ⟨reason, finishes⟩ := Option.isSome_iff_exists.mp done
    obtain ⟨sent, ran, plain⟩ := @sendAll_finished _ _ _ (task read) _ _ _ rfl absorb_plain first last
      (unfinished quiet) initial _ (by rw [finish, finishes]; rfl)
    rw [ran, lastResponse_plain plain, finishStream]
    by_cases uncalled : calls = []
    · rw [uncalled, List.map_nil] at entries
      rw [if_neg fun both => both.2 entries, uncalled]
      exact congrArg some (content.trans (List.append_nil _).symm)
    · have called := intact.finish uncalled
      rw [List.getLast?_concat, Option.bind_some, finishes, Option.some_inj] at called
      have filled : (absorbAll absorb initial (first ++ [last])).toolCalls ≠ [] := by
        rw [entries]
        simpa using uncalled
      have xml : toolCallsToXml (absorbAll absorb initial (first ++ [last])).toolCalls =
          calls.flatMap fun c => '\n' :: printCall c.call.name c.text := by
        rw [entries, toolCallsToXml_eq, List.flatMap_map]
      rw [if_pos ⟨called, filled⟩, front, if_neg uncalled, embed_printed uncalled, ← xml]
      exact congrArg (fun text => some (text ++ _)) content

/-- **llama.cpp.** Calls that are kept intact are read back from the final response. -/
theorem delivers {chunks : List (List UInt8)} {heard : List OpenAIStreamChunk}
    {calls : List NativeCall}
    (hears : (task read).heard (·.finish.isSome) chunks = heard)
    (fragmented : Fragmented calls (fragmentsIn heard))
    (reads : ∀ c ∈ calls, parse (trim c.text) = some c.call.arguments)
    (intact : Intact parse heard calls) :
    Delivers parse (chatStream read (chunks.map .bytes)) calls := by
  have content := lastResponse_content hears fragmented intact
  have back := parse_printed (printed_read reads) intact.readable
  have calls_eq : (printed calls).map (fun c => asRead c.call) = calls.map (·.call) := by
    have mapped := congrArg (List.map asRead) (printed_calls calls)
    rw [List.map_map, List.map_map] at mapped
    exact mapped.trans (List.map_congr_left intact.clean)
  rw [calls_eq] at back
  obtain ⟨response, last, same⟩ := Option.map_eq_some_iff.mp content
  rw [Delivers, last, Option.map_some, same, back]

end LlamaCpp

/-! ## Both -/

/-- **Native tool calls.** Ollama's final response has the calls of the stream exactly
where a line says that it is done and no calls come before the last list of them. From that
of llama.cpp the calls are read back where they are kept intact. -/
theorem toolCalls_delivered {parse : Text → Option Json}
    {readOllama : Text → Option Ollama.OllamaStreamChunk}
    {readLlamaCpp : Text → Option LlamaCpp.OpenAIStreamChunk}
    {ollama llamaCpp : List (List UInt8)} {told : List Ollama.OllamaStreamChunk}
    {heard : List LlamaCpp.OpenAIStreamChunk} {calls : List LlamaCpp.NativeCall}
    (tells : (Ollama.task parse readOllama).heard (·.done) ollama = told)
    (objects : ∀ call ∈ (Ollama.callLists told).flatten, ∃ fields, call.arguments = .object fields)
    (hears : (LlamaCpp.task readLlamaCpp).heard (·.finish.isSome) llamaCpp = heard)
    (fragmented : LlamaCpp.Fragmented calls (LlamaCpp.fragmentsIn heard))
    (reads : ∀ c ∈ calls, parse (trim c.text) = some c.call.arguments) :
    (Ollama.Delivers (Ollama.chatStream parse readOllama (ollama.map .bytes))
        (Ollama.callLists told).flatten ↔
      told.any (·.done) = true ∧ ∀ list ∈ (Ollama.callLists told).dropLast, list = []) ∧
    (LlamaCpp.Intact parse heard calls →
      LlamaCpp.Delivers parse (LlamaCpp.chatStream readLlamaCpp (llamaCpp.map .bytes)) calls) :=
  ⟨Ollama.delivers_iff tells objects, LlamaCpp.delivers hears fragmented reads⟩

/-- A line with a call, done or not. -/
def ollamaCallLine (done : String) : Text :=
  "\x7b\"message\":\x7b\"content\":\"\",\"tool_calls\":[\x7b\"function\":\x7b\"name\":\"ocr\",".toList ++
    "\"arguments\":\x7b\x7d\x7d\x7d]\x7d,\"done\":".toList ++ done.toList ++ "\x7d".toList

def ollamaCall (done : Bool) : Ollama.OllamaStreamChunk :=
  ⟨⟨[], some [⟨"ocr".toList, .object []⟩], none⟩, done, none, none, none⟩

def readOllamaCall (line : Text) : Option Ollama.OllamaStreamChunk :=
  if line = ollamaCallLine "false" then some (ollamaCall false)
  else if line = ollamaCallLine "true" then some (ollamaCall true)
  else none

/-- The two halves of a call. -/
def callStart : Text :=
  "\x7b\"choices\":[\x7b\"delta\":\x7b\"tool_calls\":[\x7b\"index\":0,\"function\":\x7b\"name\":\"ocr\",".toList ++
    "\"arguments\":\"\x7b\"\x7d\x7d]\x7d\x7d]\x7d".toList

def callEnd (reason : String) : Text :=
  "\x7b\"choices\":[\x7b\"delta\":\x7b\"tool_calls\":[\x7b\"index\":0,\"function\":\x7b".toList ++
    "\"arguments\":\"\x7d\"\x7d\x7d]\x7d,\"finish_reason\":\"".toList ++ reason.toList ++
      "\"\x7d]\x7d".toList

def callFragment (name : Option Text) (arguments : String) (finishReason : Option Text) :
    LlamaCpp.OpenAIStreamChunk :=
  ⟨[⟨some ⟨none, none, some [⟨0, none, some ⟨name, some arguments.toList⟩⟩]⟩, finishReason⟩], none⟩

def readCallData (data : Text) : Option LlamaCpp.OpenAIStreamChunk :=
  if data = callStart then some (callFragment (some "ocr".toList) "\x7b" none)
  else if data = callEnd "tool_calls" then some (callFragment none "\x7d" (some "tool_calls".toList))
  else if data = callEnd "stop" then some (callFragment none "\x7d" (some "stop".toList))
  else none

def callStream (reason : String) : List UInt8 :=
  asciiBytes ("data: ".toList ++ callStart ++ '\n' :: "data: ".toList ++ callEnd reason ++ ['\n'])

/-- The only JSON text that is read. -/
def readObject (text : Text) : Option Json :=
  if text = "\x7b\x7d".toList then some (.object []) else none

def ocrCall : LlamaCpp.NativeCall := ⟨0, ⟨"ocr".toList, .object []⟩, "\x7b\x7d".toList⟩

theorem hearData_line {μ : Type} {read : Text → Option μ} {line data : Text}
    (shape : trim line = line ∧ line ≠ [] ∧ line ≠ "[DONE]".toList ∧
      stripPrefix "data: ".toList line = some data) : hearData read line = read data := by
  obtain ⟨trimmed, some_char, going, stripped⟩ := shape
  have heard : ¬ (line = [] ∨ line = "[DONE]".toList) := not_or.mpr ⟨some_char, going⟩
  simp only [hearData, trimmed, if_neg heard, stripped, Option.getD_some]

theorem ollamaCallLine_read :
    lines (utf8Lossy (asciiBytes (ollamaCallLine "true"))) = [ollamaCallLine "true"] ∧
      trim (ollamaCallLine "true") ≠ [] ∧ ollamaCallLine "true" ≠ ollamaCallLine "false" := by
  decide +kernel

theorem callStream_read :
    lines (utf8Lossy (callStream "tool_calls")) =
        ["data: ".toList ++ callStart, "data: ".toList ++ callEnd "tool_calls"] ∧
      callEnd "tool_calls" ≠ callStart ∧
      ∀ data ∈ [callStart, callEnd "tool_calls"],
        trim ("data: ".toList ++ data) = "data: ".toList ++ data ∧
          "data: ".toList ++ data ≠ [] ∧ "data: ".toList ++ data ≠ "[DONE]".toList ∧
          stripPrefix "data: ".toList ("data: ".toList ++ data) = some data := by
  decide +kernel

theorem ocrCall_delivered :
    Ollama.Delivers (Ollama.chatStream readObject readOllamaCall
        [.bytes (asciiBytes (ollamaCallLine "true"))]) [⟨"ocr".toList, .object []⟩] ∧
      LlamaCpp.Delivers readObject (LlamaCpp.chatStream readCallData
        [.bytes (callStream "tool_calls")]) [ocrCall] := by
  have tells : (Ollama.task readObject readOllamaCall).heard (·.done)
      [asciiBytes (ollamaCallLine "true")] = [ollamaCall true] := by
    obtain ⟨cut, filled, other⟩ := ollamaCallLine_read
    simp [heard, messages, cut, Ollama.task, filled, readOllamaCall, other, upTo]
  have hears : (LlamaCpp.task readCallData).heard (·.finish.isSome) [callStream "tool_calls"] =
      [callFragment (some "ocr".toList) "\x7b" none,
        callFragment none "\x7d" (some "tool_calls".toList)] := by
    obtain ⟨cut, other, data⟩ := callStream_read
    have first : hearData readCallData ("data: ".toList ++ callStart) = readCallData callStart :=
      hearData_line (data _ List.mem_cons_self)
    have second : hearData readCallData ("data: ".toList ++ callEnd "tool_calls") =
        readCallData (callEnd "tool_calls") := hearData_line (data _ (by simp))
    have finishes : (callFragment none "\x7d" (some "tool_calls".toList)).finish.isSome = true := by
      decide
    have goes_on : (callFragment (some "ocr".toList) "\x7b" none).finish.isSome = false := by decide
    have read := first.trans (if_pos rfl)
    have readEnd := second.trans ((if_neg other).trans (if_pos rfl))
    rw [heard, List.flatMap_singleton, messages, cut, LlamaCpp.task,
      List.filterMap_cons_some read, List.filterMap_cons_some readEnd]
    simp only [List.filterMap_nil, upTo, goes_on, finishes, Bool.false_eq_true, if_false, if_true]
  have fragmented : LlamaCpp.Fragmented [ocrCall] (LlamaCpp.fragmentsIn
      [callFragment (some "ocr".toList) "\x7b" none,
        callFragment none "\x7d" (some "tool_calls".toList)]) := by
    refine ⟨List.pairwise_singleton _ _, ?_, ?_, ?_, ?_⟩
    · intro tc member
      refine ⟨ocrCall, List.mem_cons_self, ?_⟩
      rcases List.mem_cons.mp member with rfl | later
      · rfl
      · rw [List.mem_singleton.mp later]
        rfl
    · exact List.forall_mem_singleton.mpr (List.cons_ne_nil _ _)
    · exact List.forall_mem_singleton.mpr (by decide)
    · exact List.forall_mem_singleton.mpr (by decide)
  have reads : ∀ c ∈ [ocrCall], readObject (trim c.text) = some c.call.arguments := by
    have trimmed : trim ocrCall.text = ocrCall.text := by decide
    refine List.forall_mem_singleton.mpr ?_
    rw [trimmed]
    rfl
  have objects : ∀ call ∈ (Ollama.callLists [ollamaCall true]).flatten,
      ∃ fields, call.arguments = .object fields := by
    intro call member
    rw [List.mem_singleton.mp member]
    exact ⟨[], rfl⟩
  have both := @toolCalls_delivered readObject _ _ _ _ _ _ [ocrCall] tells objects hears fragmented
    reads
  refine ⟨both.1.mpr ⟨rfl, ?_⟩, both.2 ⟨?_, fun _ => rfl, ?_, ?_⟩⟩
  · rintro list ⟨⟩
  · exact List.forall_mem_singleton.mpr rfl
  · exact ⟨by decide +kernel, List.forall_mem_singleton.mpr (by decide +kernel),
      List.forall_mem_singleton.mpr (by decide +kernel), List.forall_mem_singleton.mpr
        ⟨by decide +kernel, by decide +kernel, by decide +kernel, by decide +kernel,
          by decide +kernel, by decide +kernel⟩, by rintro ⟨⟩⟩
  · refine List.forall_mem_singleton.mpr ?_
    have same : trim (DevItFormatParser.stripMarkdownBlocks ocrCall.call.name) =
        ocrCall.call.name := by decide +kernel
    rw [DevItFormatParser.asRead, same]

/-- Of two lines with a call only the second is delivered; and calls with another finish
reason are not. -/
theorem toolCalls_lost :
    ¬ Ollama.Delivers (Ollama.chatStream readObject readOllamaCall
        [.bytes (asciiBytes (ollamaCallLine "false" ++ '\n' :: ollamaCallLine "true"))])
        [⟨"ocr".toList, .object []⟩, ⟨"ocr".toList, .object []⟩] ∧
      ¬ LlamaCpp.Delivers readObject (LlamaCpp.chatStream readCallData
        [.bytes (callStream "stop")]) [ocrCall] := by
  constructor
  · intro delivered
    have counted : (lastResponse (Ollama.chatStream readObject readOllamaCall
        [.bytes (asciiBytes (ollamaCallLine "false" ++ '\n' :: ollamaCallLine "true"))])).map
          (fun response => (response.toolCalls.getD []).length) = some 1 := by decide +kernel
    have lengths := congrArg (Option.map List.length) delivered
    rw [Option.map_map] at lengths
    exact absurd (counted.symm.trans lengths) (by decide)
  · intro delivered
    have counted : (lastResponse (LlamaCpp.chatStream readCallData
        [.bytes (callStream "stop")])).map (fun response =>
          (DevItFormatParser.parse readObject response.content).map List.length) =
          some (some 0) := by decide +kernel
    have lengths := congrArg (Option.map (Option.map List.length)) delivered
    rw [Option.map_map] at lengths
    exact absurd (counted.symm.trans lengths) (by decide)

end ChatStreams

end Devit
