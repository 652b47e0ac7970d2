import Devit.Library.Json

/-! The answers of the server. A message is taken up by its method, and its answer is built by
the request's handler, by a tool, or by the loop that writes the answers. A message is answered
once and under its own id if it has one, names a method that is no notification and says its
version; a message without an id goes unanswered if it is called a notification. -/
namespace Devit
open Text

inductive McpError where
  | invalidRequest (msg : Text)
  | toolNotFound (name : Text)
  | executionFailed (msg : Text)
  | internal (msg : Text)
  | rpc (code : Int32) (message : Text) (data : Option Json)

namespace McpError

def code : McpError → Int32
  | .invalidRequest _ => -32600
  | .toolNotFound _ => -32601
  | .executionFailed _ => -32001
  | .internal _ => -32603
  | .rpc code _ _ => code

def message : McpError → Text
  | .invalidRequest msg | .toolNotFound msg | .executionFailed msg | .internal msg => msg
  | .rpc _ message _ => message

def data : McpError → Option Json
  | .rpc _ _ data => data
  | _ => none

end McpError

namespace JsonRpc

structure ToolDescriptor where
  name : Text
  description : Text
  inputSchema : Json

/-- A tool, which may change the state that tools share. -/
structure McpTool (σ : Type) where
  descriptor : ToolDescriptor
  execute : Json → σ → Except McpError Json × σ

/-- The tools under their names, in the order in which the names came up. -/
structure ToolRegistry (σ : Type) where
  tools : List (McpTool σ)

variable {σ : Type}

/-- A tool takes the place of one that has its name. -/
def insertTool (tool : McpTool σ) : List (McpTool σ) → List (McpTool σ)
  | [] => [tool]
  | first :: rest =>
    if first.descriptor.name = tool.descriptor.name then tool :: rest
    else first :: insertTool tool rest

def ToolRegistry.new (tools : List (McpTool σ)) : ToolRegistry σ :=
  ⟨tools.foldl (fun table tool => insertTool tool table) []⟩

def ToolRegistry.get (registry : ToolRegistry σ) (name : Text) : Option (McpTool σ) :=
  registry.tools.find? (·.descriptor.name == name)

def ToolRegistry.descriptors (registry : ToolRegistry σ) : List ToolDescriptor :=
  registry.tools.map (·.descriptor)

/-! ## Requests and responses -/

structure JsonRpcRequest where
  jsonrpc : Text
  id : Option Json
  method : Text
  params : Option Json

structure JsonRpcError where
  code : Int32
  message : Text
  data : Option Json

structure JsonRpcResponse where
  id : Json
  result : Option Json
  error : Option JsonRpcError

/-- An optional field: `null` is read as an absent one. -/
def optionalField (key : Text) (value : Json) : Option Json :=
  match value.get key with
  | none | some .null => none
  | some present => some present

/-- `serde_json::from_value`. -/
def JsonRpcRequest.fromValue (value : Json) : Option JsonRpcRequest := do
  let jsonrpc ← (value.get "jsonrpc".toList).bind Json.asStr
  let method ← (value.get "method".toList).bind Json.asStr
  some ⟨jsonrpc, optionalField "id".toList value, method, optionalField "params".toList value⟩

def ofI32 (n : Int32) : Json :=
  if 0 ≤ n then .unsigned n.toInt.toNat.toUInt64 else .negative (Fin.ofNat _ (-1 - n.toInt).toNat)

def JsonRpcError.toValue (error : JsonRpcError) : Json :=
  .ofFields ([("code", ofI32 error.code), ("message", .string error.message)] ++
    (error.data.map fun data => ("data", data)).toList)

/-- `serde_json::to_value`: a missing result or error is left out. -/
def JsonRpcResponse.toValue (response : JsonRpcResponse) : Json :=
  .ofFields ([("jsonrpc", .string "2.0".toList), ("id", response.id)] ++
    (response.result.map fun result => ("result", result)).toList ++
    (response.error.map fun error => ("error", error.toValue)).toList)

def success (id : Option Json) (result : Json) : JsonRpcResponse :=
  ⟨id.getD .null, some result, none⟩

def failure (id : Option Json) (code : Int32) (message : Text) : JsonRpcResponse :=
  ⟨id.getD .null, none, some ⟨code, message, none⟩⟩

def rpcErrorResponse (id : Json) (error : McpError) : JsonRpcResponse :=
  ⟨id, none, some ⟨error.code, error.message, error.data⟩⟩

/-! ## Handlers -/

def respondInitialize (id : Option Json) : JsonRpcResponse :=
  success id (.ofFields [
    ("protocolVersion", .string "2025-06-18".toList),
    ("capabilities", .ofFields [
      ("tools", .ofFields [("listChanged", .bool false)]),
      ("prompts", .ofFields [("listChanged", .bool false)]),
      ("resources", .ofFields [("listChanged", .bool false), ("subscribe", .bool false)])]),
    ("serverInfo", .ofFields [
      ("name", .string "mcp-server".toList), ("version", .string "0.1.0".toList)])])

def ToolDescriptor.toValue (descriptor : ToolDescriptor) : Json :=
  .ofFields [("name", .string descriptor.name), ("description", .string descriptor.description),
    ("inputSchema", descriptor.inputSchema)]

def respondWithTools (id : Option Json) (registry : ToolRegistry σ) : JsonRpcResponse :=
  success id (.ofFields [("tools", .array (registry.descriptors.map ToolDescriptor.toValue))])

def respondWithResources (id : Option Json) : JsonRpcResponse :=
  success id (.ofFields [("resources", .array [])])

def respondWithPrompts (id : Option Json) : JsonRpcResponse :=
  success id (.ofFields [("prompts", .array [])])

def handleToolsCall (id params : Option Json) (registry : ToolRegistry σ) (s : σ) :
    JsonRpcResponse × σ :=
  let id := id.getD .null
  match params with
  | some (.object fields) =>
    match ((Json.object fields).get "name".toList).bind Json.asStr with
    | none => (rpcErrorResponse id (.invalidRequest "Missing 'name' in params".toList), s)
    | some name =>
      let arguments := ((Json.object fields).get "arguments".toList).getD .null
      match registry.get name with
      | none => (rpcErrorResponse id (.toolNotFound name), s)
      | some tool =>
        match tool.execute arguments s with
        | (.ok result, s') => (⟨id, some result, none⟩, s')
        | (.error err, s') => (rpcErrorResponse id err, s')
  | _ =>
    (rpcErrorResponse id (.invalidRequest "Missing params object for tools/call".toList), s)

def handleRequest (request : JsonRpcRequest) (registry : ToolRegistry σ) (s : σ) :
    JsonRpcResponse × σ :=
  let id := request.id
  let method := request.method
  if request.jsonrpc ≠ "2.0".toList then
    (failure id (-32600) ("Unsupported JSON-RPC version: ".toList ++ request.jsonrpc), s)
  else if method = "initialize".toList then (respondInitialize id, s)
  else if method = "tools/list".toList then (respondWithTools id registry, s)
  else if method = "tools/call".toList then handleToolsCall id request.params registry s
  else if method = "resources/list".toList then (respondWithResources id, s)
  else if method = "prompts/list".toList then (respondWithPrompts id, s)
  else (failure id (-32601) ("Unknown method: ".toList ++ method), s)

/-! ## The loop -/

/-- What the tools share, and what was published to the subscribers. -/
structure Session (σ : Type) where
  tools : σ
  published : List Json

def methodOf (message : Json) : Option Text := (message.get "method".toList).bind Json.asStr

def isNotification (method : Text) : Bool := startsWith "notifications/".toList method

inductive HandlingError where
  | missingMethod
  | notARequest

def handleJsonrpc (registry : ToolRegistry σ) (request : Json) (s : Session σ) :
    Except HandlingError (Option Json) × Session σ :=
  match methodOf request with
  | none => (.error .missingMethod, s)
  | some method =>
    if isNotification method then
      let payload := .ofFields [("event", .string method),
        ("params", (request.get "params".toList).getD .null)]
      (.ok none, { s with published := s.published ++ [payload] })
    else
      match JsonRpcRequest.fromValue request with
      | none => (.error .notARequest, s)
      | some requestStruct =>
        let (response, tools) := handleRequest requestStruct registry s.tools
        (.ok (some response.toValue), { s with tools })

def internalError : Json :=
  .ofFields [("jsonrpc", .string "2.0".toList),
    ("error", .ofFields [("code", ofI32 (-32603)), ("message", .string "Internal error".toList)])]

/-- What is written for a message. -/
def answer (registry : ToolRegistry σ) (request : Json) (s : Session σ) :
    List Json × Session σ :=
  match handleJsonrpc registry request s with
  | (.ok (some response), s') => ([response], s')
  | (.ok none, s') => ([], s')
  | (.error _, s') => ([internalError], s')

/-- What `serve_stdio` writes for each of the messages it reads. -/
def serveStdio (registry : ToolRegistry σ) : List Json → Session σ → List (List Json)
  | [], _ => []
  | message :: messages, s =>
    let (written, s') := answer registry message s
    written :: serveStdio registry messages s'

/-! ## What is asked for -/

/-- One response with a result or an error, under this id. -/
def Responds (id : Json) (response : Json) : Prop :=
  response.get "id".toList = some id ∧
    Xor (response.get "result".toList).isSome (response.get "error".toList).isSome

/-- One response to a message with an id, and silence after one without. -/
def Answered (message : Json) (written : List Json) : Prop :=
  match message.get "id".toList with
  | some id => ∃ response, written = [response] ∧ Responds id response
  | none => written = []

/-- The message is a request or a notification, and is called what it is. -/
def WellAddressed (message : Json) : Prop :=
  match message.get "id".toList with
  | some _ => (∃ version, message.get "jsonrpc".toList = some (.string version)) ∧
      ∃ method, methodOf message = some method ∧ isNotification method = false
  | none => ∃ method, methodOf message = some method ∧ isNotification method = true

/-! ## Responses -/

/-- What a response says is what its value says. -/
theorem toValue_get (response : JsonRpcResponse) :
    response.toValue.get "id".toList = some response.id ∧
      response.toValue.get "result".toList = response.result ∧
      response.toValue.get "error".toList = response.error.map JsonRpcError.toValue := by
  obtain ⟨id, result, error⟩ := response
  refine ⟨?_, ?_, ?_⟩ <;> rw [JsonRpcResponse.toValue, Json.get_ofFields] <;>
    cases result <;> cases error <;> simp

/-- The response is for this id, and has either a result or an error. -/
def JsonRpcResponse.For (id : Option Json) (response : JsonRpcResponse) : Prop :=
  response.id = id.getD .null ∧ Xor response.result.isSome response.error.isSome

theorem success_for (id : Option Json) (result : Json) : (success id result).For id :=
  ⟨rfl, .inl ⟨rfl, nofun⟩⟩

theorem failure_for (id : Option Json) (code : Int32) (message : Text) :
    (failure id code message).For id :=
  ⟨rfl, .inr ⟨rfl, nofun⟩⟩

theorem rpcErrorResponse_for (id : Option Json) (error : McpError) :
    (rpcErrorResponse (id.getD .null) error).For id :=
  ⟨rfl, .inr ⟨rfl, nofun⟩⟩

theorem handleToolsCall_for (id params : Option Json) (registry : ToolRegistry σ) (s : σ) :
    (handleToolsCall id params registry s).1.For id := by
  unfold handleToolsCall
  split
  · simp only
    split
    · exact rpcErrorResponse_for id _
    · split
      · exact rpcErrorResponse_for id _
      · split
        · exact success_for id _
        · exact rpcErrorResponse_for id _
  · exact rpcErrorResponse_for id _

/-- Every method answers under the id of its request. -/
theorem handleRequest_for (request : JsonRpcRequest) (registry : ToolRegistry σ) (s : σ) :
    (handleRequest request registry s).1.For request.id := by
  unfold handleRequest
  simp only
  split
  · exact failure_for _ _ _
  split
  · exact success_for _ _
  split
  · exact success_for _ _
  split
  · exact handleToolsCall_for _ _ _ _
  split
  · exact success_for _ _
  split
  · exact success_for _ _
  · exact failure_for _ _ _

theorem optionalField_getD {key : Text} {value present : Json}
    (there : value.get key = some present) : (optionalField key value).getD .null = present := by
  rw [optionalField, there]
  cases present <;> rfl

theorem responds_of_for {message id : Json} {response : JsonRpcResponse}
    (there : message.get "id".toList = some id)
    (made : response.For (optionalField "id".toList message)) :
    Responds id response.toValue := by
  obtain ⟨ofId, ofResult, ofError⟩ := toValue_get response
  refine ⟨?_, ?_⟩
  · rw [ofId, made.1, optionalField_getD there]
  · rw [ofResult, ofError, Option.isSome_map]
    exact made.2

theorem internalError_unaddressed (id : Json) : ¬ Responds id internalError := by
  intro responds
  have unnamed : internalError.get "id".toList = none := by
    simp [internalError, Json.get_ofFields]
  rw [Responds, unnamed] at responds
  cases responds.1

theorem fromValue_eq {message : Json} {method : Text} (named : methodOf message = some method) :
    JsonRpcRequest.fromValue message =
      ((message.get "jsonrpc".toList).bind Json.asStr).map fun version =>
        ⟨version, optionalField "id".toList message, method,
          optionalField "params".toList message⟩ := by
  rw [methodOf] at named
  simp only [JsonRpcRequest.fromValue, named]
  cases (message.get "jsonrpc".toList).bind Json.asStr <;> rfl

theorem version_iff (message : Json) (version : Text) :
    (message.get "jsonrpc".toList).bind Json.asStr = some version ↔
      message.get "jsonrpc".toList = some (.string version) := by
  cases message.get "jsonrpc".toList with
  | none => simp
  | some value => cases value <;> simp [Json.asStr]

/-- What is written for a message, by its method and its version. -/
theorem answer_cases (registry : ToolRegistry σ) (message : Json) (s : Session σ) :
    ((∃ method, methodOf message = some method ∧ isNotification method = true) ∧
      (answer registry message s).1 = []) ∨
    ((∃ method, methodOf message = some method ∧ isNotification method = false) ∧
      (∃ version, message.get "jsonrpc".toList = some (.string version)) ∧
      ∃ response : JsonRpcResponse, response.For (optionalField "id".toList message) ∧
        (answer registry message s).1 = [response.toValue]) ∨
    (((∀ method, methodOf message ≠ some method) ∨
        ((∃ method, methodOf message = some method ∧ isNotification method = false) ∧
          ∀ version, message.get "jsonrpc".toList ≠ some (.string version))) ∧
      (answer registry message s).1 = [internalError]) := by
  cases named : methodOf message with
  | none => exact .inr (.inr ⟨.inl nofun, by simp only [answer, handleJsonrpc, named]⟩)
  | some method =>
    cases kind : isNotification method with
    | true => exact .inl ⟨⟨method, rfl, kind⟩, by simp [answer, handleJsonrpc, named, kind]⟩
    | false =>
      have read := fromValue_eq named
      cases versioned : (message.get "jsonrpc".toList).bind Json.asStr with
      | none =>
        refine .inr (.inr ⟨.inr ⟨⟨method, rfl, kind⟩, fun version there => ?_⟩, ?_⟩)
        · rw [(version_iff message version).mpr there] at versioned
          cases versioned
        · rw [versioned] at read
          simp [answer, handleJsonrpc, named, kind, read]
      | some version =>
        rw [versioned] at read
        refine .inr (.inl ⟨⟨method, rfl, kind⟩, ⟨version, (version_iff _ _).mp versioned⟩, ?_⟩)
        rw [Option.map_some] at read
        refine ⟨_, handleRequest_for ⟨version, optionalField "id".toList message, method,
          optionalField "params".toList message⟩ registry s.tools, ?_⟩
        simp only [answer, handleJsonrpc, named, kind, read]
        rfl

/-- No message is a notification and something else. -/
theorem kinds_apart {message : Json}
    (silent : ∃ method, methodOf message = some method ∧ isNotification method = true)
    (spoken : ∃ method, methodOf message = some method ∧ isNotification method = false) :
    False := by
  obtain ⟨method, named, kind⟩ := silent
  obtain ⟨other, named', kind'⟩ := spoken
  rw [named] at named'
  cases named'
  rw [kind] at kind'
  cases kind'

/-- A message is answered as it should be if and only if it is well addressed. -/
theorem answered_iff (registry : ToolRegistry σ) (message : Json) (s : Session σ) :
    Answered message (answer registry message s).1 ↔ WellAddressed message := by
  unfold Answered WellAddressed
  rcases answer_cases registry message s with ⟨silent, written⟩ |
    ⟨spoken, version, response, made, written⟩ | ⟨unread, written⟩
  · -- A notification is met with silence, whether it has an id or not.
    rw [written]
    cases there : message.get "id".toList with
    | none => exact ⟨fun _ => silent, fun _ => rfl⟩
    | some id =>
      refine ⟨?_, fun addressed => (kinds_apart silent addressed.2).elim⟩
      rintro ⟨_, ⟨⟩, _⟩
  · rw [written]
    cases there : message.get "id".toList with
    | none =>
      refine ⟨?_, fun silent => (kinds_apart silent spoken).elim⟩
      rintro ⟨⟩
    | some id => exact ⟨fun _ => ⟨version, spoken⟩, fun _ => ⟨_, rfl, responds_of_for there made⟩⟩
  · -- The loop's own error has no id.
    rw [written]
    cases there : message.get "id".toList with
    | none =>
      refine ⟨?_, fun silent => ?_⟩
      · rintro ⟨⟩
      · rcases unread with unnamed | ⟨spoken, _⟩
        · obtain ⟨method, named, _⟩ := silent
          exact absurd named (unnamed method)
        · exact (kinds_apart silent spoken).elim
    | some id =>
      refine ⟨?_, ?_⟩
      · rintro ⟨_, ⟨⟩, responds⟩
        exact absurd responds (internalError_unaddressed id)
      · rintro ⟨⟨version, versioned⟩, method, named, _⟩
        rcases unread with unnamed | ⟨_, unversioned⟩
        · exact absurd named (unnamed method)
        · exact absurd versioned (unversioned version)

/-- Every message of a sequence is answered as it should be if and only if each of them is well
addressed: whatever the tools do, and whatever was called before. -/
theorem paired_iff_wellAddressed (registry : ToolRegistry σ) (messages : List Json)
    (s : Session σ) :
    List.Forall₂ Answered messages (serveStdio registry messages s) ↔
      ∀ message ∈ messages, WellAddressed message := by
  induction messages generalizing s with
  | nil => exact ⟨fun _ => nofun, fun _ => .nil⟩
  | cons message messages ih =>
    simp only [serveStdio, List.forall₂_cons, List.forall_mem_cons]
    exact and_congr (answered_iff registry message s) (ih _)

/-- A list of the tools is sent although nobody asked for one. -/
theorem unasked_answered :
    ¬ List.Forall₂ Answered
      [.ofFields [("jsonrpc", .string "2.0".toList), ("method", .string "tools/list".toList)]]
      (serveStdio (ToolRegistry.new [])
        [.ofFields [("jsonrpc", .string "2.0".toList), ("method", .string "tools/list".toList)]]
        (⟨(), []⟩ : Session Unit)) := by
  intro paired
  cases paired with
  | cons answered _ => exact absurd answered (by rintro ⟨⟩)

end JsonRpc
end Devit
