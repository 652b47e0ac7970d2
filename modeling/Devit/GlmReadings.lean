import Devit.GlmCalls

/-! Calls in the style `<tool><param>value</param></tool>` are read back only where they are
readable: calls come in the order of the list of tools from any text; what another format finds
has no string as long as the longest value; and a value that had a fence comes back shorter. -/
namespace Devit.GlmCalls
open Text DevItFormatParser Grouping

variable {read : Text → Option Json} {params : List (Text × Text)} {calls : List GlmCall}

/-! ## What is found in any text -/

/-- A field of a built object is the last one given under its name. -/
theorem get_built (key : Text) (fields : List (Text × Json)) :
    (Json.object (fields.foldl (fun built field => Json.insertField field.1 field.2 built) [])).get
      key = (fields.reverse.find? (·.1 == key)).map Prod.snd := by
  induction fields using List.reverseRecOn with
  | nil => rfl
  | append_singleton fields field ih =>
    rw [Json.get] at ih
    rw [List.foldl_append, List.foldl_cons, List.foldl_nil, Json.get, Json.find_insertField,
      List.reverse_append, List.reverse_singleton, List.singleton_append, List.find?_cons]
    by_cases same : key = field.1
    · simp [same]
    · simp only [same, if_false, beq_false_of_ne (Ne.symm same)]
      exact ih

theorem argumentsOf_eq (value : Text → Json) (params : List (Text × Text)) :
    argumentsOf value params = .object ((params.map fun param => (param.1, value param.2)).foldl
      (fun built field => Json.insertField field.1 field.2 built) []) := by
  rw [argumentsOf, List.foldl_map]

theorem get_argumentsOf {value : Text → Json} (distinct : (params.map Prod.fst).Nodup)
    {param : Text × Text} (member : param ∈ params) :
    (argumentsOf value params).get param.1 = some (value param.2) := by
  have listed : (param.1, value param.2) ∈ params.map fun param => (param.1, value param.2) :=
    List.mem_map_of_mem member
  have names : ((params.map fun param => (param.1, value param.2)).map Prod.fst).Nodup := by
    rwa [List.map_map]
  rw [argumentsOf_eq, get_built]
  cases found : (params.map fun param => (param.1, value param.2)).reverse.find?
      (·.1 == param.1) with
  | none =>
    have none := List.find?_eq_none.mp found _ (List.mem_reverse.mpr listed)
    simp at none
  | some other =>
    have same : other.1 = param.1 := by simpa using List.find?_some found
    have inside := List.mem_reverse.mp (List.mem_of_find?_eq_some found)
    rw [List.inj_on_of_nodup_map names inside listed same]
    rfl

/-- What is read of a parameter has its closing tag behind it. -/
theorem xmlParams_closed {skip : Nat} {s : Text} {param : Text × Json}
    (member : param ∈ xmlParams read skip s) : tag ('/' :: param.1) <:+: s := by
  induction s generalizing skip with
  | nil => cases skip <;> cases member
  | cons c s ih =>
    have later : ∀ {skip}, param ∈ xmlParams read skip s → tag ('/' :: param.1) <:+: c :: s :=
      fun inside => (ih inside).trans (List.suffix_cons c s).isInfix
    cases skip with
    | succ skip => exact later member
    | zero =>
      rw [xmlParams.eq_def] at member
      dsimp only at member
      split at member
      · split at member
        · cases member
        · rename_i tagEnd _
          split at member
          · exact later member
          · split at member
            · exact later member
            · rename_i closeStart closes
              rcases List.mem_cons.mp member with rfl | inside
              · have found := contains_iff.mp (contains_of_found closes)
                exact found.trans (((List.drop_suffix tagEnd s).isInfix).trans
                  (List.suffix_cons c s).isInfix)
              · exact later inside
      · exact later member

/-- What is read of a block has no parameter named as its tool: the block would end there. -/
theorem readBlock_other {name s block : Text} {call : ToolCall}
    (member : block ∈ cutOut (tag name) (endsAt (tag ('/' :: name))) 0 s)
    (found : readBlock read name block = some call) :
    call.name = name ∧ call.arguments.get name = none := by
  obtain ⟨rest, n, -, ends, rfl⟩ := mem_cutOut member
  obtain ⟨k, closes, rfl⟩ := Option.map_eq_some_iff.mp ends
  have fits := find_fits (tag_ne_nil _) closes
  obtain ⟨-, -, absent⟩ := find_split (tag_ne_nil _) closes
  obtain ⟨arguments, parsed, rfl⟩ := Option.map_eq_some_iff.mp found
  refine ⟨rfl, ?_⟩
  have cut : (rest.take (k + (tag ('/' :: name)).length)).take
      ((rest.take (k + (tag ('/' :: name)).length)).length - (tag ('/' :: name)).length) =
      rest.take k := by
    rw [List.length_take, Nat.min_eq_left fits, Nat.add_sub_cancel, List.take_take]
    congr 1
    omega
  have unclosed : ∀ field ∈ xmlParams read 0 ((rest.take k).drop (tag name).length),
      field.1 ≠ name := by
    rintro field listed rfl
    have inside := (xmlParams_closed listed).trans (List.drop_suffix _ (rest.take k)).isInfix
    rw [contains_iff.mpr inside] at absent
    cases absent
  rw [cut, parseXmlParams] at parsed
  cases fields : xmlParams read 0 ((rest.take k).drop (tag name).length) with
  | nil =>
    rw [fields] at parsed
    cases parsed
  | cons field later =>
    rw [fields] at parsed unclosed
    cases parsed
    rw [get_built, Option.map_eq_none_iff, List.find?_eq_none]
    intro other listed same
    exact unclosed other (List.mem_reverse.mp listed) (by simpa using same)

/-- The calls that are found come in the order of the tools. -/
theorem parseGlmStyle_sorted (content : Text) :
    Ordered toolNames ToolCall.name (parseGlmStyle read content) := by
  have distinct : toolNames.Nodup := by decide +kernel
  rw [parseGlmStyle_eq]
  refine ordered_flatMap distinct fun name _ call member => ?_
  obtain ⟨block, cut, found⟩ := List.mem_filterMap.mp member
  exact (readBlock_other cut found).1

theorem parseGlmStyle_other {content : Text} {call : ToolCall}
    (member : call ∈ parseGlmStyle read content) : call.arguments.get call.name = none := by
  rw [parseGlmStyle_eq] at member
  obtain ⟨name, -, inside⟩ := List.mem_flatMap.mp member
  obtain ⟨block, cut, found⟩ := List.mem_filterMap.mp inside
  obtain ⟨rfl, none⟩ := readBlock_other cut found
  exact none

/-! ## Strings of other formats -/

def isBracket (c : Char) : Bool := c == '<' || c == '>'

/-- The values in a text, and whatever else has a quote in it, are at most so long. -/
def Short (n : Nat) (s : Text) : Prop := Bounded isBracket '"' n s

theorem Short.tag {n : Nat} {name rest : Text} (unquoted : '"' ∉ name) (short : Short n rest) :
    Short n (tag name ++ rest) := by
  have shape : DevItFormatParser.tag name ++ rest = [] ++ '<' :: (name ++ '>' :: rest) := by
    simp [DevItFormatParser.tag]
  rw [shape]
  exact .split rfl (.of_unmarked (by simp)) (.split rfl (.of_unmarked unquoted) short)

theorem Short.text_tag {n : Nat} {value name rest : Text} (fits : Short n value)
    (unquoted : '"' ∉ name) (short : Short n rest) :
    Short n (value ++ (DevItFormatParser.tag name ++ rest)) := by
  have shape : value ++ (DevItFormatParser.tag name ++ rest) =
      value ++ '<' :: (name ++ '>' :: rest) := by
    simp [DevItFormatParser.tag]
  rw [shape]
  exact .split rfl fits (.split rfl (.of_unmarked unquoted) short)

theorem KeyName.unquoted {name : Text} (key : KeyName name) : '"' ∉ name := fun member =>
  key _ member (by decide)

theorem KeyName.closing_unquoted {name : Text} (key : KeyName name) : '"' ∉ '/' :: name := by
  simpa using key.unquoted

theorem short_params {n : Nat} {rest : Text} (keys : ∀ param ∈ params, KeyName param.1)
    (fits : ∀ param ∈ params, param.2.length ≤ n) (short : Short n rest) :
    Short n (printParams params ++ rest) := by
  induction params with
  | nil => exact short
  | cons param params ih =>
    obtain ⟨key, laterKeys⟩ := List.forall_mem_cons.mp keys
    obtain ⟨fit, later⟩ := List.forall_mem_cons.mp fits
    rw [printParams_cons, printParam, List.append_assoc, List.append_assoc, List.append_assoc]
    exact .tag key.unquoted
      (.text_tag (.of_length fit) key.closing_unquoted (ih laterKeys later))

/-- Printed calls are as short as their longest value. -/
theorem short_glms {n : Nat} (tagged : ∀ glm ∈ calls, Tagged glm)
    (fits : ∀ glm ∈ calls, ∀ param ∈ glm.params, param.2.length ≤ n) :
    Short n (printGlms calls) := by
  induction calls with
  | nil => exact .of_unmarked List.not_mem_nil
  | cons glm calls ih =>
    obtain ⟨own, laterTagged⟩ := List.forall_mem_cons.mp tagged
    obtain ⟨fit, later⟩ := List.forall_mem_cons.mp fits
    rw [printGlms_cons, printGlm, List.append_assoc, List.append_assoc]
    exact .tag own.tool.unquoted (short_params (fun param member => (own.params param member).1) fit
      (.tag own.tool.closing_unquoted (ih laterTagged later)))

/-- A string that is written in a short text is shorter. -/
theorem Quoted.shorter {n : Nat} {w s : Text} (quoted : Quoted w s) (short : Short n s)
    (unopened : '<' ∉ w) (unclosed : '>' ∉ w) : w.length < n := by
  obtain ⟨written, inside, long, brackets⟩ := quoted
  have plain : ∀ c ∈ '"' :: written, isBracket c = false := by
    intro c member
    rcases List.mem_cons.mp member with rfl | inWritten
    · rfl
    · rw [isBracket, Bool.or_eq_false_iff, beq_eq_false_iff_ne, beq_eq_false_iff_ne]
      constructor
      · rintro rfl
        exact unopened (brackets _ (by simp) inWritten)
      · rintro rfl
        exact unclosed (brackets _ (by simp) inWritten)
  have bound := short _ inside plain List.mem_cons_self
  rw [List.length_cons] at bound
  omega

theorem hasString_get {key w : Text} {object value : Json} (found : object.get key = some value)
    (inside : HasString w value) : HasString w object := by
  cases object with
  | object fields =>
    obtain ⟨field, listed, rfl⟩ := Option.map_eq_some_iff.mp found
    exact .field (List.mem_of_find?_eq_some listed) inside
  | _ => cases found

/-- A call of an object is read from a part of the text. -/
theorem scanJson_part {started : Option Text} {count : Int} {before s : Text} {call : ToolCall}
    (part : ∀ inside, started = some inside → inside <:+ before)
    (found : scanJson read started count s = some call) :
    ∃ piece object, piece <:+: before ++ s ∧ read piece = some object ∧
      object.get "arguments".toList = some call.arguments := by
  induction s generalizing started count before with
  | nil => cases found
  | cons c s ih =>
    have grown : ∀ {inside}, inside <:+ before → inside ++ [c] <:+ before ++ [c] := by
      rintro inside ⟨front, rfl⟩
      exact ⟨front, by rw [List.append_assoc]⟩
    have shift : before ++ c :: s = (before ++ [c]) ++ s := by simp
    rw [shift]
    rw [scanJson.eq_def] at found
    dsimp only at found
    split at found
    · refine ih (fun inside same => ?_) found
      cases same
      cases started with
      | none => exact grown before.nil_suffix
      | some inside => exact grown (part inside rfl)
    · split at found
      · split at found
        · cases started with
          | none => exact ih (fun _ bad => by cases bad) found
          | some inside =>
            dsimp only at found
            split at found
            · rename_i other made
              cases found
              obtain ⟨object, reads, called⟩ := Option.bind_eq_some_iff.mp made
              refine ⟨inside ++ [c], object, ?_, reads, ?_⟩
              · exact (grown (part inside rfl)).isInfix.trans (List.prefix_append _ _).isInfix
              · unfold callOfObject at called
                split at called
                · rename_i named
                  cases called
                  exact named
                · cases called
            · exact ih (fun _ bad => by cases bad) found
        · refine ih (fun inside same => ?_) found
          obtain ⟨own, rfl, rfl⟩ := Option.map_eq_some_iff.mp same
          exact grown (part own rfl)
      · refine ih (fun inside same => ?_) found
        obtain ⟨own, rfl, rfl⟩ := Option.map_eq_some_iff.mp same
        exact grown (part own rfl)

theorem behindKey_quote {key json rest : Text} (found : behindKey key json = some rest) :
    '"' :: rest <:+: json := by
  unfold behindKey at found
  obtain ⟨idx, -, stripped⟩ := Option.bind_eq_some_iff.mp found
  have shape := stripPrefix_eq_some stripped
  have behind := (List.dropWhile_suffix isWhitespace).trans
    (List.drop_suffix (idx + key.length) json)
  rw [shape] at behind
  exact behind.isInfix

theorem pathValue_begins (last : Option Char) (s : Text) : pathValue last s <+: s := by
  induction s generalizing last with
  | nil => exact List.prefix_rfl
  | cons c s ih =>
    rw [pathValue]
    split
    · exact List.nil_prefix
    · exact List.cons_prefix_cons.mpr ⟨rfl, ih _⟩

/-- What begins behind a quote is quoted. -/
theorem quoted_prefix {w rest json : Text} (quote : '"' :: rest <:+: json) (front : w <+: rest) :
    Quoted w json :=
  ⟨w, (List.cons_prefix_cons.mpr ⟨rfl, front⟩).isInfix.trans quote, Nat.le_refl _,
    fun _ _ member => member⟩

theorem either_some {α : Type} {first second : Option α} {value : α}
    (found : (first <|> second) = some value) : first = some value ∨ second = some value := by
  cases first with
  | none => exact .inr found
  | some other => exact .inl found

/-- A repaired argument is quoted in the text. -/
theorem repairFileWriteJson_quoted {json w : Text} {value : Json}
    (made : repairFileWriteJson json = some value) (inside : HasString w value) :
    Quoted w json := by
  unfold repairFileWriteJson at made
  obtain ⟨path, atPath, made⟩ := Option.bind_eq_some_iff.mp made
  obtain ⟨content, atContent, made⟩ := Option.bind_eq_some_iff.mp made
  obtain ⟨contentValue, ends, made⟩ := Option.bind_eq_some_iff.mp made
  cases made
  have begun : contentValue <+: content := by
    rcases either_some ends with first | later
    · exact beforeLast_prefix first
    · rcases either_some later with second | third
      · exact beforeLast_prefix second
      · exact beforeLast_prefix third
  have fields : Json.insertField "content".toList (.string contentValue)
      (Json.insertField "path".toList (.string (pathValue none path)) []) =
      [("content".toList, .string contentValue),
        ("path".toList, .string (pathValue none path))] := by
    rfl
  rw [fields] at inside
  cases inside with
  | field member inner =>
    rcases List.mem_cons.mp member with same | last
    · cases same
      cases inner
      exact quoted_prefix (behindKey_quote atContent) begun
    · cases List.mem_singleton.mp last
      cases inner
      exact quoted_prefix (behindKey_quote atPath) (pathValue_begins none path)

theorem trim_within (s : Text) : trim s <:+: s := by
  have back : trim s <+: s.dropWhile isWhitespace := by
    rw [trim, ← List.reverse_suffix, List.reverse_reverse]
    exact List.dropWhile_suffix _
  exact back.isInfix.trans (List.dropWhile_suffix _).isInfix

/-- A string of arguments is quoted in a text that is as short as the block. -/
theorem extractArguments_quoted (literal : Literal read) {n : Nat} {block toolName w : Text}
    {value : Json} (short : Short n block)
    (extracted : extractArguments read block toolName = some value) (inside : HasString w value) :
    ∃ s, Short n s ∧ Quoted w s := by
  have none : ¬ HasString w (.object []) := by
    intro bad
    cases bad with
    | field member => cases member
  unfold extractArguments at extracted
  split at extracted
  · rename_i argsStart argsEnd _ _
    obtain ⟨text, cut, made⟩ := Option.bind_eq_some_iff.mp extracted
    have part : trim text <:+: block := by
      refine (trim_within text).trans ?_
      unfold slice at cut
      split at cut
      · cases cut
        exact (List.drop_suffix _ _).isInfix.trans (List.take_prefix _ _).isInfix
      · cases cut
    have here := Bounded.within short part
    dsimp only at made
    split at made
    · rename_i reads
      cases made
      exact ⟨_, here, literal _ _ reads w inside⟩
    · cases made
      cases repaired : tryRepairJson read (trim text) toolName with
      | none =>
        rw [repaired] at inside
        exact absurd inside none
      | some other =>
        rw [repaired, Option.getD_some] at inside
        unfold tryRepairJson at repaired
        split at repaired
        · exact ⟨_, here, repairFileWriteJson_quoted repaired inside⟩
        · refine ⟨_, ?_, literal _ _ repaired w inside⟩
          have once : Short n (replace ",\n\x7d".toList "\n\x7d".toList (trim text)) :=
            here.replace (by decide) (by simp [isBracket]) (by decide) (by decide)
          exact Bounded.replace (by decide) (by simp [isBracket]) (by decide) (by decide) once
  · cases extracted
    exact absurd inside none

/-- A call of a block has arguments that are extracted from it. -/
theorem parseSingleBlock_arguments {block : Text} {call : ToolCall}
    (found : parseSingleBlock read block = some (some call)) :
    ∃ toolName, extractArguments read block toolName = some call.arguments := by
  unfold parseSingleBlock at found
  split at found
  · obtain ⟨name, -, made⟩ := Option.bind_eq_some_iff.mp found
    obtain ⟨arguments, extracted, same⟩ := Option.bind_eq_some_iff.mp made
    cases same
    exact ⟨_, extracted⟩
  · unfold parseCompact at found
    split at found
    · cases found
    · obtain ⟨name, -, made⟩ := Option.bind_eq_some_iff.mp found
      dsimp only at made
      split at made
      · obtain ⟨arguments, extracted, same⟩ := Option.bind_eq_some_iff.mp made
        cases same
        exact ⟨_, extracted⟩
      · cases made

theorem mem_parseBlocks {blocks : List Text} {found : List ToolCall} {call : ToolCall}
    (parsed : parseBlocks read blocks = some found) (member : call ∈ found) :
    ∃ block ∈ blocks, parseSingleBlock read block = some (some call) := by
  obtain ⟨each, made, rfl⟩ := Option.map_eq_some_iff.mp parsed
  clear parsed
  induction blocks generalizing each with
  | nil =>
    cases made
    cases member
  | cons block blocks ih =>
    rw [List.mapM_cons] at made
    obtain ⟨first, own, made⟩ := Option.bind_eq_some_iff.mp made
    obtain ⟨later, others, same⟩ := Option.bind_eq_some_iff.mp made
    cases same
    obtain ⟨other, listed, same⟩ := List.mem_filterMap.mp member
    cases same
    rcases List.mem_cons.mp listed with rfl | inside
    · exact ⟨block, List.mem_cons_self, own⟩
    · obtain ⟨other, there, parsed⟩ :=
        ih later others (List.mem_filterMap.mpr ⟨_, inside, rfl⟩)
      exact ⟨other, List.mem_cons_of_mem _ there, parsed⟩

/-- A call that is found by a bare name has only strings that are shorter than the text is. -/
theorem bareName_shorter (literal : Literal read) {n : Nat} {text : Text} {found : List ToolCall}
    (short : Short n text) (parsed : parseBlocks read ((cutOut nameOpen bareEnd 0 text).map
      fun block => callOpen ++ block ++ callClose) = some found)
    {call : ToolCall} (member : call ∈ found) {w : Text} (inside : HasString w call.arguments)
    (unopened : '<' ∉ w) (unclosed : '>' ∉ w) : w.length < n := by
  obtain ⟨block, listed, single⟩ := mem_parseBlocks parsed member
  obtain ⟨cut, own, rfl⟩ := List.mem_map.mp listed
  obtain ⟨toolName, extracted⟩ := parseSingleBlock_arguments single
  have part : cut <:+: text := cutOut_part own
  have wrapped : Short n (callOpen ++ cut ++ callClose) := by
    have ends : callClose = DevItFormatParser.tag "/tool_call".toList ++ [] := by
      rw [List.append_nil, callClose]
    rw [List.append_assoc, ends, callOpen]
    exact .tag (by decide) (.text_tag (Bounded.within short part) (by decide)
      (.of_unmarked List.not_mem_nil))
  obtain ⟨s, shortS, quoted⟩ := extractArguments_quoted literal wrapped extracted inside
  exact quoted.shorter shortS unopened unclosed

/-- A call that is found as an object has only strings that are shorter than the text is. -/
theorem object_shorter (literal : Literal read) {n : Nat} {text : Text} {call : ToolCall}
    (short : Short n text) (found : tryParseJsonFormat read text = some call) {w : Text}
    (inside : HasString w call.arguments) (unopened : '<' ∉ w) (unclosed : '>' ∉ w) :
    w.length < n := by
  obtain ⟨piece, object, part, reads, arguments⟩ :=
    @scanJson_part read none 0 [] text call (fun _ bad => by cases bad) found
  exact (literal _ _ reads w (hasString_get arguments inside)).shorter
    (Bounded.within short part) unopened unclosed

/-! ## A parameter with the name of a name -/

theorem AtTag.append {front rest : Text} (first : AtTag front) (second : AtTag rest) :
    AtTag (front ++ rest) := by
  cases front with
  | nil => exact second
  | cons c front => exact first

/-- The first parameter with a name, and what stands before it. -/
structure First (name text : Text) (front : Text) (param : Text × Text) (more : Text) : Prop where
  parts : text = front ++ (printParam param ++ more)
  named : param.1 = name
  unopened : '<' ∉ param.2
  before : contains (tag name) front = false
  at_front : AtTag front
  at_more : AtTag more

theorem first_param {name : Text} (key : KeyName name)
    (tagged : ∀ param ∈ params, KeyName param.1 ∧ '<' ∉ param.2)
    (some_param : ∃ param ∈ params, param.1 = name) :
    ∃ front param more, First name (printParams params) front param more := by
  have nothing : AtTag [] := by rintro c ⟨⟩
  induction params with
  | nil =>
    obtain ⟨_, member, -⟩ := some_param
    cases member
  | cons param params ih =>
    obtain ⟨⟨own, unopened⟩, later⟩ := List.forall_mem_cons.mp tagged
    have at_next := atTag_params params nothing
    rw [List.append_nil] at at_next
    by_cases here : param.1 = name
    · exact ⟨[], param, printParams params, rfl, here, unopened, contains_nil (tag_ne_nil name),
        nothing, at_next⟩
    · obtain ⟨other, member, named⟩ := some_param
      have inside : other ∈ params :=
        (List.mem_cons.mp member).resolve_left fun same => here (same ▸ named)
      obtain ⟨front, first, more, parts, firstNamed, firstUnopened, before, at_front, at_more⟩ :=
        ih later ⟨other, inside, named⟩
      refine ⟨printParam param ++ front, first, more, ?_, firstNamed, firstUnopened, ?_, ?_,
        at_more⟩
      · rw [printParams_cons, parts, List.append_assoc]
      · rw [contains_stops (tag_ne_nil name) _ (at_front.stops key.plain), before, Bool.or_false]
        exact contains_param key.plain own unopened (Ne.symm here) key.opening
      · have at_param := atTag_tag param.1 (param.2 ++ DevItFormatParser.tag ('/' :: param.1))
        exact at_param.append at_front

theorem first_glm {name : Text} (key : KeyName name) (tagged : ∀ glm ∈ calls, Tagged glm)
    (tools : ∀ glm ∈ calls, glm.tool ≠ name)
    (some_param : ∃ glm ∈ calls, ∃ param ∈ glm.params, param.1 = name) :
    ∃ front param more, First name (printGlms calls) front param more := by
  induction calls with
  | nil =>
    obtain ⟨_, member, -⟩ := some_param
    cases member
  | cons glm calls ih =>
    obtain ⟨own, later⟩ := List.forall_mem_cons.mp tagged
    obtain ⟨tool, laterTools⟩ := List.forall_mem_cons.mp tools
    have at_next : AtTag (printGlms calls) := by
      cases calls with
      | nil => rintro c ⟨⟩
      | cons next calls =>
        rintro c ⟨⟩
        rfl
    by_cases here : ∃ param ∈ glm.params, param.1 = name
    · obtain ⟨front, param, more, parts, named, unopened, before, at_front, at_more⟩ :=
        first_param key own.params here
      refine ⟨tag glm.tool ++ front, param, more ++ (tag ('/' :: glm.tool) ++ printGlms calls),
        ?_, named, unopened, ?_, (atTag_tag _ _), at_more.append (atTag_tag _ _)⟩
      · rw [printGlms_cons, printGlm, parts]
        simp only [List.append_assoc]
      · rw [contains_tag_append key.plain, before, contains_tag key.plain own.tool.plain tool.symm]
        rfl
    · obtain ⟨other, member, param, inside, named⟩ := some_param
      have rest : other ∈ calls := (List.mem_cons.mp member).resolve_left fun same =>
        here ⟨param, same ▸ inside, named⟩
      obtain ⟨front, first, more, parts, firstNamed, unopened, before, at_front, at_more⟩ :=
        ih later laterTools ⟨other, rest, param, inside, named⟩
      have absent := @contains_glms [glm] name key (by simpa using own) (by simpa using tool)
        (by simpa using fun key value listed same => here ⟨(key, value), listed, same⟩)
      rw [printGlms_cons, printGlms, List.flatMap_nil, List.append_nil] at absent
      refine ⟨printGlm glm ++ front, first, more, ?_, firstNamed, unopened, ?_,
        (atTag_tag _ _).append at_front, at_more⟩
      · rw [printGlms_cons, parts, List.append_assoc]
      · rw [contains_stops (tag_ne_nil name) _ (at_front.stops key.plain), before, absent]
        rfl

theorem cutOut_opening {opening s : Text} {ends : Text → Option Nat} {n : Nat} (some_char : s ≠ [])
    (opens : startsWith opening s = true) (ended : ends s = some n) :
    s.take n ∈ cutOut opening ends 0 s := by
  cases s with
  | nil => exact absurd rfl some_char
  | cons c s =>
    rw [cutOut, if_pos opens, ended]
    exact List.mem_cons_self

/-- A bare name with a closing tag behind it is no block without a call. -/
theorem parseSingleBlock_named {block : Text} (opens : contains nameOpen block = true)
    (closes : contains nameClose block = true) : parseSingleBlock read block ≠ some none := by
  obtain ⟨i, begins⟩ := find_of_contains (tag_ne_nil _) opens
  obtain ⟨j, ends⟩ := find_of_contains (tag_ne_nil _) closes
  intro none
  unfold parseSingleBlock at none
  have begins' : find nameOpen block = some i := begins
  have ends' : find nameClose block = some j := ends
  rw [begins', ends'] at none
  obtain ⟨name, -, made⟩ := Option.bind_eq_some_iff.mp none
  obtain ⟨arguments, -, same⟩ := Option.bind_eq_some_iff.mp made
  cases same

/-- A parameter that is named as the tag of a name is taken for a bare name. -/
theorem bareName_found {text front more : Text} {param : Text × Text}
    (first : First "tool_name".toList text front param more) :
    ∃ block ∈ cutOut nameOpen bareEnd 0 text,
      parseSingleBlock read (callOpen ++ block ++ callClose) ≠ some none := by
  have key : KeyName "tool_name".toList := .of_all (by decide +kernel)
  have plainArguments : PlainName "/arguments".toList := by decide
  have block : printParam param = between "tool_name".toList param.2 := by
    rw [printParam, first.named, between]
  have absent : contains argsClose (printParam param) = false :=
    contains_param plainArguments (by rw [first.named]; exact key) first.unopened
      (by rw [first.named]; decide) (by rw [first.named]; decide)
  have ended : ∃ n, (printParam param).length ≤ n ∧
      bareEnd (printParam param ++ more) = some n := by
    have argued := find_behind absent (first.at_more.stops plainArguments)
    have named := endsAt_between key (absent_of_unopened first.unopened) more
    rw [← block] at named
    have named' : endsAt nameClose (printParam param ++ more) = some (printParam param).length :=
      named
    rw [bareEnd, endsAt]
    rw [argued]
    cases find argsClose more with
    | none => exact ⟨_, Nat.le_refl _, named'⟩
    | some k => exact ⟨k + (printParam param).length + argsClose.length, by omega, rfl⟩
  obtain ⟨n, long, ends⟩ := ended
  have opens : startsWith nameOpen (printParam param ++ more) = true := by
    rw [block, between, List.append_assoc]
    exact startsWith_append nameOpen _
  have inner : printParam param <:+: (printParam param ++ more).take n := by
    rw [List.take_append, List.take_of_length_le long]
    exact (List.prefix_append _ _).isInfix
  refine ⟨(printParam param ++ more).take n, ?_, ?_⟩
  · rw [first.parts]
    have passed := @cutOut_behind nameOpen bareEnd front (printParam param ++ more) first.before
      ((atTag_param param more).stops key.plain)
    rw [passed]
    exact cutOut_opening (List.cons_ne_nil _ _) opens ends
  · have whole : printParam param <:+: callOpen ++ (printParam param ++ more).take n ++ callClose :=
      inner.trans ⟨callOpen, callClose, rfl⟩
    refine parseSingleBlock_named (contains_iff.mpr (List.IsInfix.trans ?_ whole))
      (contains_iff.mpr (List.IsInfix.trans ?_ whole))
    · rw [block]
      exact (List.prefix_append nameOpen _).isInfix
    · rw [block]
      exact ⟨nameOpen ++ param.2, [], by
        rw [List.append_nil, List.append_assoc]
        rfl⟩

theorem parseBlocks_none {blocks : List Text} (parsed : parseBlocks read blocks = some []) :
    ∀ block ∈ blocks, parseSingleBlock read block = some none := by
  obtain ⟨each, made, none⟩ := Option.map_eq_some_iff.mp parsed
  clear parsed
  induction blocks generalizing each with
  | nil => exact fun block member => by cases member
  | cons block blocks ih =>
    rw [List.mapM_cons] at made
    obtain ⟨first, own, made⟩ := Option.bind_eq_some_iff.mp made
    obtain ⟨later, others, same⟩ := Option.bind_eq_some_iff.mp made
    cases same
    cases first with
    | some call =>
      rw [List.filterMap_cons] at none
      cases none
    | none => exact List.forall_mem_cons.mpr ⟨own, ih later others none⟩

/-! ## Fences make values shorter -/

theorem foldl_replace_le (patterns : List Text) (s : Text) :
    (patterns.foldl (fun result pattern => replace pattern [] result) s).length ≤ s.length := by
  induction patterns generalizing s with
  | nil => exact Nat.le_refl _
  | cons pattern patterns ih => exact (ih _).trans (length_replace_le (Nat.zero_le _) s)

theorem foldl_replace_lt {patterns : List Text} {pattern s : Text}
    (filled : ∀ pattern ∈ patterns, pattern ≠ []) (member : pattern ∈ patterns)
    (found : contains pattern s = true) :
    (patterns.foldl (fun result pattern => replace pattern [] result) s).length < s.length := by
  induction patterns generalizing s with
  | nil => cases member
  | cons first patterns ih =>
    obtain ⟨some_char, later⟩ := List.forall_mem_cons.mp filled
    rw [List.foldl_cons]
    by_cases here : contains first s = true
    · exact (foldl_replace_le patterns _).trans_lt (length_replace_lt some_char here)
    · have inside : pattern ∈ patterns :=
        (List.mem_cons.mp member).resolve_left fun same => here (same ▸ found)
      rw [replace_absent (Bool.eq_false_iff.mpr here)]
      exact ih later inside found

theorem length_strip_le (s : Text) : (stripMarkdownBlocks s).length ≤ s.length :=
  foldl_replace_le fences s

theorem strip_subset (s : Text) : stripMarkdownBlocks s ⊆ s := by
  unfold stripMarkdownBlocks
  generalize fences = patterns
  induction patterns generalizing s with
  | nil => exact List.Subset.refl s
  | cons pattern patterns ih =>
    intro c member
    exact (mem_replaceFrom (ih _ member)).resolve_right List.not_mem_nil

theorem length_strip_lt {s : Text} (fenced : contains "```".toList s = true) :
    (stripMarkdownBlocks s).length < s.length :=
  foldl_replace_lt (by decide) (by decide) fenced

/-! ## Calls that are read back -/

theorem exists_longest {values : List Text} (some_value : values ≠ []) :
    ∃ w ∈ values, ∀ value ∈ values, value.length ≤ w.length := by
  induction values with
  | nil => exact absurd rfl some_value
  | cons first values ih =>
    by_cases none : values = []
    · subst none
      exact ⟨first, List.mem_cons_self, by simp⟩
    · obtain ⟨w, member, longest⟩ := ih none
      rcases Nat.le_total first.length w.length with short | long
      · exact ⟨w, List.mem_cons_of_mem _ member, List.forall_mem_cons.mpr ⟨short, longest⟩⟩
      · refine ⟨first, List.mem_cons_self, List.forall_mem_cons.mpr ⟨Nat.le_refl _, ?_⟩⟩
        exact fun value inside => (longest value inside).trans long

theorem call_hasString {glm : GlmCall} (valid : Valid read glm) {param : Text × Text}
    (member : param ∈ glm.params) : HasString param.2 glm.call.arguments :=
  hasString_get (get_argumentsOf valid.distinct member) .here

/-- The value of a parameter that is read back without its fences had none. -/
theorem fenceless_of_read (literal : Literal read) {value : Text}
    (same : valueOf read (stripMarkdownBlocks value) = .string value) :
    contains "```".toList value = false := by
  by_contra fenced
  have shorter := length_strip_lt (Bool.not_eq_false _ ▸ fenced)
  have trimmed := (trim_within (stripMarkdownBlocks value)).length_le
  unfold valueOf at same
  cases reads : read (trim (stripMarkdownBlocks value)) with
  | none =>
    rw [reads, Option.getD_none, Json.string.injEq] at same
    have sizes := congrArg List.length same
    omega
  | some other =>
    rw [reads, Option.getD_some] at same
    obtain ⟨written, inside, long, -⟩ := literal _ _ reads value (same ▸ .here)
    have fits := inside.length_le
    rw [List.length_cons] at fits
    omega

theorem cleaned_tagged {glm : GlmCall} (tagged : Tagged glm) : Tagged (cleaned glm) := by
  refine ⟨tagged.tool, fun param member => ?_⟩
  obtain ⟨own, listed, rfl⟩ := List.mem_map.mp member
  obtain ⟨key, unopened⟩ := tagged.params own listed
  exact ⟨key, fun inside => unopened (strip_subset own.2 inside)⟩

/-- **Only parameters** are read where calls are read back: what is found in another format has
no string as long as the longest value. -/
theorem glm_of_readsBack (literal : Literal read) (valid : ∀ glm ∈ calls, Valid read glm)
    (some_call : calls ≠ []) (back : ReadsBack read calls) :
    parseBlocks read ((cutOut nameOpen bareEnd 0 (printGlms (calls.map cleaned))).map
      fun block => callOpen ++ block ++ callClose) = some [] ∧
    tryParseJsonFormat read (printGlms (calls.map cleaned)) = none ∧
    parseGlmStyle read (printGlms (calls.map cleaned)) = calls.map GlmCall.call := by
  have tagged : ∀ glm ∈ calls, Tagged glm := fun glm member => (valid glm member).tagged
  have taggedC : ∀ glm ∈ calls.map cleaned, Tagged glm :=
    List.forall_mem_map.mpr fun glm member => cleaned_tagged (tagged glm member)
  have knownC : ∀ glm ∈ calls.map cleaned, glm.tool ∈ toolNames :=
    List.forall_mem_map.mpr fun glm member => (valid glm member).known
  have stripped := strip_printed (fun glm member => (tagged glm member).tool)
    fun glm member param inside => ((tagged glm member).params param inside).1
  -- the longest value
  obtain ⟨w, value, longest⟩ : ∃ w ∈ calls.flatMap fun glm => glm.params.map Prod.snd,
      ∀ value ∈ calls.flatMap fun glm => glm.params.map Prod.snd, value.length ≤ w.length := by
    refine exists_longest fun none => ?_
    obtain ⟨glm, member⟩ := List.exists_mem_of_ne_nil calls some_call
    have empty := List.flatMap_eq_nil_iff.mp none glm member
    exact (valid glm member).filled (List.map_eq_nil_iff.mp empty)
  obtain ⟨glm, member, inside⟩ := List.mem_flatMap.mp value
  obtain ⟨param, listed, rfl⟩ := List.mem_map.mp inside
  have written := call_hasString (valid glm member) listed
  have plain := (valid glm member).plain param listed
  have short : Short param.2.length (printGlms (calls.map cleaned)) := by
    refine short_glms taggedC (List.forall_mem_map.mpr fun other there field of_other => ?_)
    obtain ⟨own, here, rfl⟩ := List.mem_map.mp of_other
    exact (length_strip_le own.2).trans (longest own.2
      (List.mem_flatMap.mpr ⟨other, there, List.mem_map_of_mem here⟩))
  have returned : glm.call ∈ calls.map GlmCall.call := List.mem_map_of_mem member
  rw [ReadsBack, parse_unwrapped (by rw [stripped]; exact no_blocks taggedC knownC),
    stripped] at back
  obtain ⟨bare, parsed, same⟩ := Option.map_eq_some_iff.mp back
  cases bare with
  | cons first rest =>
    have found : first :: rest = calls.map GlmCall.call := same
    rw [← found] at returned
    exact absurd (bareName_shorter literal short parsed returned written plain.unopened
      plain.unclosed) (Nat.lt_irrefl _)
  | nil =>
    have others : parseOther read (printGlms (calls.map cleaned)) = calls.map GlmCall.call := same
    refine ⟨parsed, ?_⟩
    unfold parseOther at others
    cases object : tryParseJsonFormat read (printGlms (calls.map cleaned)) with
    | some call =>
      rw [object] at others
      rw [← others] at returned
      cases List.mem_singleton.mp returned
      exact absurd (object_shorter literal short object written plain.unopened plain.unclosed)
        (Nat.lt_irrefl _)
    | none =>
      rw [object] at others
      exact ⟨rfl, others⟩

/-- Calls that are read back are readable. -/
theorem readable_of_readsBack (literal : Literal read) (valid : ∀ glm ∈ calls, Valid read glm)
    (back : ReadsBack read calls) : Readable read calls := by
  by_cases some_call : calls = []
  · subst some_call
    exact ⟨.nil, by simp, by simp, by simp, rfl⟩
  have tagged : ∀ glm ∈ calls, Tagged glm := fun glm member => (valid glm member).tagged
  have taggedC : ∀ glm ∈ calls.map cleaned, Tagged glm :=
    List.forall_mem_map.mpr fun glm member => cleaned_tagged (tagged glm member)
  have knownC : ∀ glm ∈ calls.map cleaned, glm.tool ∈ toolNames :=
    List.forall_mem_map.mpr fun glm member => (valid glm member).known
  have filledC : ∀ glm ∈ calls.map cleaned, glm.params ≠ [] :=
    List.forall_mem_map.mpr fun glm member none =>
      (valid glm member).filled (List.map_eq_nil_iff.mp none)
  obtain ⟨bare, object, glms⟩ := glm_of_readsBack literal valid some_call back
  have ordered : Ordered toolNames GlmCall.tool calls := by
    have sorted := @parseGlmStyle_sorted read (printGlms (calls.map cleaned))
    rw [glms] at sorted
    rw [Ordered, List.pairwise_map] at sorted
    exact sorted
  have other : ∀ glm ∈ calls, ∀ param ∈ glm.params, param.1 ≠ glm.tool := by
    intro glm member param listed same
    have returned : glm.call ∈ parseGlmStyle read (printGlms (calls.map cleaned)) := by
      rw [glms]
      exact List.mem_map_of_mem member
    have absent := parseGlmStyle_other returned
    have present : glm.call.arguments.get param.1 = some (.string param.2) :=
      get_argumentsOf (valid glm member).distinct listed
    rw [same] at present
    cases absent.symm.trans present
  have each : ∀ glm ∈ calls, readGlm read (cleaned glm) = glm.call := by
    have orderedC : Ordered toolNames GlmCall.tool (calls.map cleaned) := by
      rw [Ordered, List.pairwise_map]
      exact ordered
    have otherC : ∀ glm ∈ calls.map cleaned, ∀ param ∈ glm.params, param.1 ≠ glm.tool := by
      refine List.forall_mem_map.mpr fun glm member param listed => ?_
      obtain ⟨own, here, rfl⟩ := List.mem_map.mp listed
      exact other glm member own here
    have reads := @parseGlmStyle_ordered read _ taggedC knownC filledC otherC orderedC
    rw [glms, List.map_map] at reads
    exact List.map_inj_left.mp reads.symm
  have fenceless : ∀ glm ∈ calls, ∀ param ∈ glm.params, contains "```".toList param.2 = false := by
    intro glm member param listed
    have own := each glm member
    have distinctC : ((cleaned glm).params.map Prod.fst).Nodup := by
      rw [cleaned, List.map_map]
      exact (valid glm member).distinct
    have listedC : (param.1, stripMarkdownBlocks param.2) ∈ (cleaned glm).params :=
      List.mem_map_of_mem listed
    have read_back : (readGlm read (cleaned glm)).arguments.get param.1 =
        some (valueOf read (stripMarkdownBlocks param.2)) := get_argumentsOf distinctC listedC
    have meant : glm.call.arguments.get param.1 = some (.string param.2) :=
      get_argumentsOf (valid glm member).distinct listed
    rw [own, meant] at read_back
    exact fenceless_of_read literal (Option.some.inj read_back).symm
  have kept := cleaned_of_fenceless fenceless
  rw [kept] at bare object
  refine ⟨ordered, other, fun glm member param listed named => ?_, fenceless, object⟩
  have key : KeyName "tool_name".toList := .of_all (by decide +kernel)
  have unknown : "tool_name".toList ∉ toolNames := by decide +kernel
  obtain ⟨front, found, more, first⟩ := first_glm key tagged
    (fun other there same => unknown (same ▸ (valid other there).known))
    ⟨glm, member, param, listed, named⟩
  obtain ⟨block, cut, single⟩ := @bareName_found read _ _ _ _ first
  exact single (parseBlocks_none bare _ (List.mem_map_of_mem cut))

/-- **Calls are read back** exactly where they come in the order of the tools, no parameter is
named as its tool or as the tag of a name, and neither a fence nor a call in another format is
in the values. -/
theorem readsBack_iff (literal : Literal read) (valid : ∀ glm ∈ calls, Valid read glm) :
    ReadsBack read calls ↔ Readable read calls :=
  ⟨readable_of_readsBack literal valid, readsBack_of_readable valid⟩

/-- What is valid where the text is no JSON can be looked up. -/
theorem valid_of_plain {glm : GlmCall} (known : glm.tool ∈ toolNames)
    (filled : glm.params ≠ []) (distinct : (glm.params.map Prod.fst).Nodup)
    (plain : (glm.params.all fun param =>
      param.1.all (fun c => decide (c ∉ "<>/`\"\n".toList)) &&
        decide ('<' ∉ param.2 ∧ '>' ∉ param.2 ∧ trim param.2 = param.2)) = true) :
    Valid (fun _ => none) glm := by
  have each : ∀ param ∈ glm.params, KeyName param.1 ∧ PlainValue (fun _ => none) param.2 := by
    intro param member
    have own := List.all_eq_true.mp plain param member
    rw [Bool.and_eq_true, decide_eq_true_eq] at own
    obtain ⟨named, unopened, unclosed, trimmed⟩ := own
    exact ⟨.of_all named, unopened, unclosed, trimmed, rfl⟩
  exact ⟨known, filled, distinct, fun param member => (each param member).1,
    fun param member => (each param member).2⟩

/-- A file is read and then a command is run: the tools stand in this order in the list. -/
theorem read_then_run : ReadsBack (fun _ => none)
    [⟨"file_read".toList, [("path".toList, "main.rs".toList)]⟩,
      ⟨"shell".toList, [("command".toList, "ls -l".toList)]⟩] := by
  have literal : Literal fun _ => none := by
    intro s value reads
    cases reads
  refine (readsBack_iff literal ?_).mpr ⟨?_, ?_, ?_, ?_, ?_⟩
  · refine List.forall_mem_cons.mpr ⟨?_, List.forall_mem_cons.mpr ⟨?_, by simp⟩⟩
    · exact valid_of_plain (by decide +kernel) (by simp) (by simp) (by decide +kernel)
    · exact valid_of_plain (by decide +kernel) (by simp) (by simp) (by decide +kernel)
  · unfold Ordered
    decide +kernel
  · decide +kernel
  · decide +kernel
  · decide +kernel
  · exact Option.isNone_iff_eq_none.mp (by decide +kernel)

/-- A command is run and then a file is read: the calls come back in the other order. -/
theorem run_then_read :
    (∀ glm ∈ [⟨"shell".toList, [("command".toList, "ls -l".toList)]⟩,
      ⟨"file_read".toList, [("path".toList, "main.rs".toList)]⟩], Valid (fun _ => none) glm) ∧
    ¬ ReadsBack (fun _ => none) [⟨"shell".toList, [("command".toList, "ls -l".toList)]⟩,
      ⟨"file_read".toList, [("path".toList, "main.rs".toList)]⟩] := by
  have valid : ∀ glm ∈ [⟨"shell".toList, [("command".toList, "ls -l".toList)]⟩,
      ⟨"file_read".toList, [("path".toList, "main.rs".toList)]⟩], Valid (fun _ => none) glm := by
    refine List.forall_mem_cons.mpr ⟨?_, List.forall_mem_cons.mpr ⟨?_, by simp⟩⟩
    · exact valid_of_plain (by decide +kernel) (by simp) (by simp) (by decide +kernel)
    · exact valid_of_plain (by decide +kernel) (by simp) (by simp) (by decide +kernel)
  have names : (parse (fun _ => none)
      "<shell><command>ls -l</command></shell><file_read><path>main.rs</path></file_read>".toList
      ).map (List.map ToolCall.name) = some ["file_read".toList, "shell".toList] := by
    decide +kernel
  refine ⟨valid, fun back => ?_⟩
  have same := congrArg (Option.map (List.map ToolCall.name)) back
  exact absurd (names.symm.trans same) (by decide +kernel)

end Devit.GlmCalls
