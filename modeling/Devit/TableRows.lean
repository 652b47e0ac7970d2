import Devit.FileExploration
import Devit.Library.Escaping
import Devit.Library.Json

/-! Tables. File entries and matches are written as rows of fields between bars. A bar inside a
field gets a backslash, but a backslash at the end of a field and a newline stay as they are, so
a row may not be read back. -/
namespace Devit
open Text Json

inductive FormatError where
  | internal (component message cause : Text)
  | invalidFormat (format : Text) (supported : List Text)

namespace TableRows

structure FilePermissions where
  readable : Bool
  writable : Bool
  executable : Bool

/-- An entry with all its fields. The time is given in nanoseconds since the epoch. -/
structure FileEntry where
  name : Text
  path : PathBuf
  entryType : FileType
  size : Option UInt64
  modified : Option Int
  permissions : FilePermissions

/-! ## Formats -/

def formatTableValue : Json → Text
  | .string s => replace ['|'] ['\\', '|'] s
  | .bool true => "true".toList
  | .bool false => "false".toList
  | .null => "null".toList
  | .array _ => "[array]".toList
  | .object _ => "[object]".toList
  | number => number.render

def tableRow (headers : List String) (item : Json) : Text :=
  join ['|'] (headers.map fun header => ((item.get header.toList).map formatTableValue).getD [])

def headerLine (headers : List String) : Text := join ['|'] (headers.map String.toList) ++ ['\n']

def jsonToTableFormat (value : Json) (headers : List String) : Except FormatError Text :=
  match value with
  | .array items => .ok (headerLine headers ++ unlines (items.map (tableRow headers)))
  | .object fields => .ok (headerLine headers ++ tableRow headers (.object fields) ++ ['\n'])
  | _ => .error (.invalidFormat "table".toList ["array".toList, "object".toList])

/-! ## File entries -/

def typeName : FileType → String
  | .file => "file"
  | .directory => "directory"
  | .symlink => "symlink"

/-- A `SystemTime` as it is serialized. -/
def timeValue (nanos : Int) : Except Text Json :=
  if nanos < 0 then .error "SystemTime must be later than UNIX_EPOCH".toList
  else
    .ok (ofFields [("secs_since_epoch", .unsigned (UInt64.ofNat (nanos.toNat / 1000000000))),
      ("nanos_since_epoch", .unsigned (UInt64.ofNat (nanos.toNat % 1000000000)))])

def modifiedValue : Option Int → Except Text Json
  | none => .ok .null
  | some nanos => timeValue nanos

def permissionsValue (p : FilePermissions) : Json :=
  ofFields [("readable", .bool p.readable), ("writable", .bool p.writable),
    ("executable", .bool p.executable)]

def FileEntry.fields (entry : FileEntry) (modified : Json) : List (String × Json) :=
  [("name", .string entry.name), ("path", .string entry.path.text),
    ("entry_type", .string (typeName entry.entryType).toList),
    ("size", ofOption (entry.size.map .unsigned)), ("modified", modified),
    ("permissions", permissionsValue entry.permissions)]

/-- `serde_json::to_value`. -/
def FileEntry.toValue (entry : FileEntry) : Except Text Json :=
  (modifiedValue entry.modified).map fun modified => ofFields (entry.fields modified)

def flag (perms : Json) (name : String) (letter : Char) : Char :=
  match perms.get name.toList with
  | some (.bool true) => letter
  | _ => '-'

def permStr (perms : Json) : Text :=
  [flag perms "readable" 'r', flag perms "writable" 'w', flag perms "executable" 'x']

def simplifiedType (entryType : Json) : Text :=
  let name := entryType.asStr.getD "file".toList
  if name = "directory".toList then "dir".toList
  else if name = "symlink".toList then "sym".toList
  else "file".toList

def simplifyPermissions (fields : List (Text × Json)) : List (Text × Json) :=
  match (Json.object fields).get "permissions".toList with
  | some perms => insertField "permissions".toList (.string (permStr perms)) fields
  | none => fields

def simplifyType (fields : List (Text × Json)) : List (Text × Json) :=
  match (Json.object fields).get "entry_type".toList with
  | some entryType =>
    (insertField "type".toList (.string (simplifiedType entryType)) fields).filter
      fun field => field.1 ≠ "entry_type".toList
  | none => fields

def entryHeaders : List String := ["name", "path", "type", "size", "permissions"]

/-- `to_format` of an entry, as a table. -/
def FileEntry.toFormat (entry : FileEntry) : Except FormatError Text :=
  match entry.toValue with
  | .error e => .error (.internal "file_ops".toList ("Value serialization failed: ".toList ++ e) e)
  | .ok (.object fields) =>
    jsonToTableFormat (.object (simplifyType (simplifyPermissions fields))) entryHeaders
  | .ok value => jsonToTableFormat value entryHeaders

def entriesHeader : Text := "name|path|type|size|permissions\n".toList

/-- The line of an entry is the second one of its own table. -/
def pushEntry (result : Text) (entry : FileEntry) : Except FormatError Text := do
  let tableOutput ← entry.toFormat
  match (lines tableOutput)[1]? with
  | some line => .ok (result ++ line ++ ['\n'])
  | none => .ok result

/-- `to_format` of a list of entries. -/
def entriesToFormat (entries : List FileEntry) : Except FormatError Text :=
  if entries = [] then .ok entriesHeader else entries.foldlM pushEntry entriesHeader

/-! ## Search results -/

def searchHeader : Text := "file|line|match|context\n".toList

def contextText (m : SearchMatch) : Text :=
  join [' '] m.contextBefore ++ '|' :: join [' '] m.contextAfter

def matchRow (m : SearchMatch) : Text :=
  replace ['|'] ['\\', '|'] m.file.text ++ '|' :: printNat m.lineNumber ++
    '|' :: replace ['|'] ['\\', '|'] m.line ++ '|' :: replace ['|'] ['\\', '|'] (contextText m)

/-- `to_format` of search results. -/
def resultsToFormat (results : FileExploration.SearchResults) : Text :=
  searchHeader ++ unlines (results.«matches».map matchRow)

/-! ## What an entry shows -/

def typeText : FileType → String
  | .file => "file"
  | .directory => "dir"
  | .symlink => "sym"

def sizeText : Option UInt64 → Text
  | none => "null".toList
  | some n => printNat n.toNat

def permText (p : FilePermissions) : Text :=
  [if p.readable then 'r' else '-', if p.writable then 'w' else '-',
    if p.executable then 'x' else '-']

/-- What an entry shows under each header. -/
def FileEntry.values (entry : FileEntry) : List Text :=
  [entry.name, entry.path.text, (typeText entry.entryType).toList, sizeText entry.size,
    permText entry.permissions]

variable {entry : FileEntry} {entries : List FileEntry}

theorem get_insertField (key other : Text) (value : Json) (fields : List (Text × Json)) :
    (Json.object (insertField key value fields)).get other =
      if other = key then some value else (Json.object fields).get other := by
  rw [Json.get, find_insertField]
  split <;> rfl

theorem get_removed {key other : Text} (apart : other ≠ key) (fields : List (Text × Json)) :
    (Json.object (fields.filter fun field => field.1 ≠ key)).get other =
      (Json.object fields).get other := by
  rw [Json.get, Json.get, List.find?_filter]
  refine congrArg (Option.map Prod.snd) (congrArg (List.find? · fields) (funext fun field => ?_))
  by_cases here : field.1 = other
  · simp [here, apart]
  · simp [here]

/-- The fields of an entry that is simplified. -/
theorem simplified_get (modified : Json) {fields : List (Text × Json)}
    (written : ofFields (entry.fields modified) = .object fields) {key : Text}
    (other : key ≠ "entry_type".toList) :
    (Json.object (simplifyType (simplifyPermissions fields))).get key =
      if key = "type".toList then some (.string (typeText entry.entryType).toList)
      else if key = "permissions".toList then
        some (.string (permStr (permissionsValue entry.permissions)))
      else ((entry.fields modified).reverse.find? (·.1.toList == key)).map Prod.snd := by
  have found : ∀ key, (Json.object fields).get key =
      ((entry.fields modified).reverse.find? (·.1.toList == key)).map Prod.snd := by
    intro key
    rw [← written, get_ofFields]
  have perms : simplifyPermissions fields = insertField "permissions".toList
      (.string (permStr (permissionsValue entry.permissions))) fields := by
    simp [simplifyPermissions, found, FileEntry.fields]
  have kind : (Json.object (simplifyPermissions fields)).get "entry_type".toList =
      some (.string (typeName entry.entryType).toList) := by
    simp [perms, get_insertField, found, FileEntry.fields]
  have simpler : simplifiedType (.string (typeName entry.entryType).toList) =
      (typeText entry.entryType).toList := by
    cases entry.entryType <;> rfl
  rw [simplifyType, kind]
  dsimp only
  rw [get_removed other, get_insertField, simpler, perms, get_insertField, found]

theorem formatTableValue_string (s : Text) :
    formatTableValue (.string s) = escapeSeparators '\\' '|' s := replace_eq_escape s

theorem formatTableValue_size : formatTableValue (ofOption (entry.size.map .unsigned)) =
    sizeText entry.size := by
  cases entry.size <;> rfl

theorem permStr_eq (p : FilePermissions) : permStr (permissionsValue p) = permText p := by
  obtain ⟨readable, writable, executable⟩ := p
  cases readable <;> cases writable <;> cases executable <;> decide +kernel

/-- The row of an entry that is simplified: what it shows under each header, escaped. -/
theorem tableRow_entry (modified : Json) {fields : List (Text × Json)}
    (written : ofFields (entry.fields modified) = .object fields) :
    tableRow entryHeaders (.object (simplifyType (simplifyPermissions fields))) =
      joinFields '\\' '|' entry.values := by
  have shown := @simplified_get entry modified fields written
  have name : (Json.object (simplifyType (simplifyPermissions fields))).get "name".toList =
      some (.string entry.name) := by
    rw [shown (by decide), if_neg (by decide), if_neg (by decide)]
    simp [FileEntry.fields]
  have path : (Json.object (simplifyType (simplifyPermissions fields))).get "path".toList =
      some (.string entry.path.text) := by
    rw [shown (by decide), if_neg (by decide), if_neg (by decide)]
    simp [FileEntry.fields]
  have type : (Json.object (simplifyType (simplifyPermissions fields))).get "type".toList =
      some (.string (typeText entry.entryType).toList) := by
    rw [shown (by decide), if_pos rfl]
  have size : (Json.object (simplifyType (simplifyPermissions fields))).get "size".toList =
      some (ofOption (entry.size.map .unsigned)) := by
    rw [shown (by decide), if_neg (by decide), if_neg (by decide)]
    simp [FileEntry.fields]
  have permissions :
      (Json.object (simplifyType (simplifyPermissions fields))).get "permissions".toList =
        some (.string (permText entry.permissions)) := by
    rw [shown (by decide), if_neg (by decide), if_pos rfl, permStr_eq]
  have typed : escapeSeparators '\\' '|' (typeText entry.entryType).toList =
      (typeText entry.entryType).toList := by
    cases entry.entryType <;> rfl
  have sized : escapeSeparators '\\' '|' (sizeText entry.size) = sizeText entry.size := by
    refine escape_absent fun bar => ?_
    cases size : entry.size with
    | none =>
      rw [size] at bar
      exact absurd bar (by decide)
    | some n =>
      rw [size] at bar
      exact absurd (printNat_isDigit bar) (by decide)
  rw [tableRow, entryHeaders, joinFields, FileEntry.values]
  simp only [List.map_cons, List.map_nil]
  rw [name, path, type, size, permissions, sized]
  simp only [Option.map_some, Option.getD_some, formatTableValue_string, formatTableValue_size]

/-- The row of an entry. -/
def FileEntry.row (entry : FileEntry) : Text := joinFields '\\' '|' entry.values

theorem toFormat_eq : entry.toFormat = match modifiedValue entry.modified with
    | .error e =>
      .error (.internal "file_ops".toList ("Value serialization failed: ".toList ++ e) e)
    | .ok _ => .ok (headerLine entryHeaders ++ entry.row ++ ['\n']) := by
  unfold FileEntry.toFormat FileEntry.toValue
  cases modifiedValue entry.modified with
  | error e => rfl
  | ok modified =>
    have written : ofFields (entry.fields modified) = .object _ := rfl
    rw [FileEntry.row, ← tableRow_entry modified written]
    rfl

/-- The line that the table of a list has for an entry: a row ends at its first newline. -/
def FileEntry.line (entry : FileEntry) : Text := chopCr (entry.row.takeWhile (· ≠ '\n'))

theorem lines_cons {line : Text} (rest : Text) (clean : '\n' ∉ line) :
    lines (line ++ '\n' :: rest) = chopCr line :: lines rest := by
  rw [lines, splitInclusive_line rest clean, List.map_cons, chopLine, stripLast_append]
  rfl

theorem not_mem_takeWhile (s : Text) : '\n' ∉ s.takeWhile (· ≠ '\n') := by
  intro member
  have other := List.mem_takeWhile_imp member
  exact absurd rfl (of_decide_eq_true other)

theorem lines_takeWhile (s : Text) :
    ∃ rest, lines (s ++ ['\n']) = chopCr (s.takeWhile (· ≠ '\n')) :: lines rest := by
  have whole := List.takeWhile_append_dropWhile (p := (· ≠ '\n')) (l := s)
  cases behind : s.dropWhile (· ≠ '\n') with
  | nil =>
    rw [behind, List.append_nil] at whole
    refine ⟨[], ?_⟩
    rw [← lines_cons [] (not_mem_takeWhile s), whole]
  | cons c rest =>
    have newline : c = '\n' := by
      have stopped := List.head?_dropWhile_not (· ≠ '\n') s
      rw [behind] at stopped
      simpa using stopped
    rw [behind, newline] at whole
    refine ⟨rest ++ ['\n'], ?_⟩
    rw [← lines_cons _ (not_mem_takeWhile s), ← List.cons_append, ← List.append_assoc, whole]

/-- The time of the entry can be serialized. -/
def FileEntry.Dated (entry : FileEntry) : Prop := ∀ nanos ∈ entry.modified, 0 ≤ nanos

theorem dated_iff : entry.Dated ↔ ∃ modified, modifiedValue entry.modified = .ok modified := by
  unfold FileEntry.Dated
  cases entry.modified with
  | none => exact iff_of_true (fun nanos given => nomatch given) ⟨_, rfl⟩
  | some nanos =>
    rw [modifiedValue, timeValue]
    split
    · rename_i early
      refine iff_of_false (fun dated => absurd (dated nanos rfl) (Int.not_le.mpr early)) ?_
      rintro ⟨modified, ⟨⟩⟩
    · rename_i late
      refine iff_of_true (fun other given => ?_) ⟨_, rfl⟩
      cases given
      exact Int.not_lt.mp late

theorem pushEntry_dated (result : Text) (dated : entry.Dated) :
    pushEntry result entry = .ok (result ++ entry.line ++ ['\n']) := by
  obtain ⟨modified, serialized⟩ := dated_iff.mp dated
  have clean : '\n' ∉ "name|path|type|size|permissions".toList := by decide
  have header : headerLine entryHeaders = "name|path|type|size|permissions".toList ++ ['\n'] := by
    decide +kernel
  obtain ⟨rest, read⟩ := lines_takeWhile entry.row
  rw [pushEntry, toFormat_eq, serialized, header, List.append_assoc, List.append_assoc]
  dsimp only
  rw [List.singleton_append]
  change (match (lines _)[1]? with | some line => _ | none => _) = _
  rw [lines_cons _ clean, read]
  rfl

/-- **A table of entries.** Each entry adds its line; a time before the epoch fails it all. -/
theorem foldlM_dated (result : Text) (dated : ∀ entry ∈ entries, entry.Dated) :
    entries.foldlM pushEntry result =
      .ok (result ++ unlines (entries.map FileEntry.line)) := by
  induction entries generalizing result with
  | nil => exact congrArg Except.ok (List.append_nil result).symm
  | cons entry entries ih =>
    obtain ⟨first, later⟩ := List.forall_mem_cons.mp dated
    rw [List.foldlM_cons, pushEntry_dated result first]
    refine (ih _ later).trans (congrArg Except.ok ?_)
    rw [unlines, unlines, List.map_cons, List.flatMap_cons, List.append_assoc, List.append_assoc,
      List.append_assoc]

theorem foldlM_undated (result : Text) (undated : ¬ ∀ entry ∈ entries, entry.Dated) :
    ∃ e, entries.foldlM pushEntry result = .error e := by
  induction entries generalizing result with
  | nil => exact absurd (fun entry member => absurd member List.not_mem_nil) undated
  | cons entry entries ih =>
    rw [List.foldlM_cons]
    by_cases first : entry.Dated
    · rw [pushEntry_dated result first]
      exact ih _ fun later => undated (List.forall_mem_cons.mpr ⟨first, later⟩)
    · rw [pushEntry, toFormat_eq]
      cases serialized : modifiedValue entry.modified with
      | error e => exact ⟨_, rfl⟩
      | ok modified => exact absurd (dated_iff.mpr ⟨modified, serialized⟩) first

theorem entriesToFormat_eq_ok {table : Text} : entriesToFormat entries = .ok table ↔
    (∀ entry ∈ entries, entry.Dated) ∧
      table = entriesHeader ++ unlines (entries.map FileEntry.line) := by
  have folded : entriesToFormat entries = entries.foldlM pushEntry entriesHeader := by
    unfold entriesToFormat
    split
    · rename_i empty
      rw [empty]
      rfl
    · rfl
  rw [folded]
  by_cases dated : ∀ entry ∈ entries, entry.Dated
  · rw [foldlM_dated entriesHeader dated]
    exact ⟨fun same => ⟨dated, (Except.ok.inj same).symm⟩, fun both => congrArg _ both.2.symm⟩
  · obtain ⟨e, failed⟩ := foldlM_undated entriesHeader dated
    rw [failed]
    exact iff_of_false (fun same => nomatch same) fun both => dated both.1

/-! ## Matches -/

def searchHeaders : List String := ["file", "line", "match", "context"]

/-- What a match shows under each header. -/
def searchValues (m : SearchMatch) : List Text :=
  [m.file.text, printNat m.lineNumber, m.line, contextText m]

theorem matchRow_eq (m : SearchMatch) : matchRow m = joinFields '\\' '|' (searchValues m) := by
  have number : escapeSeparators '\\' '|' (printNat m.lineNumber) = printNat m.lineNumber :=
    escape_absent fun bar => absurd (printNat_isDigit bar) (by decide)
  rw [matchRow, searchValues, joinFields]
  simp only [List.map_cons, List.map_nil, join, replace_eq_escape, number, List.append_assoc,
    List.nil_append, List.cons_append]

end TableRows

end Devit
