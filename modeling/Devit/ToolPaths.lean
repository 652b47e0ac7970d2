import Devit.FileSystemContext

/-! The tools that start a program on a path of their own: the archiver, the database
client and cargo. Each joins its path string to the sandbox root and looks at nothing
but whether it exists, where the file tools ask the context they all share. -/
namespace Devit
open Text Path FileSystem FileSystemContext
open Files (Loc Errno)

/-- A program with its arguments, up to the start of which a call is modelled. -/
structure Command where
  program : String
  args : List Text
  currentDir : Option PathBuf
  envs : List (String × String)
  deriving DecidableEq

structure ArchiveParams where
  action : Text
  path : Text
  target : Option Text
  files : Option (List Text)
  format : Option Text

structure DbQueryParams where
  query : Text
  dbType : Text
  db : Text
  maxRows : Option UInt32

structure CargoParams where
  subcommand : Text
  package : Option Text
  release : Bool
  features : Option Text
  allTargets : Bool
  args : Option Text
  workingDir : Option Text

namespace ToolPaths

section
variable (env : ToolEnvironment)

/-- `Command::output` up to the start of the program. -/
def start (d : Disk) (command : Command) : Except Text Command :=
  if command.args.any (Char.ofNat 0 ∈ ·) then .error "nul byte found in provided data".toList
  else if (command.currentDir.map (presentDir d)).getD true = false then
    .error (env.describe .notDirectory)
  else if env.installed command.program = false then .error (env.describe .notFound)
  else .ok command

/-- The start of a program, with what the tool says where it fails. -/
def launch (failed : String) (d : Disk) (command : Command) : Except McpError Command :=
  match start env d command with
  | .error e => .error (.executionFailed (failed.toList ++ e))
  | .ok command => .ok command

variable (ctx : FileSystemContext)

/-! ## ArchiveTool -/

def resolve (path : Text) : PathBuf := pathJoin ctx.rootPath ⟨path⟩

def endsWith (suffix : String) (s : Text) : Bool := (stripSuffix suffix.toList s).isSome

def detectFormat (path : Text) : Text :=
  if endsWith ".tar.gz" path || endsWith ".tgz" path then "tar.gz".toList
  else if endsWith ".tar.bz2" path || endsWith ".tbz2" path then "tar.bz2".toList
  else if endsWith ".tar.xz" path || endsWith ".txz" path then "tar.xz".toList
  else if endsWith ".tar" path then "tar".toList
  else if endsWith ".zip" path then "zip".toList
  else "tar.gz".toList

def formatOf (params : ArchiveParams) : Text := params.format.getD (detectFormat params.path)

/-- The flags of `tar`, for what it is to do. -/
def tarFlag (mode : Char) (fmt : Text) : Text :=
  if fmt = "tar.gz".toList ∨ fmt = "tgz".toList then [mode, 'z', 'f']
  else if fmt = "tar.bz2".toList ∨ fmt = "tbz2".toList then [mode, 'j', 'f']
  else if fmt = "tar.xz".toList ∨ fmt = "txz".toList then [mode, 'J', 'f']
  else if fmt = "tar".toList then [mode, 'f']
  else [mode, 'z', 'f']

def targetOf (params : ArchiveParams) : PathBuf :=
  match params.target with
  | none => ctx.rootPath
  | some target => resolve ctx target

def extractCommand (params : ArchiveParams) : Command :=
  let archivePath := resolve ctx params.path
  let target := targetOf ctx params
  if formatOf params = "zip".toList then
    ⟨"unzip", ["-o".toList, archivePath.text, "-d".toList, target.text], none, []⟩
  else
    ⟨"tar", [tarFlag 'x' (formatOf params), archivePath.text, "-C".toList, target.text], none, []⟩

def createCommand (params : ArchiveParams) (files : List Text) : Command :=
  let archivePath := resolve ctx params.path
  if formatOf params = "zip".toList then
    ⟨"zip", "-r".toList :: archivePath.text :: files, some ctx.rootPath, []⟩
  else ⟨"tar", tarFlag 'c' (formatOf params) :: archivePath.text :: files, some ctx.rootPath, []⟩

def listCommand (params : ArchiveParams) : Command :=
  let archivePath := resolve ctx params.path
  if formatOf params = "zip".toList then ⟨"unzip", ["-l".toList, archivePath.text], none, []⟩
  else ⟨"tar", [tarFlag 't' (formatOf params), archivePath.text], none, []⟩

def actionExtract (params : ArchiveParams) (d : Disk) : Except McpError Command × Disk :=
  if present d (resolve ctx params.path) = false then
    (.error (.invalidRequest ("Archive not found: ".toList ++ (resolve ctx params.path).text)), d)
  else
    match makeDirs (targetOf ctx params) d with
    | (.error e, d') =>
      (.error (.executionFailed ("Cannot create target dir: ".toList ++ env.describe e)), d')
    | (.ok (), d') =>
      (launch env "Extract command failed: " d' (extractCommand ctx params), d')

/-- The directories above the archive are made first. -/
def prepareArchive (archivePath : PathBuf) (d : Disk) : Except Errno Unit × Disk :=
  match parent archivePath with
  | none => (.ok (), d)
  | some above => makeDirs above d

def actionCreate (params : ArchiveParams) (d : Disk) : Except McpError Command × Disk :=
  match params.files with
  | none => (.error (.invalidRequest "'files' is required for create action".toList), d)
  | some [] => (.error (.invalidRequest "'files' cannot be empty".toList), d)
  | some files =>
    match prepareArchive (resolve ctx params.path) d with
    | (.error e, d') =>
      (.error (.executionFailed ("Cannot create parent dir: ".toList ++ env.describe e)), d')
    | (.ok (), d') =>
      (launch env "Create command failed: " d' (createCommand ctx params files), d')

def actionList (params : ArchiveParams) (d : Disk) : Except McpError Command × Disk :=
  if present d (resolve ctx params.path) = false then
    (.error (.invalidRequest ("Archive not found: ".toList ++ (resolve ctx params.path).text)), d)
  else (launch env "List command failed: " d (listCommand ctx params), d)

def executeArchive (params : ArchiveParams) (d : Disk) : Except McpError Command × Disk :=
  if params.action = "extract".toList then actionExtract env ctx params d
  else if params.action = "create".toList then actionCreate env ctx params d
  else if params.action = "list".toList then actionList env ctx params d
  else
    (.error (.invalidRequest ("Unknown action '".toList ++ params.action ++
      "'. Valid: extract, create, list".toList)), d)

/-! ## DbQueryTool -/

def maxRowsLimit : UInt32 := 500

def limitedQuery (query : Text) (maxRows : UInt32) : Text :=
  if contains "limit".toList (env.lowercase query) then query
  else (query.reverse.dropWhile (· == ';')).reverse ++ " LIMIT ".toList ++ printNat maxRows.toNat

/-- The most rows of a query. -/
def rowsOf (params : DbQueryParams) : UInt32 := min (params.maxRows.getD maxRowsLimit) maxRowsLimit

def sqliteCommand (params : DbQueryParams) : Command :=
  ⟨"sqlite3", ["-json".toList, (pathJoin ctx.rootPath ⟨params.db⟩).text,
    limitedQuery env params.query (rowsOf params)], none, []⟩

def postgresCommand (params : DbQueryParams) : Command :=
  ⟨"psql", [params.db, "-c".toList, limitedQuery env params.query (rowsOf params),
    "--no-align".toList, "--tuples-only".toList, "--csv".toList], none,
    [("PGCONNECT_TIMEOUT", "5")]⟩

def querySqlite (params : DbQueryParams) (d : Disk) : Except McpError Command :=
  if present d (pathJoin ctx.rootPath ⟨params.db⟩) = false then
    .error (.invalidRequest ("SQLite database not found: ".toList ++
      (pathJoin ctx.rootPath ⟨params.db⟩).text))
  else launch env "sqlite3 not found. Install sqlite3: " d (sqliteCommand env ctx params)

def queryPostgres (params : DbQueryParams) (d : Disk) : Except McpError Command :=
  launch env "psql not found. Install postgresql-client: " d (postgresCommand env params)

def executeDbQuery (params : DbQueryParams) (d : Disk) : Except McpError Command :=
  if params.dbType = "sqlite".toList then querySqlite env ctx params d
  else if params.dbType = "postgres".toList then queryPostgres env params d
  else
    .error (.invalidRequest ("Unknown db_type '".toList ++ params.dbType ++
      "'. Valid: sqlite, postgres".toList))

/-! ## CargoTool -/

def jsonSubcommands : List Text := ["build".toList, "check".toList, "clippy".toList]

def resolveWorkingDir (d : Disk) : Option Text → PathBuf
  | none => ctx.rootPath
  | some dir =>
    let candidate := pathJoin ctx.rootPath ⟨dir⟩
    if presentDir d candidate then candidate else ctx.rootPath

def buildArgs (params : CargoParams) : List Text :=
  [params.subcommand] ++
    (match params.package with
      | none => []
      | some package => ["-p".toList, package]) ++
    (if params.release then ["--release".toList] else []) ++
    (match params.features with
      | none => []
      | some features => ["--features".toList, features]) ++
    (if params.allTargets then ["--all-targets".toList] else []) ++
    (if params.subcommand ∈ jsonSubcommands then ["--message-format=json".toList] else []) ++
    (match params.args with
      | none => []
      | some extra => splitWhitespace extra)

def cargoCommand (params : CargoParams) (cwd : PathBuf) : Command :=
  ⟨"cargo", buildArgs params, some cwd, [("CARGO_TERM_COLOR", "never")]⟩

def validSubcommands : List Text :=
  ["build".toList, "check".toList, "test".toList, "clippy".toList, "fmt".toList, "doc".toList,
    "run".toList, "bench".toList]

def executeCargo (params : CargoParams) (d : Disk) : Except McpError Command :=
  if params.subcommand ∉ validSubcommands then
    .error (.invalidRequest ("Unknown subcommand '".toList ++ params.subcommand ++
      "'. Valid: ".toList ++ join ", ".toList validSubcommands))
  else
    launch env "Failed to spawn cargo: " d
      (cargoCommand params (resolveWorkingDir ctx d params.workingDir))

end

/-! ## Calls of the tools -/

/-- A call of a tool that starts a program on a path. -/
inductive ToolCall where
  | archive (params : ArchiveParams)
  | dbQuery (params : DbQueryParams)
  | cargo (params : CargoParams)

/-- The program that a call starts, if it gets that far. -/
def execute (env : ToolEnvironment) (ctx : FileSystemContext) :
    ToolCall → Disk → Except McpError Command × Disk
  | .archive params, d => executeArchive env ctx params d
  | .dbQuery params, d => (executeDbQuery env ctx params d, d)
  | .cargo params, d => (executeCargo env ctx params d, d)

/-- The members of an archive to make; what starts with `-` is an option. -/
def members (params : ArchiveParams) : List Text :=
  (params.files.getD []).filter fun file => !startsWith ['-'] file

/-- The strings by which a call names the locations it works on. -/
def paths : ToolCall → List Text
  | .archive params =>
    if params.action = "extract".toList then params.path :: params.target.toList
    else if params.action = "create".toList then params.path :: members params
    else [params.path]
  | .dbQuery params => if params.dbType = "sqlite".toList then [params.db] else []
  | .cargo params => params.workingDir.toList

/-- The location that an argument names to a program. -/
def argPath (command : Command) (arg : Text) : PathBuf :=
  pathJoin (command.currentDir.getD ⟨[]⟩) ⟨arg⟩

/-- A program opens what its arguments name, and cargo runs in its current directory. -/
def WorksOn (call : ToolCall) (command : Command) (p : PathBuf) : Prop :=
  match call with
  | .cargo _ => command.currentDir = some p
  | _ => ∃ arg ∈ command.args, argPath command arg = p

/-- The call opens, or runs in, the location that one of its strings names. -/
def Touches (env : ToolEnvironment) (ctx : FileSystemContext) (d : Disk) (call : ToolCall)
    (s : Text) : Prop :=
  s ∈ paths call ∧ taken (resolve ctx s) = true ∧
    ∃ command, (execute env ctx call d).1 = .ok command ∧ WorksOn call command (resolve ctx s)

/-- The call works on no location that the context refuses. -/
def Contained (env : ToolEnvironment) (ctx : FileSystemContext) (d : Disk) (call : ToolCall) :
    Prop :=
  ∀ s, Touches env ctx d call s → Accepts env d ctx s

section
variable (env : ToolEnvironment) (ctx : FileSystemContext) (d : Disk)

/-- The archive is there and the target can be made. -/
def ExtractStarts (params : ArchiveParams) : Prop :=
  present d (resolve ctx params.path) = true ∧
    ∃ d', makeDirs (targetOf ctx params) d = (.ok (), d') ∧
      (start env d' (extractCommand ctx params)).isOk = true

/-- There are files, and the directory of the archive can be made. -/
def CreateStarts (params : ArchiveParams) : Prop :=
  ∃ files, params.files = some files ∧ files ≠ [] ∧
    ∃ d', prepareArchive (resolve ctx params.path) d = (.ok (), d') ∧
      (start env d' (createCommand ctx params files)).isOk = true

def ListStarts (params : ArchiveParams) : Prop :=
  present d (resolve ctx params.path) = true ∧ (start env d (listCommand ctx params)).isOk = true

/-- The program gets started on the locations that the call names. -/
def Starts : ToolCall → Prop
  | .archive params =>
    params.action = "extract".toList ∧ ExtractStarts env ctx d params ∨
      params.action = "create".toList ∧ CreateStarts env ctx d params ∨
        params.action = "list".toList ∧ ListStarts env ctx d params
  | .dbQuery params =>
    present d (resolve ctx params.db) = true ∧
      (start env d (sqliteCommand env ctx params)).isOk = true
  | .cargo params =>
    params.subcommand ∈ validSubcommands ∧ ∃ dir, params.workingDir = some dir ∧
      presentDir d (resolve ctx dir) = true ∧
        (start env d (cargoCommand params (resolve ctx dir))).isOk = true

end

variable {env : ToolEnvironment} {ctx : FileSystemContext} {d : Disk} {command : Command}

/-! ## How far a call gets -/

/-- A process with all programs installed. -/
def plainEnvironment : ToolEnvironment :=
  ⟨⟨"/tmp".toList⟩, [], fun _ => [], fun _ => true, id⟩

def sandboxContext : FileSystemContext := ⟨⟨"/s".toList⟩, []⟩

end ToolPaths

end Devit
