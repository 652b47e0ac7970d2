import Devit.CoreEngine
import Devit.Library.Canonical
import Devit.Library.SystemPaths
import Devit.SnapshotIds

/-! Listing, searching and outlining the files of a project: three walks that go into
every directory they meet under a path that passed the checks. Each keeps a trail of the
directories it goes into and the entries it reports or reads. -/
namespace Devit
open Text Path FileSystem
open Files (Loc Errno Node entry)
open SnapshotIds (textLe)

/-- What listing the directories of a tree gives: the names of their entries, each once,
in an order of the system's own. -/
structure Catalog (d : Disk) where
  names : Loc Text → List Text
  nodup : ∀ loc, (names loc).Nodup
  plain : ∀ loc, ∀ name ∈ names loc, PlainName name
  complete : ∀ loc name, entry d.tree loc = some .dir →
    (name ∈ names loc ↔ d.tree (loc ++ [name]) ≠ none)

/-- `fs::read_dir`, by the names of its entries. -/
def readDir {d : Disk} (c : Catalog d) (p : PathBuf) : Except Errno (List Text) :=
  if taken p then
    match lookup d true p with
    | .error e => .error e
    | .ok place =>
      match entry d.tree place.loc with
      | some .dir => .ok (c.names place.loc)
      | some _ => .error .notDirectory
      | none => .error .notFound
  else .error .invalidInput

/-- The crates that the walks use: a lexical normal form of paths, `str::to_lowercase`,
and regular expressions with the message of one that does not compile. -/
structure ExplorationCrates where
  clean : PathBuf → PathBuf
  lowercase : Text → Text
  compile : Text → Except Text (Text → Bool)

/-- The directories a walk goes into, and the entries it reports or reads. -/
structure Trail where
  visited : List PathBuf
  files : List PathBuf

namespace Trail

def empty : Trail := ⟨[], []⟩

def enter (trail : Trail) (p : PathBuf) : Trail := { trail with visited := trail.visited ++ [p] }

def report (trail : Trail) (p : PathBuf) : Trail := { trail with files := trail.files ++ [p] }

@[simp] theorem enter_visited (trail : Trail) (p : PathBuf) :
    (trail.enter p).visited = trail.visited ++ [p] := rfl

@[simp] theorem enter_files (trail : Trail) (p : PathBuf) :
    (trail.enter p).files = trail.files := rfl

@[simp] theorem report_visited (trail : Trail) (p : PathBuf) :
    (trail.report p).visited = trail.visited := rfl

@[simp] theorem report_files (trail : Trail) (p : PathBuf) :
    (trail.report p).files = trail.files ++ [p] := rfl

end Trail

inductive FileType where
  | file
  | directory
  | symlink
  deriving DecidableEq, Repr

structure FileEntry where
  name : Text
  path : PathBuf
  entryType : FileType
  size : Option Nat

structure SearchMatch where
  file : PathBuf
  lineNumber : Nat
  line : Text
  contextBefore : List Text
  contextAfter : List Text

inductive TreeNode where
  | mk (name : Text) (path : PathBuf) (nodeType : FileType) (size : Option Nat)
      (children : Option (List TreeNode))

namespace FileExploration

/-- A walk: it may fail, and where its fuel ends it has not come to a result. -/
abbrev Explore := ExceptT DevItError Option

theorem settled_bind {α β : Type} (x : α) (next : α → Explore β) :
    (ExceptT.mk (some (.ok x)) : Explore α) >>= next = next x := rfl

theorem failed_bind {α β : Type} (e : DevItError) (next : α → Explore β) :
    (ExceptT.mk (some (.error e)) : Explore α) >>= next = ExceptT.mk (some (.error e)) := rfl

def maxSearchResults : Nat := 100

def maxTreeDepth : UInt8 := 10

/-- The length of a file in bytes. -/
def contentSize : Content → Nat
  | .utf8 text => PathSecurityContext.byteLength text
  | .raw bytes => bytes.length

def nodeType : Node Text Content → FileType
  | .dir => .directory
  | .link _ => .symlink
  | .file _ => .file

def nodeSize : Node Text Content → Option Nat
  | .file content => some (contentSize content)
  | _ => none

def entryName (path : PathBuf) : Text := (fileName path).getD path.text

def ignoredParts : List Text :=
  ["/.git/".toList, "/target/".toList, "/node_modules/".toList, "/.devit/".toList]

def shouldIncludePath (path : PathBuf) : Bool :=
  !(ignoredParts.any fun part => contains part path.text) &&
    match fileName path with
    | none => true
    | some name =>
      !(startsWith ['.'] name && name != ".gitignore".toList && name != ".gitkeep".toList)

section
variable {d : Disk} (c : Catalog d)

/-! ## file_list -/

structure EntryList where
  entries : List FileEntry
  trail : Trail

def createFileEntry (d : Disk) (path : PathBuf) : DevItResult FileEntry :=
  match metadata d path with
  | .error e => .error (.io "read file metadata".toList (some path) e)
  | .ok node => .ok ⟨entryName path, path, nodeType node, nodeSize node⟩

/-- One entry of a directory: what cannot be looked at is left out. -/
def collectEntry (d : Disk) (dirPath : PathBuf) (s : EntryList) (name : Text) : EntryList :=
  let entryPath := pathJoin dirPath ⟨name⟩
  if shouldIncludePath entryPath then
    match createFileEntry d entryPath with
    | .error _ => s
    | .ok fileEntry => ⟨s.entries ++ [fileEntry], s.trail.report entryPath⟩
  else s

def collectEntriesSingle (dirPath : PathBuf) (s : EntryList) : DevItResult EntryList :=
  match readDir c dirPath with
  | .error e => .error (.io "read directory".toList (some dirPath) e)
  | .ok names =>
    .ok (names.foldl (collectEntry d dirPath) { s with trail := s.trail.enter dirPath })

/-- The second look at an entry of a directory, which goes into it if it is one. -/
def collectSubdir (d : Disk) (into : PathBuf → EntryList → Explore EntryList) (dirPath : PathBuf)
    (s : EntryList) (name : Text) : Explore EntryList :=
  let entryPath := pathJoin dirPath ⟨name⟩
  if presentDir d entryPath && shouldIncludePath entryPath then into entryPath s else pure s

def collectEntriesRecursive : Nat → PathBuf → EntryList → Explore EntryList
  | 0, _, _ => .mk none
  | fuel + 1, dirPath, s => do
    let s ← .mk (some (collectEntriesSingle c dirPath s))
    match readDir c dirPath with
    | .error e => throw (.io "read directory".toList (some dirPath) e)
    | .ok names => names.foldlM (collectSubdir d (collectEntriesRecursive fuel) dirPath) s

/-! ## file_search -/

structure SearchResults where
  filesSearched : Nat
  totalMatches : Nat
  «matches» : List SearchMatch
  trail : Trail

def searchedExtensions : List String :=
  ["rs", "py", "js", "ts", "jsx", "tsx", "java", "c", "cpp", "cc", "cxx", "h", "hpp", "cs", "go",
    "php", "rb", "swift", "kt", "scala", "clj", "hs", "ml", "fs", "elm", "dart", "lua", "perl",
    "r", "jl", "nim", "cr", "zig", "odin", "v", "mod", "vb", "pas", "ada", "f90", "f95", "for",
    "cob", "asm", "s", "html", "htm", "xml", "xhtml", "svg", "css", "scss", "sass", "less",
    "json", "yaml", "yml", "toml", "ini", "cfg", "conf", "config", "properties", "env", "md",
    "markdown", "rst", "txt", "text", "doc", "rtf", "tex", "latex", "sh", "bash", "zsh", "fish",
    "csh", "tcsh", "ksh", "ps1", "bat", "cmd", "log", "csv", "tsv", "sql", "dockerfile",
    "makefile", "cmake", "bazel", "gradle", "sbt", "pom", "gemfile", "podfile", "rakefile",
    "vagrantfile"]

def searchedNames : List String :=
  ["dockerfile", "makefile", "rakefile", "gemfile", "podfile", "vagrantfile", "justfile",
    "cargo.lock", "readme", "license", "changelog", "contributing", "authors", "credits",
    "copying", "install", "news", "thanks", "todo", "bugs", "history"]

def shouldSearchFile (crates : ExplorationCrates) (path : PathBuf) : Bool :=
  let ext := crates.lowercase ((extension path).getD [])
  if ext = [] then
    searchedNames.any fun name => name.toList == crates.lowercase ((fileName path).getD [])
  else searchedExtensions.any fun known => known.toList == ext

section
variable (crates : ExplorationCrates) (isMatch : Text → Bool) (contextLines : Nat)

/-- The loop over the lines of a file, which ends when there are enough matches. -/
def searchLines (filePath : PathBuf) (lines : List Text) :
    Nat → List Text → SearchResults → SearchResults
  | _, [], results => results
  | lineIdx, line :: rest, results =>
    if isMatch line then
      let found : SearchMatch := ⟨filePath, lineIdx + 1, line,
        (lines.take lineIdx).drop (lineIdx - contextLines),
        (lines.take (min (lineIdx + contextLines + 1) lines.length)).drop (lineIdx + 1)⟩
      let results := { results with
        totalMatches := results.totalMatches + 1, «matches» := results.matches ++ [found] }
      if results.matches.length ≥ maxSearchResults then results
      else searchLines filePath lines (lineIdx + 1) rest results
    else searchLines filePath lines (lineIdx + 1) rest results

def searchFile (d : Disk) (filePath : PathBuf) (results : SearchResults) : SearchResults :=
  if shouldSearchFile crates filePath then
    let results := { results with
      filesSearched := results.filesSearched + 1, trail := results.trail.report filePath }
    match readToString d filePath with
    | .error _ => results
    | .ok content =>
      searchLines isMatch contextLines filePath (lines content) 0 (lines content) results
  else results

/-- One entry of a directory: a file is searched, a directory gone into. -/
def searchEntry (d : Disk) (into : PathBuf → SearchResults → Explore SearchResults)
    (entryPath : PathBuf) (results : SearchResults) : Explore SearchResults :=
  if presentFile d entryPath then
    pure (searchFile crates isMatch contextLines d entryPath results)
  else if presentDir d entryPath then into entryPath results
  else pure results

/-- The loop over the entries of a directory. An entry that is left out does not make
it look at the number of matches. -/
def searchEntries (d : Disk) (into : PathBuf → SearchResults → Explore SearchResults)
    (dirPath : PathBuf) : List Text → SearchResults → Explore SearchResults
  | [], results => pure results
  | name :: rest, results =>
    if shouldIncludePath (pathJoin dirPath ⟨name⟩) then do
      let results ← searchEntry crates isMatch contextLines d into (pathJoin dirPath ⟨name⟩) results
      if results.matches.length ≥ maxSearchResults then pure results
      else searchEntries d into dirPath rest results
    else searchEntries d into dirPath rest results

def searchDirectoryRecursive : Nat → PathBuf → SearchResults → Explore SearchResults
  | 0, _, _ => .mk none
  | fuel + 1, dirPath, results =>
    match readDir c dirPath with
    | .error e => throw (.io "read directory for search".toList (some dirPath) e)
    | .ok names =>
      searchEntries crates isMatch contextLines d (searchDirectoryRecursive fuel) dirPath names
        { results with trail := results.trail.enter dirPath }

end

/-! ## project_structure -/

structure Totals where
  files : Nat
  dirs : Nat
  trail : Trail

def Totals.count (t : Totals) (path : PathBuf) : Node Text Content → Totals
  | .dir => { t with dirs := t.dirs + 1, trail := t.trail.report path }
  | .link _ => { t with trail := t.trail.report path }
  | .file _ => { t with files := t.files + 1, trail := t.trail.report path }

/-- The order of children: directories first, then by name. -/
def childLe (d : Disk) (path : PathBuf) (a b : Text) : Bool :=
  match presentDir d (pathJoin path ⟨a⟩), presentDir d (pathJoin path ⟨b⟩) with
  | true, false => true
  | false, true => false
  | _, _ => textLe a b

/-- The children that are shown, in their order. -/
def shownNames (d : Disk) (path : PathBuf) (names : List Text) : List Text :=
  (names.filter fun name => shouldIncludePath (pathJoin path ⟨name⟩)).mergeSort (childLe d path)

/-- One child more, unless it cannot be looked at. -/
def addChild (build : PathBuf → Totals → DevItResult TreeNode × Totals) (path : PathBuf)
    (shown : List TreeNode × Totals) (name : Text) : List TreeNode × Totals :=
  match build (pathJoin path ⟨name⟩) shown.2 with
  | (.ok child, t) => (shown.1 ++ [child], t)
  | (.error _, t) => (shown.1, t)

/-- A node, for `left` more levels of children. -/
def buildTreeNode : Nat → PathBuf → Totals → DevItResult TreeNode × Totals
  | left, path, t =>
    match metadata d path with
    | .error e => (.error (.io "read tree node metadata".toList (some path) e), t)
    | .ok node =>
      let t := t.count path node
      match left, node, readDir c path with
      | left + 1, .dir, .ok names =>
        let shown := (shownNames d path names).foldl (addChild (buildTreeNode left) path)
          ([], { t with trail := t.trail.enter path })
        (.ok (.mk (entryName path) path (nodeType node) (nodeSize node)
          (if shown.1 = [] then none else some shown.1)), shown.2)
      | _, _, _ => (.ok (.mk (entryName path) path (nodeType node) (nodeSize node) none), t)

end

/-! ## The calls -/

structure SearchOutcome where
  pattern : Text
  path : PathBuf
  results : SearchResults
  truncated : Bool

structure ProjectStructure where
  root : PathBuf
  projectType : Option Text
  tree : TreeNode
  totalFiles : Nat
  totalDirs : Nat

def projectTypes : List (String × String) :=
  [("Cargo.toml", "Rust"), ("package.json", "Node.js"), ("pom.xml", "Maven/Java"),
    ("build.gradle", "Gradle/Java"), ("pyproject.toml", "Python"), ("requirements.txt", "Python"),
    ("Gemfile", "Ruby"), ("composer.json", "PHP"), ("go.mod", "Go"), ("CMakeLists.txt", "C/C++"),
    ("Makefile", "C/C++/Make"), ("sln", "C#/.NET"), ("pubspec.yaml", "Dart/Flutter")]

def detectProjectType (d : Disk) (path : PathBuf) : Option Text :=
  (projectTypes.find? fun (file, _) => present d (pathJoin path ⟨file.toList⟩)).map
    fun (_, projectType) => projectType.toList

/-- A path below the root is taken relative to it. -/
def adjustUserPath (ops : FileOpsManager) (path : PathBuf) : PathBuf :=
  if isAbsolute path then
    match pathStripPrefix path ops.rootPath with
    | none => path
    | some stripped => if stripped.text = [] then ⟨".".toList⟩ else stripped
  else path

section
variable (crates : ExplorationCrates) (ops : FileOpsManager) {d : Disk} (c : Catalog d)

/-- The path that a call works on: it passed the checks and exists. -/
def validated (d : Disk) (operation : String) (path : PathBuf) : DevItResult PathBuf := do
  let validatedPath ←
    ops.pathSecurity.validatePatchPath crates.clean d (adjustUserPath ops path)
  if present d validatedPath then .ok validatedPath
  else .error (.io operation.toList (some validatedPath) .notFound)

def fileList (fuel : Nat) (path : PathBuf) (recursive : Bool) : Explore EntryList := do
  let validatedPath ← .mk (some (validated crates ops d "list directory" path))
  let listed ←
    if presentFile d validatedPath then
      pure (match createFileEntry d validatedPath with
        | .error _ => ⟨[], .empty⟩
        | .ok fileEntry => ⟨[fileEntry], Trail.empty.report validatedPath⟩)
    else if presentDir d validatedPath then
      if recursive then collectEntriesRecursive c fuel validatedPath ⟨[], .empty⟩
      else .mk (some (collectEntriesSingle c validatedPath ⟨[], .empty⟩))
    else pure ⟨[], .empty⟩
  pure { listed with entries := listed.entries.mergeSort fun a b => textLe a.name b.name }

def fileSearch (fuel : Nat) (pattern : Text) (path : PathBuf) (contextLines : Option Nat) :
    Explore SearchOutcome := do
  let validatedPath ← .mk (some (validated crates ops d "search files" path))
  match crates.compile pattern with
  | .error message => throw (.invalidDiff ("Invalid regex pattern: ".toList ++ message) none)
  | .ok isMatch =>
    let results ←
      if presentFile d validatedPath then
        pure (searchFile crates isMatch (contextLines.getD 2) d validatedPath ⟨0, 0, [], .empty⟩)
      else if presentDir d validatedPath then
        searchDirectoryRecursive c crates isMatch (contextLines.getD 2) fuel validatedPath
          ⟨0, 0, [], .empty⟩
      else pure ⟨0, 0, [], .empty⟩
    pure ⟨pattern, adjustUserPath ops path,
      { results with «matches» := results.matches.take maxSearchResults },
      decide (results.matches.length ≥ maxSearchResults)⟩

def projectStructure (path : PathBuf) (maxDepth : Option UInt8) :
    DevItResult (ProjectStructure × Trail) := do
  let validatedPath ← validated crates ops d "read project structure" path
  let (tree, t) := buildTreeNode c (maxDepth.getD maxTreeDepth).toNat validatedPath ⟨0, 0, .empty⟩
  let tree ← tree
  .ok (⟨adjustUserPath ops path, detectProjectType d validatedPath, tree, t.files, t.dirs⟩, t.trail)

end

end FileExploration

end Devit
