import Devit.Library.FileSystem

/-! Calls at paths of any text. The system only takes a path that is short enough and
has no NUL; at any other path every call fails and changes nothing. -/
namespace Devit.FileSystem
open Files Path

/-- The system takes a path of less than 4096 bytes without a NUL. -/
def taken (p : PathBuf) : Bool :=
  decide (Char.ofNat 0 ∉ p.text) && decide ((p.text.map Char.utf8Size).sum < 4096)

/-- `fs::metadata`, for any text. -/
def metadata (d : Disk) (p : PathBuf) : Except Errno (Node Text Content) :=
  if taken p then stat d true p else .error .invalidInput

/-- `Path::exists`, for any text. -/
def present (d : Disk) (p : PathBuf) : Bool := taken p && pathExists d p

/-- `Path::is_dir`, for any text. -/
def presentDir (d : Disk) (p : PathBuf) : Bool := taken p && isDir d p

/-- `Path::is_file`, for any text. -/
def presentFile (d : Disk) (p : PathBuf) : Bool :=
  match metadata d p with
  | .ok (.file _) => true
  | _ => false

/-- `Path::canonicalize`, for any text. -/
def realPath (d : Disk) (p : PathBuf) : Except Errno PathBuf :=
  if taken p then canonicalize d p else .error .invalidInput

/-- `fs::create_dir_all`, for any text. -/
def makeDirs (p : PathBuf) (d : Disk) : Except Errno Unit × Disk :=
  if taken p then createDirAll p d else (.error .invalidInput, d)

end Devit.FileSystem
