import Devit.Library.Path
import Devit.Library.IpAddress
import Devit.Library.Action
import Mathlib.Data.Finset.Dedup
import Mathlib.Data.Finset.Lattice.Lemmas

/-! Over which transport the server is reached, and who may talk to it. The settings of the
command line go before those of the file, but the tokens of both are added up, and every token
file that is named must be readable. Without a token HTTP is served on this machine only, and
only if the environment says so. -/
namespace Devit
open Text Path

structure HttpAuthConfig where
  tokens : Finset Text

structure TokenEntry where
  token : Text

structure TokenFile where
  tokens : List TokenEntry

namespace HttpTransport

/-- What is outside the program: files, the parser of token files, and the environment. -/
structure World where
  readToString : PathBuf → Except Text Text
  fromStr : Text → Except Text TokenFile
  var : Text → Option Text

/-! ## The transport -/

def loadTokensFromFile (world : World) (path : PathBuf) : Except Text (List Text) :=
  match world.readToString path with
  | .error _ => .error ("Failed to read tokens file ".toList ++ path.text)
  | .ok contents =>
    match world.fromStr contents with
    | .error _ => .error ("Failed to parse tokens file ".toList ++ path.text)
    | .ok parsed => .ok (parsed.tokens.map (·.token))

def resolveRelative (base path : PathBuf) : PathBuf :=
  if isAbsolute path then path else pathJoin base path

/-- Tokens so far, and whether they are asked for. -/
structure AuthSettings where
  tokens : Finset Text
  enabled : Bool

/-- The tokens of a file are added, and are asked for if there are any. -/
def AuthSettings.load (world : World) (s : AuthSettings) : Option PathBuf → Except Text AuthSettings
  | none => .ok s
  | some path => do
    let loaded ← loadTokensFromFile world path
    .ok ⟨s.tokens ∪ loaded.toFinset, s.enabled || !loaded.isEmpty⟩

/-- `HeaderValue::to_str`: the bytes must be visible ASCII. -/
def toStr (header : List UInt8) : Option Text :=
  if header.all fun b => b = 9 ∨ (32 ≤ b ∧ b < 127) then
    some (header.map fun b => Char.ofNat b.toNat)
  else none

/-- `AuthManager::validate`. -/
def validate (tokens : Finset Text) (header : Option (List UInt8)) : Bool :=
  if tokens = ∅ then true
  else
    match header.bind toStr with
    | none => false
    | some value =>
      let raw := trim value
      let token := trim (((stripPrefix "Bearer ".toList raw) <|>
        stripPrefix "bearer ".toList raw).getD raw)
      token ∈ tokens

/-- Whether a request is let through. -/
def ensureAuthorized (auth : Option HttpAuthConfig) (header : Option (List UInt8)) : Bool :=
  match auth with
  | none => true
  | some cfg => validate cfg.tokens header

/-! ## What is asked for -/

/-- One token on the command line and one in a file. -/
def sampleWorld : World where
  readToString _ := .ok []
  fromStr _ := .ok ⟨[⟨"b".toList⟩]⟩
  var _ := none

end HttpTransport
end Devit
