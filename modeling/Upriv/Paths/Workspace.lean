import Upriv.Paths.Join
import Upriv.Support.Text

/-!
# Mount-parent paths

`paths/workspace.rs` on Unix: which texts may stand in `[workspace].path` and
in a vault's `[mount].workspace_path`.  `Path::canonicalize` asks the file
system and is a parameter.
-/

namespace Upriv

def WORKSPACE_PATH_DEFAULT : String := "default"

/-- `std::path::Component`. -/
inductive Component where
  | rootDir
  | curDir
  | parentDir
  | normal (name : String)
  deriving DecidableEq, Repr

def Component.ofSegment (segment : List Char) : Component :=
  if segment == ['.', '.'] then .parentDir else .normal (String.ofList segment)

def isAbsolute (path : PathBuf) : Bool := path.toList.head? == some '/'

/-- `Path::components`: repeated separators and inner `.` are dropped. -/
def components (path : PathBuf) : List Component :=
  let segments := path.toList.splitOn '/'
  let start :=
    if isAbsolute path then [Component.rootDir]
    else if segments.head? == some ['.'] then [Component.curDir]
    else []
  start ++ (segments.filter fun s => !s.isEmpty && s != ['.']).map Component.ofSegment

/-- `Path::canonicalize`, where it succeeds. -/
abbrev Canonicalize := PathBuf → Option (List Component)

def pathIsUnderReservedUprivTree (candidate : PathBuf) : Bool :=
  (components candidate).any fun
    | .normal name => eqIgnoreAsciiCase name ".upriv"
    | _ => false

def componentsEqIgnoreAsciiCase : Component → Component → Bool
  | .normal a, .normal b => eqIgnoreAsciiCase a b
  | a, b => a == b

def pathsEqualOrUnderCasefold (candidate pre : PathBuf) : Bool :=
  let c := components candidate
  let p := components pre
  if c.length < p.length then false
  else (c.zip p).all fun (a, b) => componentsEqIgnoreAsciiCase a b

def isReservedUprivWorkspacePathLexical (candidate vaultRoot : PathBuf) : Bool :=
  pathsEqualOrUnderCasefold candidate (joinPath vaultRoot ".upriv")

/-- `candidate` is `<vault_root>/.upriv` or below it, links resolved. -/
def isReservedUprivWorkspacePath (canonicalize : Canonicalize)
    (candidate vaultRoot : PathBuf) : Bool :=
  match canonicalize (joinPath vaultRoot ".upriv"), canonicalize candidate with
  | some upriv, some cand => upriv.isPrefixOf cand
  | _, _ => isReservedUprivWorkspacePathLexical candidate vaultRoot

def validateWorkspaceGlobalPath (canonicalize : Canonicalize) (path : String)
    (vaultRoot : Option PathBuf) : Result Unit :=
  let trimmed := trim path
  if trimmed.isEmpty then .ok ()
  else if !isAbsolute trimmed then
    .error (.workspacePathInvalid trimmed "workspace path must be absolute")
  else if pathIsUnderReservedUprivTree trimmed then
    .error (.workspacePathReserved trimmed)
  else if vaultRoot.any (isReservedUprivWorkspacePath canonicalize trimmed) then
    .error (.workspacePathReserved trimmed)
  else .ok ()

def isDefaultMount (path : String) : Bool :=
  (trim path).isEmpty || eqIgnoreAsciiCase (trim path) WORKSPACE_PATH_DEFAULT

def validateMountWorkspacePath (canonicalize : Canonicalize) (path : String)
    (vaultRoot : Option PathBuf) : Result Unit :=
  if isDefaultMount path then .ok ()
  else validateWorkspaceGlobalPath canonicalize (trim path) vaultRoot

def normalizeMountWorkspacePath (path : String) : String :=
  if isDefaultMount path then WORKSPACE_PATH_DEFAULT else trim path

end Upriv
