import EntitySchema.Code.Path
import EntitySchema.Code.Token

/-!
# Settings of the generator

The settings say where the generated modules are mounted, where the runtime library is found and how
the files of modules are called.
-/

namespace EntitySchema.Code

/-- The settings of the generator. -/
structure Settings where
  /-- The module that the generated modules are mounted at. -/
  rootModule : String := "crate::generated"
  /-- The runtime library. -/
  runtimeCrate : String := "::ecsgen_core"
  /-- The name of the file of each module. -/
  fileName : String := "mod.rs"
deriving DecidableEq, Repr, Inhabited

/-- What a path in the settings is for. -/
inductive PathRole where
  /-- The mounting point. -/
  | root
  /-- The runtime library. -/
  | runtime
deriving DecidableEq, Repr, Inhabited

/-- The name of a role. -/
def PathRole.name : PathRole → String
  | .root => "root module"
  | .runtime => "runtime crate"

/-- A setting that cannot be used. -/
inductive SettingError where
  /-- A text that is no path. -/
  | path (role : PathRole) (text : String) (reason : PathError)
  /-- A file name that is not plain or has the wrong extension. -/
  | fileName (name : String)
deriving DecidableEq, Repr, Inhabited

/-- The wording of an error. -/
def SettingError.message : SettingError → String
  | .path role text reason =>
    s!"invalid configuration: {role.name} '{text}' is not a Rust path: {reason.message}"
  | .fileName name =>
    s!"invalid configuration: module file name '{name}' must be a plain .rs file name"

namespace Settings

/-- The file name under which modules are found without being told. -/
def defaultFileName : String := "mod.rs"

/-- Whether the files of modules are found without being told. -/
def usesDefaultLayout (s : Settings) : Bool := s.fileName = defaultFileName

/-- The path that a text of the settings spells. -/
def readPath (role : PathRole) (text : String) : Except SettingError Path :=
  match Path.ofText text with
  | .ok path => .ok path
  | .error reason => .error (.path role text reason)

/-- The mounting point. -/
def rootPath (s : Settings) : Except SettingError Path := readPath .root s.rootModule

/-- The path of the runtime library. -/
def runtimePath (s : Settings) : Except SettingError Path := readPath .runtime s.runtimeCrate

/-- Whether a file name is plain and has the extension of the generated language. -/
def isFileName (name : String) : Bool :=
  let cs := name.toList
  ".rs".toList.isSuffixOf cs && 3 < cs.length && cs.all fun c => c ≠ '/' && c ≠ '\\'

/-- The paths of usable settings. -/
def paths (s : Settings) : Except SettingError Paths := do
  let root ← s.rootPath
  let runtime ← s.runtimePath
  pure ⟨root.tokens, runtime.tokens⟩

/-- Checks every setting. -/
def validate (s : Settings) : Except SettingError Unit := do
  let _ ← s.paths
  if isFileName s.fileName then pure () else throw (.fileName s.fileName)

end Settings

end EntitySchema.Code
