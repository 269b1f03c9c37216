import EntitySchema.Code.Declaration
import EntitySchema.Code.Settings
import EntitySchema.Text.Slashed

/-!
# The tree of generated modules

There is a module for every package and for every package on the way to it. A module holds the
fragments of its package in the order they were added, and its submodules in the order of their
names. The modules are counted, their paths are listed and their files are written, in each case a
module before its submodules.
-/

namespace EntitySchema.Code

/-- A module with its submodules. -/
inductive ModuleTree where
  | node (fragments : List Fragment) (children : List (String × ModuleTree))
deriving Repr, Inhabited

namespace ModuleTree

/-- The tree that has only an empty root. -/
def empty : ModuleTree := .node [] []

/-- Changes the submodule with a name; an empty one is made if there is none. -/
def alter (name : String) (change : ModuleTree → ModuleTree) :
    List (String × ModuleTree) → List (String × ModuleTree)
  | [] => [(name, change empty)]
  | (other, m) :: rest =>
    if name = other then (other, change m) :: rest
    else if name < other then (name, change empty) :: (other, m) :: rest
    else (other, m) :: alter name change rest

/-- Adds a fragment to the module with a path. -/
def insert : List String → Fragment → ModuleTree → ModuleTree
  | [], f, .node fragments children => .node (fragments ++ [f]) children
  | name :: rest, f, .node fragments children =>
    .node fragments (alter name (insert rest f) children)

/-- The path of the module of a dotted package. -/
def modulePath (package : String) : List String :=
  ((Text.segments package).filter fun s => s ≠ "").map sanitize

/-- Adds a fragment to the module of a package. -/
def append (t : ModuleTree) (package : String) (f : Fragment) : ModuleTree :=
  t.insert (modulePath package) f

/-- Adds a fragment to the root. -/
def appendRoot (t : ModuleTree) (f : Fragment) : ModuleTree := t.insert [] f

mutual

/-- The number of modules. -/
def count : ModuleTree → Nat
  | .node _ children => 1 + countAll children

/-- The number of modules in several trees. -/
def countAll : List (String × ModuleTree) → Nat
  | [] => 0
  | (_, m) :: rest => m.count + countAll rest

end

mutual

/-- The paths of the modules of a tree that stands at a path. -/
def pathsAt (path : List String) : ModuleTree → List (List String)
  | .node _ children => path :: pathsOf path children

/-- The paths of the modules of several trees that stand below a path. -/
def pathsOf (path : List String) : List (String × ModuleTree) → List (List String)
  | [] => []
  | (name, m) :: rest => m.pathsAt (path ++ [name]) ++ pathsOf path rest

end

/-- The paths of the modules, each before its submodules. -/
def paths (t : ModuleTree) : List (List String) := t.pathsAt []

end ModuleTree

/-- A file that is generated. -/
structure GeneratedFile where
  /-- The path within the output directory. -/
  path : String
  /-- The content. -/
  text : String
deriving DecidableEq, Repr, Inhabited

namespace GeneratedFile

/-- The first line of every file. -/
def header : String := "// @generated by ecsgen. Do not edit."

/-- The warnings that are silenced in every file. -/
def silenced : String :=
  "#![allow(dead_code, unused_variables, unused_mut, non_camel_case_types, " ++
    "non_snake_case, clippy::all)]"

/-- The declaration of a submodule. -/
def declaration (settings : Settings) (child : String) : Except InvalidIdentifier String := do
  let line := "pub mod " ++ (← spellName child) ++ ";"
  if settings.usesDefaultLayout then pure line
  else pure (s!"#[path = \"{child}/{settings.fileName}\"]" ++ "\n" ++ line)

/-- The text of the file of a module with some fragments and submodules. -/
def content (settings : Settings) (paths : Paths) (fragments : List Fragment)
    (children : List String) : Except InvalidIdentifier String := do
  let declarations ← children.mapM (declaration settings)
  let codes ← fragments.mapM fun f => render paths f.code
  pure (header ++ "\n\n" ++ silenced ++ "\n\n" ++
    String.join (declarations.map fun line => line ++ "\n") ++
    (if declarations.isEmpty then "" else "\n") ++
    String.join (codes.map fun code => code ++ "\n\n"))

end GeneratedFile

namespace ModuleTree

mutual

/-- The files of a tree that stands in a directory. -/
def filesAt (settings : Settings) (paths : Paths) (directory : String) :
    ModuleTree → Except InvalidIdentifier (List GeneratedFile)
  | .node fragments children => do
    let text ← GeneratedFile.content settings paths fragments (children.map Prod.fst)
    let below ← filesOf settings paths directory children
    pure (⟨Text.joinPath directory settings.fileName, text⟩ :: below)

/-- The files of several trees that stand in directories below a directory. -/
def filesOf (settings : Settings) (paths : Paths) (directory : String) :
    List (String × ModuleTree) → Except InvalidIdentifier (List GeneratedFile)
  | [] => pure []
  | (name, m) :: rest => do
    let files ← m.filesAt settings paths (Text.joinPath directory name)
    let others ← filesOf settings paths directory rest
    pure (files ++ others)

end

/-- The files of all modules, each before those of its submodules. -/
def files (settings : Settings) (paths : Paths) (t : ModuleTree) :
    Except InvalidIdentifier (List GeneratedFile) :=
  t.filesAt settings paths ""

end ModuleTree

end EntitySchema.Code
