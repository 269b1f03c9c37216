import EntitySchema.Code.Dispatch
import EntitySchema.Code.ModuleTree

/-!
# Generation

A linked schema becomes a tree of modules: the types in the order they were met, then the components,
then the root module. Documents are registered and linked first, so a defect of the schema is reported
before one of the settings.
-/

namespace EntitySchema.Schema

open Code (ModuleTree Settings SettingError GeneratedFile InvalidIdentifier)

/-- The modules of a schema. -/
def Linked.moduleTree (s : Linked) : Except MissingData ModuleTree := do
  let entries ← s.entries
  let tree := s.types.foldl (fun t type => t.append type.package type.fragment) ModuleTree.empty
  let tree := entries.foldl
    (fun t e => t.append e.component.package (e.component.fragment e.data)) tree
  pure (tree.appendRoot (Dispatch.mk entries).fragment)

/-- Why nothing is generated. -/
inductive GenerationError where
  /-- A defect of the schema. -/
  | schema (e : Error)
  /-- A setting that cannot be used. -/
  | setting (e : SettingError)
  /-- A component without a data type. -/
  | missingData (e : MissingData)
  /-- A name that is no identifier. -/
  | identifier (e : InvalidIdentifier)
deriving Repr, Inhabited

/-- The wording of an error. -/
def GenerationError.message : GenerationError → String
  | .schema e => e.message
  | .setting e => e.message
  | .missingData e => e.message
  | .identifier e => s!"'{e.name}' is not an identifier"

/-- The modules of a schema and their files. -/
def Linked.generate (s : Linked) (settings : Settings) :
    Except GenerationError (ModuleTree × List GeneratedFile) := do
  settings.validate.mapError .setting
  let paths ← settings.paths.mapError .setting
  let tree ← s.moduleTree.mapError .missingData
  let files ← (tree.files settings paths).mapError .identifier
  pure (tree, files)

/-- The modules of documents and their files. -/
def generate (documents : List Document) (settings : Settings) :
    Except GenerationError (ModuleTree × List GeneratedFile) := do
  let linked ← (Linked.ofDocuments documents).mapError .schema
  linked.generate settings

end EntitySchema.Schema
