import EntitySchema.Json.Fault
import EntitySchema.Schema.Shape
import EntitySchema.Wire.Payload

/-!
# Defects of a schema

Everything that can be wrong with schema documents: a text that is no document, a field without a
usable shape, a name registered twice, and every rule that the registered definitions have to keep.
-/

namespace EntitySchema.Schema

/-- Where in a schema a shape is used. -/
inductive Site where
  /-- A field of a type. -/
  | field (name type : String)
  /-- An event of a component. -/
  | event (name component : String)
  /-- A command of a component. -/
  | command (name component : String)
  /-- The data type of a component. -/
  | data (component : String)
  /-- A place described by the caller. -/
  | place (description : String)
deriving DecidableEq, Repr, Inhabited

/-- The written form of a site. -/
def Site.text : Site → String
  | .field name type => s!"field '{name}' of type '{type}'"
  | .event name component => s!"event '{name}' of component '{component}'"
  | .command name component => s!"command '{name}' of component '{component}'"
  | .data component => s!"data type of component '{component}'"
  | .place description => description

/-- What a declared name belongs to. -/
inductive NameRole where
  | package
  | type
  | field
  | component
  | event
  | command
deriving DecidableEq, Repr, Inhabited

/-- The written form of a role. -/
def NameRole.text : NameRole → String
  | .package => "package"
  | .type => "type"
  | .field => "field"
  | .component => "component"
  | .event => "event"
  | .command => "command"

/-- What declares the members of a generated structure. -/
inductive Owner where
  /-- A type. -/
  | type (name : String)
  /-- A component with its data type. -/
  | component (name dataType : String)
deriving DecidableEq, Repr, Inhabited

/-- The written form of an owner. -/
def Owner.text : Owner → String
  | .type name => s!"type '{name}'"
  | .component name dataType => s!"component '{name}' (data type '{dataType}')"

/-- What is wrong with a schema. -/
inductive Error where
  /-- A text that is no schema document. -/
  | malformed (source : String) (fault : Json.Fault)
  /-- A field without a shape. -/
  | missingShape (site : Site)
  /-- A field with more than one shape. -/
  | conflictingShapes (site : Site)
  /-- A built-in type that does not exist. -/
  | unknownScalar (name : String) (site : Site)
  /-- A reference that names no type. -/
  | emptyReference (site : Site)
  /-- Two types with one qualified name. -/
  | duplicateType (name : String)
  /-- Two components with one qualified name. -/
  | duplicateComponent (name : String)
  /-- Two components with one number. -/
  | duplicateComponentId (id : Wire.ComponentId) (first second : String)
  /-- Two fields of a type with one number. -/
  | duplicateFieldId (type : String) (id : Wire.FieldId)
  /-- Two events of a component with one number. -/
  | duplicateEventIndex (component : String) (index : UInt32)
  /-- Two commands of a component with one number. -/
  | duplicateCommandIndex (component : String) (index : Wire.CommandIndex)
  /-- Two generated items of a package with one name. -/
  | duplicateItem (package name : String)
  /-- Two members of a generated structure with one name. -/
  | duplicateMember (owner : Owner) (name : String)
  /-- A qualified name other than the package followed by the name. -/
  | qualifiedNameMismatch (package name qualifiedName : String)
  /-- A reference to a type that is not registered. -/
  | unresolved (name : String) (site : Site)
  /-- A type that is the data type of two components. -/
  | sharedDataType (type first second : String)
  /-- A name that is no plain identifier. -/
  | invalidName (role : NameRole) (name : String)
  /-- A map key that is no hashable scalar. -/
  | invalidMapKey (key : Shape) (site : Site)
deriving Repr, Inhabited

/-- The wording of a defect. -/
def Error.message : Error → String
  | .malformed source fault =>
    s!"invalid schema document {source} at JSON path {Json.Step.render fault.path}: {fault.message}"
  | .missingShape site =>
    s!"field '{site.text}' has no type (expected singularType, optionType, listType or mapType)"
  | .conflictingShapes site => s!"field '{site.text}' declares more than one type shape"
  | .unknownScalar name site => s!"unknown builtin type '{name}' in {site.text}"
  | .emptyReference site =>
    s!"type reference in {site.text} names neither a builtInType nor a userType"
  | .duplicateType name => s!"duplicate type definition: '{name}'"
  | .duplicateComponent name => s!"duplicate component definition: '{name}'"
  | .duplicateComponentId id first second =>
    s!"duplicate component id {id.toNat}: '{first}' and '{second}'"
  | .duplicateFieldId type id => s!"duplicate field id {id.toNat} in type '{type}'"
  | .duplicateEventIndex component index =>
    s!"duplicate event index {index.toNat} in component '{component}'"
  | .duplicateCommandIndex component index =>
    s!"duplicate command index {index.toNat} in component '{component}'"
  | .duplicateItem package name =>
    s!"generated item '{name}' is defined twice in package '{package}'"
  | .duplicateMember owner name => s!"member '{name}' is declared twice in {owner.text}"
  | .qualifiedNameMismatch package name qualifiedName =>
    s!"qualified name '{qualifiedName}' does not match package '{package}' and name '{name}'"
  | .unresolved name site => s!"unresolved type '{name}' referenced by {site.text}"
  | .sharedDataType type first second =>
    s!"type '{type}' is the data type of both '{first}' and '{second}'"
  | .invalidName role name => s!"invalid {role.text} name '{name}'"
  | .invalidMapKey key site =>
    s!"invalid map key '{key.text}' in {site.text}: keys must be bool, integer, string, bytes or EntityId"

end EntitySchema.Schema
