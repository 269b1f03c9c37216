import EntitySchema.Json.Layout
import EntitySchema.Schema.Error

/-!
# Schema documents

One document declares the types and the components of one package. A document is written in JSON by
the layouts below; a list of definitions that is left out is empty.

A field declares its shape by one of four members. `FieldDeclaration.shape` accepts exactly one of
them.
-/

namespace EntitySchema.Schema

/-- A mention of a type: a built-in one by its name, or a user type. -/
structure Reference where
  /-- The name of a built-in type; it wins over a user type. -/
  builtIn : Option String := none
  /-- The qualified name of a user type. -/
  user : Option String := none
deriving DecidableEq, Repr, Inhabited

/-- A declared field of a type. -/
structure FieldDeclaration where
  /-- The name. -/
  name : String
  /-- The field number. -/
  number : UInt32
  /-- The type of a single value. -/
  singular : Option Reference := none
  /-- The type of an optional value. -/
  option : Option Reference := none
  /-- The type of the items of a list. -/
  list : Option Reference := none
  /-- The types of the keys and the values of a map. -/
  map : Option (Reference × Reference) := none
deriving DecidableEq, Repr, Inhabited

/-- A declared type. -/
structure TypeDeclaration where
  /-- The name within the package. -/
  name : String
  /-- The name with the package in front. -/
  qualifiedName : String
  /-- The fields in order. -/
  fields : List FieldDeclaration := []
deriving DecidableEq, Repr, Inhabited

/-- A declared event of a component. -/
structure EventDeclaration where
  /-- The name. -/
  name : String
  /-- The event number. -/
  index : UInt32
  /-- The qualified name of the type it carries. -/
  type : String
deriving DecidableEq, Repr, Inhabited

/-- A declared command of a component. -/
structure CommandDeclaration where
  /-- The name. -/
  name : String
  /-- The command number. -/
  index : UInt32
  /-- The qualified name of the request type. -/
  request : String
  /-- The qualified name of the response type. -/
  response : String
deriving DecidableEq, Repr, Inhabited

/-- A declared component. -/
structure ComponentDeclaration where
  /-- The name within the package. -/
  name : String
  /-- The component number. -/
  id : UInt32
  /-- The name with the package in front. -/
  qualifiedName : String
  /-- The qualified name of the type that holds its data. -/
  data : String
  /-- The events in order. -/
  events : List EventDeclaration := []
  /-- The commands in order. -/
  commands : List CommandDeclaration := []
deriving DecidableEq, Repr, Inhabited

/-- The declarations of one package. -/
structure Document where
  /-- The dotted name of the package. -/
  package : String
  /-- The types in order. -/
  types : List TypeDeclaration := []
  /-- The components in order. -/
  components : List ComponentDeclaration := []
deriving DecidableEq, Repr, Inhabited

open Json (Layout)

/-- The layout of `Reference`. -/
def Reference.layout : Layout :=
  .record "TypeReference"
    [⟨"builtInType", false, .optional .text⟩, ⟨"userType", false, .optional .text⟩]

/-- The reference that was read. -/
def Reference.ofContent : Reference.layout.Content → Reference
  | (builtIn, user, ()) => { builtIn := builtIn.join, user := user.join }

/-- The layout of the type under an option or a list. -/
def Reference.wrappedLayout : Layout :=
  .record "ValueTypeDefinition" [⟨"valueType", true, Reference.layout⟩]

/-- The layout of the types of a map. -/
def Reference.pairLayout : Layout :=
  .record "MapTypeDefinition"
    [⟨"keyType", true, Reference.layout⟩, ⟨"valueType", true, Reference.layout⟩]

/-- The wrapped reference that was read. -/
def Reference.ofWrapped : Reference.wrappedLayout.Content → Reference
  | (reference, ()) => .ofContent reference

/-- The pair of references that was read. -/
def Reference.ofPair : Reference.pairLayout.Content → Reference × Reference
  | (key, value, ()) => (.ofContent key, .ofContent value)

/-- The layout of the mention of a user type. -/
def userLayout : Layout := .record "UserTypeReference" [⟨"userType", true, .text⟩]

/-- The user type that was read. -/
def userOfContent : userLayout.Content → String
  | (name, ()) => name

/-- The layout of `FieldDeclaration`. -/
def FieldDeclaration.layout : Layout :=
  .record "FieldDefinition"
    [⟨"name", true, .text⟩, ⟨"number", true, .word⟩,
      ⟨"singularType", false, .optional Reference.layout⟩,
      ⟨"optionType", false, .optional Reference.wrappedLayout⟩,
      ⟨"listType", false, .optional Reference.wrappedLayout⟩,
      ⟨"mapType", false, .optional Reference.pairLayout⟩]

/-- The field that was read. -/
def FieldDeclaration.ofContent : FieldDeclaration.layout.Content → FieldDeclaration
  | (name, number, singular, option, list, map, ()) =>
    { name, number, singular := singular.join.map .ofContent, option := option.join.map .ofWrapped,
      list := list.join.map .ofWrapped, map := map.join.map Reference.ofPair }

/-- The layout of `TypeDeclaration`. -/
def TypeDeclaration.layout : Layout :=
  .record "TypeDefinition"
    [⟨"name", true, .text⟩, ⟨"qualifiedName", true, .text⟩,
      ⟨"fieldDefinitions", false, .list FieldDeclaration.layout⟩]

/-- The type that was read. -/
def TypeDeclaration.ofContent : TypeDeclaration.layout.Content → TypeDeclaration
  | (name, qualifiedName, fields, ()) =>
    { name, qualifiedName, fields := (fields.getD []).map .ofContent }

/-- The layout of `EventDeclaration`. -/
def EventDeclaration.layout : Layout :=
  .record "EventDefinition"
    [⟨"name", true, .text⟩, ⟨"eventIndex", true, .word⟩, ⟨"type", true, userLayout⟩]

/-- The event that was read. -/
def EventDeclaration.ofContent : EventDeclaration.layout.Content → EventDeclaration
  | (name, index, type, ()) => { name, index, type := userOfContent type }

/-- The layout of `CommandDeclaration`. -/
def CommandDeclaration.layout : Layout :=
  .record "CommandDefinition"
    [⟨"name", true, .text⟩, ⟨"commandIndex", true, .word⟩, ⟨"requestType", true, userLayout⟩,
      ⟨"responseType", true, userLayout⟩]

/-- The command that was read. -/
def CommandDeclaration.ofContent : CommandDeclaration.layout.Content → CommandDeclaration
  | (name, index, request, response, ()) =>
    { name, index, request := userOfContent request, response := userOfContent response }

/-- The layout of `ComponentDeclaration`. -/
def ComponentDeclaration.layout : Layout :=
  .record "ComponentDefinition"
    [⟨"name", true, .text⟩, ⟨"id", true, .word⟩, ⟨"qualifiedName", true, .text⟩,
      ⟨"dataDefinition", true, userLayout⟩,
      ⟨"eventDefinitions", false, .list EventDeclaration.layout⟩,
      ⟨"commandDefinitions", false, .list CommandDeclaration.layout⟩]

/-- The component that was read. -/
def ComponentDeclaration.ofContent : ComponentDeclaration.layout.Content → ComponentDeclaration
  | (name, id, qualifiedName, data, events, commands, ()) =>
    { name, id, qualifiedName, data := userOfContent data,
      events := (events.getD []).map .ofContent, commands := (commands.getD []).map .ofContent }

/-- The layout of `Document`. -/
def Document.layout : Layout :=
  .record "SchemaDocument"
    [⟨"package", true, .text⟩, ⟨"typeDefinitions", false, .list TypeDeclaration.layout⟩,
      ⟨"componentDefinitions", false, .list ComponentDeclaration.layout⟩]

/-- The document that was read. -/
def Document.ofContent : Document.layout.Content → Document
  | (package, types, components, ()) =>
    { package, types := (types.getD []).map .ofContent,
      components := (components.getD []).map .ofContent }

/-- The name of a text that comes from no file. -/
def unnamedSource : String := "<input>"

/-- Reads a document from a text with a name. -/
def Document.parse (source text : String) : Except Error Document :=
  match Document.layout.parse text with
  | .ok content => .ok (.ofContent content)
  | .error fault => .error (.malformed source fault)

/-- The shape that a reference stands for. -/
def Reference.shape (site : Site) : Reference → Except Error Shape
  | ⟨some name, _⟩ =>
    match Scalar.ofName? name with
    | some s => .ok (.scalar s)
    | none => .error (.unknownScalar name site)
  | ⟨none, some name⟩ => .ok (.reference name)
  | ⟨none, none⟩ => .error (.emptyReference site)

/-- The shape of a declared field. -/
def FieldDeclaration.shape (site : Site) (f : FieldDeclaration) : Except Error Shape :=
  match f.singular, f.option, f.list, f.map with
  | some r, none, none, none => r.shape site
  | none, some r, none, none => .option <$> r.shape site
  | none, none, some r, none => .list <$> r.shape site
  | none, none, none, some (key, value) => do
    let key ← key.shape site
    let value ← value.shape site
    pure (.map key value)
  | none, none, none, none => .error (.missingShape site)
  | _, _, _, _ => .error (.conflictingShapes site)

end EntitySchema.Schema
