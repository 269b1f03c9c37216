import EntitySchema.Schema.Document
import EntitySchema.Text.Pascal

/-!
# Registered definitions

A registry collects the types and the components of any number of documents in the order they are
met, each under its qualified name. Registration stops at the first defect and keeps what came
before it.
-/

namespace EntitySchema.Schema

/-- A field of a user type. -/
structure Field where
  /-- The name. -/
  name : String
  /-- The field number. -/
  id : Wire.FieldId
  /-- What it carries. -/
  shape : Shape
  /-- Whether the type it belongs to is the data type of a component. -/
  isTracked : Bool := false
deriving DecidableEq, Repr, Inhabited

/-- An event of a component. -/
structure Event where
  /-- The name. -/
  name : String
  /-- The event number. -/
  index : UInt32
  /-- What it carries. -/
  shape : Shape
deriving DecidableEq, Repr, Inhabited

/-- A command of a component. -/
structure Command where
  /-- The name. -/
  name : String
  /-- The command number. -/
  index : Wire.CommandIndex
  /-- What is asked. -/
  request : Shape
  /-- What is answered. -/
  response : Shape
deriving DecidableEq, Repr, Inhabited

/-- A user type. -/
structure UserType where
  /-- The dotted name of the package. -/
  package : String
  /-- The name within the package. -/
  name : String
  /-- The name with the package in front. -/
  qualifiedName : String
  /-- The fields in order. -/
  fields : List Field
  /-- The component whose data the type holds. -/
  component : Option String := none
  /-- The events of that component. -/
  events : List Event := []
deriving DecidableEq, Repr, Inhabited

/-- Whether the type holds the data of a component. -/
def UserType.isData (t : UserType) : Bool := t.component.isSome

/-- A component. -/
structure Component where
  /-- The dotted name of the package. -/
  package : String
  /-- The name within the package. -/
  name : String
  /-- The name with the package in front. -/
  qualifiedName : String
  /-- The component number. -/
  id : Wire.ComponentId
  /-- The qualified name of the type that holds its data. -/
  dataType : String
  /-- The events in order. -/
  events : List Event := []
  /-- The commands in order. -/
  commands : List Command := []
deriving DecidableEq, Repr, Inhabited

namespace Component

/-- The name of the generated structure for updates. -/
def updateName (c : Component) : String := c.name ++ "Update"

/-- The name of the generated marker of a command. -/
def markerName (c : Component) (command : Command) : String := c.name ++ Text.pascal command.name

end Component

/-- Types and components in the order they were met. -/
structure Registry where
  /-- The types. -/
  types : List UserType := []
  /-- The components. -/
  components : List Component := []
deriving DecidableEq, Repr, Inhabited

/-- The field of a declaration. -/
def Field.ofDeclaration (type : String) (f : FieldDeclaration) : Except Error Field := do
  pure { name := f.name, id := f.number, shape := ← f.shape (.field f.name type) }

/-- The type of a declaration. -/
def UserType.ofDeclaration (package : String) (t : TypeDeclaration) : Except Error UserType := do
  let fields ← t.fields.mapM (Field.ofDeclaration t.qualifiedName)
  pure { package, name := t.name, qualifiedName := t.qualifiedName, fields }

/-- The component of a declaration. -/
def Component.ofDeclaration (package : String) (c : ComponentDeclaration) : Component where
  package := package
  name := c.name
  qualifiedName := c.qualifiedName
  id := c.id
  dataType := c.data
  events := c.events.map fun e => { name := e.name, index := e.index, shape := .reference e.type }
  commands := c.commands.map fun m =>
    { name := m.name, index := m.index, request := .reference m.request,
      response := .reference m.response }

namespace Registry

/-- The type with a qualified name. -/
def type? (r : Registry) (name : String) : Option UserType :=
  r.types.find? fun t => t.qualifiedName = name

/-- Whether a type has a qualified name. -/
def hasType (r : Registry) (name : String) : Bool :=
  r.types.any fun t => t.qualifiedName = name

/-- Whether a component has a qualified name. -/
def hasComponent (r : Registry) (name : String) : Bool :=
  r.components.any fun c => c.qualifiedName = name

/-- Registers types up to the first defect. -/
def addTypes (package : String) : List TypeDeclaration → Registry → Except Error Unit × Registry
  | [], r => (.ok (), r)
  | t :: rest, r =>
    match UserType.ofDeclaration package t with
    | .error e => (.error e, r)
    | .ok type =>
      if r.hasType t.qualifiedName then (.error (.duplicateType t.qualifiedName), r)
      else addTypes package rest { r with types := r.types ++ [type] }

/-- Registers components up to the first defect. -/
def addComponents (package : String) :
    List ComponentDeclaration → Registry → Except Error Unit × Registry
  | [], r => (.ok (), r)
  | c :: rest, r =>
    if r.hasComponent c.qualifiedName then (.error (.duplicateComponent c.qualifiedName), r)
    else addComponents package rest
      { r with components := r.components ++ [Component.ofDeclaration package c] }

/-- Registers the definitions of a document up to the first defect, types before components. -/
def addDocument (r : Registry) (d : Document) : Except Error Unit × Registry :=
  match addTypes d.package d.types r with
  | (.ok (), r) => addComponents d.package d.components r
  | failed => failed

/-- Registers documents one after the other; the first defect refuses all of them. -/
def ofDocuments : List Document → Registry → Except Error Registry
  | [], r => .ok r
  | d :: rest, r =>
    match r.addDocument d with
    | (.ok (), r) => ofDocuments rest r
    | (.error e, _) => .error e

end Registry

end EntitySchema.Schema
