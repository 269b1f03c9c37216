import EntitySchema.Schema.Validation

/-!
# Linked schemas

Linking validates a registry and then marks every type that holds the data of a component: the type
learns the component and its events, and its fields become tracked. A linked schema is what code is
generated from.
-/

namespace EntitySchema.Schema

/-- A schema whose references all resolve. -/
structure Linked where
  /-- The types in the order they were met. -/
  types : List UserType := []
  /-- The components in the order they were met. -/
  components : List Component := []
deriving DecidableEq, Repr, Inhabited

/-- The type as the data type of a component. -/
def UserType.promote (t : UserType) (c : Component) : UserType :=
  { t with
    component := some c.qualifiedName
    events := c.events
    fields := t.fields.map fun f => { f with isTracked := true } }

/-- Marks the data type of a component. -/
def promoteData (types : List UserType) (c : Component) : Except Error (List UserType) :=
  if types.any fun t => t.qualifiedName = c.dataType then
    .ok (types.map fun t => if t.qualifiedName = c.dataType then t.promote c else t)
  else
    .error (.unresolved c.dataType (.data c.qualifiedName))

/-- Validates a registry and marks the data types of its components. -/
def Registry.link (r : Registry) : Except Error Linked := do
  r.validate
  let types ← r.components.foldlM promoteData r.types
  pure { types, components := r.components }

namespace Linked

/-- Registers and links documents. -/
def ofDocuments (documents : List Document) : Except Error Linked := do
  (← Registry.ofDocuments documents {}).link

/-- The type with a qualified name. -/
def type? (s : Linked) (name : String) : Option UserType :=
  s.types.find? fun t => t.qualifiedName = name

/-- The component with a qualified name. -/
def component? (s : Linked) (name : String) : Option Component :=
  s.components.find? fun c => c.qualifiedName = name

/-- The position of the component with a number. -/
def uniqueIndex (s : Linked) (id : Wire.ComponentId) : Option Nat :=
  s.components.findIdx? fun c => c.id = id

end Linked

end EntitySchema.Schema
