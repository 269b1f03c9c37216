import EntitySchema.Schema.Linked

/-!
# Components with their data

Every component of a linked schema comes with the type that holds its data.
-/

namespace EntitySchema.Schema

/-- A component whose data type is not in the schema. -/
structure MissingData where
  /-- The qualified name of the data type. -/
  type : String
  /-- The qualified name of the component. -/
  component : String
deriving DecidableEq, Repr, Inhabited

/-- The wording of the defect. -/
def MissingData.message (e : MissingData) : String :=
  s!"unknown type '{e.type}' referenced by component '{e.component}'"

/-- A component with its data type. -/
structure Entry where
  /-- The component. -/
  component : Component
  /-- The type of its data. -/
  data : UserType
deriving DecidableEq, Repr, Inhabited

/-- The component with its data type. -/
def Linked.entry (s : Linked) (c : Component) : Except MissingData Entry :=
  match s.type? c.dataType with
  | some data => .ok ⟨c, data⟩
  | none => .error ⟨c.dataType, c.qualifiedName⟩

/-- The components of a schema with their data types. -/
def Linked.entries (s : Linked) : Except MissingData (List Entry) := s.components.mapM s.entry

/-- The position of the field with a name. -/
def Entry.position (e : Entry) (name : String) : Nat := e.data.fields.findIdx fun f => f.name = name

/-- The component with a number, and its data type. -/
def Linked.entry? (s : Linked) (id : Wire.ComponentId) : Option Entry := do
  let c ← s.components.find? fun c => c.id = id
  pure ⟨c, ← s.type? c.dataType⟩

end EntitySchema.Schema
