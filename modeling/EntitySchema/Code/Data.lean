import EntitySchema.Code.Tracking
import EntitySchema.Schema.Validation

/-!
# Code of user types

A user type becomes a structure that can be stored in and loaded from an object. The data type of a
component has tracked members, a dirty flag for the component and a queue for each of its events.
-/

namespace EntitySchema.Schema

open Code (Member Loading Statement Token Fragment)

/-- The dirty flag of a component. -/
def dirtyFlag : Member :=
  ⟨Code.fixedDoc "Aggregate dirty flag of the component.", dirtyMember, .flag⟩

/-- How the members of loaded data beside its fields are made: the flag is down and the queues are
empty. -/
def idleLoadings (events : List Event) : List Loading :=
  ⟨dirtyMember, .lowered⟩ :: events.map Event.loading

namespace UserType

/-- The documentation of the structure. -/
def summary (t : UserType) : String :=
  match t.component with
  | some component => s!" Data of component `{component}`, generated from `{t.qualifiedName}`."
  | none => s!" Generated from `{t.qualifiedName}`."

/-- The members of the structure. -/
def members (t : UserType) : List Member :=
  if t.isData then
    t.fields.map Field.dataMember ++ dirtyFlag :: t.events.map Event.dataMember
  else t.fields.map Field.plainMember

/-- How the members are loaded. -/
def loadings (t : UserType) : List Loading :=
  t.fields.map Field.loading ++ if t.isData then idleLoadings t.events else []

/-- How the fields are stored. -/
def storings (t : UserType) : List Statement := t.fields.map Field.storing

/-- The functions that load and store the structure. -/
def storing (t : UserType) : Code :=
  let object : Token := .runtime "SchemaObject"
  Code.function ("deserialize" ++ Code.parens ("object : &" ++ object) ++ "-> Self")
      (Code.selfValue (t.loadings.map Loading.initializer)) ++
    Code.function ("serialize" ++ Code.parens ("& self , object : & mut" ++ object))
      (t.storings.flatMap Statement.code)

/-- The declarations of a user type. -/
def fragment (t : UserType) : Fragment :=
  [.record t.summary t.name t.members,
    .functions (Code.storedTrait ++ "for" ++ Token.name t.name) t.storing]

end UserType

end EntitySchema.Schema
