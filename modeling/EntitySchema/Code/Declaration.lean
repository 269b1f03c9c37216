import EntitySchema.Code.Storage

/-!
# Declarations

The items of a generated module are declarations. A declaration that introduces a name carries it as
data, so the names of a module and the members of its structures can be read off without reading
tokens.
-/

namespace EntitySchema.Code

open Schema (Shape)

/-- The type of a member of a structure. -/
inductive MemberType where
  /-- Values of a shape. -/
  | plain (shape : Shape)
  /-- Tracked values of a shape. -/
  | tracked (shape : Shape)
  /-- A flag. -/
  | flag
  /-- A queue of events of a shape. -/
  | queue (shape : Shape)
deriving DecidableEq, Repr, Inhabited

/-- The tokens of the type of a member. -/
def MemberType.code : MemberType → Code
  | .plain shape => shape.typeCode
  | .tracked shape => trackedCell ++ angles shape.typeCode
  | .flag => "bool"
  | .queue shape => Code.queue ++ angles shape.typeCode

/-- A public member of a structure. -/
structure Member where
  /-- The attributes in front. -/
  attributes : Code
  /-- The name. -/
  name : String
  /-- The type. -/
  type : MemberType
deriving DecidableEq, Repr, Inhabited

/-- The tokens of a member. -/
def Member.code (m : Member) : Code :=
  m.attributes ++ "pub" ++ Token.name m.name ++ ":" ++ m.type.code

/-- An initial value for a member. -/
structure Initializer where
  /-- The member. -/
  name : String
  /-- The value. -/
  value : Code
deriving DecidableEq, Repr, Inhabited

/-- The tokens of an initial value. -/
def Initializer.code (i : Initializer) : Code := Token.name i.name ++ ":" ++ i.value

/-- How a member is loaded. -/
structure Loading where
  /-- The member. -/
  name : String
  /-- Its value. -/
  value : Expression
deriving DecidableEq, Repr, Inhabited

/-- The initial value of a member that is loaded. -/
def Loading.initializer (l : Loading) : Initializer := ⟨l.name, l.value.code⟩

/-- An item of a module. -/
inductive Declaration where
  /-- A structure with members. -/
  | record (doc : String) (name : String) (members : List Member)
  /-- A structure without members. -/
  | marker (doc : Code) (name : String)
  /-- A choice between variants, each with a payload. -/
  | variants (doc : Code) (name : String) (cases : List (String × Code))
  /-- Any other item with a name. -/
  | other (before : Code) (name : String) (after : Code)
  /-- Functions of a type or of a trait at a type. -/
  | functions (header : Code) (body : Code)
deriving DecidableEq, Repr, Inhabited

namespace Declaration

/-- The name that the declaration introduces. -/
def name? : Declaration → Option String
  | .record _ name _ | .marker _ name | .variants _ name _ | .other _ name _ => some name
  | .functions _ _ => none

/-- The tokens of a declaration. -/
def code : Declaration → Code
  | .record text name members =>
    doc text ++ "# [ derive ( Debug , Clone , Default , PartialEq ) ] pub struct" ++
      Token.name name ++ braces (commaTerminated (members.map Member.code))
  | .marker attributes name =>
    attributes ++
      "# [ derive ( Debug , Clone , Copy , Default , PartialEq , Eq , Hash ) ] pub struct" ++
      Token.name name ++ ";"
  | .variants attributes name cases =>
    attributes ++ "# [ derive ( Debug , Clone , PartialEq ) ] pub enum" ++ Token.name name ++
      braces (commaTerminated (cases.map fun (variant, payload) => variant ++ parens payload))
  | .other before name after => before ++ Token.name name ++ after
  | .functions header body => "impl" ++ header ++ braces body

end Declaration

/-- Declarations that are written together. -/
abbrev Fragment := List Declaration

namespace Fragment

/-- The names that are introduced. -/
def names (f : Fragment) : List String := f.filterMap Declaration.name?

/-- The tokens of all declarations. -/
def code (f : Fragment) : Code := f.flatMap Declaration.code

end Fragment

/-- A value of the structure at hand. -/
def selfValue (members : List Initializer) : Code :=
  "Self" ++ braces (commaTerminated (members.map Initializer.code))

/-- A function of a trait. -/
def function (signature body : Code) : Code := "fn" ++ signature ++ braces body

end EntitySchema.Code
