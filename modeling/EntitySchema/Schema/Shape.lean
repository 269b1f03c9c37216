import EntitySchema.Wire.Fields
import EntitySchema.Wire.Kind

/-!
# Shapes of values

A shape says what a field, an event or a command carries: a built-in scalar, a user type by its
qualified name, or an option, a list or a map of shapes.
-/

namespace EntitySchema.Schema

/-- A built-in type of single values. -/
inductive Scalar where
  | bool
  | uint32
  | uint64
  | int32
  | int64
  | sint32
  | sint64
  | fixed32
  | fixed64
  | sfixed32
  | sfixed64
  | float
  | double
  | string
  | bytes
  | entityId
deriving DecidableEq, Repr, Inhabited

namespace Scalar

/-- Every scalar, in declaration order. -/
def all : List Scalar :=
  [.bool, .uint32, .uint64, .int32, .int64, .sint32, .sint64, .fixed32, .fixed64, .sfixed32,
    .sfixed64, .float, .double, .string, .bytes, .entityId]

/-- The kind under which values of the scalar are stored. -/
def kind : Scalar → Wire.Kind
  | .bool => .bool
  | .uint32 => .uint32
  | .uint64 => .uint64
  | .int32 => .int32
  | .int64 => .int64
  | .sint32 => .sint32
  | .sint64 => .sint64
  | .fixed32 => .fixed32
  | .fixed64 => .fixed64
  | .sfixed32 => .sfixed32
  | .sfixed64 => .sfixed64
  | .float => .float
  | .double => .double
  | .string => .string
  | .bytes => .bytes
  | .entityId => .entityId

/-- The name of the scalar in documents. -/
def name : Scalar → String
  | .bool => "bool"
  | .uint32 => "uint32"
  | .uint64 => "uint64"
  | .int32 => "int32"
  | .int64 => "int64"
  | .sint32 => "sint32"
  | .sint64 => "sint64"
  | .fixed32 => "fixed32"
  | .fixed64 => "fixed64"
  | .sfixed32 => "sfixed32"
  | .sfixed64 => "sfixed64"
  | .float => "float"
  | .double => "double"
  | .string => "string"
  | .bytes => "bytes"
  | .entityId => "EntityId"

/-- The scalar with a given name. -/
def ofName? (name : String) : Option Scalar := all.find? fun s => s.name = name

/-- Whether values are handed over by copy rather than by reference. -/
def isCopy : Scalar → Bool
  | .string | .bytes => false
  | _ => true

/-- Whether values can be keys of a map; floating point numbers cannot. -/
def isHashable : Scalar → Bool
  | .float | .double => false
  | _ => true

end Scalar

/-- What a field, an event or a command carries. -/
inductive Shape where
  /-- A built-in scalar. -/
  | scalar (s : Scalar)
  /-- A user type, by its qualified name. -/
  | reference (name : String)
  /-- A value or none. -/
  | option (inner : Shape)
  /-- Any number of values. -/
  | list (inner : Shape)
  /-- Values by keys. -/
  | map (key value : Shape)
deriving DecidableEq, Repr, Inhabited

namespace Shape

/-- Whether the shape is an option, a list or a map. -/
def isContainer : Shape → Bool
  | .option _ | .list _ | .map _ _ => true
  | .scalar _ | .reference _ => false

/-- Whether values of the shape can be keys of a map. -/
def isKey : Shape → Bool
  | .scalar s => s.isHashable
  | _ => false

/-- The user types a shape mentions, outermost first. -/
def references : Shape → List String
  | .scalar _ => []
  | .reference name => [name]
  | .option inner | .list inner => inner.references
  | .map key value => key.references ++ value.references

/-- The kind of the values that a shape is stored as: a user type and an entry of a map are objects
of their own, an option and a list are stored as their contents. -/
def kind : Shape → Wire.Kind
  | .scalar s => s.kind
  | .reference _ | .map _ _ => .object
  | .option inner | .list inner => inner.kind

/-- The written form of a shape. -/
def text : Shape → String
  | .scalar s => s.name
  | .reference name => name
  | .option inner => "option<" ++ inner.text ++ ">"
  | .list inner => "list<" ++ inner.text ++ ">"
  | .map key value => "map<" ++ key.text ++ ", " ++ value.text ++ ">"

end Shape

/-- The field number of the key in an entry of a map. -/
def entryKey : Wire.FieldId := 1

/-- The field number of the value in an entry of a map. -/
def entryValue : Wire.FieldId := 2

end EntitySchema.Schema
