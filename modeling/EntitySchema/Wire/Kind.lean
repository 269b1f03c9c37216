/-!
# Kinds of stored values

A stored value is of one of seventeen kinds. A kind has a one-byte tag, a payload width if its
payload is a single word, and a group name that the accessors of generated code are named after.
-/

namespace EntitySchema.Wire

/-- The kind of a stored value. -/
inductive Kind where
  | bool
  | uint32
  | uint64
  | int32
  | int64
  | sint32
  | sint64
  | fixed32
  | fixed64
  | sfixed32
  | sfixed64
  | float
  | double
  | string
  | bytes
  | entityId
  | object
deriving DecidableEq, Repr, Inhabited

namespace Kind

/-- Every kind, in declaration order. -/
def all : List Kind :=
  [.bool, .uint32, .uint64, .int32, .int64, .sint32, .sint64, .fixed32, .fixed64, .sfixed32,
    .sfixed64, .float, .double, .string, .bytes, .entityId, .object]

/-- The byte that announces a value of the kind. -/
def tag : Kind → UInt8
  | .bool => 1
  | .uint32 => 2
  | .uint64 => 3
  | .int32 => 4
  | .int64 => 5
  | .float => 6
  | .double => 7
  | .string => 8
  | .bytes => 9
  | .entityId => 10
  | .object => 11
  | .sint32 => 12
  | .sint64 => 13
  | .fixed32 => 14
  | .fixed64 => 15
  | .sfixed32 => 16
  | .sfixed64 => 17

/-- The kind that a tag announces. -/
def ofTag? (t : UInt8) : Option Kind := all.find? fun k => k.tag = t

theorem ofTag?_tag (k : Kind) : ofTag? k.tag = some k := by
  cases k <;> decide

/-- The number of payload bytes of a kind that is carried by one word. -/
def fixedSize : Kind → Option Nat
  | .bool => some 1
  | .uint32 | .int32 | .sint32 | .fixed32 | .sfixed32 | .float => some 4
  | .uint64 | .int64 | .sint64 | .fixed64 | .sfixed64 | .double | .entityId => some 8
  | .string | .bytes | .object => none

/-- The name shared by the accessors of the kind. -/
def group : Kind → String
  | .bool => "bool"
  | .uint32 => "uint32"
  | .uint64 => "uint64"
  | .int32 => "int32"
  | .int64 => "int64"
  | .sint32 => "sint32"
  | .sint64 => "sint64"
  | .fixed32 => "fixed32"
  | .fixed64 => "fixed64"
  | .sfixed32 => "sfixed32"
  | .sfixed64 => "sfixed64"
  | .float => "float"
  | .double => "double"
  | .string => "string"
  | .bytes => "bytes"
  | .entityId => "entity_id"
  | .object => "object"

/-- The kind with a given group name. -/
def ofGroup? (name : String) : Option Kind := all.find? fun k => k.group = name

end Kind

end EntitySchema.Wire
