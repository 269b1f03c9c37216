import EntitySchema.Wire.Value

/-!
# Agreement of values

Two values agree when they are of one kind and equal, where floating point numbers are compared as
numbers: the zeros agree with each other and a NaN agrees with nothing, itself included.
-/

namespace EntitySchema.Wire

/-- Whether single precision bits are a NaN. -/
def isNaN32 (bits : UInt32) : Bool := 0x7f800000 < bits &&& 0x7fffffff

/-- Whether double precision bits are a NaN. -/
def isNaN64 (bits : UInt64) : Bool := 0x7ff0000000000000 < bits &&& 0x7fffffffffffffff

/-- Equality of single precision numbers. -/
def numberEq32 (a b : UInt32) : Bool :=
  !isNaN32 a && (a == b || (a &&& 0x7fffffff == 0 && b &&& 0x7fffffff == 0))

/-- Equality of double precision numbers. -/
def numberEq64 (a b : UInt64) : Bool :=
  !isNaN64 a && (a == b || (a &&& 0x7fffffffffffffff == 0 && b &&& 0x7fffffffffffffff == 0))

mutual

/-- Whether two values agree. -/
def Value.agrees : Value → Value → Bool
  | .bool a, .bool b => a == b
  | .uint32 a, .uint32 b => a == b
  | .uint64 a, .uint64 b => a == b
  | .int32 a, .int32 b => a == b
  | .int64 a, .int64 b => a == b
  | .sint32 a, .sint32 b => a == b
  | .sint64 a, .sint64 b => a == b
  | .fixed32 a, .fixed32 b => a == b
  | .fixed64 a, .fixed64 b => a == b
  | .sfixed32 a, .sfixed32 b => a == b
  | .sfixed64 a, .sfixed64 b => a == b
  | .float a, .float b => numberEq32 a b
  | .double a, .double b => numberEq64 a b
  | .string a, .string b => a == b
  | .bytes a, .bytes b => a == b
  | .entityId a, .entityId b => a == b
  | .object ⟨a⟩, .object ⟨b⟩ => entriesAgree a b
  | _, _ => false

/-- Whether two lists of entries have the same numbers and agreeing values. -/
def entriesAgree : List (FieldId × List Value) → List (FieldId × List Value) → Bool
  | [], [] => true
  | (f, as) :: restA, (g, bs) :: restB => f == g && valuesAgree as bs && entriesAgree restA restB
  | _, _ => false

/-- Whether two lists of values agree position by position. -/
def valuesAgree : List Value → List Value → Bool
  | [], [] => true
  | a :: restA, b :: restB => a.agrees b && valuesAgree restA restB
  | _, _ => false

end

/-- Whether two objects agree. -/
def Fields.agrees (a b : Object) : Bool := entriesAgree a.entries b.entries

end EntitySchema.Wire
