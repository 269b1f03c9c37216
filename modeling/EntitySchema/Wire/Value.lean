import EntitySchema.Wire.Bytes
import EntitySchema.Wire.Fields
import EntitySchema.Wire.Kind

/-!
# Stored values and objects

A `Value` is one of the seventeen kinds of `Kind`; an `Object` holds values under field numbers and
may itself be a value. Floating point numbers are their bits, so every NaN keeps its payload.

Typed access goes by kind: `Object.count` says how many values of a kind a field has and
`Object.index` picks one of them, falling back to the default of the kind. Values of other kinds
under the same number are passed over.
-/

namespace EntitySchema.Wire

/-- A reference to an entity of the world. -/
structure EntityId where
  /-- The number of the entity. -/
  raw : UInt64
deriving DecidableEq, Repr, Inhabited

/-- The written form of a reference. -/
def EntityId.text (id : EntityId) : String := s!"EntityId({id.raw.toNat})"

/-- A stored value. -/
inductive Value where
  | bool (b : Bool)
  | uint32 (n : UInt32)
  | uint64 (n : UInt64)
  | int32 (n : Int32)
  | int64 (n : Int64)
  | sint32 (n : Int32)
  | sint64 (n : Int64)
  | fixed32 (n : UInt32)
  | fixed64 (n : UInt64)
  | sfixed32 (n : Int32)
  | sfixed64 (n : Int64)
  | float (bits : UInt32)
  | double (bits : UInt64)
  | string (s : String)
  | bytes (b : Bytes)
  | entityId (id : EntityId)
  | object (o : Fields Value)
deriving Inhabited

/-- Values under field numbers. -/
abbrev Object := Fields Value

/-- The kind of a value. -/
def Value.kind : Value → Kind
  | .bool _ => .bool
  | .uint32 _ => .uint32
  | .uint64 _ => .uint64
  | .int32 _ => .int32
  | .int64 _ => .int64
  | .sint32 _ => .sint32
  | .sint64 _ => .sint64
  | .fixed32 _ => .fixed32
  | .fixed64 _ => .fixed64
  | .sfixed32 _ => .sfixed32
  | .sfixed64 _ => .sfixed64
  | .float _ => .float
  | .double _ => .double
  | .string _ => .string
  | .bytes _ => .bytes
  | .entityId _ => .entityId
  | .object _ => .object

/-- What reading an absent value of a kind yields: zero, false or empty. -/
def Kind.default : Kind → Value
  | .bool => .bool false
  | .uint32 => .uint32 0
  | .uint64 => .uint64 0
  | .int32 => .int32 0
  | .int64 => .int64 0
  | .sint32 => .sint32 0
  | .sint64 => .sint64 0
  | .fixed32 => .fixed32 0
  | .fixed64 => .fixed64 0
  | .sfixed32 => .sfixed32 0
  | .sfixed64 => .sfixed64 0
  | .float => .float 0
  | .double => .double 0
  | .string => .string ""
  | .bytes => .bytes []
  | .entityId => .entityId ⟨0⟩
  | .object => .object .empty

@[simp] theorem Kind.kind_default (k : Kind) : k.default.kind = k := by
  cases k <;> rfl

namespace Fields

/-- The values of a kind under a number, in the order they were stored. -/
def ofKind (o : Object) (k : Kind) (f : FieldId) : List Value :=
  (o.values f).filter fun v => v.kind = k

/-- How many values of a kind a number has, as a 32-bit count. -/
def count (o : Object) (k : Kind) (f : FieldId) : UInt32 := count32 (o.ofKind k f).length

/-- The value of a kind at a position under a number, or the default of the kind. -/
def index (o : Object) (k : Kind) (f : FieldId) (i : Nat) : Value :=
  ((o.ofKind k f)[i]?).getD k.default

/-- The child object at a position under a number, or the empty object. -/
def child (o : Object) (f : FieldId) (i : Nat) : Object :=
  match o.index .object f i with
  | .object child => child
  | _ => .empty

end Fields

mutual

/-- The number of objects nested in a value. -/
def Value.depth : Value → Nat
  | .object ⟨entries⟩ => entriesDepth entries + 1
  | _ => 0

/-- The greatest depth of the values of some entries. -/
def entriesDepth : List (FieldId × List Value) → Nat
  | [] => 0
  | (_, values) :: rest => max (valuesDepth values) (entriesDepth rest)

/-- The greatest depth of some values. -/
def valuesDepth : List Value → Nat
  | [] => 0
  | v :: rest => max v.depth (valuesDepth rest)

end

/-- The number of objects nested in an object, itself included. -/
def Fields.depth (o : Object) : Nat := entriesDepth o.entries + 1

end EntitySchema.Wire
