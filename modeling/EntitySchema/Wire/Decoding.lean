import EntitySchema.Wire.Value
import EntitySchema.Wire.Zigzag

/-!
# Decoding of objects

Decoding takes any byte string and either yields an object or says what is wrong with the first
defect met in reading order. Fields may come in any order, may repeat and may hold no value; what
they hold is collected by number.

Objects may nest `maxNesting` deep. The reader of an object is defined by recursion on the number
of levels still open, so it is total and every level is handed the reader of the one below.
-/

namespace EntitySchema.Wire

/-- The greatest number of nested objects. -/
def maxNesting : Nat := 64

namespace Cursor

/-- Runs a step `n` times, handing on what was collected. -/
def fold {σ : Type} (step : σ → Cursor → Except DecodeError (σ × Cursor)) :
    Nat → σ → Cursor → Except DecodeError (σ × Cursor)
  | 0, s, c => .ok (s, c)
  | n + 1, s, c => do
    let (s, c) ← step s c
    fold step n s c

/-- A value made from the next `width` bytes, taken without a guard. -/
def fixed (c : Cursor) (width : Nat) (make : Nat → Value) : Except DecodeError (Value × Cursor) := do
  let (bytes, c) ← c.advance width
  pure (make (ofLittleEndian bytes), c)

/-- The text after a length prefix, which has to be UTF-8. -/
def text (c : Cursor) : Except DecodeError (String × Cursor) := do
  let (bytes, rest) ← c.prefixed
  match String.fromUTF8? ⟨bytes.toArray⟩ with
  | some s => pure (s, rest)
  | none => .error (.invalidUtf8 c.offset)

/-- What the payload of a kind holds, where `child` reads a nested object. The word of a kind that is
carried by one is taken without a guard. -/
def content (child : Cursor → Except DecodeError (Object × Cursor)) (c : Cursor) :
    Kind → Except DecodeError (Value × Cursor)
  | .bool => c.fixed 1 fun n => .bool (n != 0)
  | .uint32 => c.fixed 4 fun n => .uint32 (.ofNat n)
  | .uint64 => c.fixed 8 fun n => .uint64 (.ofNat n)
  | .int32 => c.fixed 4 fun n => .int32 (UInt32.ofNat n).toInt32
  | .int64 => c.fixed 8 fun n => .int64 (UInt64.ofNat n).toInt64
  | .sint32 => c.fixed 4 fun n => .sint32 (Zigzag.decode32 (.ofNat n))
  | .sint64 => c.fixed 8 fun n => .sint64 (Zigzag.decode64 (.ofNat n))
  | .fixed32 => c.fixed 4 fun n => .fixed32 (.ofNat n)
  | .fixed64 => c.fixed 8 fun n => .fixed64 (.ofNat n)
  | .sfixed32 => c.fixed 4 fun n => .sfixed32 (UInt32.ofNat n).toInt32
  | .sfixed64 => c.fixed 8 fun n => .sfixed64 (UInt64.ofNat n).toInt64
  | .float => c.fixed 4 fun n => .float (.ofNat n)
  | .double => c.fixed 8 fun n => .double (.ofNat n)
  | .entityId => c.fixed 8 fun n => .entityId ⟨.ofNat n⟩
  | .string => do
    let (s, c) ← c.text
    pure (.string s, c)
  | .bytes => do
    let (b, c) ← c.prefixed
    pure (.bytes b, c)
  | .object => do
    let (o, c) ← child c
    pure (.object o, c)

/-- Accepts when the payload follows, for a kind that is carried by one word. -/
def ensureWord (c : Cursor) (kind : Kind) : Except DecodeError Unit :=
  match kind.fixedSize with
  | some size => c.ensure size
  | none => .ok ()

/-- The payload of a value of a kind, where `child` reads a nested object. -/
def payload (child : Cursor → Except DecodeError (Object × Cursor)) (c : Cursor) (kind : Kind) :
    Except DecodeError (Value × Cursor) := do
  c.ensureWord kind
  c.content child kind

/-- A tag and the payload it announces. -/
def value (child : Cursor → Except DecodeError (Object × Cursor)) (c : Cursor) :
    Except DecodeError (Value × Cursor) := do
  let (tag, rest) ← c.word 1
  match Kind.ofTag? (.ofNat tag) with
  | some kind => payload child rest kind
  | none => .error (.invalidValueTag (.ofNat tag) c.offset)

/-- A field number, a number of values and the values, stored into `o`. -/
def field (child : Cursor → Except DecodeError (Object × Cursor)) (o : Object) (c : Cursor) :
    Except DecodeError (Object × Cursor) := do
  let (f, c) ← c.word32
  let (count, c) ← c.word32
  let (values, c) ← c.fold (fun values c => do
    let (v, c) ← c.value child
    pure (v :: values, c)) count.toNat []
  pure (o.pushAll f values.reverse, c)

/-- An object with at most `levels` nested objects, itself included. -/
def object : (levels : Nat) → Cursor → Except DecodeError (Object × Cursor)
  | 0, _ => .error (.nestingTooDeep maxNesting)
  | levels + 1, c => do
    let (count, c) ← c.word32
    c.fold (field (object levels)) count.toNat .empty

end Cursor

/-- The object that a byte string encodes. -/
def Fields.decode (bytes : Bytes) : Except DecodeError Object := do
  let (o, c) ← (Cursor.start bytes).object maxNesting
  c.finish
  pure o

end EntitySchema.Wire
