/-!
# Reasons for refusing a byte string

Every reader of encoded bytes fails with one `DecodeError`. A constructor records the data of the
defect; the wording stands in `DecodeError.message` alone.
-/

namespace EntitySchema.Wire

/-- Why a byte string is not an encoding of the wanted kind. -/
inductive DecodeError where
  /-- A read ends at byte `required`, past the `available` bytes. -/
  | bufferTooShort (required available : Nat)
  /-- The byte at `offset` stands where a value tag is due and is none. -/
  | invalidValueTag (tag : UInt8) (offset : Nat)
  /-- The first byte of a header is no payload kind, or not the wanted one. -/
  | invalidPayloadKind (kind : UInt8)
  /-- The string whose length prefix starts at `offset` is not UTF-8. -/
  | invalidUtf8 (offset : Nat)
  /-- More than `maxDepth` objects are nested. -/
  | nestingTooDeep (maxDepth : Nat)
  /-- A complete value is followed by `remaining` further bytes. -/
  | trailingBytes (remaining : Nat)
  /-- A read that nothing guarded left the bytes. -/
  | outOfRange
deriving DecidableEq, Repr, Inhabited

/-- The wording of a defect. -/
def DecodeError.message : DecodeError → String
  | .bufferTooShort required available =>
    s!"buffer too short: required {required} bytes, available {available} bytes"
  | .invalidValueTag tag offset => s!"invalid value tag {tag.toNat} at offset {offset}"
  | .invalidPayloadKind kind => s!"invalid payload kind {kind.toNat}"
  | .invalidUtf8 offset => s!"invalid UTF-8 at offset {offset}"
  | .nestingTooDeep maxDepth => s!"object nesting exceeds {maxDepth} levels"
  | .trailingBytes remaining => s!"{remaining} trailing bytes after payload"
  | .outOfRange => "read outside the buffer"

end EntitySchema.Wire
