import EntitySchema.Wire.Value
import EntitySchema.Wire.Zigzag

/-!
# Encoding of objects

An object is its number of fields, then for each field its number, its number of values and the
values. A value is its tag and its payload. Words are little-endian, `sint32` and `sint64` are
zigzag words, strings and byte strings follow their length, and a child object is encoded in place.
Counts and lengths are 32-bit words.
-/

namespace EntitySchema.Wire

/-- The bytes of a text in UTF-8. -/
def utf8 (s : String) : Bytes := s.toUTF8.toList

/-- Bytes behind their length. -/
def lengthPrefixed (b : Bytes) : Bytes := word32 (count32 b.length) ++ b

mutual

/-- The tag and the payload of a value. -/
def Value.encode : Value → Bytes
  | .bool b => Kind.bool.tag :: [if b then 1 else 0]
  | .uint32 n => Kind.uint32.tag :: word32 n
  | .uint64 n => Kind.uint64.tag :: word64 n
  | .int32 n => Kind.int32.tag :: word32 n.toUInt32
  | .int64 n => Kind.int64.tag :: word64 n.toUInt64
  | .sint32 n => Kind.sint32.tag :: word32 (Zigzag.encode32 n)
  | .sint64 n => Kind.sint64.tag :: word64 (Zigzag.encode64 n)
  | .fixed32 n => Kind.fixed32.tag :: word32 n
  | .fixed64 n => Kind.fixed64.tag :: word64 n
  | .sfixed32 n => Kind.sfixed32.tag :: word32 n.toUInt32
  | .sfixed64 n => Kind.sfixed64.tag :: word64 n.toUInt64
  | .float bits => Kind.float.tag :: word32 bits
  | .double bits => Kind.double.tag :: word64 bits
  | .string s => Kind.string.tag :: lengthPrefixed (utf8 s)
  | .bytes b => Kind.bytes.tag :: lengthPrefixed b
  | .entityId id => Kind.entityId.tag :: word64 id.raw
  | .object ⟨entries⟩ => Kind.object.tag :: (word32 (count32 entries.length) ++ encodeEntries entries)

/-- The fields of an object, one after the other. -/
def encodeEntries : List (FieldId × List Value) → Bytes
  | [] => []
  | (f, values) :: rest =>
    word32 f ++ word32 (count32 values.length) ++ encodeValues values ++ encodeEntries rest

/-- Values, one after the other. -/
def encodeValues : List Value → Bytes
  | [] => []
  | v :: rest => v.encode ++ encodeValues rest

end

/-- The encoding of an object. -/
def Fields.encode (o : Object) : Bytes :=
  word32 (count32 o.entries.length) ++ encodeEntries o.entries

end EntitySchema.Wire
