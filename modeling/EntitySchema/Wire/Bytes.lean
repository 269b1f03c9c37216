import EntitySchema.Wire.Error

/-!
# Byte strings and little-endian words

A byte string is a list of bytes. Words of any width are written least significant byte first, so
`littleEndian` and `ofLittleEndian` serve every fixed-width number of the format.

Reading comes in two forms. `slice` and `word` read in place and fail with `outOfRange` when the
range leaves the bytes; `ensure` is the guard that turns such a range into `bufferTooShort` first.
A `Cursor` reads from front to back and guards every read.
-/

namespace EntitySchema.Wire

/-- A string of bytes. -/
abbrev Bytes := List UInt8

/-- The greatest byte position; positions saturate there. -/
def maxPosition : Nat := UInt64.size - 1

/-- The `width` low bytes of `n`, least significant first. -/
def littleEndian : (width n : Nat) → Bytes
  | 0, _ => []
  | width + 1, n => UInt8.ofNat (n % 256) :: littleEndian width (n / 256)

/-- The number whose little-endian digits are the given bytes. -/
def ofLittleEndian : Bytes → Nat
  | [] => 0
  | b :: bs => b.toNat + 256 * ofLittleEndian bs

@[simp] theorem length_littleEndian (width n : Nat) : (littleEndian width n).length = width := by
  induction width generalizing n with
  | zero => rfl
  | succ width ih => simp [littleEndian, ih]

/-- The four bytes of a 32-bit word. -/
def word32 (w : UInt32) : Bytes := littleEndian 4 w.toNat

/-- The eight bytes of a 64-bit word. -/
def word64 (w : UInt64) : Bytes := littleEndian 8 w.toNat

/-- A length as a 32-bit count; longer lengths are written as the greatest count. -/
def count32 (n : Nat) : UInt32 := UInt32.ofNat (min n (UInt32.size - 1))

namespace Bytes

/-- Accepts a range of bytes exactly when it ends within the string. -/
def ensure (bytes : Bytes) (offset length : Nat) : Except DecodeError Unit :=
  let required := min (offset + length) maxPosition
  if bytes.length < required then
    .error (.bufferTooShort required bytes.length)
  else
    .ok ()

/-- The bytes of a range, which has to end within the string. -/
def slice (bytes : Bytes) (offset length : Nat) : Except DecodeError Bytes :=
  if offset + length ≤ bytes.length then
    .ok ((bytes.drop offset).take length)
  else
    .error .outOfRange

/-- The little-endian word of `width` bytes at `offset`. -/
def word (bytes : Bytes) (width offset : Nat) : Except DecodeError Nat :=
  (bytes.slice offset width).map ofLittleEndian

end Bytes

/-- A position in a byte string of `size` bytes, with the bytes that follow it. -/
structure Cursor where
  /-- The length of the whole string. -/
  size : Nat
  /-- The number of bytes before the position. -/
  offset : Nat
  /-- The bytes from the position on. -/
  rest : Bytes

namespace Cursor

/-- The position `offset` of a string. -/
def seek (bytes : Bytes) (offset : Nat) : Cursor :=
  { size := bytes.length, offset, rest := bytes.drop offset }

/-- The start of a string. -/
def start (bytes : Bytes) : Cursor := .seek bytes 0

/-- Accepts when `length` bytes follow the position. -/
def ensure (c : Cursor) (length : Nat) : Except DecodeError Unit :=
  let required := min (c.offset + length) maxPosition
  if c.size < required then .error (.bufferTooShort required c.size) else .ok ()

/-- The next `length` bytes, taken without a guard. -/
def advance (c : Cursor) (length : Nat) : Except DecodeError (Bytes × Cursor) :=
  let taken := c.rest.take length
  if taken.length = length ∧ c.offset + length ≤ maxPosition then
    .ok (taken, { c with offset := c.offset + length, rest := c.rest.drop length })
  else
    .error .outOfRange

/-- The next `length` bytes. -/
def take (c : Cursor) (length : Nat) : Except DecodeError (Bytes × Cursor) := do
  c.ensure length
  c.advance length

/-- The next `width` bytes as a little-endian word. -/
def word (c : Cursor) (width : Nat) : Except DecodeError (Nat × Cursor) := do
  let (bytes, c) ← c.take width
  pure (ofLittleEndian bytes, c)

/-- The next four bytes as a 32-bit word. -/
def word32 (c : Cursor) : Except DecodeError (UInt32 × Cursor) := do
  let (n, c) ← c.word 4
  pure (UInt32.ofNat n, c)

/-- The bytes after a 32-bit length prefix. -/
def prefixed (c : Cursor) : Except DecodeError (Bytes × Cursor) := do
  let (length, c) ← c.word32
  c.take length.toNat

/-- Accepts at the end of the string only. -/
def finish (c : Cursor) : Except DecodeError Unit :=
  let remaining := c.size - c.offset
  if 0 < remaining then .error (.trailingBytes remaining) else .ok ()

end Cursor

end EntitySchema.Wire
