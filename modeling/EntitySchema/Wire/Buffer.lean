import EntitySchema.Wire.Bytes

/-!
# Buffers

A buffer is a byte string that is written at its end and read in place. Its numbers are little-endian
words, each as wide as the type of the number, and stand at any position. Floating point numbers are
written by their bits.
-/

namespace EntitySchema.Wire

/-- How the numbers of a type are carried by words of a fixed width. -/
structure WordForm (α : Type) where
  /-- The number of bytes of a word. -/
  width : Nat
  /-- The word that carries a number. -/
  toWord : α → BitVec (8 * width)
  /-- The number that a word carries. -/
  ofWord : BitVec (8 * width) → α
  ofWord_toWord : ∀ a, ofWord (toWord a) = a

namespace WordForm

/-- Bytes. -/
def uint8 : WordForm UInt8 where
  width := 1
  toWord := UInt8.toBitVec
  ofWord := UInt8.ofBitVec
  ofWord_toWord _ := rfl

/-- Words of 32 bits. -/
def uint32 : WordForm UInt32 where
  width := 4
  toWord := UInt32.toBitVec
  ofWord := UInt32.ofBitVec
  ofWord_toWord _ := rfl

/-- Words of 64 bits. -/
def uint64 : WordForm UInt64 where
  width := 8
  toWord := UInt64.toBitVec
  ofWord := UInt64.ofBitVec
  ofWord_toWord _ := rfl

/-- Signed numbers of 32 bits, in two's complement. -/
def int32 : WordForm Int32 where
  width := 4
  toWord := Int32.toBitVec
  ofWord := Int32.ofBitVec
  ofWord_toWord _ := rfl

/-- Signed numbers of 64 bits, in two's complement. -/
def int64 : WordForm Int64 where
  width := 8
  toWord := Int64.toBitVec
  ofWord := Int64.ofBitVec
  ofWord_toWord _ := rfl

/-- Floating point numbers of 32 bits, by their bits. -/
def float : WordForm UInt32 := uint32

/-- Floating point numbers of 64 bits, by their bits. -/
def double : WordForm UInt64 := uint64

end WordForm

/-- One write to a buffer. -/
inductive Write where
  | uint8 (n : UInt8)
  | uint32 (n : UInt32)
  | int32 (n : Int32)
  | uint64 (n : UInt64)
  | int64 (n : Int64)
  | float (bits : UInt32)
  | double (bits : UInt64)
  | bytes (b : Bytes)
deriving DecidableEq, Repr, Inhabited

namespace Bytes

/-- Where the next write begins. -/
def position (bytes : Bytes) : Nat := bytes.length

/-- Writes bytes at the end. -/
def putBytes (bytes more : Bytes) : Bytes := bytes ++ more

/-- Writes a number at the end. -/
def putWord {α : Type} (form : WordForm α) (bytes : Bytes) (a : α) : Bytes :=
  bytes.putBytes (littleEndian form.width (form.toWord a).toNat)

/-- Reads a number in place. -/
def getWord {α : Type} (form : WordForm α) (bytes : Bytes) (offset : Nat) : Except DecodeError α :=
  (bytes.word form.width offset).map fun n => form.ofWord (.ofNat _ n)

/-- Carries out a write. -/
def write (bytes : Bytes) : Write → Bytes
  | .uint8 n => bytes.putWord .uint8 n
  | .uint32 n => bytes.putWord .uint32 n
  | .int32 n => bytes.putWord .int32 n
  | .uint64 n => bytes.putWord .uint64 n
  | .int64 n => bytes.putWord .int64 n
  | .float bits => bytes.putWord .float bits
  | .double bits => bytes.putWord .double bits
  | .bytes b => bytes.putBytes b

/-- Carries out writes one after the other. -/
def writeAll (bytes : Bytes) (writes : List Write) : Bytes := writes.foldl write bytes

end Bytes

end EntitySchema.Wire
