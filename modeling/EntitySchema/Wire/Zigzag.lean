/-!
# Zigzag words

Signed numbers are carried by unsigned words of the same width with the sign in the lowest bit, so
that numbers near zero stay small: `0, -1, 1, -2` become `0, 1, 2, 3`.
-/

namespace EntitySchema.Wire.Zigzag

/-- The word of a signed 32-bit number. -/
def encode32 (n : Int32) : UInt32 := ((n <<< 1) ^^^ (n >>> 31)).toUInt32

/-- The signed number of a 32-bit word. -/
def decode32 (w : UInt32) : Int32 := (w >>> 1).toInt32 ^^^ -(w &&& 1).toInt32

/-- The word of a signed 64-bit number. -/
def encode64 (n : Int64) : UInt64 := ((n <<< 1) ^^^ (n >>> 63)).toUInt64

/-- The signed number of a 64-bit word. -/
def decode64 (w : UInt64) : Int64 := (w >>> 1).toInt64 ^^^ -(w &&& 1).toInt64

end EntitySchema.Wire.Zigzag
