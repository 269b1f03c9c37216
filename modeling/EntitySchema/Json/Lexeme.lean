import EntitySchema.Decimal.Shortest
import EntitySchema.Json.Fault

/-!
# Words, numbers and strings of JSON

Each reader starts behind the character by which it was recognised, except where it says otherwise.
Numbers keep what a 64-bit reader can hold: an integer in range stays exact, anything else becomes a
rounded magnitude.
-/

namespace EntitySchema.Json

/-- Reads the given characters. -/
def readWord : List Char → Cursor → Except Fault Cursor
  | [], c => .ok c
  | x :: rest, c =>
    match c.peek with
    | none => c.fail .endOfValue
    | some y => if x = y then readWord rest c.advance
        else .error { reason := .expectedIdent, position := c.peekPosition }

/-- A number of a text. -/
inductive Number where
  /-- A natural number below `2 ^ 64`. -/
  | natural (n : Nat)
  /-- The negative of a positive number up to `2 ^ 63`. -/
  | negative (n : Nat)
  /-- A rounded number. -/
  | decimal (isNegative : Bool) (magnitude : Decimal.Binary64)
deriving DecidableEq, Repr, Inhabited

/-- What stands in the text when a number does. -/
def Number.found : Number → Found
  | .natural n => .integer n
  | .negative n => .integer (-n)
  | .decimal isNegative m => .decimal ((if isNegative then "-" else "") ++ m.text)

/-- Appends digits to a number while it stays within a limit; the digits left over come second. -/
def absorb (limit : Nat) : (n : Nat) → List Nat → Nat × List Nat
  | n, [] => (n, [])
  | n, d :: rest => if limit < 10 * n + d then (n, d :: rest) else absorb limit (10 * n + d) rest

/-- The greatest significand. -/
def maxSignificand : Nat := UInt64.size - 1

/-- The greatest written exponent. -/
def maxExponent : Nat := 2147483647

/-- The magnitude of a significand and a power of ten. -/
def magnitude (significand : Nat) (exponent : Int) (c : Cursor) : Except Fault Decimal.Binary64 :=
  match (Decimal.Binary64.ofNat significand).bind (·.scaleTen exponent) with
  | some m => .ok m
  | none => c.fail .numberOutOfRange

/-- Reads an exponent, starting at its mark. -/
def readExponent (isNegative : Bool) (significand : Nat) (exponent : Int) : Reader Number := fun c => do
  let c := c.advance
  let (down, c) := match c.peek with
    | some '+' => (false, c.advance)
    | some '-' => (true, c.advance)
    | _ => (false, c)
  match c.peek with
  | none => c.fail .endOfValue
  | some x =>
    if !x.isDigit then
      .error { reason := .invalidNumber, position := c.peekPosition }
    else
      let (digits, after) := c.digits
      let (e, left) := absorb maxExponent 0 digits
      if left.isEmpty then
        let m ← magnitude significand (if down then exponent - e else exponent + e) after
        pure (.decimal isNegative m, after)
      else if significand != 0 && !down then
        .error { reason := .numberOutOfRange,
                 position := c.positionAfter (digits.length - left.length + 1) }
      else
        pure (.decimal isNegative .zero, after)

/-- Reads what may follow the digits of a number that is no integer: an exponent, or nothing. -/
def readScale (isNegative : Bool) (significand : Nat) (exponent : Int) : Reader Number := fun c =>
  match c.peek with
  | some 'e' | some 'E' => readExponent isNegative significand exponent c
  | _ => do pure (.decimal isNegative (← magnitude significand exponent c), c)

/-- Reads a fraction, starting at its point. -/
def readFraction (isNegative : Bool) (significand : Nat) (exponent : Int) : Reader Number := fun c => do
  let c := c.advance
  let (digits, after) := c.digits
  if digits.isEmpty then
    c.refuse (if c.peek.isNone then .endOfValue else .invalidNumber)
  else
    let (s, left) := absorb maxSignificand significand digits
    readScale isNegative s (exponent - (digits.length - left.length : Nat)) after

/-- The number of an integer text. -/
def Number.ofInteger (isNegative : Bool) (n : Nat) : Number :=
  if !isNegative then .natural n
  else if 0 < n && n ≤ Int64.size / 2 then .negative n
  else .decimal true ((Decimal.Binary64.ofNat n).getD .zero)

/-- Reads a number, behind its sign if it has one. -/
def readNumber (isNegative : Bool) : Reader Number := fun c =>
  match c.peek with
  | none => c.fail .endOfValue
  | some x =>
    if !x.isDigit then
      .error { reason := .invalidNumber, position := c.peekPosition }
    else if x = '0' && (c.advance.peek.any Char.isDigit) then
      c.advance.refuse .invalidNumber
    else
      let (digits, after) := c.digits
      let (significand, left) := absorb maxSignificand 0 digits
      match after.peek with
      | some '.' => readFraction isNegative significand left.length after
      | some 'e' | some 'E' => readExponent isNegative significand left.length after
      | _ =>
        if left.isEmpty then .ok (.ofInteger isNegative significand, after)
        else readScale isNegative significand left.length after

/-- The value of a hexadecimal digit. -/
def hexValue (x : Char) : Option Nat :=
  if '0' ≤ x ∧ x ≤ '9' then some (x.toNat - '0'.toNat)
  else if 'a' ≤ x ∧ x ≤ 'f' then some (x.toNat - 'a'.toNat + 10)
  else if 'A' ≤ x ∧ x ≤ 'F' then some (x.toNat - 'A'.toNat + 10)
  else none

/-- The number of bytes of some characters. -/
def byteCount (cs : List Char) : Nat := cs.foldr (fun c n => c.utf8Size + n) 0

/-- Reads the four digits of a numbered escape. -/
def readHex : Reader Nat := fun c =>
  match c.rest with
  | x₁ :: x₂ :: x₃ :: x₄ :: _ =>
    match hexValue x₁, hexValue x₂, hexValue x₃, hexValue x₄ with
    | some a, some b, some d, some e =>
      .ok (4096 * a + 256 * b + 16 * d + e, c.advance.advance.advance.advance)
    | _, _, _, _ => .error { reason := .invalidEscape, position := c.positionAfter 4 }
  | _ =>
    let reason := if byteCount c.rest < 4 then .endOfString else .invalidEscape
    .error { reason, position := c.positionAfter 4 }

/-- The character of an escape that is a single letter. -/
def letterEscape : Char → Option Char
  | '"' => some '"'
  | '\\' => some '\\'
  | '/' => some '/'
  | 'b' => some '\x08'
  | 'f' => some '\x0c'
  | 'n' => some '\n'
  | 'r' => some '\r'
  | 't' => some '\t'
  | _ => none

/-- Whether a number is the first half of a surrogate pair. -/
def isHighSurrogate (n : Nat) : Bool := 0xD800 ≤ n && n ≤ 0xDBFF

/-- Whether a number is the second half of a surrogate pair. -/
def isLowSurrogate (n : Nat) : Bool := 0xDC00 ≤ n && n ≤ 0xDFFF

/-- Reads one expected character of a surrogate pair. -/
def readPairMark (x : Char) (c : Cursor) : Except Fault Cursor :=
  match c.peek with
  | none => c.fail .endOfString
  | some y => if x = y then .ok c.advance
      else .error { reason := .endOfHexEscape, position := c.peekPosition }

/-- Reads a numbered escape, behind its letter; surrogates have to come in pairs. -/
def readUnicode : Reader Char := fun c => do
  let (n, c) ← readHex c
  if isLowSurrogate n then c.fail .loneSurrogate
  else if isHighSurrogate n then do
    let c ← readPairMark '\\' c
    let c ← readPairMark 'u' c
    let (m, c) ← readHex c
    if isLowSurrogate m then
      pure (Char.ofNat (0x10000 + 0x400 * (n - 0xD800) + (m - 0xDC00)), c)
    else
      c.fail .loneSurrogate
  else
    pure (Char.ofNat n, c)

/-- Reads an escape, behind the backslash. -/
def readEscape : Reader Char := fun c =>
  match c.peek with
  | none => c.fail .endOfString
  | some x =>
    match letterEscape x with
    | some y => .ok (y, c.advance)
    | none =>
      if x = 'u' then readUnicode c.advance
      else .error { reason := .invalidEscape, position := c.peekPosition }

/-- Passes over an escape, behind the backslash; surrogates are not looked at. -/
def skipEscape (c : Cursor) : Except Fault Cursor :=
  match c.peek with
  | none => c.fail .endOfString
  | some x =>
    if (letterEscape x).isSome then .ok c.advance
    else if x = 'u' then do
      let (_, c) ← readHex c.advance
      pure c
    else .error { reason := .invalidEscape, position := c.peekPosition }

/-- Reads the characters of a string, collecting them in reverse. -/
def readChars : (fuel : Nat) → List Char → Reader String
  | 0, _, c => c.fail .endOfString
  | fuel + 1, acc, c =>
    match c.peek with
    | none => c.fail .endOfString
    | some x =>
      if x = '"' then .ok (String.ofList acc.reverse, c.advance)
      else if x = '\\' then do
        let (y, c) ← readEscape c.advance
        readChars fuel (y :: acc) c
      else if x.toNat < 0x20 then c.advance.fail .controlCharacter
      else readChars fuel (x :: acc) c.advance

/-- Reads a string, behind its opening quote. -/
def readString : Reader String := fun c => readChars (c.rest.length + 1) [] c

/-- Passes over the characters of a string. -/
def skipChars : (fuel : Nat) → Cursor → Except Fault Cursor
  | 0, c => c.fail .endOfString
  | fuel + 1, c =>
    match c.peek with
    | none => c.fail .endOfString
    | some x =>
      if x = '"' then .ok c.advance
      else if x = '\\' then do
        let c ← skipEscape c.advance
        skipChars fuel c
      else if x.toNat < 0x20 then c.fail .controlCharacter
      else skipChars fuel c.advance

/-- Passes over a string, behind its opening quote. -/
def skipString (c : Cursor) : Except Fault Cursor := skipChars (c.rest.length + 1) c

end EntitySchema.Json
