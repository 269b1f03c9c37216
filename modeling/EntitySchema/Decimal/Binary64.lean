/-!
# Double precision magnitudes

A finite magnitude of the binary64 format is a mantissa below `2 ^ 53` times a power of two. All
operations compute the exact quotient of natural numbers and round it once, to the nearest
magnitude and a tie to the even mantissa.
-/

namespace EntitySchema.Decimal

/-- The magnitude `mantissa * 2 ^ exponent`. -/
structure Binary64 where
  /-- The mantissa, below `2 ^ 53`. -/
  mantissa : Nat
  /-- The power of two. -/
  exponent : Int
deriving DecidableEq, Repr, Inhabited

namespace Binary64

/-- What every mantissa is below: `2 ^ 53`. -/
def mantissaBound : Nat := 9007199254740992

/-- The least exponent. -/
def minExponent : Int := -1074

/-- The greatest exponent. -/
def maxExponent : Int := 971

/-- The magnitude zero. -/
def zero : Binary64 := ⟨0, minExponent⟩

/-- Whether the magnitude is zero. -/
def isZero (x : Binary64) : Bool := x.mantissa == 0

/-- The quotient rounded to the nearest natural number, a tie to the even one. -/
def roundDiv (num den : Nat) : Nat :=
  let q := num / den
  let r := num % den
  if den < 2 * r || (2 * r == den && q % 2 == 1) then q + 1 else q

/-- The quotient `num / den` scaled by `2 ^ (-e)`, as a pair. -/
def scaled (num den : Nat) (e : Int) : Nat × Nat :=
  if 0 ≤ e then (num, den * Nat.pow 2 e.toNat) else (num * Nat.pow 2 (-e).toNat, den)

/-- The magnitude nearest to `num / den`, or nothing when that is beyond the greatest one. -/
def ofRatio (num den : Nat) : Option Binary64 :=
  if num == 0 || den == 0 then some zero
  else
    let e : Int := (num.log2 : Int) - den.log2 - 53
    let (n, d) := scaled num den e
    let e := max minExponent (if n < d * mantissaBound then e else e + 1)
    let (n, d) := scaled num den e
    let m := roundDiv n d
    let (m, e) := if m == mantissaBound then (mantissaBound / 2, e + 1) else (m, e)
    if maxExponent < e then none else some ⟨m, e⟩

/-- The magnitude as a quotient of natural numbers. -/
def ratio (x : Binary64) : Nat × Nat :=
  if 0 ≤ x.exponent then (x.mantissa * Nat.pow 2 x.exponent.toNat, 1)
  else (x.mantissa, Nat.pow 2 (-x.exponent).toNat)

/-- The magnitude nearest to a natural number. -/
def ofNat (n : Nat) : Option Binary64 := ofRatio n 1

/-- The rounded product. -/
def mul (x y : Binary64) : Option Binary64 :=
  let (a, b) := x.ratio
  let (c, d) := y.ratio
  ofRatio (a * c) (b * d)

/-- The rounded quotient. -/
def div (x y : Binary64) : Option Binary64 :=
  let (a, b) := x.ratio
  let (c, d) := y.ratio
  ofRatio (a * d) (b * c)

/-- The greatest power of ten that is a magnitude. -/
def maxPowerOfTen : Nat := 308

/-- A magnitude scaled by a power of ten in single rounded steps: one product, or quotients by at
most `10 ^ 308` each. Fails when the product is beyond the greatest magnitude. -/
def scaleTen (x : Binary64) (e : Int) : Option Binary64 :=
  if x.isZero then some zero
  else if 0 ≤ e then
    if e ≤ maxPowerOfTen then do x.mul (← ofNat (Nat.pow 10 e.toNat)) else none
  else do
    let k := (-e).toNat
    if k ≤ maxPowerOfTen then x.div (← ofNat (Nat.pow 10 k))
    else
      let y ← x.div (← ofNat (Nat.pow 10 maxPowerOfTen))
      let k := k - maxPowerOfTen
      if k ≤ maxPowerOfTen then y.div (← ofNat (Nat.pow 10 k)) else some zero

end Binary64

end EntitySchema.Decimal
