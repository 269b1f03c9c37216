import EntitySchema.Decimal.Binary64

/-!
# Shortest decimal text

The digits of a magnitude are the fewest that read back as the same magnitude, and among those the
nearest to it. For one digit, two digits and so on, the two neighbours of the magnitude on that
decimal grid are tried; the first grid with a neighbour inside the rounding interval gives the
digits.
-/

namespace EntitySchema.Decimal

/-- A decimal `d.ddd * 10 ^ exponent`, by its digits without the point. -/
structure Digits where
  /-- The digits as one number. -/
  significand : Nat
  /-- The power of ten of the first digit. -/
  exponent : Int
deriving DecidableEq, Repr, Inhabited

/-- The greatest number of trial powers of ten, above any exponent of a magnitude. -/
def powerLimit : Nat := 400

/-- The least `k` at or after `k₀` that satisfies a condition, looking at most `fuel` steps ahead. -/
def leastFrom (p : Nat → Bool) : (fuel k₀ : Nat) → Nat
  | 0, k => k
  | fuel + 1, k => if p k then k else leastFrom p fuel (k + 1)

/-- The power of ten of the first digit of a positive quotient. -/
def leadingPower (num den : Nat) : Int :=
  if den ≤ num then
    (leastFrom (fun k => num < den * Nat.pow 10 (k + 1)) powerLimit 0 : Int)
  else
    -(leastFrom (fun k => den ≤ num * Nat.pow 10 k) powerLimit 1 : Int)

/-- The quotient `num / den` in units of `10 ^ p`, as a pair. -/
def inUnits (num den : Nat) (p : Int) : Nat × Nat :=
  if 0 ≤ p then (num, den * Nat.pow 10 p.toNat) else (num * Nat.pow 10 (-p).toNat, den)

namespace Binary64

/-- The ends of the interval of numbers that round to a magnitude, over the common denominator of
the magnitude itself, all in quarters of the last mantissa bit. -/
def interval (x : Binary64) : Nat × Nat × Nat × Nat :=
  let atBinade := x.mantissa == mantissaBound / 2 && minExponent < x.exponent
  let low := 4 * x.mantissa - (if atBinade then 1 else 2)
  let high := 4 * x.mantissa + 2
  if 0 ≤ x.exponent then
    let unit := Nat.pow 2 x.exponent.toNat
    (low * unit, 4 * x.mantissa * unit, high * unit, 4)
  else
    (low, 4 * x.mantissa, high, 4 * Nat.pow 2 (-x.exponent).toNat)

/-- The neighbour on the grid of `10 ^ p` that reads back as the magnitude, the nearer of two. -/
def onGrid (x : Binary64) (p : Int) : Option Nat :=
  let (low, value, high, den) := x.interval
  let even := x.mantissa % 2 == 0
  let (n, d) := inUnits value den p
  let inside (q : Nat) : Bool :=
    let (l, dl) := inUnits low den p
    let (h, dh) := inUnits high den p
    if even then l ≤ q * dl && q * dh ≤ h else l < q * dl && q * dh < h
  let below := n / d
  let above := below + 1
  match inside below && 0 < below, inside above with
  | true, true =>
    let r := n % d
    if 2 * r < d || (2 * r == d && below % 2 == 0) then some below else some above
  | true, false => some below
  | false, true => some above
  | false, false => none

/-- Tries grids with more and more digits. -/
def shortestFrom (x : Binary64) (lead : Int) : (fuel digits : Nat) → Digits
  | 0, _ => ⟨0, 0⟩
  | fuel + 1, digits =>
    match x.onGrid (lead - digits) with
    | some q => if q == Nat.pow 10 (digits + 1) then ⟨1, lead + 1⟩ else ⟨q, lead⟩
    | none => shortestFrom x lead fuel (digits + 1)

/-- The shortest digits of a positive magnitude. -/
def shortest (x : Binary64) : Digits :=
  let (num, den) := x.ratio
  shortestFrom x (leadingPower num den) 18 0

/-- The exponents of the first digit for which no power of ten is written. -/
def isPositional (e : Int) : Bool := -5 ≤ e && e ≤ 15

/-- The text of a magnitude: positional with at least one digit after the point while the exponent
is small, otherwise with a signed power of ten. -/
def text (x : Binary64) : String :=
  if x.isZero then "0.0"
  else
    let d := x.shortest
    let digits := Nat.toDigits 10 d.significand
    let e := d.exponent
    if isPositional e then
      if e < 0 then
        "0." ++ String.ofList (List.replicate (-e - 1).toNat '0' ++ digits)
      else
        let whole := e.toNat + 1
        let front := digits.take whole ++ List.replicate (whole - digits.length) '0'
        let back := digits.drop whole
        String.ofList front ++ "." ++ (if back.isEmpty then "0" else String.ofList back)
    else
      let fraction := if digits.length ≤ 1 then "" else "." ++ String.ofList (digits.drop 1)
      let sign := if e < 0 then "-" else "+"
      String.ofList (digits.take 1) ++ fraction ++ "e" ++ sign ++ toString e.natAbs

end Binary64

end EntitySchema.Decimal
