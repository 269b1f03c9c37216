import EntitySchema.Proofs.Words

/-!
# The arithmetic of zigzag words

A number from zero on is carried by its double, and a number below zero by the odd word before the
double of its distance from zero. This counts `0, -1, 1, -2` and so on without gap, so the numbers of a
width and the words of the width are carried to each other and back.

## Implementation notes

The words are computed by shifts, a negation and an exclusive or, which wrap around silently. Whether
one of these steps overflows is therefore asked of the same steps with a check in front of each:
`foldChecked` and `unfoldChecked` have no result as soon as a shift reaches the width of the word or
the least number is negated. That they always have one, and which, is proved for every width.
-/

namespace EntitySchema.Wire.Zigzag

variable {w : Nat}

/-- Folding the sign of a number into the lowest bit doubles the number from zero on, and takes a
number below zero to the odd word before its negated double. -/
theorem toNat_fold (x : BitVec (w + 1)) :
    (((x <<< 1) ^^^ x.sshiftRight w).toNat : Int) =
      if 0 ≤ x.toInt then 2 * x.toInt else -2 * x.toInt - 1 := by
  have hlt : x.toNat < 2 ^ (w + 1) := x.isLt
  have hpow : 2 ^ (w + 1) = 2 * 2 ^ w := Nat.pow_succ'
  have hshift : (x <<< 1).toNat = 2 * x.toNat % 2 ^ (w + 1) := by
    rw [BitVec.toNat_shiftLeft, Nat.shiftLeft_eq, pow_one, Nat.mul_comm]
  have hmsb : x.msb = decide (2 ^ w ≤ x.toNat) := x.msb_eq_decide
  rw [sshiftRight_eq_mask, BitVec.toInt_eq_msb_cond]
  by_cases hhalf : 2 ^ w ≤ x.toNat
  · -- the double leaves the word, and its complement is what is left up to the next power of two
    have hmod : 2 * x.toNat % 2 ^ (w + 1) = 2 * x.toNat - 2 ^ (w + 1) := by
      rw [Nat.mod_eq_sub_mod (by omega), Nat.mod_eq_of_lt (by omega)]
    rw [hmsb, decide_eq_true hhalf, if_pos rfl, if_pos rfl, BitVec.xor_allOnes, BitVec.toNat_not,
      hshift, hmod, if_neg (by omega)]
    omega
  · rw [hmsb, decide_eq_false hhalf, if_neg Bool.false_ne_true, if_neg Bool.false_ne_true,
      BitVec.xor_zero, hshift, Nat.mod_eq_of_lt (by omega), if_pos (by omega)]
    omega

/-! ### Checked steps -/

/-- A shift, which overflows when it is by the width of the word or more. -/
def checkedShift (shift : BitVec w → Nat → BitVec w) (x : BitVec w) (places : Nat) :
    Option (BitVec w) :=
  if places < w then some (shift x places) else none

/-- The negated number, which overflows at the least number. -/
def checkedNeg (x : BitVec w) : Option (BitVec w) :=
  if x.negOverflow then none else some (-x)

/-- Folds the sign of a number into the lowest bit, unless a step overflows. -/
def foldChecked (x : BitVec w) : Option (BitVec w) := do
  let doubled ← checkedShift (· <<< ·) x 1
  let mask ← checkedShift BitVec.sshiftRight x (w - 1)
  pure (doubled ^^^ mask)

/-- Unfolds the sign of a number from the lowest bit, unless a step overflows. -/
def unfoldChecked (z : BitVec w) : Option (BitVec w) := do
  let half ← checkedShift (· >>> ·) z 1
  let mask ← checkedNeg (z &&& 1#w)
  pure (half ^^^ mask)

theorem checkedShift_of_lt (shift : BitVec w → Nat → BitVec w) (x : BitVec w) {places : Nat}
    (h : places < w) : checkedShift shift x places = some (shift x places) :=
  if_pos h

/-- The lowest bit of a word of two bits or more is not the least number. -/
theorem checkedNeg_and_one (h : 1 < w) (z : BitVec w) :
    checkedNeg (z &&& 1#w) = some (-(z &&& 1#w)) := by
  have hbit : (z &&& 1#w).toNat ≤ 1 := by
    rw [BitVec.toNat_and, BitVec.toNat_ofNat, Nat.mod_eq_of_lt (Nat.one_lt_two_pow (by omega)),
      Nat.and_one_is_mod]
    omega
  have hnonneg : 0 ≤ (z &&& 1#w).toInt := by
    have hpow : 2 ^ 2 ≤ 2 ^ w := Nat.pow_le_pow_right (by decide) h
    rw [BitVec.toInt_eq_toNat_cond, if_pos (by omega)]
    exact Int.natCast_nonneg _
  have hleast : -(2 : Int) ^ (w - 1) < 0 := by
    rw [neg_lt_zero]
    positivity
  have hfits : (z &&& 1#w).negOverflow = false := by
    rw [BitVec.negOverflow, beq_eq_false_iff_ne]
    omega
  rw [checkedNeg, hfits, if_neg Bool.false_ne_true]

theorem foldChecked_eq (h : 1 < w) (x : BitVec w) :
    foldChecked x = some ((x <<< 1) ^^^ x.sshiftRight (w - 1)) := by
  rw [foldChecked, checkedShift_of_lt _ x h, checkedShift_of_lt _ x (by omega)]
  rfl

theorem unfoldChecked_eq (h : 1 < w) (z : BitVec w) :
    unfoldChecked z = some ((z >>> 1) ^^^ -(z &&& 1#w)) := by
  rw [unfoldChecked, checkedShift_of_lt _ z h, checkedNeg_and_one h]
  rfl

/-- Numbers and words of 32 and of 64 bits are carried to each other and back. The word of a number
is its double or the odd word before its negated double, and no step of the computation overflows. -/
theorem carries_signed_numbers :
    (∀ n : Int32,
      ((encode32 n).toNat : Int) = (if 0 ≤ n.toInt then 2 * n.toInt else -2 * n.toInt - 1) ∧
      decode32 (encode32 n) = n ∧
      foldChecked n.toBitVec = some (encode32 n).toBitVec) ∧
    (∀ u : UInt32,
      encode32 (decode32 u) = u ∧ unfoldChecked u.toBitVec = some (decode32 u).toBitVec) ∧
    (∀ n : Int64,
      ((encode64 n).toNat : Int) = (if 0 ≤ n.toInt then 2 * n.toInt else -2 * n.toInt - 1) ∧
      decode64 (encode64 n) = n ∧
      foldChecked n.toBitVec = some (encode64 n).toBitVec) ∧
    (∀ u : UInt64,
      encode64 (decode64 u) = u ∧ unfoldChecked u.toBitVec = some (decode64 u).toBitVec) := by
  refine ⟨?_, ?_, ?_, ?_⟩
  · intro n
    exact ⟨toNat_fold n.toBitVec, decode32_encode32 n, foldChecked_eq (by decide) n.toBitVec⟩
  · intro u
    exact ⟨encode32_decode32 u, unfoldChecked_eq (by decide) u.toBitVec⟩
  · intro n
    exact ⟨toNat_fold n.toBitVec, decode64_encode64 n, foldChecked_eq (by decide) n.toBitVec⟩
  · intro u
    exact ⟨encode64_decode64 u, unfoldChecked_eq (by decide) u.toBitVec⟩

end EntitySchema.Wire.Zigzag
