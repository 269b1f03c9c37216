import EntitySchema.Wire.Decoding
import EntitySchema.Wire.Encoding
import Mathlib

/-!
# Words and texts are read back

The payloads of the format are little-endian words, zigzag words and UTF-8 texts. Reading what was
written yields the number or the text again, whatever its value; and writing what was read yields the
bytes again, so each of them has one written form.

## Implementation notes

Zigzag words are treated once for every width, on bit vectors: the arithmetic shift spreads the sign
over the word, the negated lowest bit spreads it again, and the two masks cancel.
-/

namespace EntitySchema.Wire

/-- The digits of a number that fits the width give the number again. -/
theorem ofLittleEndian_littleEndian (width n : Nat) (h : n < 256 ^ width) :
    ofLittleEndian (littleEndian width n) = n := by
  induction width generalizing n with
  | zero =>
      have hn : n = 0 := by simpa using h
      simp [littleEndian, ofLittleEndian, hn]
  | succ width ih =>
      have hq : n / 256 < 256 ^ width := by
        rw [Nat.div_lt_iff_lt_mul (by decide), ← pow_succ]
        exact h
      have hb : (UInt8.ofNat (n % 256)).toNat = n % 256 := by simp
      rw [littleEndian, ofLittleEndian, ih _ hq, hb, Nat.mod_add_div]

theorem ofLittleEndian_lt (bytes : Bytes) : ofLittleEndian bytes < 256 ^ bytes.length := by
  induction bytes with
  | nil => simp [ofLittleEndian]
  | cons b rest ih =>
      have hb : b.toNat < 256 := b.toNat_lt
      rw [ofLittleEndian, List.length_cons, pow_succ]
      omega

/-- The digits that a number was read from are its digits. -/
theorem littleEndian_ofLittleEndian (bytes : Bytes) :
    littleEndian bytes.length (ofLittleEndian bytes) = bytes := by
  induction bytes with
  | nil => rfl
  | cons b rest ih =>
      have hb : b.toNat < 256 := b.toNat_lt
      have hmod : (b.toNat + 256 * ofLittleEndian rest) % 256 = b.toNat := by omega
      have hdiv : (b.toNat + 256 * ofLittleEndian rest) / 256 = ofLittleEndian rest := by omega
      rw [ofLittleEndian, List.length_cons, littleEndian, hmod, hdiv, ih, UInt8.ofNat_toNat]

namespace Bytes

/-- Bytes that stand between other bytes are the range they take up. -/
theorem slice_append (before piece after : Bytes) :
    slice (before ++ (piece ++ after)) before.length piece.length = .ok piece := by
  have hrange : before.length + piece.length ≤ (before ++ (piece ++ after)).length := by
    simp only [List.length_append]
    omega
  rw [slice, if_pos hrange, List.drop_left, List.take_left]

/-- A range that is read from bytes is read from all bytes that begin with them. -/
theorem slice_mono {bytes more : Bytes} (h : bytes <+: more) {offset length : Nat} {piece : Bytes}
    (hslice : bytes.slice offset length = .ok piece) : more.slice offset length = .ok piece := by
  obtain ⟨tail, rfl⟩ := h
  rw [slice] at hslice
  split_ifs at hslice with hrange
  have hlong : offset + length ≤ (bytes ++ tail).length := by
    rw [List.length_append]
    omega
  have hrest : length ≤ (bytes.drop offset).length := by
    rw [List.length_drop]
    omega
  rw [slice, if_pos hlong, List.drop_append_of_le_length (by omega),
    List.take_append_of_le_length hrest]
  exact hslice

end Bytes

@[simp] theorem length_word32 (w : UInt32) : (word32 w).length = 4 := length_littleEndian 4 _

@[simp] theorem length_word64 (w : UInt64) : (word64 w).length = 8 := length_littleEndian 8 _

@[simp] theorem ofNat_word32 (w : UInt32) : UInt32.ofNat (ofLittleEndian (word32 w)) = w := by
  rw [word32, ofLittleEndian_littleEndian _ _ w.toNat_lt, UInt32.ofNat_toNat]

@[simp] theorem ofNat_word64 (w : UInt64) : UInt64.ofNat (ofLittleEndian (word64 w)) = w := by
  rw [word64, ofLittleEndian_littleEndian _ _ w.toNat_lt, UInt64.ofNat_toNat]

theorem word32_ofNat {bytes : Bytes} (h : bytes.length = 4) :
    word32 (.ofNat (ofLittleEndian bytes)) = bytes := by
  have hlt := ofLittleEndian_lt bytes
  rw [h] at hlt
  rw [word32, UInt32.toNat_ofNat_of_lt' hlt, ← h, littleEndian_ofLittleEndian]

theorem word64_ofNat {bytes : Bytes} (h : bytes.length = 8) :
    word64 (.ofNat (ofLittleEndian bytes)) = bytes := by
  have hlt := ofLittleEndian_lt bytes
  rw [h] at hlt
  rw [word64, UInt64.toNat_ofNat_of_lt' hlt, ← h, littleEndian_ofLittleEndian]

theorem word32_injective : Function.Injective word32 := by
  intro v w h
  rw [← ofNat_word32 v, h, ofNat_word32]

/-- A length is written as it is up to the greatest number, which stands for all above it. -/
theorem toNat_count32_eq_min (n : Nat) : (count32 n).toNat = min (2 ^ 32 - 1) n := by
  have hlt : min n (UInt32.size - 1) < UInt32.size := by simp only [UInt32.size]; omega
  rw [count32, UInt32.toNat_ofNat', Nat.mod_eq_of_lt hlt, min_comm]
  rfl

theorem toNat_count32 {n : Nat} (h : n < UInt32.size) : (count32 n).toNat = n := by
  rw [toNat_count32_eq_min]
  exact min_eq_right (Nat.le_sub_one_of_lt h)

theorem count32_toNat (w : UInt32) : count32 w.toNat = w :=
  UInt32.toNat_inj.mp (toNat_count32 w.toNat_lt)

namespace Zigzag

/-- The arithmetic shift by all places but one repeats the sign in every place. -/
theorem sshiftRight_eq_mask {w : Nat} (x : BitVec (w + 1)) :
    x.sshiftRight w = if x.msb then BitVec.allOnes (w + 1) else 0#(w + 1) := by
  apply BitVec.eq_of_getElem_eq
  intro i hi
  by_cases hm : x.msb
  · simp only [BitVec.getElem_sshiftRight, hm, if_true, BitVec.getElem_allOnes]
    grind
  · simp only [BitVec.getElem_sshiftRight, hm, Bool.false_eq_true, if_false, BitVec.getElem_zero]
    grind

/-- The negated lowest bit repeats the bit in every place. -/
theorem neg_and_one_eq_mask {w : Nat} (x : BitVec (w + 1)) :
    -(x &&& 1#(w + 1)) = if x.getLsbD 0 then BitVec.allOnes (w + 1) else 0#(w + 1) := by
  rw [BitVec.and_one_eq_setWidth_ofBool_getLsbD]
  cases x.getLsbD 0 with
  | false => simp
  | true => simp [BitVec.neg_one_eq_allOnes]

/-- Folding the sign of a word into its lowest bit is undone by unfolding it. -/
theorem unfold_fold {w : Nat} (x z : BitVec (w + 1)) (hz : z = (x <<< 1) ^^^ x.sshiftRight w) :
    (z >>> 1) ^^^ -(z &&& 1#(w + 1)) = x := by
  have hl : z.getLsbD 0 = x.msb := by
    rw [hz, sshiftRight_eq_mask]
    by_cases hm : x.msb <;> simp [hm]
  rw [neg_and_one_eq_mask, hl, hz, sshiftRight_eq_mask, BitVec.msb_eq_getLsbD_last]
  apply BitVec.eq_of_getElem_eq
  intro i hi
  cases hm : x.getLsbD (w + 1 - 1) <;> simp at hm ⊢ <;> grind

/-- Unfolding the sign from the lowest bit of a word is undone by folding it. -/
theorem fold_unfold {w : Nat} (x z : BitVec (w + 1)) (hx : x = (z >>> 1) ^^^ -(z &&& 1#(w + 1))) :
    (x <<< 1) ^^^ x.sshiftRight w = z := by
  rw [neg_and_one_eq_mask] at hx
  have hm : x.msb = z.getLsbD 0 := by
    rw [hx]
    cases z.getLsbD 0 <;> simp
  rw [sshiftRight_eq_mask, hm, hx]
  apply BitVec.eq_of_getElem_eq
  intro i hi
  cases hl : z.getLsbD 0 <;> simp at hl ⊢ <;> grind

@[simp] theorem decode32_encode32 (n : Int32) : decode32 (encode32 n) = n :=
  Int32.toBitVec.inj (unfold_fold (w := 31) n.toBitVec _ rfl)

@[simp] theorem decode64_encode64 (n : Int64) : decode64 (encode64 n) = n :=
  Int64.toBitVec.inj (unfold_fold (w := 63) n.toBitVec _ rfl)

@[simp] theorem encode32_decode32 (w : UInt32) : encode32 (decode32 w) = w :=
  UInt32.toBitVec_inj.mp (fold_unfold (w := 31) _ w.toBitVec rfl)

@[simp] theorem encode64_decode64 (w : UInt64) : encode64 (decode64 w) = w :=
  UInt64.toBitVec_inj.mp (fold_unfold (w := 63) _ w.toBitVec rfl)

end Zigzag

private theorem toList_loop (bs : ByteArray) (i : Nat) (r : List UInt8) :
    ByteArray.toList.loop bs i r = r.reverse ++ bs.data.toList.drop i := by
  fun_induction ByteArray.toList.loop bs i r with
  | case1 i r h ih =>
      have hi : i < bs.data.toList.length := h
      rw [ih, List.drop_eq_getElem_cons hi]
      simp [ByteArray.get!, getElem!_pos bs.data i h]
  | case2 i r h =>
      have hi : bs.data.toList.length ≤ i := by simpa using h
      simp [List.drop_eq_nil_of_le hi]

theorem utf8_eq_toList (s : String) : utf8 s = s.toByteArray.data.toList := by
  simp [utf8, ByteArray.toList, toList_loop]

theorem length_utf8 (s : String) : (utf8 s).length = s.utf8ByteSize := by
  rw [utf8_eq_toList, Array.length_toList]
  rfl

/-- The UTF-8 bytes of a text are read as the text. -/
theorem fromUTF8?_utf8 (s : String) : String.fromUTF8? ⟨(utf8 s).toArray⟩ = some s := by
  have hb : (⟨(utf8 s).toArray⟩ : ByteArray) = s.toByteArray := by
    apply ByteArray.ext
    rw [utf8_eq_toList, Array.toArray_toList]
  rw [hb, String.fromUTF8?, dif_pos s.isValidUTF8]
  rfl

/-- A text that is read from bytes is written as these bytes. -/
theorem utf8_of_fromUTF8? {bytes : Bytes} {s : String}
    (h : String.fromUTF8? ⟨bytes.toArray⟩ = some s) : utf8 s = bytes := by
  rw [String.fromUTF8?] at h
  split_ifs at h with hvalid
  obtain rfl := Option.some.inj h
  rw [utf8_eq_toList]
  rfl

end EntitySchema.Wire
