import EntitySchema.Proofs.Words
import EntitySchema.Wire.Buffer

/-!
# What is written to a buffer is read in place

A buffer only grows at its end. What a write leaves behind it is therefore found again at the position
where the write began, by the read that matches the write, whatever was in the buffer before and
whatever is written afterwards. The guard in front of reads accepts the ranges that end within the
buffer, although it adds positions with saturation.

## Implementation notes

Growth is the relation `<+:` of a byte string to those that begin with it: each write extends the
buffer, so a run of writes does, and reads that succeed succeed in the same way on every extension.
-/

namespace EntitySchema.Wire.Bytes

variable {bytes more : Bytes}

/-- The read that matches a write yields what was written. -/
def Holds (bytes : Bytes) (offset : Nat) : Write → Prop
  | .uint8 n => bytes.getWord .uint8 offset = .ok n
  | .uint32 n => bytes.getWord .uint32 offset = .ok n
  | .int32 n => bytes.getWord .int32 offset = .ok n
  | .uint64 n => bytes.getWord .uint64 offset = .ok n
  | .int64 n => bytes.getWord .int64 offset = .ok n
  | .float bits => bytes.getWord .float offset = .ok bits
  | .double bits => bytes.getWord .double offset = .ok bits
  | .bytes b => bytes.slice offset b.length = .ok b

/-! ### Writes extend the buffer -/

theorem prefix_write (bytes : Bytes) (w : Write) : bytes <+: bytes.write w := by
  cases w <;> exact List.prefix_append _ _

theorem prefix_writeAll (bytes : Bytes) (writes : List Write) : bytes <+: bytes.writeAll writes := by
  induction writes generalizing bytes with
  | nil => exact List.prefix_refl bytes
  | cons w rest ih => exact (prefix_write bytes w).trans (ih (bytes.write w))

theorem writeAll_append (bytes : Bytes) (before after : List Write) :
    bytes.writeAll (before ++ after) = (bytes.writeAll before).writeAll after :=
  List.foldl_append

/-! ### Reads survive extension -/

theorem getWord_eq_ok {α : Type} {form : WordForm α} {offset : Nat} {a : α} :
    bytes.getWord form offset = .ok a ↔
      ∃ piece, bytes.slice offset form.width = .ok piece ∧
        form.ofWord (.ofNat _ (ofLittleEndian piece)) = a := by
  rw [getWord, word]
  cases bytes.slice offset form.width with
  | error e => simp [Except.map]
  | ok piece => simp [Except.map]

theorem getWord_mono (h : bytes <+: more) {α : Type} {form : WordForm α} {offset : Nat} {a : α}
    (hget : bytes.getWord form offset = .ok a) : more.getWord form offset = .ok a := by
  obtain ⟨piece, hslice, hword⟩ := getWord_eq_ok.mp hget
  exact getWord_eq_ok.mpr ⟨piece, slice_mono h hslice, hword⟩

theorem Holds.mono (h : bytes <+: more) {offset : Nat} {w : Write}
    (hw : bytes.Holds offset w) : more.Holds offset w := by
  cases w with
  | bytes b => exact slice_mono h hw
  | _ => exact getWord_mono h hw

/-! ### A write is held where it began -/

theorem slice_putBytes (bytes piece : Bytes) :
    (bytes.putBytes piece).slice bytes.position piece.length = .ok piece := by
  have hslice := slice_append bytes piece []
  rwa [List.append_nil] at hslice

theorem getWord_putWord {α : Type} (form : WordForm α) (bytes : Bytes) (a : α) :
    (bytes.putWord form a).getWord form bytes.position = .ok a := by
  have hslice := slice_putBytes bytes (littleEndian form.width (form.toWord a).toNat)
  rw [length_littleEndian] at hslice
  have hfits : (form.toWord a).toNat < 256 ^ form.width := by
    have hlt := (form.toWord a).isLt
    rwa [Nat.pow_mul] at hlt
  apply getWord_eq_ok.mpr
  refine ⟨_, hslice, ?_⟩
  rw [ofLittleEndian_littleEndian _ _ hfits, BitVec.ofNat_toNat, BitVec.setWidth_eq,
    form.ofWord_toWord]

theorem holds_write (bytes : Bytes) (w : Write) : (bytes.write w).Holds bytes.position w := by
  cases w with
  | bytes b => exact slice_putBytes bytes b
  | _ => exact getWord_putWord _ bytes _

/-! ### The guard in front of reads -/

theorem ensure_eq_ok {offset length : Nat} :
    bytes.ensure offset length = .ok () ↔ min (offset + length) maxPosition ≤ bytes.length := by
  rw [ensure]
  split_ifs with hshort
  · simp only [false_iff]
    omega
  · simp only [true_iff]
    omega

/-- Every write of a run is held at the position where it began, behind the bytes the run started
from, and the guard accepts exactly the ranges that end within the buffer. -/
theorem holds_writes_in_place (start : Bytes) :
    (∀ writes, start <+: start.writeAll writes) ∧
    (∀ before w after,
      (start.writeAll (before ++ w :: after)).Holds (start.writeAll before).position w) ∧
    (start.length < maxPosition → ∀ offset length,
      start.ensure offset length = .ok () ↔ offset + length ≤ start.length) := by
  refine ⟨prefix_writeAll start, ?_, ?_⟩
  · intro before w after
    rw [writeAll_append]
    -- the rest of the run extends the buffer behind the write
    exact (holds_write (start.writeAll before) w).mono (prefix_writeAll _ after)
  · intro hstart offset length
    rw [ensure_eq_ok]
    omega

/-- A signed number and a signalling NaN stand at odd positions, and a range that would wrap around is
refused. -/
theorem holds_writes_in_place_unaligned :
    (writeAll [0xAB, 0xCD] [.uint8 1, .int32 (-7), .double 0x7FF0000000000001]).Holds 3
      (.int32 (-7)) ∧
    (writeAll [0xAB, 0xCD] [.uint8 1, .int32 (-7), .double 0x7FF0000000000001]).Holds 7
      (.double 0x7FF0000000000001) ∧
    ¬ ensure [0xAB, 0xCD] (2 ^ 64 - 1) 2 = .ok () := by
  obtain ⟨-, hholds, hensure⟩ := holds_writes_in_place [0xAB, 0xCD]
  refine ⟨hholds [.uint8 1] (.int32 (-7)) [.double 0x7FF0000000000001],
    hholds [.uint8 1, .int32 (-7)] (.double 0x7FF0000000000001) [], ?_⟩
  rw [hensure (by decide)]
  decide

end EntitySchema.Wire.Bytes
