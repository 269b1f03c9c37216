/-!
# Values that remember being changed

A `Tracked` value carries a dirty bit that says whether it was written since the bit was last taken.
Two tracked values are the same when their values are; the bit is bookkeeping.
-/

namespace EntitySchema.Replica

/-- A value with a dirty bit. -/
structure Tracked (α : Type) where
  /-- The value. -/
  value : α
  /-- Whether the value was written since the bit was last taken. -/
  isDirty : Bool
deriving Repr, DecidableEq

namespace Tracked

variable {α : Type}

/-- A value that counts as unchanged. -/
def clean (a : α) : Tracked α := ⟨a, false⟩

/-- A value that counts as changed. -/
def dirty (a : α) : Tracked α := ⟨a, true⟩

instance [Inhabited α] : Inhabited (Tracked α) := ⟨clean default⟩

/-- Replaces the value. -/
def set (_ : Tracked α) (a : α) : Tracked α := dirty a

/-- Changes the value in place; the value counts as changed whatever the change does. -/
def modify (t : Tracked α) (f : α → α) : Tracked α := dirty (f t.value)

/-- Declares the value changed. -/
def mark (t : Tracked α) : Tracked α := dirty t.value

/-- Reads the dirty bit and clears it. -/
def take (t : Tracked α) : Bool × Tracked α := (t.isDirty, clean t.value)

/-- Whether the values agree, whatever their dirty bits. -/
def agrees (eq : α → α → Bool) (s t : Tracked α) : Bool := eq s.value t.value

end Tracked

end EntitySchema.Replica
