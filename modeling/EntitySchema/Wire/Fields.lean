/-!
# Values kept under numbered fields

`Fields α` keeps, for every field number, the values stored under it in the order they came. The
entries ascend by number and none is empty, so one collection of values has one representation and
writing it out needs no sorting.
-/

namespace EntitySchema.Wire

/-- The number of a field. -/
abbrev FieldId := UInt32

/-- Values grouped by field number, in ascending order of the numbers. -/
structure Fields (α : Type) where
  /-- One entry for each number with at least one value. -/
  entries : List (FieldId × List α)
deriving Inhabited

namespace Fields

variable {α : Type}

/-- The collection without values. -/
def empty : Fields α := ⟨[]⟩

/-- Whether no value is stored. -/
def isEmpty (o : Fields α) : Bool := o.entries.isEmpty

/-- The numbers with values, ascending. -/
def ids (o : Fields α) : List FieldId := o.entries.map Prod.fst

/-- The values under a number, in the order they were stored. -/
def values (o : Fields α) (f : FieldId) : List α := (o.entries.lookup f).getD []

/-- Whether a number has a value. -/
def has (o : Fields α) (f : FieldId) : Bool := !(o.values f).isEmpty

/-- Puts values behind those with the same number. -/
def appendEntry (f : FieldId) (as : List α) : List (FieldId × List α) → List (FieldId × List α)
  | [] => [(f, as)]
  | (g, bs) :: rest =>
    if f < g then (f, as) :: (g, bs) :: rest
    else if f = g then (g, bs ++ as) :: rest
    else (g, bs) :: appendEntry f as rest

/-- Stores a value behind those with the same number. -/
def push (o : Fields α) (f : FieldId) (a : α) : Fields α := ⟨appendEntry f [a] o.entries⟩

/-- Stores several values in order; storing none leaves no entry. -/
def pushAll (o : Fields α) (f : FieldId) (as : List α) : Fields α :=
  if as.isEmpty then o else ⟨appendEntry f as o.entries⟩

/-- Removes the values under a number. -/
def erase (o : Fields α) (f : FieldId) : Fields α := ⟨o.entries.filter fun e => e.1 ≠ f⟩

@[simp] theorem ids_empty : (empty : Fields α).ids = [] := rfl

@[simp] theorem values_empty (f : FieldId) : (empty : Fields α).values f = [] := rfl

end Fields

end EntitySchema.Wire
