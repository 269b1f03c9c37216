import EntitySchema.Wire.Decoding

/-!
# Objects that are written and read by kind

A `Store` holds what an `Object` holds and keeps beside the values of every field the positions of
each kind among them, so that a typed read goes straight to its value and does not scan the field.
A child object is a store of its own. It is indexed when it is added, while it is still empty, and
then written to where it stands.

`Store.object` is the object that a store holds; encoding and comparing are done on it.
-/

namespace EntitySchema.Wire

/-- A value that is not an object. -/
abbrev Single := { v : Value // v.kind ≠ .object }

/-- The values of one field with the positions of each kind among them. -/
structure Column (α : Type) where
  /-- The values in the order they were stored. -/
  values : List α := []
  /-- The positions of each kind, ascending; a kind without values is left out. -/
  positions : List (Kind × List Nat) := []
deriving Inhabited

namespace Column

variable {α : Type}

/-- Puts a position behind those of its kind. -/
def note (k : Kind) (position : Nat) : List (Kind × List Nat) → List (Kind × List Nat)
  | [] => [(k, [position])]
  | (other, positions) :: rest =>
    if other = k then (other, positions ++ [position]) :: rest
    else (other, positions) :: note k position rest

/-- Stores a value of a kind behind all others. -/
def push (c : Column α) (k : Kind) (a : α) : Column α :=
  ⟨c.values ++ [a], note k c.values.length c.positions⟩

/-- Changes the value at a position in place. -/
def modify (c : Column α) (position : Nat) (change : α → α) : Column α :=
  { c with values := c.values.modify position change }

/-- The positions of the values of a kind. -/
def ofKind (c : Column α) (k : Kind) : List Nat := (c.positions.lookup k).getD []

end Column

/-- A value as a store keeps it. -/
inductive Stored where
  /-- A value that is not an object. -/
  | single (v : Single)
  /-- A child object, as the columns of its fields. -/
  | object (columns : List (FieldId × Column Stored))
deriving Inhabited

/-- Columns under field numbers, in ascending order of the numbers. -/
structure Store where
  /-- One column for each number with at least one value. -/
  columns : List (FieldId × Column Stored)
deriving Inhabited

/-- The kind of a stored value. -/
def Stored.kind : Stored → Kind
  | .single v => v.val.kind
  | .object _ => .object

/-- Writes to a child object where it stands. -/
def Stored.write (write : Store → Store) : Stored → Stored
  | .single v => .single v
  | .object columns => .object (write ⟨columns⟩).columns

mutual

/-- The value that is stored. -/
def Stored.value : Stored → Value
  | .single v => v.val
  | .object columns => .object ⟨columnEntries columns⟩

/-- The values of some columns. -/
def columnEntries : List (FieldId × Column Stored) → List (FieldId × List Value)
  | [] => []
  | (f, ⟨values, _⟩) :: rest => (f, storedValues values) :: columnEntries rest

/-- The values that are stored. -/
def storedValues : List Stored → List Value
  | [] => []
  | v :: rest => v.value :: storedValues rest

end

namespace Store

/-- The store without values. -/
def empty : Store := ⟨[]⟩

/-- Whether no value is stored. -/
def isEmpty (s : Store) : Bool := s.columns.isEmpty

/-- The column of a number. -/
def column? (s : Store) (f : FieldId) : Option (Column Stored) := s.columns.lookup f

/-- The numbers with values, ascending. -/
def ids (s : Store) : List FieldId := s.columns.map Prod.fst

/-- The values under a number, in the order they were stored. -/
def values (s : Store) (f : FieldId) : List Stored := (s.column? f).elim [] Column.values

/-- Whether a number has a value. -/
def has (s : Store) (f : FieldId) : Bool := (s.column? f).any fun c => !c.values.isEmpty

/-- Changes the column of a number; an empty one is made if there is none. -/
def alter (f : FieldId) (change : Column Stored → Column Stored) :
    List (FieldId × Column Stored) → List (FieldId × Column Stored)
  | [] => [(f, change {})]
  | (g, c) :: rest =>
    if f < g then (f, change {}) :: (g, c) :: rest
    else if f = g then (g, change c) :: rest
    else (g, c) :: alter f change rest

/-- Stores a value behind those with the same number. -/
def push (s : Store) (f : FieldId) (v : Stored) : Store :=
  ⟨alter f (fun c => c.push v.kind v) s.columns⟩

/-- Stores an empty child object behind the values with the same number and writes to it there. -/
def addObject (s : Store) (f : FieldId) (write : Store → Store) : Store :=
  ⟨alter f (fun c => (c.push .object (.object [])).modify c.values.length (Stored.write write))
    s.columns⟩

/-- Removes the values under a number. -/
def erase (s : Store) (f : FieldId) : Store := ⟨s.columns.filter fun e => e.1 ≠ f⟩

/-- The object that is held. -/
def object (s : Store) : Object := ⟨columnEntries s.columns⟩

end Store

mutual

/-- A value as it is stored. -/
def Stored.ofValue : Value → Stored
  | .object ⟨entries⟩ => .object (Store.ofEntries entries .empty).columns
  | v => if h : v.kind ≠ .object then .single ⟨v, h⟩ else .object []

/-- Stores the values of some entries, one by one. -/
def Store.ofEntries : List (FieldId × List Value) → Store → Store
  | [], s => s
  | (f, values) :: rest, s => Store.ofEntries rest (Store.ofValues f values s)

/-- Stores values under a number, one by one. -/
def Store.ofValues (f : FieldId) : List Value → Store → Store
  | [], s => s
  | v :: rest, s => Store.ofValues f rest (s.push f (Stored.ofValue v))

end

namespace Store

/-- The store that holds an object. -/
def ofObject (o : Object) : Store := ofEntries o.entries .empty

/-- The store that a byte string encodes. -/
def decode (bytes : Bytes) : Except DecodeError Store := do
  pure (ofObject (← Fields.decode bytes))

/-- How many values of a kind a number has, as a 32-bit count. -/
def count (s : Store) (k : Kind) (f : FieldId) : UInt32 :=
  count32 ((s.column? f).elim 0 fun c => (c.ofKind k).length)

/-- The value at the position that is noted for a kind under a number. -/
def nth? (s : Store) (k : Kind) (f : FieldId) (i : Nat) : Option Stored := do
  let c ← s.column? f
  let position ← (c.ofKind k)[i]?
  c.values[position]?

/-- The value of a kind at a position under a number, or the default of the kind. -/
def index (s : Store) (k : Kind) (f : FieldId) (i : Nat) : Stored :=
  ((s.nth? k f i).filter fun v => v.kind = k).getD (.ofValue k.default)

/-- The child object at a position under a number, or the empty one. -/
def child (s : Store) (f : FieldId) (i : Nat) : Store :=
  match s.index .object f i with
  | .object columns => ⟨columns⟩
  | .single _ => .empty

end Store

end EntitySchema.Wire
