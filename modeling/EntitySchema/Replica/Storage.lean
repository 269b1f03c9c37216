import EntitySchema.Replica.Data
import EntitySchema.Schema.Linked

/-!
# Storing and loading data

A value of a shape is stored under one field number of an object: a scalar as one value of its kind,
a user type as a child object, an option as at most one value, a list as one value for each item,
and a map as one child object for each entry. Loading takes the values of the expected kind and
passes over all others; what is not stored is loaded as the default.
-/

namespace EntitySchema.Schema

open Replica (Data Entries)
open Wire (FieldId Object Value)

/-- The fields of a user type. -/
def Linked.fieldsOf (s : Linked) (type : String) : List Field :=
  (s.type? type).elim [] UserType.fields

/-- Loads a value from a field number, given how user types are loaded from objects. The position
matters to scalars and user types only. -/
def Shape.load (record : String → Object → Data) : Shape → Object → FieldId → Nat → Data
  | .scalar s, o, f, i => .scalar (o.index s.kind f i)
  | .reference type, o, f, i => record type (o.child f i)
  | .option inner, o, f, _ =>
    if 0 < o.count inner.kind f then .present (inner.load record o f 0) else .absent
  | .list inner, o, f, _ =>
    .list ((List.range (o.count inner.kind f).toNat).map fun i => inner.load record o f i)
  | .map key value, o, f, _ =>
    .map (Entries.ofList ((List.range (o.count .object f).toNat).map fun i =>
      let entry := o.child f i
      (entry.index key.kind entryKey 0, value.load record entry entryValue 0)))

/-- Loads a user type from an object, down to a number of levels. -/
def Linked.loadLevels (s : Linked) : Nat → String → Object → Data
  | 0, _, _ => .record []
  | levels + 1, type, o =>
    .record ((s.fieldsOf type).map fun f => f.shape.load (s.loadLevels levels) o f.id 0)

/-- Enough levels for an object: below the objects that are there, a type that does not contain
itself opens no more levels than there are types. -/
def Linked.levels (s : Linked) (o : Object) : Nat := o.depth + s.types.length

/-- Loads a user type from an object. -/
def Linked.loadType (s : Linked) (type : String) (o : Object) : Data :=
  s.loadLevels (s.levels o) type o

/-- Loads a value from a field number of an object. -/
def Linked.load (s : Linked) (shape : Shape) (o : Object) (f : FieldId) : Data :=
  shape.load (s.loadLevels (s.levels o)) o f 0

mutual

/-- Stores a value under a field number. -/
def store (s : Linked) : Data → Shape → FieldId → Object → Object
  | .scalar v, .scalar _, f, o => o.push f v
  | .record members, .reference type, f, o =>
    o.push f (.object (storeFields s members (s.fieldsOf type) .empty))
  | .present content, .option inner, f, o => store s content inner f o
  | .list items, .list inner, f, o => storeItems s items inner f o
  | .map entries, .map _ value, f, o => storeEntries s entries value f o
  | _, _, _, o => o

/-- Stores the members of a user type. -/
def storeFields (s : Linked) : List Data → List Field → Object → Object
  | d :: members, f :: fields, o => storeFields s members fields (store s d f.shape f.id o)
  | _, _, o => o

/-- Stores the items of a list. -/
def storeItems (s : Linked) : List Data → Shape → FieldId → Object → Object
  | d :: items, inner, f, o => storeItems s items inner f (store s d inner f o)
  | [], _, _, o => o

/-- Stores the entries of a map. -/
def storeEntries (s : Linked) : List (Value × Data) → Shape → FieldId → Object → Object
  | (key, d) :: entries, value, f, o =>
    storeEntries s entries value f
      (o.push f (.object (store s d value entryValue (Wire.Fields.empty.push entryKey key))))
  | [], _, _, o => o

end

/-- The object in which a value of a user type is stored. -/
def Linked.storeType (s : Linked) (type : String) : Data → Object
  | .record members => storeFields s members (s.fieldsOf type) .empty
  | _ => .empty

end EntitySchema.Schema
