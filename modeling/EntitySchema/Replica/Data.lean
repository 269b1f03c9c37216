import EntitySchema.Wire.Agreement

/-!
# Values of shapes

`Data` is what a field holds while a program runs: a scalar, the members of a user type in the order
of its fields, an option, a list, or a map. The entries of a map ascend by key and no key occurs
twice, so equal maps are equal lists.
-/

namespace EntitySchema.Replica

open Wire (Value)

/-- A value of a shape. -/
inductive Data where
  /-- A scalar. -/
  | scalar (v : Value)
  /-- The members of a user type, in the order of its fields. -/
  | record (members : List Data)
  /-- The option without a content. -/
  | absent
  /-- The option with a content. -/
  | present (content : Data)
  /-- A list. -/
  | list (items : List Data)
  /-- A map. -/
  | map (entries : List (Value × Data))
deriving Inhabited

/-- The order of the keys of a map. -/
def compareKeys : Value → Value → Ordering
  | .bool a, .bool b => compare a b
  | .uint32 a, .uint32 b => compare a b
  | .uint64 a, .uint64 b => compare a b
  | .int32 a, .int32 b => compare a.toInt b.toInt
  | .int64 a, .int64 b => compare a.toInt b.toInt
  | .sint32 a, .sint32 b => compare a.toInt b.toInt
  | .sint64 a, .sint64 b => compare a.toInt b.toInt
  | .fixed32 a, .fixed32 b => compare a b
  | .fixed64 a, .fixed64 b => compare a b
  | .sfixed32 a, .sfixed32 b => compare a.toInt b.toInt
  | .sfixed64 a, .sfixed64 b => compare a.toInt b.toInt
  | .float a, .float b => compare a b
  | .double a, .double b => compare a b
  | .string a, .string b => compare a b
  | .bytes a, .bytes b => compare a b
  | .entityId a, .entityId b => compare a.raw b.raw
  | a, b => compare a.kind.tag b.kind.tag

/-- The entries of a map. -/
abbrev Entries := List (Value × Data)

namespace Entries

/-- Puts a value under a key, in place of the one that was there. -/
def insert (key : Value) (d : Data) : Entries → Entries
  | [] => [(key, d)]
  | (k, e) :: rest =>
    match compareKeys key k with
    | .lt => (key, d) :: (k, e) :: rest
    | .eq => (key, d) :: rest
    | .gt => (k, e) :: insert key d rest

/-- The value under a key. -/
def find? (key : Value) (m : Entries) : Option Data :=
  (List.find? (fun e => compareKeys key e.1 == .eq) m).map Prod.snd

/-- Removes a key. -/
def erase (key : Value) (m : Entries) : Entries := m.filter fun e => compareKeys key e.1 != .eq

/-- The map of entries in any order, where later entries replace earlier ones. -/
def ofList (es : List (Value × Data)) : Entries := es.foldl (fun m e => insert e.1 e.2 m) []

end Entries

namespace Data

/-- The items of a list. -/
def items : Data → List Data
  | .list items => items
  | _ => []

/-- The entries of a map. -/
def entries : Data → Entries
  | .map entries => entries
  | _ => []

mutual

/-- Whether two values agree, floating point numbers as numbers. -/
def agrees : Data → Data → Bool
  | .scalar a, .scalar b => a.agrees b
  | .record as, .record bs => allAgree as bs
  | .absent, .absent => true
  | .present a, .present b => a.agrees b
  | .list as, .list bs => allAgree as bs
  | .map as, .map bs => entriesAgree as bs
  | _, _ => false

/-- Whether two lists agree position by position. -/
def allAgree : List Data → List Data → Bool
  | [], [] => true
  | a :: as, b :: bs => a.agrees b && allAgree as bs
  | _, _ => false

/-- Whether two maps have the same keys and agreeing values. -/
def entriesAgree : List (Value × Data) → List (Value × Data) → Bool
  | [], [] => true
  | (k, a) :: as, (l, b) :: bs => compareKeys k l == .eq && a.agrees b && entriesAgree as bs
  | _, _ => false

end

end Data

end EntitySchema.Replica
