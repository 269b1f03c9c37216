import EntitySchema.Schema.Linked

/-!
# Catalogs

A catalog keeps what a registry keeps, with every definition under a key. A document is entered
declaration by declaration, its types before its components, each under its qualified name, up to
the first declaration that cannot be read or whose name is in use as a key.

`Catalog.registry` is the registry that a catalog holds; validating and linking are done on it.
-/

namespace EntitySchema.Schema

/-- Definitions under keys, in the order in which the keys were first used. -/
structure Table (α : Type) where
  /-- The keys with their definitions. -/
  entries : List (String × α) := []
deriving DecidableEq, Repr, Inhabited

namespace Table

variable {α δ : Type}

/-- The keys in order. -/
def keys (t : Table α) : List String := t.entries.map Prod.fst

/-- The definitions in order. -/
def values (t : Table α) : List α := t.entries.map Prod.snd

/-- Whether a key is in use. -/
def has (t : Table α) (key : String) : Bool := key ∈ t.keys

/-- Puts a definition under a key: in place of the one that is there, or else behind all others. -/
def insert (t : Table α) (key : String) (a : α) : Table α :=
  if t.has key then ⟨t.entries.map fun e => if e.1 = key then (key, a) else e⟩
  else ⟨t.entries ++ [(key, a)]⟩

/-- Enters declarations under their names up to the first defect: a declaration that cannot be read,
or one whose name is in use. -/
def enter (read : δ → Except Error α) (name : δ → String) (duplicate : String → Error) :
    List δ → Table α → Except Error Unit × Table α
  | [], t => (.ok (), t)
  | d :: rest, t =>
    match read d with
    | .error e => (.error e, t)
    | .ok a =>
      if t.has (name d) then (.error (duplicate (name d)), t)
      else enter read name duplicate rest (t.insert (name d) a)

end Table

/-- Enters the types of a document. -/
def Document.enterTypes (d : Document) : Table UserType → Except Error Unit × Table UserType :=
  Table.enter (UserType.ofDeclaration d.package) TypeDeclaration.qualifiedName .duplicateType
    d.types

/-- Enters the components of a document. -/
def Document.enterComponents (d : Document) :
    Table Component → Except Error Unit × Table Component :=
  Table.enter (fun c => .ok (Component.ofDeclaration d.package c))
    ComponentDeclaration.qualifiedName .duplicateComponent d.components

/-- Types and components under keys. -/
structure Catalog where
  /-- The types. -/
  types : Table UserType := {}
  /-- The components. -/
  components : Table Component := {}
deriving DecidableEq, Repr, Inhabited

namespace Catalog

/-- The registry with the definitions of the catalog. -/
def registry (c : Catalog) : Registry := ⟨c.types.values, c.components.values⟩

/-- Enters the definitions of a document up to the first defect, types before components. -/
def addDocument (c : Catalog) (d : Document) : Except Error Unit × Catalog :=
  match d.enterTypes c.types with
  | (.error e, types) => (.error e, { c with types })
  | (.ok (), types) =>
    let (result, components) := d.enterComponents c.components
    (result, { types, components })

/-- The catalog after documents were entered one after the other, each as far as it went. -/
def after (documents : List Document) : Catalog :=
  documents.foldl (fun c d => (c.addDocument d).2) {}

end Catalog

end EntitySchema.Schema
