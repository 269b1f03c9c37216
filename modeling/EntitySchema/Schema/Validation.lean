import EntitySchema.Schema.Registry
import EntitySchema.Text.Dotted
import EntitySchema.Text.Identifier

/-!
# Rules of a registry

Each rule is a function from a registry to the list of its violations, in the order of the
definitions. The rules stand in seven groups; a registry is accepted when no group finds anything,
and otherwise the first violation of the first group that finds one is reported.

The items of a package are its types, the structures generated for its components, and its
subpackages. Subpackages form a set without an order, so the rule on items takes the order in which
they are looked at as an argument.
-/

namespace EntitySchema.Schema

/-- Every item of a list with the items before it. -/
def withEarlier {α : Type} (xs : List α) : List (List α × α) := go [] xs
where
  /-- Every item with the items before it, where `seen` comes before all of them. -/
  go (seen : List α) : List α → List (List α × α)
    | [] => []
    | x :: rest => (seen, x) :: go (seen ++ [x]) rest

/-- The member that the data structure of every component has besides its fields and events. -/
def dirtyMember : String := "is_dirty"

/-- The items that the outermost module defines itself. -/
def rootItems : List String :=
  ["GENERATED_NUMBER_OF_COMPONENTS", "component_unique_index", "ComponentData", "ComponentUpdate",
    "Schema"]

/-- A name that has to be a plain identifier. -/
def nameViolations (role : NameRole) (name : String) : List Error :=
  if Text.isPlainIdentifier name then [] else [.invalidName role name]

/-- A package all of whose segments have to be plain identifiers. -/
def packageViolations (package : String) : List Error :=
  if (Text.segments package).all Text.isPlainIdentifier then [] else [.invalidName .package package]

/-- A qualified name that has to be the package and the name with a point between. -/
def qualifiedNameViolations (package name qualifiedName : String) : List Error :=
  if qualifiedName = package ++ "." ++ name then []
  else [.qualifiedNameMismatch package name qualifiedName]

namespace UserType

/-- Violations of the rules on names. -/
def nameRules (t : UserType) : List Error :=
  packageViolations t.package ++ nameViolations .type t.name ++
    qualifiedNameViolations t.package t.name t.qualifiedName ++
    t.fields.flatMap fun f => nameViolations .field f.name

/-- Violations of the rule that the fields have different names. -/
def memberRules (t : UserType) : List Error :=
  (withEarlier (t.fields.map Field.name)).flatMap fun (earlier, name) =>
    if name ∈ earlier then [.duplicateMember (.type t.qualifiedName) name] else []

end UserType

namespace Component

/-- Violations of the rules on names. -/
def nameRules (c : Component) : List Error :=
  packageViolations c.package ++ nameViolations .component c.name ++
    qualifiedNameViolations c.package c.name c.qualifiedName ++
    (c.events.flatMap fun e => nameViolations .event e.name) ++
    c.commands.flatMap fun m => nameViolations .command m.name

/-- The items generated for the component in its package. -/
def items (c : Component) : List String :=
  c.name :: c.updateName :: c.commands.map c.markerName

end Component

namespace Registry

/-- Violations of the rules on a shape: types have to be registered and keys hashable. -/
def shapeRules (r : Registry) (site : Site) : Shape → List Error
  | .scalar _ => []
  | .reference name => if r.hasType name then [] else [.unresolved name site]
  | .option inner | .list inner => r.shapeRules site inner
  | .map key value =>
    (if key.isKey then [] else [.invalidMapKey key site]) ++ r.shapeRules site value

/-- Violations of the rules on names. -/
def nameRules (r : Registry) : List Error :=
  r.types.flatMap UserType.nameRules ++ r.components.flatMap Component.nameRules

/-- Violations of the rule that component numbers differ. -/
def componentIdRules (r : Registry) : List Error :=
  (withEarlier r.components).flatMap fun (earlier, c) =>
    match earlier.find? fun e => e.id = c.id with
    | some first => [.duplicateComponentId c.id first.qualifiedName c.qualifiedName]
    | none => []

/-- Violations of the rules on the fields of a type. -/
def typeRules (r : Registry) (t : UserType) : List Error :=
  (withEarlier t.fields).flatMap fun (earlier, f) =>
    (if earlier.any fun e => e.id = f.id then [.duplicateFieldId t.qualifiedName f.id] else []) ++
      r.shapeRules (.field f.name t.qualifiedName) f.shape

/-- Violations of the rules on the data type, the events and the commands of a component. -/
def componentRules (r : Registry) (c : Component) : List Error :=
  (if r.hasType c.dataType then [] else [.unresolved c.dataType (.data c.qualifiedName)]) ++
    ((withEarlier c.events).flatMap fun (earlier, e) =>
      (if earlier.any fun x => x.index = e.index then [.duplicateEventIndex c.qualifiedName e.index]
        else []) ++
        r.shapeRules (.event e.name c.qualifiedName) e.shape) ++
    (withEarlier c.commands).flatMap fun (earlier, m) =>
      (if earlier.any fun x => x.index = m.index then
          [.duplicateCommandIndex c.qualifiedName m.index]
        else []) ++
        r.shapeRules (.command m.name c.qualifiedName) m.request ++
        r.shapeRules (.command m.name c.qualifiedName) m.response

/-- Violations of the rule that components have different data types. -/
def dataTypeRules (r : Registry) : List Error :=
  (withEarlier r.components).flatMap fun (earlier, c) =>
    match earlier.find? fun e => e.dataType = c.dataType with
    | some first => [.sharedDataType c.dataType first.qualifiedName c.qualifiedName]
    | none => []

/-- The packages of all definitions, types before components. -/
def packages (r : Registry) : List String :=
  r.types.map UserType.package ++ r.components.map Component.package

/-- Every package along a dotted name, as its parent and its last segment. -/
def modulesAlong (parent : List String) : List String → List (String × String)
  | [] => []
  | s :: rest => (Text.dotted parent, s) :: modulesAlong (parent ++ [s]) rest

/-- Every package with its parent, each once. -/
def modules (r : Registry) : List (String × String) :=
  (r.packages.flatMap fun p => modulesAlong [] (Text.segments p)).eraseDups

/-- Every item with the package it is generated in, where subpackages come in the given order. -/
def itemClaims (r : Registry) (modules : List (String × String)) : List (String × String) :=
  rootItems.map (fun name => ("", name)) ++ modules ++
    r.types.map (fun t => (t.package, t.name)) ++
    r.components.flatMap fun c => c.items.map fun name => (c.package, name)

/-- Violations of the rule that the items of a package have different names. -/
def itemRules (r : Registry) (modules : List (String × String)) : List Error :=
  (withEarlier (r.itemClaims modules)).flatMap fun (earlier, claim) =>
    if claim ∈ earlier then [.duplicateItem claim.1 claim.2] else []

/-- Violations of the rule that the members generated for a component have different names. -/
def componentMemberRules (r : Registry) (c : Component) : List Error :=
  match r.type? c.dataType with
  | none => []
  | some t =>
    let members := dirtyMember :: t.fields.map Field.name ++ c.events.map Event.name
    (withEarlier members).flatMap fun (earlier, name) =>
      if name ∈ earlier then
        [.duplicateMember (.component c.qualifiedName t.qualifiedName) name]
      else []

/-- The groups of violations in the order they are reported, where subpackages come in the given
order. -/
def violationGroups (r : Registry) (modules : List (String × String)) : List (List Error) :=
  [r.nameRules,
    r.componentIdRules,
    r.types.flatMap r.typeRules,
    r.components.flatMap r.componentRules,
    r.dataTypeRules,
    r.itemRules modules,
    r.types.flatMap UserType.memberRules ++ r.components.flatMap r.componentMemberRules]

/-- Accepts a registry that breaks no rule, looking at subpackages in the given order. -/
def validateIn (modules : List (String × String)) (r : Registry) : Except Error Unit :=
  match (r.violationGroups modules).flatten with
  | [] => .ok ()
  | e :: _ => .error e

/-- Accepts a registry that breaks no rule. -/
def validate (r : Registry) : Except Error Unit := r.validateIn r.modules

end Registry

end EntitySchema.Schema
