import EntitySchema.Sample
import EntitySchema.Schema.Validation
import Mathlib

/-!
# Well-formed registries

`Registry.WellFormed` says what a registry has to be, rule by rule and without an order in which the
rules are looked at. Validation accepts exactly the well-formed registries.

## Implementation notes

Several rules compare a definition with those before it. `withEarlier` pairs every item with the
items before it; a rule over these pairs that asks for a difference of keys amounts to a list of keys
without repetition. The subpackages are a set, so the predicate treats them apart from the other
items, whose list has to be free of repetition.
-/

namespace EntitySchema.Schema

section Earlier

variable {α β : Type}

private theorem go_nodup (key : α → β) (seen xs : List α) :
    (∀ p ∈ withEarlier.go seen xs, ∀ e ∈ p.1, key e ≠ key p.2) ↔
      (xs.map key).Nodup ∧ ∀ x ∈ xs, ∀ e ∈ seen, key e ≠ key x := by
  induction xs generalizing seen with
  | nil => simp [withEarlier.go]
  | cons x rest ih =>
      simp only [withEarlier.go, List.forall_mem_cons, ih, List.map_cons, List.nodup_cons,
        List.mem_append, List.mem_singleton, List.mem_map]
      grind

private theorem go_forall (P : α → Prop) (seen xs : List α) :
    (∀ p ∈ withEarlier.go seen xs, P p.2) ↔ ∀ x ∈ xs, P x := by
  induction xs generalizing seen with
  | nil => simp [withEarlier.go]
  | cons x rest ih => simp only [withEarlier.go, List.forall_mem_cons, ih]

/-- Keys that differ from all earlier ones are keys without repetition. -/
theorem forall_withEarlier_ne (key : α → β) (xs : List α) :
    (∀ p ∈ withEarlier xs, ∀ e ∈ p.1, key e ≠ key p.2) ↔ (xs.map key).Nodup := by
  rw [withEarlier, go_nodup]
  simp

/-- What holds of every item paired with its predecessors holds of every item. -/
theorem forall_withEarlier_snd (P : α → Prop) (xs : List α) :
    (∀ p ∈ withEarlier xs, P p.2) ↔ ∀ x ∈ xs, P x := go_forall P [] xs

/-- A rule that asks items for different keys and for a property of their own. -/
theorem forall_withEarlier_and (key : α → β) (P : α → Prop) (xs : List α) :
    (∀ p ∈ withEarlier xs, (∀ e ∈ p.1, key e ≠ key p.2) ∧ P p.2) ↔
      (xs.map key).Nodup ∧ ∀ x ∈ xs, P x := by
  rw [← forall_withEarlier_ne key xs, ← forall_withEarlier_snd P xs]
  exact ⟨fun h => ⟨fun p hp => (h p hp).1, fun p hp => (h p hp).2⟩,
    fun h p hp => ⟨h.1 p hp, h.2 p hp⟩⟩

end Earlier

/-- A choice between no violation and one finds none exactly under the condition. -/
theorem ite_singleton_eq_nil {p : Prop} [Decidable p] {e : Error} :
    (if p then [] else [e]) = [] ↔ p := by
  split_ifs with h <;> simp [h]

theorem ite_singleton_eq_nil' {p : Prop} [Decidable p] {e : Error} :
    (if p then [e] else []) = [] ↔ ¬p := by
  split_ifs with h <;> simp [h]

/-- The map keys in a shape, at any depth. -/
def Shape.keys : Shape → List Shape
  | .scalar _ | .reference _ => []
  | .option inner | .list inner => inner.keys
  | .map key value => key :: (key.keys ++ value.keys)

/-- All segments of a dotted name are plain identifiers. -/
def IsPackageName (package : String) : Prop :=
  ∀ s ∈ Text.segments package, Text.isPlainIdentifier s

/-- The names of a type and of its fields are as they have to be. -/
structure UserType.WellNamed (t : UserType) : Prop where
  package : IsPackageName t.package
  name : Text.isPlainIdentifier t.name
  qualifiedName : t.qualifiedName = t.package ++ "." ++ t.name
  fields : ∀ f ∈ t.fields, Text.isPlainIdentifier f.name

/-- The names of a component, its events and its commands are as they have to be. -/
structure Component.WellNamed (c : Component) : Prop where
  package : IsPackageName c.package
  name : Text.isPlainIdentifier c.name
  qualifiedName : c.qualifiedName = c.package ++ "." ++ c.name
  events : ∀ e ∈ c.events, Text.isPlainIdentifier e.name
  commands : ∀ m ∈ c.commands, Text.isPlainIdentifier m.name

namespace Registry

/-- Some type has the qualified name. -/
def Registers (r : Registry) (name : String) : Prop := ∃ t ∈ r.types, t.qualifiedName = name

/-- Every type that a shape mentions is registered and every map key in it is a hashable scalar. -/
structure Resolves (r : Registry) (shape : Shape) : Prop where
  references : ∀ name ∈ shape.references, r.Registers name
  keys : ∀ key ∈ shape.keys, ∃ s : Scalar, key = .scalar s ∧ s.isHashable

/-- A package, as its parent and its last segment, lies on the way to the package of a definition. -/
def IsModule (r : Registry) (m : String × String) : Prop :=
  ∃ p ∈ r.packages, ∃ before after,
    Text.segments p = before ++ m.2 :: after ∧ m.1 = Text.dotted before

/-- A list of all subpackages, each once, in some order. -/
structure Enumerates (r : Registry) (modules : List (String × String)) : Prop where
  nodup : modules.Nodup
  mem_iff : ∀ m, m ∈ modules ↔ r.IsModule m

/-- The items other than subpackages, each with its package: those of the outermost module, the types,
and for each component its structures and the markers of its commands. -/
def definedItems (r : Registry) : List (String × String) :=
  rootItems.map (fun name => ("", name)) ++ (r.types.map fun t => (t.package, t.name)) ++
    r.components.flatMap fun c => c.items.map fun name => (c.package, name)

/-- What a registry has to be to be linked. -/
structure WellFormed (r : Registry) : Prop where
  typeNames : ∀ t ∈ r.types, t.WellNamed
  componentNames : ∀ c ∈ r.components, c.WellNamed
  componentIds : (r.components.map Component.id).Nodup
  fieldIds : ∀ t ∈ r.types, (t.fields.map Field.id).Nodup
  fieldShapes : ∀ t ∈ r.types, ∀ f ∈ t.fields, r.Resolves f.shape
  dataTypes : ∀ c ∈ r.components, r.Registers c.dataType
  eventIndices : ∀ c ∈ r.components, (c.events.map Event.index).Nodup
  eventShapes : ∀ c ∈ r.components, ∀ e ∈ c.events, r.Resolves e.shape
  commandIndices : ∀ c ∈ r.components, (c.commands.map Command.index).Nodup
  commandShapes : ∀ c ∈ r.components, ∀ m ∈ c.commands, r.Resolves m.request ∧ r.Resolves m.response
  ownData : (r.components.map Component.dataType).Nodup
  items : r.definedItems.Nodup
  modules : ∀ m, r.IsModule m → m ∉ r.definedItems
  fieldNames : ∀ t ∈ r.types, (t.fields.map Field.name).Nodup
  memberNames : ∀ c ∈ r.components, ∀ t, r.type? c.dataType = some t →
    (dirtyMember :: t.fields.map Field.name ++ c.events.map Event.name).Nodup

end Registry

/-! ### The rules one by one -/

/-- Reporting the first earlier component with the same key finds none when all keys differ. -/
theorem report_first_eq_nil_iff {β : Type} [DecidableEq β] {key : Component → β}
    {earlier : List Component} {c : Component} {report : Component → Error} :
    (match earlier.find? fun e => key e = key c with
      | some first => [report first]
      | none => []) = [] ↔ ∀ e ∈ earlier, key e ≠ key c := by
  cases h : earlier.find? fun e => key e = key c with
  | none =>
      have hne : ∀ e ∈ earlier, key e ≠ key c := by simpa using h
      exact iff_of_true rfl hne
  | some first =>
      have hfirst : key first = key c := by simpa using List.find?_some h
      exact iff_of_false (List.cons_ne_nil _ _)
        fun hne => hne first (List.mem_of_find?_eq_some h) hfirst

/-- Numbers that some earlier item has too are reported, and nothing else is. -/
theorem report_repeated_eq_nil_iff {α β : Type} [DecidableEq β] {key : α → β} {earlier : List α}
    {a : α} {e : Error} :
    (if earlier.any fun x => key x = key a then [e] else []) = [] ↔
      ∀ x ∈ earlier, key x ≠ key a := by
  rw [ite_singleton_eq_nil']
  simp

/-- Names that some earlier member has too are reported, and nothing else is. -/
theorem report_names_eq_nil_iff {α : Type} [BEq α] [LawfulBEq α] {xs : List α} {e : α → Error} :
    ((withEarlier xs).flatMap fun p => if p.2 ∈ p.1 then [e p.2] else []) = [] ↔ xs.Nodup := by
  have hnodup := forall_withEarlier_ne (fun x : α => x) xs
  rw [List.map_id'] at hnodup
  rw [List.flatMap_eq_nil_iff, ← hnodup]
  refine forall₂_congr fun p _ => ?_
  rw [ite_singleton_eq_nil']
  exact ⟨fun h x hx heq => h (heq ▸ hx), fun h hmem => h p.2 hmem rfl⟩

theorem nameViolations_eq_nil_iff {role : NameRole} {name : String} :
    nameViolations role name = [] ↔ Text.isPlainIdentifier name := ite_singleton_eq_nil

theorem packageViolations_eq_nil_iff {package : String} :
    packageViolations package = [] ↔ IsPackageName package := by
  rw [packageViolations, ite_singleton_eq_nil, List.all_eq_true, IsPackageName]

theorem UserType.nameRules_eq_nil_iff (t : UserType) : t.nameRules = [] ↔ t.WellNamed := by
  simp only [nameRules, List.append_eq_nil_iff, List.flatMap_eq_nil_iff,
    packageViolations_eq_nil_iff, nameViolations_eq_nil_iff, qualifiedNameViolations,
    ite_singleton_eq_nil]
  constructor
  · rintro ⟨⟨⟨hpackage, hname⟩, hqualified⟩, hfields⟩
    exact ⟨hpackage, hname, hqualified, hfields⟩
  · rintro ⟨hpackage, hname, hqualified, hfields⟩
    exact ⟨⟨⟨hpackage, hname⟩, hqualified⟩, hfields⟩

theorem Component.nameRules_eq_nil_iff (c : Component) : c.nameRules = [] ↔ c.WellNamed := by
  simp only [nameRules, List.append_eq_nil_iff, List.flatMap_eq_nil_iff,
    packageViolations_eq_nil_iff, nameViolations_eq_nil_iff, qualifiedNameViolations,
    ite_singleton_eq_nil]
  constructor
  · rintro ⟨⟨⟨⟨hpackage, hname⟩, hqualified⟩, hevents⟩, hcommands⟩
    exact ⟨hpackage, hname, hqualified, hevents, hcommands⟩
  · rintro ⟨hpackage, hname, hqualified, hevents, hcommands⟩
    exact ⟨⟨⟨⟨hpackage, hname⟩, hqualified⟩, hevents⟩, hcommands⟩

theorem UserType.memberRules_eq_nil_iff (t : UserType) :
    t.memberRules = [] ↔ (t.fields.map Field.name).Nodup := report_names_eq_nil_iff

namespace Registry

variable {r : Registry}

theorem hasType_iff {name : String} : r.hasType name = true ↔ r.Registers name := by
  simp [hasType, Registers]

theorem Shape.isKey_iff {key : Shape} : key.isKey = true ↔ ∃ s, key = .scalar s ∧ s.isHashable := by
  cases key <;> simp [Shape.isKey]

/-- The rules on a shape look at every reference and every key: below a key there is nothing left to
look at once the key is a scalar. -/
theorem shapeRules_eq_nil_iff (site : Site) (shape : Shape) :
    r.shapeRules site shape = [] ↔ r.Resolves shape := by
  induction shape with
  | scalar s =>
      exact iff_of_true rfl ⟨by simp [Shape.references], by simp [Shape.keys]⟩
  | reference name =>
      rw [shapeRules, ite_singleton_eq_nil, hasType_iff]
      constructor
      · intro h
        exact ⟨by simpa [Shape.references] using h, by simp [Shape.keys]⟩
      · intro h
        exact h.references name (by simp [Shape.references])
  | option inner ih =>
      exact ih.trans ⟨fun h => ⟨h.references, h.keys⟩, fun h => ⟨h.references, h.keys⟩⟩
  | list inner ih =>
      exact ih.trans ⟨fun h => ⟨h.references, h.keys⟩, fun h => ⟨h.references, h.keys⟩⟩
  | map key value _ ih =>
      rw [shapeRules, List.append_eq_nil_iff, ite_singleton_eq_nil, Shape.isKey_iff, ih]
      constructor
      · rintro ⟨⟨s, rfl, hs⟩, hvalue⟩
        refine ⟨?_, ?_⟩
        · simpa [Shape.references] using hvalue.references
        · simpa [Shape.keys, hs] using hvalue.keys
      · intro h
        refine ⟨h.keys key (by simp [Shape.keys]), ⟨?_, ?_⟩⟩
        · intro name hname
          exact h.references name (by simp [Shape.references, hname])
        · intro k hk
          exact h.keys k (by simp [Shape.keys, hk])

theorem componentIdRules_eq_nil_iff :
    r.componentIdRules = [] ↔ (r.components.map Component.id).Nodup := by
  rw [componentIdRules, List.flatMap_eq_nil_iff, ← forall_withEarlier_ne]
  exact forall₂_congr fun p _ => report_first_eq_nil_iff

theorem dataTypeRules_eq_nil_iff :
    r.dataTypeRules = [] ↔ (r.components.map Component.dataType).Nodup := by
  rw [dataTypeRules, List.flatMap_eq_nil_iff, ← forall_withEarlier_ne]
  exact forall₂_congr fun p _ => report_first_eq_nil_iff

theorem typeRules_eq_nil_iff (t : UserType) :
    r.typeRules t = [] ↔
      (t.fields.map Field.id).Nodup ∧ ∀ f ∈ t.fields, r.Resolves f.shape := by
  rw [typeRules, List.flatMap_eq_nil_iff, ← forall_withEarlier_and]
  refine forall₂_congr fun p _ => ?_
  rw [List.append_eq_nil_iff, report_repeated_eq_nil_iff, shapeRules_eq_nil_iff]

theorem componentRules_eq_nil_iff (c : Component) :
    r.componentRules c = [] ↔
      r.Registers c.dataType ∧
        ((c.events.map Event.index).Nodup ∧ ∀ e ∈ c.events, r.Resolves e.shape) ∧
        ((c.commands.map Command.index).Nodup ∧
          ∀ m ∈ c.commands, r.Resolves m.request ∧ r.Resolves m.response) := by
  rw [componentRules, List.append_eq_nil_iff, List.append_eq_nil_iff, ite_singleton_eq_nil,
    hasType_iff, and_assoc, List.flatMap_eq_nil_iff, List.flatMap_eq_nil_iff,
    ← forall_withEarlier_and, ← forall_withEarlier_and]
  refine and_congr_right' (and_congr ?_ ?_)
  · refine forall₂_congr fun p _ => ?_
    rw [List.append_eq_nil_iff, report_repeated_eq_nil_iff, shapeRules_eq_nil_iff]
  · refine forall₂_congr fun p _ => ?_
    rw [List.append_eq_nil_iff, List.append_eq_nil_iff, report_repeated_eq_nil_iff,
      shapeRules_eq_nil_iff, shapeRules_eq_nil_iff, and_assoc]

theorem componentMemberRules_eq_nil_iff (c : Component) :
    r.componentMemberRules c = [] ↔
      ∀ t, r.type? c.dataType = some t →
        (dirtyMember :: t.fields.map Field.name ++ c.events.map Event.name).Nodup := by
  rw [componentMemberRules]
  cases h : r.type? c.dataType with
  | none => simp
  | some t =>
      simp only [Option.some.injEq, forall_eq']
      exact report_names_eq_nil_iff

/-- The packages along a name are its prefixes, each as parent and last segment. -/
theorem mem_modulesAlong {parent segments : List String} {m : String × String} :
    m ∈ modulesAlong parent segments ↔
      ∃ before after, segments = before ++ m.2 :: after ∧ m.1 = Text.dotted (parent ++ before) := by
  induction segments generalizing parent with
  | nil => simp [modulesAlong]
  | cons s rest ih =>
      rw [modulesAlong, List.mem_cons, ih]
      constructor
      · rintro (rfl | ⟨before, after, rfl, hm⟩)
        · exact ⟨[], rest, rfl, by rw [List.append_nil]⟩
        · exact ⟨s :: before, after, rfl, by rw [hm, List.append_assoc]; rfl⟩
      · rintro ⟨before, after, hsegments, hm⟩
        cases before with
        | nil =>
            obtain ⟨rfl, rfl⟩ := List.cons.inj hsegments
            exact Or.inl (Prod.ext (by rw [hm, List.append_nil]) rfl)
        | cons b before =>
            obtain ⟨rfl, rfl⟩ := List.cons.inj hsegments
            exact Or.inr ⟨before, after, rfl, by rw [hm, List.append_assoc]; rfl⟩

private theorem nodup_eraseDups {α : Type} [BEq α] [LawfulBEq α] (xs : List α) :
    xs.eraseDups.Nodup := by
  induction hn : xs.length using Nat.strong_induction_on generalizing xs with
  | _ n ih =>
      cases xs with
      | nil => simp
      | cons x rest =>
          rw [List.eraseDups_cons, List.nodup_cons]
          refine ⟨?_, ih _ ?_ _ rfl⟩
          · simp [List.mem_eraseDups]
          · have hle := List.length_filter_le (fun y => !y == x) rest
            rw [List.length_cons] at hn
            omega

/-- The subpackages in the order they are first met are all of them, each once. -/
theorem enumerates_modules (r : Registry) : r.Enumerates r.modules where
  nodup := nodup_eraseDups _
  mem_iff m := by
    rw [modules, List.mem_eraseDups, List.mem_flatMap]
    simp only [mem_modulesAlong, List.nil_append]
    rfl

/-- The claimed items are the subpackages and the items that are defined. -/
theorem itemClaims_perm (r : Registry) (modules : List (String × String)) :
    (r.itemClaims modules).Perm (modules ++ r.definedItems) := by
  rw [itemClaims, definedItems, ← List.append_assoc, ← List.append_assoc]
  exact (List.perm_append_comm.append_right _).append_right _

/-- The items of all packages differ when the subpackages are kept apart from the other items and
those differ among themselves. -/
theorem itemRules_eq_nil_iff {modules : List (String × String)} (h : r.Enumerates modules) :
    r.itemRules modules = [] ↔
      r.definedItems.Nodup ∧ ∀ m, r.IsModule m → m ∉ r.definedItems := by
  have hrules : r.itemRules modules = [] ↔ (r.itemClaims modules).Nodup :=
    report_names_eq_nil_iff (e := fun m : String × String => .duplicateItem m.1 m.2)
  rw [hrules, (itemClaims_perm r modules).nodup_iff, List.nodup_append']
  simp only [h.nodup, true_and, List.disjoint_left, h.mem_iff]

/-- Validation accepts exactly the well-formed registries, in whatever order it looks at the
subpackages. -/
theorem validateIn_eq_ok_iff {modules : List (String × String)} (h : r.Enumerates modules) :
    r.validateIn modules = .ok () ↔ r.WellFormed := by
  have hok : r.validateIn modules = .ok () ↔ ∀ group ∈ r.violationGroups modules, group = [] := by
    rw [← List.flatten_eq_nil_iff, validateIn]
    cases (r.violationGroups modules).flatten <;> simp
  rw [hok]
  simp only [violationGroups, List.forall_mem_cons, nameRules,
    List.append_eq_nil_iff, List.flatMap_eq_nil_iff, UserType.nameRules_eq_nil_iff,
    Component.nameRules_eq_nil_iff, componentIdRules_eq_nil_iff, typeRules_eq_nil_iff,
    componentRules_eq_nil_iff, dataTypeRules_eq_nil_iff, itemRules_eq_nil_iff h,
    UserType.memberRules_eq_nil_iff, componentMemberRules_eq_nil_iff]
  constructor
  · rintro ⟨⟨htypes, hcomponents⟩, hids, hfields, hrules, hown, ⟨hitems, hmodules⟩,
      ⟨hnames, hmembers⟩, -⟩
    exact
      { typeNames := htypes
        componentNames := hcomponents
        componentIds := hids
        fieldIds := fun t ht => (hfields t ht).1
        fieldShapes := fun t ht => (hfields t ht).2
        dataTypes := fun c hc => (hrules c hc).1
        eventIndices := fun c hc => (hrules c hc).2.1.1
        eventShapes := fun c hc => (hrules c hc).2.1.2
        commandIndices := fun c hc => (hrules c hc).2.2.1
        commandShapes := fun c hc => (hrules c hc).2.2.2
        ownData := hown
        items := hitems
        modules := hmodules
        fieldNames := hnames
        memberNames := hmembers }
  · intro w
    exact ⟨⟨w.typeNames, w.componentNames⟩, w.componentIds,
      fun t ht => ⟨w.fieldIds t ht, w.fieldShapes t ht⟩,
      fun c hc => ⟨w.dataTypes c hc, ⟨w.eventIndices c hc, w.eventShapes c hc⟩,
        w.commandIndices c hc, w.commandShapes c hc⟩,
      w.ownData, ⟨w.items, w.modules⟩, ⟨w.fieldNames, w.memberNames⟩,
      fun _ h => absurd h List.not_mem_nil⟩

/-- A registry is accepted if and only if it is well-formed: by validation as it runs, and in any
other order in which the set of its subpackages can be looked at. -/
theorem validate_ok_iff_wellFormed (r : Registry) :
    (r.validate = .ok () ↔ r.WellFormed) ∧
      ∀ modules, r.Enumerates modules → (r.validateIn modules = .ok () ↔ r.WellFormed) :=
  ⟨validateIn_eq_ok_iff r.enumerates_modules, fun _ h => validateIn_eq_ok_iff h⟩

/-- The sample registry is well-formed, and it is accepted with its subpackages in reverse order. -/
theorem validate_ok_iff_wellFormed_sample :
    Sample.registry.WellFormed ∧
      Sample.registry.Enumerates Sample.registry.modules.reverse ∧
      Sample.registry.validateIn Sample.registry.modules.reverse = .ok () := by
  have hmodules := enumerates_modules Sample.registry
  have hreverse : Sample.registry.Enumerates Sample.registry.modules.reverse :=
    ⟨List.nodup_reverse.mpr hmodules.nodup, fun m => List.mem_reverse.trans (hmodules.mem_iff m)⟩
  have hwell : Sample.registry.WellFormed :=
    (validate_ok_iff_wellFormed Sample.registry).1.mp rfl
  exact ⟨hwell, hreverse, ((validate_ok_iff_wellFormed _).2 _ hreverse).mpr hwell⟩

end Registry

end EntitySchema.Schema
