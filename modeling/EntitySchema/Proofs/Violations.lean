import EntitySchema.Proofs.Registration
import EntitySchema.Proofs.WellFormed

/-!
# What a refusal says

Validation refuses a registry with one defect. `Registry.Exhibits` says of a defect that a registry
has it, with all that the defect names; it does not speak of the order in which definitions are
looked at. The rules are looked at in seven phases, and `Registry.Keeps` says what a registry keeps
that violates nothing in a phase.

The main statement is that a refusal is true: the registry has the defect, and it keeps the rules of
every phase before the one that the defect belongs to.

## Implementation notes

A rule that compares definitions runs over `withEarlier`, so an item that it reports comes with the
part of the list in front of it. Two items of which one stands in front of the other are the
two-element sublists, and this is how `Exhibits` says that a key occurs twice.
-/

namespace EntitySchema.Schema

/-! ### Phases -/

/-- The groups of rules. -/
inductive Phase where
  /-- Names are identifiers and qualified names agree with them. -/
  | names
  /-- Component numbers differ. -/
  | componentIds
  /-- Field numbers differ within a type, and the shapes of fields resolve. -/
  | types
  /-- Data types are registered, event and command numbers differ within a component, and the shapes
  of events and commands resolve. -/
  | components
  /-- Data types differ. -/
  | dataTypes
  /-- Items of a package differ. -/
  | items
  /-- Members of a structure differ. -/
  | members
deriving DecidableEq, Repr

namespace Phase

/-- The phases in the order in which they are looked at. -/
def all : List Phase :=
  [.names, .componentIds, .types, .components, .dataTypes, .items, .members]

/-- The number of phases before a phase. -/
def rank : Phase → Nat
  | .names => 0
  | .componentIds => 1
  | .types => 2
  | .components => 3
  | .dataTypes => 4
  | .items => 5
  | .members => 6

theorem mem_all (phase : Phase) : phase ∈ all := by
  cases phase <;> decide

/-- What has a lower rank than a phase comes before it in the list. -/
theorem mem_of_rank_lt {phase earlier : Phase} {before after : List Phase}
    (hall : all = before ++ phase :: after) (hlt : earlier.rank < phase.rank) :
    earlier ∈ before := by
  have hsorted : all.Pairwise fun p q => p.rank < q.rank := by decide
  rw [hall] at hsorted
  have hmem : earlier ∈ before ++ phase :: after := hall ▸ mem_all earlier
  rcases List.mem_append.mp hmem with hbefore | hrest
  · exact hbefore
  · rcases List.mem_cons.mp hrest with rfl | hafter
    · exact absurd hlt (Nat.lt_irrefl _)
    · have hlater := (List.pairwise_cons.mp (List.pairwise_append.mp hsorted).2.1).1 earlier hafter
      exact absurd hlt (Nat.lt_asymm hlater)

end Phase

/-- The phase in which a defect of a registry is found; other defects belong to none. -/
def Error.phase? : Error → Option Phase
  | .invalidName _ _ | .qualifiedNameMismatch _ _ _ => some .names
  | .duplicateComponentId _ _ _ => some .componentIds
  | .duplicateFieldId _ _ => some .types
  | .unresolved _ (.field _ _) | .invalidMapKey _ (.field _ _) => some .types
  | .unresolved _ _ | .invalidMapKey _ _ => some .components
  | .duplicateEventIndex _ _ | .duplicateCommandIndex _ _ => some .components
  | .sharedDataType _ _ _ => some .dataTypes
  | .duplicateItem _ _ => some .items
  | .duplicateMember _ _ => some .members
  | .malformed _ _ | .missingShape _ | .conflictingShapes _ | .unknownScalar _ _
  | .emptyReference _ | .duplicateType _ | .duplicateComponent _ => none

/-! ### What a registry has -/

/-- What a name has to be in its role. -/
def NameRole.Allows : NameRole → String → Prop
  | .package, name => IsPackageName name
  | _, name => Text.isPlainIdentifier name

namespace Registry

variable {r : Registry}

/-- Some definition declares a name in a role. -/
inductive Declares (r : Registry) : NameRole → String → Prop
  | typePackage {t : UserType} : t ∈ r.types → Declares r .package t.package
  | componentPackage {c : Component} : c ∈ r.components → Declares r .package c.package
  | type {t : UserType} : t ∈ r.types → Declares r .type t.name
  | field {t : UserType} {f : Field} : t ∈ r.types → f ∈ t.fields → Declares r .field f.name
  | component {c : Component} : c ∈ r.components → Declares r .component c.name
  | event {c : Component} {e : Event} : c ∈ r.components → e ∈ c.events → Declares r .event e.name
  | command {c : Component} {m : Command} :
    c ∈ r.components → m ∈ c.commands → Declares r .command m.name

/-- Some definition has a package, a name and a qualified name. -/
inductive Qualifies (r : Registry) : (package name qualifiedName : String) → Prop
  | type {t : UserType} : t ∈ r.types → Qualifies r t.package t.name t.qualifiedName
  | component {c : Component} : c ∈ r.components → Qualifies r c.package c.name c.qualifiedName

/-- A shape is used at a site. -/
inductive Carries (r : Registry) : Site → Shape → Prop
  | field {t : UserType} {f : Field} :
    t ∈ r.types → f ∈ t.fields → Carries r (.field f.name t.qualifiedName) f.shape
  | event {c : Component} {e : Event} :
    c ∈ r.components → e ∈ c.events → Carries r (.event e.name c.qualifiedName) e.shape
  | request {c : Component} {m : Command} :
    c ∈ r.components → m ∈ c.commands → Carries r (.command m.name c.qualifiedName) m.request
  | response {c : Component} {m : Command} :
    c ∈ r.components → m ∈ c.commands → Carries r (.command m.name c.qualifiedName) m.response
  | data {c : Component} :
    c ∈ r.components → Carries r (.data c.qualifiedName) (.reference c.dataType)

/-- An owner generates a structure with some members. -/
inductive Owns (r : Registry) : Owner → List String → Prop
  | type {t : UserType} : t ∈ r.types → Owns r (.type t.qualifiedName) (t.fields.map Field.name)
  | component {c : Component} {t : UserType} : c ∈ r.components → r.type? c.dataType = some t →
    Owns r (.component c.qualifiedName t.qualifiedName)
      (dirtyMember :: t.fields.map Field.name ++ c.events.map Event.name)

/-- Two components, the first registered before the second, have a key in common. -/
def Share {β : Type} (r : Registry) (key : Component → β) (k : β) (first second : String) : Prop :=
  ∃ a b, [a, b].Sublist r.components ∧ key a = k ∧ key b = k ∧
    a.qualifiedName = first ∧ b.qualifiedName = second

/-- The registry has a defect, with all that the defect names. -/
def Exhibits (r : Registry) : Error → Prop
  | .invalidName role name => r.Declares role name ∧ ¬role.Allows name
  | .qualifiedNameMismatch package name qualifiedName =>
    r.Qualifies package name qualifiedName ∧ qualifiedName ≠ package ++ "." ++ name
  | .duplicateComponentId id first second => r.Share Component.id id first second
  | .duplicateFieldId type id =>
    ∃ t ∈ r.types, t.qualifiedName = type ∧ (t.fields.map Field.id).Duplicate id
  | .duplicateEventIndex component index =>
    ∃ c ∈ r.components, c.qualifiedName = component ∧ (c.events.map Event.index).Duplicate index
  | .duplicateCommandIndex component index =>
    ∃ c ∈ r.components, c.qualifiedName = component ∧
      (c.commands.map Command.index).Duplicate index
  | .unresolved name site =>
    (∃ shape, r.Carries site shape ∧ name ∈ shape.references) ∧ ¬r.Registers name
  | .invalidMapKey key site =>
    (∃ shape, r.Carries site shape ∧ key ∈ shape.keys) ∧
      ¬∃ s : Scalar, key = .scalar s ∧ s.isHashable
  | .sharedDataType type first second => r.Share Component.dataType type first second
  | .duplicateItem package name =>
    r.definedItems.Duplicate (package, name) ∨
      r.IsModule (package, name) ∧ (package, name) ∈ r.definedItems
  | .duplicateMember owner name => ∃ members, r.Owns owner members ∧ members.Duplicate name
  | .malformed _ _ | .missingShape _ | .conflictingShapes _ | .unknownScalar _ _
  | .emptyReference _ | .duplicateType _ | .duplicateComponent _ => False

/-- The registry violates nothing that a phase looks at. -/
def Keeps (r : Registry) : Phase → Prop
  | .names => (∀ t ∈ r.types, t.WellNamed) ∧ ∀ c ∈ r.components, c.WellNamed
  | .componentIds => (r.components.map Component.id).Nodup
  | .types => ∀ t ∈ r.types, (t.fields.map Field.id).Nodup ∧ ∀ f ∈ t.fields, r.Resolves f.shape
  | .components => ∀ c ∈ r.components, r.Registers c.dataType ∧
      ((c.events.map Event.index).Nodup ∧ ∀ e ∈ c.events, r.Resolves e.shape) ∧
      ((c.commands.map Command.index).Nodup ∧
        ∀ m ∈ c.commands, r.Resolves m.request ∧ r.Resolves m.response)
  | .dataTypes => (r.components.map Component.dataType).Nodup
  | .items => r.definedItems.Nodup ∧ ∀ m, r.IsModule m → m ∉ r.definedItems
  | .members => (∀ t ∈ r.types, (t.fields.map Field.name).Nodup) ∧
      ∀ c ∈ r.components, ∀ t, r.type? c.dataType = some t →
        (dirtyMember :: t.fields.map Field.name ++ c.events.map Event.name).Nodup

/-- The violations of a phase, where subpackages come in the given order. -/
def found (r : Registry) (modules : List (String × String)) : Phase → List Error
  | .names => r.nameRules
  | .componentIds => r.componentIdRules
  | .types => r.types.flatMap r.typeRules
  | .components => r.components.flatMap r.componentRules
  | .dataTypes => r.dataTypeRules
  | .items => r.itemRules modules
  | .members => r.types.flatMap UserType.memberRules ++ r.components.flatMap r.componentMemberRules

theorem violationGroups_flatten (modules : List (String × String)) :
    (r.violationGroups modules).flatten = Phase.all.flatMap (r.found modules) := rfl

theorem found_eq_nil_iff {modules : List (String × String)} (h : r.Enumerates modules)
    (phase : Phase) : r.found modules phase = [] ↔ r.Keeps phase := by
  cases phase with
  | names =>
      simp only [found, nameRules, List.append_eq_nil_iff, List.flatMap_eq_nil_iff,
        UserType.nameRules_eq_nil_iff, Component.nameRules_eq_nil_iff, Keeps]
  | componentIds => exact componentIdRules_eq_nil_iff
  | types => simp only [found, List.flatMap_eq_nil_iff, typeRules_eq_nil_iff, Keeps]
  | components => simp only [found, List.flatMap_eq_nil_iff, componentRules_eq_nil_iff, Keeps]
  | dataTypes => exact dataTypeRules_eq_nil_iff
  | items => exact itemRules_eq_nil_iff h
  | members =>
      simp only [found, List.append_eq_nil_iff, List.flatMap_eq_nil_iff,
        UserType.memberRules_eq_nil_iff, componentMemberRules_eq_nil_iff, Keeps]

end Registry

/-! ### Items with those before them -/

section Earlier

variable {α β : Type}

private theorem eq_append_of_mem_go {seen xs : List α} {p : List α × α}
    (h : p ∈ withEarlier.go seen xs) : ∃ after, seen ++ xs = p.1 ++ p.2 :: after := by
  induction xs generalizing seen with
  | nil => cases h
  | cons x rest ih =>
      rw [withEarlier.go, List.mem_cons] at h
      rcases h with rfl | h
      · exact ⟨rest, rfl⟩
      · obtain ⟨after, hafter⟩ := ih h
        exact ⟨after, by rw [← hafter, List.append_assoc, List.singleton_append]⟩

/-- An item that comes with the items before it divides the list. -/
theorem eq_append_of_mem_withEarlier {xs earlier : List α} {x : α}
    (h : (earlier, x) ∈ withEarlier xs) : ∃ after, xs = earlier ++ x :: after :=
  eq_append_of_mem_go h

theorem mem_of_mem_withEarlier {xs earlier : List α} {x : α} (h : (earlier, x) ∈ withEarlier xs) :
    x ∈ xs := by
  obtain ⟨after, rfl⟩ := eq_append_of_mem_withEarlier h
  exact List.mem_append_right earlier List.mem_cons_self

/-- One of the items before an item stands in front of it. -/
theorem sublist_of_mem_withEarlier {xs earlier : List α} {x e : α}
    (h : (earlier, x) ∈ withEarlier xs) (he : e ∈ earlier) : [e, x].Sublist xs := by
  obtain ⟨after, rfl⟩ := eq_append_of_mem_withEarlier h
  exact (List.singleton_sublist.mpr he).append (List.singleton_sublist.mpr List.mem_cons_self)

/-- A key that an earlier item has too occurs twice. -/
theorem duplicate_of_mem_withEarlier (key : α → β) {xs earlier : List α} {x e : α}
    (h : (earlier, x) ∈ withEarlier xs) (he : e ∈ earlier) (hkey : key e = key x) :
    (xs.map key).Duplicate (key x) := by
  have hsublist := (sublist_of_mem_withEarlier h he).map key
  rw [List.map_cons, List.map_singleton, hkey] at hsublist
  exact List.duplicate_iff_sublist.mpr hsublist

/-- What occurs twice in two lists together, of which the first repeats nothing, occurs twice in the
second or in both. -/
theorem duplicate_of_perm_append [DecidableEq α] {xs ys zs : List α} {x : α}
    (hperm : zs.Perm (xs ++ ys)) (hxs : xs.Nodup) (h : zs.Duplicate x) :
    ys.Duplicate x ∨ x ∈ xs ∧ x ∈ ys := by
  have hcount : 2 ≤ xs.count x + ys.count x := by
    rw [← List.count_append, ← hperm.count_eq]
    exact List.duplicate_iff_two_le_count.mp h
  have honce : xs.count x ≤ 1 := List.nodup_iff_count_le_one.mp hxs x
  by_cases hmem : x ∈ xs
  · exact Or.inr ⟨hmem, List.count_pos_iff.mp (by omega)⟩
  · rw [List.count_eq_zero_of_not_mem hmem, Nat.zero_add] at hcount
    exact Or.inl (List.duplicate_iff_two_le_count.mpr hcount)

/-- What is reported for names that occur again is reported of a name that occurs twice. -/
theorem duplicate_of_mem_report [BEq α] [LawfulBEq α] {xs : List α} (report : α → Error) {e : Error}
    (h : e ∈ (withEarlier xs).flatMap fun p => if p.2 ∈ p.1 then [report p.2] else []) :
    ∃ x, e = report x ∧ xs.Duplicate x := by
  obtain ⟨⟨earlier, x⟩, hp, he⟩ := List.mem_flatMap.mp h
  split_ifs at he with hmem
  · have hdup := duplicate_of_mem_withEarlier id hp hmem rfl
    rw [List.map_id] at hdup
    exact ⟨x, List.mem_singleton.mp he, hdup⟩
  · cases he

end Earlier

/-! ### The rules one by one -/

theorem mem_nameViolations {role : NameRole} {name : String} {e : Error} :
    e ∈ nameViolations role name ↔ e = .invalidName role name ∧ ¬Text.isPlainIdentifier name := by
  rw [nameViolations]
  split_ifs with h <;> simp [h]

theorem mem_packageViolations {package : String} {e : Error} :
    e ∈ packageViolations package ↔ e = .invalidName .package package ∧ ¬IsPackageName package := by
  rw [← packageViolations_eq_nil_iff, packageViolations]
  split_ifs <;> simp

theorem mem_qualifiedNameViolations {package name qualifiedName : String} {e : Error} :
    e ∈ qualifiedNameViolations package name qualifiedName ↔
      e = .qualifiedNameMismatch package name qualifiedName ∧
        qualifiedName ≠ package ++ "." ++ name := by
  rw [qualifiedNameViolations]
  split_ifs with h <;> simp [h]

namespace Registry

variable {r : Registry} {modules : List (String × String)} {e : Error}

/-- A defect that the registry has and that belongs to a phase. -/
def ExhibitsIn (r : Registry) (phase : Phase) (e : Error) : Prop :=
  r.Exhibits e ∧ e.phase? = some phase

theorem exhibits_of_mem_nameViolations {role : NameRole} {name : String}
    (hrole : role ≠ .package) (hname : r.Declares role name) (h : e ∈ nameViolations role name) :
    r.ExhibitsIn .names e := by
  obtain ⟨rfl, hplain⟩ := mem_nameViolations.mp h
  refine ⟨⟨hname, ?_⟩, rfl⟩
  cases role with
  | package => exact absurd rfl hrole
  | _ => exact hplain

theorem exhibits_of_mem_packageViolations {package : String}
    (hpackage : r.Declares .package package) (h : e ∈ packageViolations package) :
    r.ExhibitsIn .names e := by
  obtain ⟨rfl, hnot⟩ := mem_packageViolations.mp h
  exact ⟨⟨hpackage, hnot⟩, rfl⟩

theorem exhibits_of_mem_qualifiedNameViolations {package name qualifiedName : String}
    (hname : r.Qualifies package name qualifiedName)
    (h : e ∈ qualifiedNameViolations package name qualifiedName) : r.ExhibitsIn .names e := by
  obtain ⟨rfl, hne⟩ := mem_qualifiedNameViolations.mp h
  exact ⟨⟨hname, hne⟩, rfl⟩

theorem exhibits_of_mem_typeNames {t : UserType} (ht : t ∈ r.types) (h : e ∈ t.nameRules) :
    r.ExhibitsIn .names e := by
  simp only [UserType.nameRules, List.mem_append, List.mem_flatMap] at h
  rcases h with ((h | h) | h) | ⟨f, hf, h⟩
  · exact exhibits_of_mem_packageViolations (.typePackage ht) h
  · exact exhibits_of_mem_nameViolations (by decide) (.type ht) h
  · exact exhibits_of_mem_qualifiedNameViolations (.type ht) h
  · exact exhibits_of_mem_nameViolations (by decide) (.field ht hf) h

theorem exhibits_of_mem_componentNames {c : Component} (hc : c ∈ r.components)
    (h : e ∈ c.nameRules) : r.ExhibitsIn .names e := by
  simp only [Component.nameRules, List.mem_append, List.mem_flatMap] at h
  rcases h with (((h | h) | h) | ⟨v, hv, h⟩) | ⟨m, hm, h⟩
  · exact exhibits_of_mem_packageViolations (.componentPackage hc) h
  · exact exhibits_of_mem_nameViolations (by decide) (.component hc) h
  · exact exhibits_of_mem_qualifiedNameViolations (.component hc) h
  · exact exhibits_of_mem_nameViolations (by decide) (.event hc hv) h
  · exact exhibits_of_mem_nameViolations (by decide) (.command hc hm) h

/-- The component that is reported as the first one with a key stands before the second one. -/
theorem share_of_mem_report {β : Type} [DecidableEq β] (key : Component → β)
    (report : Component → Component → Error)
    (h : e ∈ (withEarlier r.components).flatMap fun p =>
      match p.1.find? fun x => key x = key p.2 with
      | some first => [report first p.2]
      | none => []) :
    ∃ a b, e = report a b ∧ r.Share key (key b) a.qualifiedName b.qualifiedName := by
  obtain ⟨⟨earlier, b⟩, hp, he⟩ := List.mem_flatMap.mp h
  cases hfind : earlier.find? fun x => key x = key b with
  | none => simp [hfind] at he
  | some a =>
      simp only [hfind, List.mem_singleton] at he
      have hkey : key a = key b := by simpa using List.find?_some hfind
      exact ⟨a, b, he, a, b,
        sublist_of_mem_withEarlier hp (List.mem_of_find?_eq_some hfind), hkey, rfl, rfl, rfl⟩

/-- A number that is reported because an earlier item has it too occurs twice. -/
theorem duplicate_of_mem_repeated {α β : Type} [DecidableEq β] {key : α → β} {xs earlier : List α}
    {x : α} {report : Error} (hp : (earlier, x) ∈ withEarlier xs)
    (h : e ∈ if earlier.any fun y => key y = key x then [report] else []) :
    e = report ∧ (xs.map key).Duplicate (key x) := by
  split_ifs at h with hany
  · obtain ⟨y, hy, hkey⟩ := List.any_eq_true.mp hany
    exact ⟨List.mem_singleton.mp h, duplicate_of_mem_withEarlier _ hp hy (of_decide_eq_true hkey)⟩
  · cases h

/-- What is reported of a shape is a type that it mentions or a key that it has. -/
theorem mem_shapeRules {site : Site} {shape : Shape} (h : e ∈ r.shapeRules site shape) :
    (∃ name ∈ shape.references, ¬r.Registers name ∧ e = .unresolved name site) ∨
      ∃ key ∈ shape.keys, (¬∃ s : Scalar, key = .scalar s ∧ s.isHashable) ∧
        e = .invalidMapKey key site := by
  induction shape with
  | scalar s => cases h
  | reference name =>
      rw [shapeRules] at h
      split_ifs at h with htype
      · cases h
      · exact Or.inl ⟨name, List.mem_singleton_self name, mt hasType_iff.mpr htype,
          List.mem_singleton.mp h⟩
  | option inner ih => exact ih h
  | list inner ih => exact ih h
  | map key value _ ih =>
      rw [shapeRules, List.mem_append] at h
      rcases h with h | h
      · split_ifs at h with hkey
        · cases h
        · exact Or.inr ⟨key, List.mem_cons_self, mt Shape.isKey_iff.mpr hkey,
            List.mem_singleton.mp h⟩
      · rcases ih h with ⟨name, hname, hrest⟩ | ⟨k, hk, hrest⟩
        · exact Or.inl ⟨name, List.mem_append_right _ hname, hrest⟩
        · exact Or.inr ⟨k, List.mem_cons_of_mem key (List.mem_append_right _ hk), hrest⟩

theorem exhibits_of_mem_shapeRules {site : Site} {shape : Shape} {phase : Phase}
    (hsite : r.Carries site shape)
    (hphase : ∀ name key, (Error.unresolved name site).phase? = some phase ∧
      (Error.invalidMapKey key site).phase? = some phase)
    (h : e ∈ r.shapeRules site shape) : r.ExhibitsIn phase e := by
  rcases mem_shapeRules h with ⟨name, hname, hnot, rfl⟩ | ⟨key, hkey, hnot, rfl⟩
  · exact ⟨⟨⟨shape, hsite, hname⟩, hnot⟩, (hphase name default).1⟩
  · exact ⟨⟨⟨shape, hsite, hkey⟩, hnot⟩, (hphase default key).2⟩

theorem exhibits_of_mem_typeRules {t : UserType} (ht : t ∈ r.types) (h : e ∈ r.typeRules t) :
    r.ExhibitsIn .types e := by
  obtain ⟨⟨earlier, f⟩, hp, he⟩ := List.mem_flatMap.mp h
  rcases List.mem_append.mp he with he | he
  · obtain ⟨rfl, hdup⟩ := duplicate_of_mem_repeated hp he
    exact ⟨⟨t, ht, rfl, hdup⟩, rfl⟩
  · exact exhibits_of_mem_shapeRules (.field ht (mem_of_mem_withEarlier hp))
      (fun _ _ => ⟨rfl, rfl⟩) he

theorem exhibits_of_mem_componentRules {c : Component} (hc : c ∈ r.components)
    (h : e ∈ r.componentRules c) : r.ExhibitsIn .components e := by
  simp only [componentRules, List.mem_append, List.mem_flatMap] at h
  rcases h with (h | ⟨⟨earlier, v⟩, hp, he | he⟩) | ⟨⟨earlier, m⟩, hp, (he | he) | he⟩
  · split_ifs at h with htype
    · cases h
    · obtain rfl := List.mem_singleton.mp h
      exact ⟨⟨⟨_, .data hc, List.mem_singleton_self c.dataType⟩, mt hasType_iff.mpr htype⟩, rfl⟩
  · obtain ⟨rfl, hdup⟩ := duplicate_of_mem_repeated hp he
    exact ⟨⟨c, hc, rfl, hdup⟩, rfl⟩
  · exact exhibits_of_mem_shapeRules (.event hc (mem_of_mem_withEarlier hp))
      (fun _ _ => ⟨rfl, rfl⟩) he
  · obtain ⟨rfl, hdup⟩ := duplicate_of_mem_repeated hp he
    exact ⟨⟨c, hc, rfl, hdup⟩, rfl⟩
  · exact exhibits_of_mem_shapeRules (.request hc (mem_of_mem_withEarlier hp))
      (fun _ _ => ⟨rfl, rfl⟩) he
  · exact exhibits_of_mem_shapeRules (.response hc (mem_of_mem_withEarlier hp))
      (fun _ _ => ⟨rfl, rfl⟩) he

/-- An item that is claimed twice is defined twice or is a subpackage and defined: the subpackages by
themselves are claimed once each. -/
theorem exhibits_of_mem_itemRules (henum : r.Enumerates modules) (h : e ∈ r.itemRules modules) :
    r.ExhibitsIn .items e := by
  obtain ⟨item, rfl, hdup⟩ :=
    duplicate_of_mem_report (fun m : String × String => .duplicateItem m.1 m.2) h
  refine ⟨?_, rfl⟩
  rcases duplicate_of_perm_append (itemClaims_perm r modules) henum.nodup hdup with htwice | ⟨hmodule, hdefined⟩
  · exact Or.inl htwice
  · exact Or.inr ⟨(henum.mem_iff item).mp hmodule, hdefined⟩

theorem exhibits_of_mem_memberRules {owner : Owner} {members : List String}
    (howner : r.Owns owner members)
    (h : e ∈ (withEarlier members).flatMap fun p =>
      if p.2 ∈ p.1 then [Error.duplicateMember owner p.2] else []) : r.ExhibitsIn .members e := by
  obtain ⟨name, rfl, hdup⟩ := duplicate_of_mem_report _ h
  exact ⟨⟨members, howner, hdup⟩, rfl⟩

theorem exhibits_of_mem_componentMemberRules {c : Component} (hc : c ∈ r.components)
    (h : e ∈ r.componentMemberRules c) : r.ExhibitsIn .members e := by
  rw [componentMemberRules] at h
  cases htype : r.type? c.dataType with
  | none =>
      rw [htype] at h
      cases h
  | some t =>
      rw [htype] at h
      exact exhibits_of_mem_memberRules (.component hc htype) h

/-- Whatever a phase finds, the registry has. -/
theorem exhibits_of_mem_found (henum : r.Enumerates modules) {phase : Phase}
    (h : e ∈ r.found modules phase) : r.ExhibitsIn phase e := by
  cases phase with
  | names =>
      rcases List.mem_append.mp h with h | h
      · obtain ⟨t, ht, he⟩ := List.mem_flatMap.mp h
        exact exhibits_of_mem_typeNames ht he
      · obtain ⟨c, hc, he⟩ := List.mem_flatMap.mp h
        exact exhibits_of_mem_componentNames hc he
  | componentIds =>
      obtain ⟨a, b, rfl, hshare⟩ := share_of_mem_report Component.id
        (fun a b => .duplicateComponentId b.id a.qualifiedName b.qualifiedName) h
      exact ⟨hshare, rfl⟩
  | types =>
      obtain ⟨t, ht, he⟩ := List.mem_flatMap.mp h
      exact exhibits_of_mem_typeRules ht he
  | components =>
      obtain ⟨c, hc, he⟩ := List.mem_flatMap.mp h
      exact exhibits_of_mem_componentRules hc he
  | dataTypes =>
      obtain ⟨a, b, rfl, hshare⟩ := share_of_mem_report Component.dataType
        (fun a b => .sharedDataType b.dataType a.qualifiedName b.qualifiedName) h
      exact ⟨hshare, rfl⟩
  | items => exact exhibits_of_mem_itemRules henum h
  | members =>
      rcases List.mem_append.mp h with h | h
      · obtain ⟨t, ht, he⟩ := List.mem_flatMap.mp h
        exact exhibits_of_mem_memberRules (.type ht) he
      · obtain ⟨c, hc, he⟩ := List.mem_flatMap.mp h
        exact exhibits_of_mem_componentMemberRules hc he

end Registry

/-! ### Refusals -/

/-- The first of several lists joined together comes from the first of them that is not empty. -/
theorem exists_first_of_flatMap {α β : Type} {xs : List α} {f : α → List β} {b : β} {rest : List β}
    (h : xs.flatMap f = b :: rest) :
    ∃ before x after, xs = before ++ x :: after ∧ (∀ y ∈ before, f y = []) ∧ b ∈ f x := by
  induction xs with
  | nil => cases h
  | cons x xs ih =>
      rw [List.flatMap_cons] at h
      cases hx : f x with
      | nil =>
          rw [hx, List.nil_append] at h
          obtain ⟨before, y, after, rfl, hbefore, hb⟩ := ih h
          exact ⟨x :: before, y, after, rfl, List.forall_mem_cons.mpr ⟨hx, hbefore⟩, hb⟩
      | cons b' more =>
          rw [hx] at h
          obtain ⟨rfl, -⟩ := List.cons.inj h
          exact ⟨[], x, xs, rfl, by simp, by simp [hx]⟩

/-- Where a defect names two components, their names differ. -/
def Error.NamesApart : Error → Prop
  | .duplicateComponentId _ first second | .sharedDataType _ first second => first ≠ second
  | _ => True

namespace Registry

variable {r : Registry} {e : Error}

theorem Registered.nodup_componentNames (h : r.Registered) :
    (r.components.map Component.qualifiedName).Nodup := by
  obtain ⟨documents, rfl⟩ := h.exists_after
  have hkeyed := (Catalog.keyed_after documents).components
  exact hkeyed.keys_eq ▸ hkeyed.nodup

theorem Share.ne {β : Type} {key : Component → β} {k : β} {first second : String}
    (h : r.Share key k first second)
    (hnames : (r.components.map Component.qualifiedName).Nodup) : first ≠ second := by
  obtain ⟨a, b, hsublist, -, -, rfl, rfl⟩ := h
  intro heq
  have hpair := hnames.sublist (hsublist.map Component.qualifiedName)
  simp [heq] at hpair

theorem Exhibits.namesApart (h : r.Exhibits e)
    (hnames : (r.components.map Component.qualifiedName).Nodup) : e.NamesApart := by
  cases e with
  | duplicateComponentId id first second => exact Share.ne h hnames
  | sharedDataType type first second => exact Share.ne h hnames
  | _ => trivial

/-- What a refusal says is so: the registry has the defect, it violates the phase that the defect
belongs to and none before it, and two components that are named are two. -/
structure Tells (r : Registry) (e : Error) : Prop where
  exhibits : r.Exhibits e
  phase : ∃ phase, e.phase? = some phase ∧ ¬r.Keeps phase ∧
    ∀ earlier, earlier.rank < phase.rank → r.Keeps earlier
  namesApart : r.Registered → e.NamesApart

theorem tells_of_validateIn {modules : List (String × String)} (henum : r.Enumerates modules)
    (h : r.validateIn modules = .error e) : r.Tells e := by
  rw [validateIn, violationGroups_flatten] at h
  split at h
  · cases h
  · rename_i e' rest hfound
    obtain rfl := Except.error.inj h
    obtain ⟨before, phase, after, hall, hbefore, he⟩ := exists_first_of_flatMap hfound
    obtain ⟨hexhibits, hphase⟩ := exhibits_of_mem_found henum he
    refine ⟨hexhibits, ⟨phase, hphase, ?_, ?_⟩, fun h => hexhibits.namesApart h.nodup_componentNames⟩
    · rw [← found_eq_nil_iff henum]
      exact List.ne_nil_of_mem he
    · intro earlier hlt
      exact (found_eq_nil_iff henum earlier).mp (hbefore earlier (Phase.mem_of_rank_lt hall hlt))

/-- Every refusal is true and comes from the first phase that finds anything: by validation as it
runs, and in any other order in which the set of subpackages can be looked at. -/
theorem refusals_tell (r : Registry) :
    (∀ e, r.validate = .error e → r.Tells e) ∧
      ∀ modules, r.Enumerates modules → ∀ e, r.validateIn modules = .error e → r.Tells e :=
  ⟨fun _ => tells_of_validateIn r.enumerates_modules, fun _ henum _ => tells_of_validateIn henum⟩

/-- Three components in two packages; the first and the last have one number, and none has a data
type. -/
def twinsRegistry : Registry where
  components :=
    [⟨"p", "A", "p.A", 7, "p.X", [], []⟩, ⟨"q", "B", "q.B", 8, "p.X", [], []⟩,
      ⟨"p", "C", "p.C", 7, "p.X", [], []⟩]

/-- The twins are reported in either order of the packages, and not the data type that all three
components lack and share. -/
theorem refusals_tell_twins :
    twinsRegistry.validate = .error (.duplicateComponentId 7 "p.A" "p.C") ∧
      twinsRegistry.Tells (.duplicateComponentId 7 "p.A" "p.C") ∧
      twinsRegistry.Enumerates [("", "q"), ("", "p")] ∧
      twinsRegistry.validateIn [("", "q"), ("", "p")] =
        .error (.duplicateComponentId 7 "p.A" "p.C") ∧
      ¬twinsRegistry.Keeps .componentIds ∧ twinsRegistry.Keeps .names := by
  have hrefused : twinsRegistry.validate = .error (.duplicateComponentId 7 "p.A" "p.C") := rfl
  have hmodules := twinsRegistry.enumerates_modules
  have hswapped : twinsRegistry.Enumerates [("", "q"), ("", "p")] :=
    ⟨List.nodup_reverse.mpr hmodules.nodup, fun m => List.mem_reverse.trans (hmodules.mem_iff m)⟩
  have hrefused' : twinsRegistry.validateIn [("", "q"), ("", "p")] =
      .error (.duplicateComponentId 7 "p.A" "p.C") := rfl
  obtain ⟨-, ⟨phase, hphase, hviolated, hearlier⟩, -⟩ :=
    (refusals_tell twinsRegistry).2 _ hswapped _ hrefused'
  obtain rfl : .componentIds = phase := Option.some.inj hphase
  exact ⟨hrefused, (refusals_tell twinsRegistry).1 _ hrefused, hswapped, hrefused', hviolated,
    hearlier .names (by decide)⟩

end Registry

end EntitySchema.Schema
