import EntitySchema.Code.Generation
import EntitySchema.Proofs.Identifiers
import EntitySchema.Proofs.Linking
import EntitySchema.Proofs.ModuleNodes

/-!
# Which generated names clash

Names are validated as the schema gives them and emitted as identifiers, which add an underscore to
a path word. `ModuleTree.ClashFree` says of generated modules that no two identifiers clash and no
two packages meet; `Registry.KeptApart` says of a schema that its names stay different where they
stand together. A linked schema is generated without a clash exactly when its names are kept apart.

## Implementation notes

Every fragment is placed under a package, the root's own under the empty one. So the items of a
module are those of the placements with its path, and all placements together make up the items that
validation looks at.
-/

namespace EntitySchema.Text

theorem divide_ne_nil (divider : Char) (cs : List Char) : divide divider cs ≠ [] := by
  cases cs with
  | nil => exact List.cons_ne_nil _ _
  | cons c rest =>
      unfold divide
      split_ifs
      · exact List.cons_ne_nil _ _
      · split <;> exact List.cons_ne_nil _ _

theorem segments_ne_nil (name : String) : segments name ≠ [] := by
  rw [segments, Ne, List.map_eq_nil_iff]
  exact divide_ne_nil '.' name.toList

end EntitySchema.Text

namespace EntitySchema.Code

/-- The names that a module introduces: those of its items and those of its submodules. -/
def Module.names (m : Module) : List String := m.fragments.flatMap Fragment.names ++ m.children

/-- No two names of a module have the same identifier, no two packages the same module, and no two
members of a structure the same identifier. -/
structure ModuleTree.ClashFree (packages : List String) (t : ModuleTree) : Prop where
  items : ∀ m ∈ t.nodes, Distinct m.names
  packages : ∀ p ∈ packages, ∀ q ∈ packages, modulePath p = modulePath q → p = q
  members : ∀ m ∈ t.nodes, ∀ f ∈ m.fragments, ∀ doc name members,
    Declaration.record doc name members ∈ f → Distinct (members.map Member.name)

theorem Distinct.sublist {names names' : List String} (h : Distinct names)
    (hsub : names'.Sublist names) : Distinct names' :=
  ⟨fun name hname => h.spelled name (hsub.subset hname), h.nodup.sublist (hsub.map identifier)⟩

/-- Paths whose names are alike one by one are those with the same names once underscores are
added. -/
theorem forall₂_alike_iff {p q : List String} :
    List.Forall₂ Alike p q ↔ p.map sanitize = q.map sanitize := by
  induction p generalizing q with
  | nil => cases q <;> simp
  | cons a p ih =>
      cases q with
      | nil => simp
      | cons b q => simp [ih, sanitize_eq_iff]

/-- A path that begins with the names of another one, once underscores are added, begins with names
that are alike. -/
theorem map_sanitize_prefix_iff {p q : List String} :
    p.map sanitize <+: q.map sanitize ↔ ∃ path ∈ q.inits, List.Forall₂ Alike p path := by
  simp only [List.mem_inits, forall₂_alike_iff]
  constructor
  · intro h
    refine ⟨q.take p.length, List.take_prefix _ _, ?_⟩
    rw [List.map_take]
    simpa using List.prefix_iff_eq_take.mp h
  · rintro ⟨path, hpath, h⟩
    rw [h]
    exact hpath.map sanitize

/-- The items that placed fragments introduce, each with its package. -/
def placedItems (placements : List (String × Fragment)) : List (String × String) :=
  placements.flatMap fun p => p.2.names.map (Prod.mk p.1)

theorem items_of_node {placements : List (String × Fragment)} {m : Module}
    (hm : m ∈ (ModuleTree.ofPlacements placements).nodes) :
    m.fragments.flatMap Fragment.names =
      ((placedItems placements).filter fun i =>
        ModuleTree.modulePath i.1 = m.path).map Prod.snd := by
  rw [(ModuleTree.node_of_placements hm).1, placedItems]
  clear hm
  induction placements with
  | nil => rfl
  | cons p rest ih =>
      rw [List.filter_cons, List.flatMap_cons, List.filter_append, List.map_append, ← ih]
      by_cases hp : ModuleTree.modulePath p.1 = m.path
      · simp [hp, List.filter_map, Function.comp_def]
      · simp [hp, List.filter_map, Function.comp_def]

/-- All items and packages have plain names, and no package has two items of one name. -/
structure WellPlaced (placements : List (String × Fragment)) : Prop where
  items : ∀ i ∈ placedItems placements, Text.isPlainIdentifier i.2 = true
  segments : ∀ p ∈ placements, ∀ s ∈ Text.segments p.1, s ≠ "" → Text.isPlainIdentifier s = true
  nodup : (placedItems placements).Nodup

section Nodes

variable {placements : List (String × Fragment)}

open ModuleTree (modulePath ofPlacements)

/-- The names of a module are distinct if no two of its items have the same name and none has the
name of a submodule, with underscores added. -/
theorem distinct_names_iff (hplaced : WellPlaced placements) {m : Module}
    (hm : m ∈ (ofPlacements placements).nodes) :
    Distinct m.names ↔
      (∀ i ∈ placedItems placements, modulePath i.1 = m.path →
        ∀ j ∈ placedItems placements, modulePath j.1 = m.path →
          sanitize i.2 = sanitize j.2 → i = j) ∧
      ∀ i ∈ placedItems placements, modulePath i.1 = m.path →
        ∀ p ∈ placements, ¬ m.path ++ [sanitize i.2] <+: modulePath p.1 := by
  obtain ⟨-, hchildren, hmem⟩ := ModuleTree.node_of_placements hm
  -- a submodule has the name of a segment, with the underscore already added
  have hsegment : ∀ x ∈ m.children, ∃ s, Text.isPlainIdentifier s = true ∧ sanitize s = x := by
    intro x hx
    obtain ⟨p, hp, hpath⟩ := (hmem x).mp hx
    have hx : x ∈ modulePath p.1 := hpath.subset (by simp)
    obtain ⟨s, hs, rfl⟩ := List.mem_map.mp hx
    obtain ⟨hs, hne⟩ := List.mem_filter.mp hs
    exact ⟨s, hplaced.segments p hp s hs (by simpa using hne), rfl⟩
  have hsame : m.children.map sanitize = m.children := by
    refine (List.map_congr_left fun x hx => ?_).trans (List.map_id m.children)
    obtain ⟨s, -, rfl⟩ := hsegment x hx
    exact sanitize_sanitize s
  have hplain : ∀ name ∈ m.names, Text.isPlainIdentifier name = true := by
    intro name hname
    rcases List.mem_append.mp hname with hname | hname
    · rw [items_of_node hm] at hname
      obtain ⟨i, hi, rfl⟩ := List.mem_map.mp hname
      exact hplaced.items i (List.mem_of_mem_filter hi)
    · obtain ⟨s, hs, rfl⟩ := hsegment name hname
      exact isPlainIdentifier_sanitize hs
  rw [distinct_iff_nodup_sanitize hplain, Module.names, List.map_append, hsame, items_of_node hm,
    List.map_map, List.nodup_append', List.nodup_map_iff_inj_on (hplaced.nodup.filter _)]
  simp only [hchildren, true_and, List.mem_filter, decide_eq_true_eq, and_imp, List.disjoint_left,
    List.mem_map, Function.comp_apply, forall_exists_index]
  refine and_congr_right' ⟨?_, ?_⟩
  · intro h i hi hpath p hp hdeclared
    exact h i hi hpath rfl ((hmem _).mpr ⟨p, hp, hdeclared⟩)
  · rintro h _ i hi hpath rfl hdeclared
    obtain ⟨p, hp, hdeclared⟩ := (hmem _).mp hdeclared
    exact h i hi hpath p hp hdeclared

/-- The names of all modules are distinct if no two items land in one place and none lands where a
submodule does. -/
theorem forall_distinct_names_iff (hplaced : WellPlaced placements) :
    (∀ m ∈ (ofPlacements placements).nodes, Distinct m.names) ↔
      (∀ i ∈ placedItems placements, ∀ j ∈ placedItems placements,
        modulePath i.1 ++ [sanitize i.2] = modulePath j.1 ++ [sanitize j.2] → i = j) ∧
      ∀ i ∈ placedItems placements, ∀ p ∈ placements,
        ¬ modulePath i.1 ++ [sanitize i.2] <+: modulePath p.1 := by
  have hnode : ∀ i ∈ placedItems placements,
      ∃ m ∈ (ofPlacements placements).nodes, modulePath i.1 = m.path := by
    intro i hi
    obtain ⟨p, hp, hi⟩ := List.mem_flatMap.mp hi
    obtain ⟨name, -, rfl⟩ := List.mem_map.mp hi
    obtain ⟨m, hm, hpath⟩ := ModuleTree.exists_node_of_prefix hp (List.prefix_refl _)
    exact ⟨m, hm, hpath.symm⟩
  constructor
  · intro h
    constructor
    · intro i hi j hj hplace
      obtain ⟨hpath, hname⟩ := List.append_inj' hplace rfl
      obtain ⟨m, hm, hi'⟩ := hnode i hi
      have hm' := (distinct_names_iff hplaced hm).mp (h m hm)
      exact hm'.1 i hi hi' j hj (hpath ▸ hi') (List.singleton_inj.mp hname)
    · intro i hi p hp
      obtain ⟨m, hm, hi'⟩ := hnode i hi
      have hm' := (distinct_names_iff hplaced hm).mp (h m hm)
      rw [hi']
      exact hm'.2 i hi hi' p hp
  · rintro ⟨hplaces, hmodules⟩ m hm
    refine (distinct_names_iff hplaced hm).mpr ⟨?_, ?_⟩
    · intro i hi hi' j hj hj' hname
      exact hplaces i hi j hj (by rw [hi', hj', hname])
    · intro i hi hi' p hp
      rw [← hi']
      exact hmodules i hi p hp

end Nodes

end EntitySchema.Code

namespace EntitySchema.Schema

open Code (Alike Apart Distinct Fragment Declaration Member Module ModuleTree sanitize placedItems)

/-- The names on the way to a package. -/
def packagePath (package : String) : List String := (Text.segments package).filter fun s => s ≠ ""

/-- The names on the way to an item of a package. -/
def itemPath (i : String × String) : List String := packagePath i.1 ++ [i.2]

theorem packagePath_empty : packagePath "" = [] := rfl

theorem packagePath_ne_nil {package : String} (h : IsPackageName package) :
    packagePath package ≠ [] := by
  obtain ⟨x, rest, hsegments⟩ := List.exists_cons_of_ne_nil (Text.segments_ne_nil package)
  have hplain : Text.isPlainIdentifier x = true := h x (by rw [hsegments]; exact List.mem_cons_self)
  have hne : x ≠ "" := by
    rintro rfl
    cases hplain
  rw [packagePath, hsegments, List.filter_cons_of_pos (by simpa using hne)]
  exact List.cons_ne_nil _ _

namespace Registry

/-- Packages, items and members have names that stay different where they stand together. -/
@[mk_iff]
structure KeptApart (r : Registry) : Prop where
  packages : ∀ p ∈ r.packages, ∀ q ∈ r.packages,
    List.Forall₂ Alike (packagePath p) (packagePath q) → p = q
  items : ∀ i ∈ r.definedItems, ∀ j ∈ r.definedItems,
    List.Forall₂ Alike (itemPath i) (itemPath j) → i = j
  modules : ∀ i ∈ r.definedItems, ∀ p ∈ r.packages, ∀ path ∈ (packagePath p).inits,
    ¬ List.Forall₂ Alike (itemPath i) path
  fieldNames : ∀ t ∈ r.types, Apart (t.fields.map Field.name)
  memberNames : ∀ c ∈ r.components, ∀ t ∈ r.type? c.dataType,
    Apart (dirtyMember :: t.fields.map Field.name ++ c.events.map Event.name)

instance (r : Registry) : Decidable r.KeptApart := decidable_of_iff' _ (r.keptApart_iff)

end Registry

/-! ### Names of fragments -/

theorem names_append (f g : Fragment) :
    Fragment.names (f ++ g) = Fragment.names f ++ Fragment.names g := List.filterMap_append

theorem UserType.names_fragment (t : UserType) : t.fragment.names = [t.name] := rfl

theorem Dispatch.names_fragment (d : Dispatch) : d.fragment.names = rootItems := rfl

theorem Component.names_fragment (c : Component) (data : UserType) :
    (c.fragment data).names = c.items := by
  have hplain : (c.plain data).names = [c.name] := by
    unfold plain
    split_ifs <;> rfl
  have hmarkers (commands : List Command) :
      Fragment.names (commands.flatMap c.marker) = commands.map c.markerName := by
    induction commands with
    | nil => rfl
    | cons m rest ih =>
        rw [List.flatMap_cons, names_append, ih]
        rfl
  rw [fragment, names_append, names_append, hplain, hmarkers]
  rfl

theorem UserType.members_of_record {t : UserType} {doc name : String} {members : List Member}
    (h : Declaration.record doc name members ∈ t.fragment) : members = t.members := by
  simp only [fragment, List.mem_cons, Declaration.record.injEq, reduceCtorEq, List.not_mem_nil,
    or_false] at h
  exact h.2.2

theorem Dispatch.record_notMem {d : Dispatch} {doc name : String} {members : List Member} :
    Declaration.record doc name members ∉ d.fragment := by
  simp [fragment, count, position, Sum.declaration, Sum.functions]

/-- A component has two structures: that of plain values and that of changes. -/
theorem Component.members_cases {c : Component} {data : UserType} {doc name : String}
    {members : List Member} (h : Declaration.record doc name members ∈ c.fragment data) :
    members = data.fields.map Field.plainMember ∨ members = c.updateMembers data := by
  rw [fragment, List.mem_append, List.mem_append] at h
  rcases h with (h | h) | h
  · rw [plain, List.mem_cons] at h
    rcases h with h | h
    · exact Or.inl (Declaration.record.inj h).2.2
    · split_ifs at h <;> simp at h
  · simp only [update, association, conversion, dataFunctions, updateFunctions, List.mem_cons,
      Declaration.record.injEq, reduceCtorEq, List.not_mem_nil, or_false] at h
    exact Or.inr h.2.2
  · obtain ⟨m, -, hm⟩ := List.mem_flatMap.mp h
    simp [marker] at hm

/-- The structures of a component have the fields of its data and, one of them, the events. -/
theorem Component.members_of_record {c : Component} {data : UserType} {doc name : String}
    {members : List Member} (h : Declaration.record doc name members ∈ c.fragment data) :
    (members.map Member.name).Sublist
      (data.fields.map Field.name ++ c.events.map Event.name) := by
  rcases members_cases h with rfl | rfl
  · simp [Function.comp_def, Field.plainMember]
  · simp [Function.comp_def, updateMembers, Field.updateMember, Event.updateMember]

/-! ### Placements of a schema -/

/-- The fragments of a schema with the packages they are placed under. -/
def Linked.placements (s : Linked) (entries : List Entry) : List (String × Fragment) :=
  (s.types.map fun t => (t.package, t.fragment)) ++
    (entries.map fun e => (e.component.package, e.component.fragment e.data)) ++
    [("", (Dispatch.mk entries).fragment)]

/-- The data of a component is a type of the schema that was promoted with its events. -/
structure Entry.Promoted (s : Linked) (e : Entry) : Prop where
  mem : e.data ∈ s.types
  isData : e.data.isData = true
  events : e.data.events = e.component.events

theorem Linked.moduleTree_of_entries {s : Linked} {entries : List Entry}
    (h : s.entries = .ok entries) :
    s.moduleTree = .ok (ModuleTree.ofPlacements (s.placements entries)) := by
  rw [moduleTree, h, ModuleTree.ofPlacements, placements, List.foldl_append, List.foldl_append,
    List.foldl_map, List.foldl_map]
  rfl

namespace Registry

variable {r : Registry} {s : Linked}

theorem mem_components {entries : List Entry}
    (hcomponents : entries.map Entry.component = r.components) {e : Entry} (he : e ∈ entries) :
    e.component ∈ r.components := hcomponents ▸ List.mem_map_of_mem he

/-- The components of a linked schema are found with the types that they promoted. -/
theorem Registered.exists_entries (registered : r.Registered) (linked : r.link = .ok s) :
    ∃ entries, s.entries = .ok entries ∧ entries.map Entry.component = r.components ∧
      ∀ e ∈ entries, e.Promoted s := by
  obtain ⟨hwell, rfl⟩ := link_eq_ok linked
  have hentry : ∀ c ∈ r.components, ∃ e,
      Linked.entry ⟨r.types.map (UserType.promoteBy r.components), r.components⟩ c = .ok e ∧
        e.component = c ∧
        e.Promoted ⟨r.types.map (UserType.promoteBy r.components), r.components⟩ := by
    intro c hc
    obtain ⟨u, hu, hname⟩ := hwell.dataTypes c hc
    have hpromoted := UserType.promoteBy_of_mem hwell.ownData hc hname
    have hfound : r.type? c.dataType = some u := hname ▸ registered.unpromoted.type?_eq hu
    have htype : Linked.type? ⟨r.types.map (UserType.promoteBy r.components), r.components⟩
        c.dataType = some (u.promote c) := by
      have hkeeps : ∀ t : UserType, (t.promoteBy r.components).qualifiedName = t.qualifiedName :=
        fun t => (t.promoteBy_keeps hwell.ownData).2.2.1
      simp only [Linked.type?, List.find?_map, Function.comp_def, hkeeps]
      rw [← hpromoted]
      exact congrArg (Option.map _) hfound
    refine ⟨⟨c, u.promote c⟩, by rw [Linked.entry, htype], rfl, ?_, rfl, rfl⟩
    exact List.mem_map.mpr ⟨u, hu, hpromoted⟩
  obtain ⟨entries, hentries, hforall⟩ := exists_mapM_eq_ok hentry
  refine ⟨entries, hentries, ?_, fun e he => ?_⟩
  · have hsame : List.Forall₂ (fun e c => Entry.component e = c) entries r.components :=
      (hforall.imp fun _ _ h => h.1).flip
    exact List.forall₂_eq_eq_eq ▸ List.forall₂_map_left_iff.mpr hsame
  · obtain ⟨c, hc, hce⟩ := exists_of_mem_mapM hentries he
    obtain ⟨e', he', -, hpromoted⟩ := hentry c hc
    obtain rfl := Except.ok.inj (hce.symm.trans he')
    exact hpromoted

/-- The placed items are the items that validation looks at. -/
theorem perm_placedItems {entries : List Entry} (linked : r.link = .ok s)
    (hentries : entries.map Entry.component = r.components) :
    (placedItems (s.placements entries)).Perm r.definedItems := by
  obtain ⟨hwell, rfl⟩ := link_eq_ok linked
  have htypes : placedItems ((r.types.map (UserType.promoteBy r.components)).map fun t =>
      (t.package, t.fragment)) = r.types.map fun t => (t.package, t.name) := by
    have hkeeps : ∀ t : UserType, (t.promoteBy r.components).package = t.package ∧
        (t.promoteBy r.components).name = t.name := fun t =>
      ⟨(t.promoteBy_keeps hwell.ownData).1, (t.promoteBy_keeps hwell.ownData).2.1⟩
    simp only [placedItems, List.flatMap_map, UserType.names_fragment, List.map_cons, List.map_nil,
      hkeeps]
    exact List.flatMap_pure_eq_map _ _
  have hcomponents : placedItems (entries.map fun e =>
      (e.component.package, e.component.fragment e.data)) =
        r.components.flatMap fun c => c.items.map fun name => (c.package, name) := by
    rw [← hentries]
    simp only [placedItems, List.flatMap_map, Component.names_fragment]
  have hroot : placedItems [("", (Dispatch.mk entries).fragment)] =
      rootItems.map fun name => ("", name) := by
    simp only [placedItems, List.flatMap_cons, List.flatMap_nil, List.append_nil,
      Dispatch.names_fragment]
  have happend (ps qs : List (String × Fragment)) :
      placedItems (ps ++ qs) = placedItems ps ++ placedItems qs := List.flatMap_append
  rw [Linked.placements, happend, happend, htypes, hcomponents, hroot, definedItems]
  exact List.perm_append_comm.trans (by rw [List.append_assoc])

theorem mem_placements_package {entries : List Entry} (linked : r.link = .ok s)
    (hentries : entries.map Entry.component = r.components) (p : String) :
    p ∈ (s.placements entries).map Prod.fst ↔ p = "" ∨ p ∈ r.packages := by
  obtain ⟨hwell, rfl⟩ := link_eq_ok linked
  have hkeeps : ∀ t : UserType, (t.promoteBy r.components).package = t.package :=
    fun t => (t.promoteBy_keeps hwell.ownData).1
  have hcomponents : entries.map (fun e => e.component.package) =
      r.components.map Component.package := by
    rw [← hentries, List.map_map]
    rfl
  have hnames : ((⟨r.types.map (UserType.promoteBy r.components), r.components⟩ :
      Linked).placements entries).map Prod.fst = r.packages ++ [""] := by
    simp only [Linked.placements, List.map_append, List.map_map, Function.comp_def, hkeeps,
      packages, hcomponents, List.map_cons, List.map_nil]
  rw [hnames, List.mem_append, List.mem_singleton, or_comm]

theorem WellFormed.isPackageName (h : r.WellFormed) : ∀ p ∈ r.packages, IsPackageName p := by
  intro p hp
  rcases List.mem_append.mp hp with hp | hp
  · obtain ⟨t, ht, rfl⟩ := List.mem_map.mp hp
    exact (h.typeNames t ht).package
  · obtain ⟨c, hc, rfl⟩ := List.mem_map.mp hp
    exact (h.componentNames c hc).package

/-- All items have plain names, those that are made up from several names included. -/
theorem WellFormed.isPlainIdentifier_item (h : r.WellFormed) :
    ∀ i ∈ r.definedItems, Text.isPlainIdentifier i.2 = true := by
  intro i hi
  rw [definedItems, List.mem_append, List.mem_append] at hi
  rcases hi with (hi | hi) | hi
  · obtain ⟨name, hname, rfl⟩ := List.mem_map.mp hi
    revert name
    decide +kernel
  · obtain ⟨t, ht, rfl⟩ := List.mem_map.mp hi
    exact (h.typeNames t ht).name
  · obtain ⟨c, hc, hi⟩ := List.mem_flatMap.mp hi
    obtain ⟨name, hname, rfl⟩ := List.mem_map.mp hi
    have hc := h.componentNames c hc
    simp only [Component.items, List.mem_cons, List.mem_map] at hname
    rcases hname with rfl | rfl | ⟨m, hm, rfl⟩
    · exact hc.name
    · exact Text.isPlainIdentifier_append hc.name (by simp [Text.isNameChar])
    · exact Text.isPlainIdentifier_append hc.name
        fun _ => Text.isNameChar_of_mem_pascal (hc.commands m hm)

theorem wellPlaced_placements {entries : List Entry} (linked : r.link = .ok s)
    (hentries : entries.map Entry.component = r.components) :
    Code.WellPlaced (s.placements entries) := by
  have hwell := (link_eq_ok linked).1
  have hperm := perm_placedItems linked hentries
  refine ⟨fun i hi => hwell.isPlainIdentifier_item i (hperm.mem_iff.mp hi), ?_,
    hperm.nodup_iff.mpr hwell.items⟩
  intro p hp x hx hne
  rcases (mem_placements_package linked hentries p.1).mp (List.mem_map_of_mem hp) with hroot | hp
  · rw [hroot] at hx
    exact absurd (List.mem_singleton.mp hx) hne
  · exact hwell.isPackageName p.1 hp x hx

/-- The names of all modules are distinct exactly when items are kept apart, from each other and
from the packages. -/
theorem forall_distinct_names_iff {entries : List Entry} (linked : r.link = .ok s)
    (hentries : entries.map Entry.component = r.components) :
    (∀ m ∈ (ModuleTree.ofPlacements (s.placements entries)).nodes, Distinct m.names) ↔
      (∀ i ∈ r.definedItems, ∀ j ∈ r.definedItems,
        List.Forall₂ Alike (itemPath i) (itemPath j) → i = j) ∧
      ∀ i ∈ r.definedItems, ∀ p ∈ r.packages, ∀ path ∈ (packagePath p).inits,
        ¬ List.Forall₂ Alike (itemPath i) path := by
  have hperm := perm_placedItems linked hentries
  have hpackages := mem_placements_package linked hentries
  have hplace (i : String × String) :
      ModuleTree.modulePath i.1 ++ [sanitize i.2] = (itemPath i).map sanitize := by
    rw [itemPath, List.map_append]
    rfl
  rw [Code.forall_distinct_names_iff (wellPlaced_placements linked hentries)]
  simp only [hperm.mem_iff, hplace, ← Code.forall₂_alike_iff]
  refine and_congr_right' (forall₂_congr fun i _ => ?_)
  constructor
  · intro h p hp path hpath halike
    obtain ⟨q, hq, rfl⟩ := List.mem_map.mp ((hpackages p).mpr (Or.inr hp))
    exact h q hq (Code.map_sanitize_prefix_iff.mpr ⟨path, hpath, halike⟩)
  · intro h q hq hbegins
    obtain ⟨path, hpath, halike⟩ := Code.map_sanitize_prefix_iff.mp hbegins
    rcases (hpackages q.1).mp (List.mem_map_of_mem hq) with hroot | hp
    · change path ∈ (packagePath q.1).inits at hpath
      rw [hroot, packagePath_empty, List.mem_inits] at hpath
      rw [List.prefix_nil.mp hpath, itemPath] at halike
      exact absurd halike.length_eq (by simp)
    · exact h q.1 hp path hpath halike

/-- No two packages share a module exactly when their names are kept apart; the root's own module is
shared with none. -/
theorem packages_iff (hwell : r.WellFormed) :
    (∀ p ∈ "" :: r.packages, ∀ q ∈ "" :: r.packages,
      ModuleTree.modulePath p = ModuleTree.modulePath q → p = q) ↔
      ∀ p ∈ r.packages, ∀ q ∈ r.packages,
        List.Forall₂ Alike (packagePath p) (packagePath q) → p = q := by
  have hpath (p : String) : ModuleTree.modulePath p = (packagePath p).map sanitize := rfl
  have hroot : ∀ p ∈ r.packages, (packagePath p).map sanitize ≠ (packagePath "").map sanitize := by
    intro p hp h
    exact packagePath_ne_nil (hwell.isPackageName p hp) (List.map_eq_nil_iff.mp h)
  simp only [hpath, Code.forall₂_alike_iff, List.forall_mem_cons]
  constructor
  · rintro ⟨-, h⟩ p hp q hq
    exact (h p hp).2 q hq
  · intro h
    refine ⟨⟨by simp, fun q hq heq => absurd heq.symm (hroot q hq)⟩, fun p hp =>
      ⟨fun heq => absurd heq (hroot p hp), h p hp⟩⟩

/-- The structures have distinct members exactly when those of the types have. -/
theorem forall_distinct_members_iff {entries : List Entry}
    (hpromoted : ∀ e ∈ entries, e.Promoted s) :
    (∀ m ∈ (ModuleTree.ofPlacements (s.placements entries)).nodes, ∀ f ∈ m.fragments,
      ∀ doc name members, Declaration.record doc name members ∈ f →
        Distinct (members.map Member.name)) ↔
      ∀ t ∈ s.types, Distinct (t.members.map Member.name) := by
  constructor
  · intro h t ht
    have hplaced : (t.package, t.fragment) ∈ s.placements entries := by
      simp only [Linked.placements, List.mem_append, List.mem_map]
      exact Or.inl (Or.inl ⟨t, ht, rfl⟩)
    obtain ⟨m, hm, hpath⟩ := ModuleTree.exists_node_of_prefix hplaced (List.prefix_refl _)
    refine h m hm t.fragment ?_ t.summary t.name t.members List.mem_cons_self
    rw [(ModuleTree.node_of_placements hm).1]
    exact List.mem_map.mpr ⟨_, List.mem_filter.mpr ⟨hplaced, by simp [hpath]⟩, rfl⟩
  · intro h m hm f hf doc name members hrecord
    rw [(ModuleTree.node_of_placements hm).1] at hf
    obtain ⟨p, hp, rfl⟩ := List.mem_map.mp hf
    have hp := List.mem_of_mem_filter hp
    simp only [Linked.placements, List.mem_append, List.mem_map, List.mem_singleton] at hp
    rcases hp with (⟨t, ht, rfl⟩ | ⟨e, he, rfl⟩) | rfl
    · rw [UserType.members_of_record hrecord]
      exact h t ht
    · have he := hpromoted e he
      refine (h e.data he.mem).sublist ((Component.members_of_record hrecord).trans ?_)
      rw [← he.events]
      simp [UserType.members, he.isData, Function.comp_def, Field.dataMember, Event.dataMember]
    · exact absurd hrecord Dispatch.record_notMem

/-- The members of a type of the schema: its fields, and for the data of a component the flag and
the events too. -/
theorem Unpromoted.names_members (h : r.Unpromoted)
    (own : (r.components.map Component.dataType).Nodup) {t : UserType} (ht : t ∈ r.types) :
    (t.promoteBy r.components).members.map Member.name = t.fields.map Field.name ∨
      ∃ c ∈ r.components, r.type? c.dataType = some t ∧
        ((t.promoteBy r.components).members.map Member.name).Perm
          (dirtyMember :: t.fields.map Field.name ++ c.events.map Event.name) := by
  rcases t.promoteBy_cases own with hsame | ⟨c, hc, hdata, hpromoted⟩
  · left
    rw [hsame]
    simp [UserType.members, UserType.isData, h.component t ht, Field.plainMember,
      Function.comp_def]
  · right
    refine ⟨c, hc, hdata ▸ h.type?_eq ht, ?_⟩
    rw [hpromoted]
    exact t.names_members_promote c

/-- The members of a type of the schema have plain names. -/
theorem Unpromoted.isPlainIdentifier_member (h : r.Unpromoted) (hwell : r.WellFormed)
    {t : UserType} (ht : t ∈ r.types) {name : String}
    (hname : name ∈ (t.promoteBy r.components).members.map Member.name) :
    Text.isPlainIdentifier name = true := by
  have hfields : ∀ name ∈ t.fields.map Field.name, Text.isPlainIdentifier name = true :=
    List.forall_mem_map.mpr (hwell.typeNames t ht).fields
  rcases h.names_members hwell.ownData ht with hnames | ⟨c, hc, -, hnames⟩
  · exact hfields name (hnames ▸ hname)
  · rcases List.mem_append.mp (hnames.mem_iff.mp hname) with hname | hname
    · rcases List.mem_cons.mp hname with rfl | hname
      · decide
      · exact hfields name hname
    · obtain ⟨e, he, rfl⟩ := List.mem_map.mp hname
      exact (hwell.componentNames c hc).events e he

/-- The members of all types are distinct exactly when fields and events are kept apart. -/
theorem Registered.forall_distinct_types_iff (registered : r.Registered)
    (linked : r.link = .ok s) :
    (∀ t ∈ s.types, Distinct (t.members.map Member.name)) ↔
      (∀ t ∈ r.types, Apart (t.fields.map Field.name)) ∧
      ∀ c ∈ r.components, ∀ t ∈ r.type? c.dataType,
        Apart (dirtyMember :: t.fields.map Field.name ++ c.events.map Event.name) := by
  have hnodup := (registered.sound_of_link linked).memberNames
  have hunpromoted := registered.unpromoted
  obtain ⟨hwell, rfl⟩ := link_eq_ok linked
  have hdistinct : (∀ t ∈ r.types.map (UserType.promoteBy r.components),
      Distinct (t.members.map Member.name)) ↔
        ∀ t ∈ r.types, Apart ((t.promoteBy r.components).members.map Member.name) := by
    rw [List.forall_mem_map]
    exact forall₂_congr fun t ht =>
      Code.distinct_iff (fun _ hname => hunpromoted.isPlainIdentifier_member hwell ht hname)
        (hnodup _ (List.mem_map_of_mem ht))
  rw [hdistinct]
  constructor
  · intro h
    constructor
    · intro t ht
      rcases hunpromoted.names_members hwell.ownData ht with hnames | ⟨c, -, -, hnames⟩
      · exact hnames ▸ h t ht
      · refine (h t ht).subset (List.Subset.trans ?_ hnames.symm.subset)
        exact List.subset_append_of_subset_left _ (List.subset_cons_self _ _)
    · intro c hc t htype
      have ht : t ∈ r.types := List.mem_of_find?_eq_some htype
      have hdata : t.qualifiedName = c.dataType := by simpa using List.find?_some htype
      have hnames := t.names_members_promote c
      rw [← UserType.promoteBy_of_mem hwell.ownData hc hdata] at hnames
      exact (h t ht).subset hnames.symm.subset
  · rintro ⟨hapart, hmembers⟩ t ht
    rcases hunpromoted.names_members hwell.ownData ht with hnames | ⟨c, hc, htype, hnames⟩
    · exact hnames ▸ hapart t ht
    · exact (hmembers c hc t htype).subset hnames.subset

/-- A schema that links is generated without a clash exactly when its names are kept apart. -/
theorem Registered.clashFree_iff_keptApart (registered : r.Registered) (linked : r.link = .ok s) :
    ∃ t, s.moduleTree = .ok t ∧ (t.ClashFree ("" :: r.packages) ↔ r.KeptApart) := by
  obtain ⟨entries, hentries, hcomponents, hpromoted⟩ := registered.exists_entries linked
  have hwell := (link_eq_ok linked).1
  refine ⟨_, Linked.moduleTree_of_entries hentries, ?_⟩
  have hitems := forall_distinct_names_iff linked hcomponents
  have hpackages := packages_iff hwell
  have hmembers :=
    (forall_distinct_members_iff hpromoted).trans (registered.forall_distinct_types_iff linked)
  constructor
  · intro h
    obtain ⟨happart, hmodules⟩ := hitems.mp h.items
    obtain ⟨hfields, hevents⟩ := hmembers.mp h.members
    exact ⟨hpackages.mp h.packages, happart, hmodules, hfields, hevents⟩
  · intro h
    exact ⟨hitems.mpr ⟨h.items, h.modules⟩, hpackages.mpr h.packages,
      hmembers.mpr ⟨h.fieldNames, h.memberNames⟩⟩

/-- A document that uses path words and keywords for its names. -/
def wordsDocument : Document where
  package := "depot.self"
  types :=
    [{ name := "Self", qualifiedName := "depot.self.Self",
       fields :=
        [{ name := "self", number := 1, singular := some { builtIn := some "string" } },
          { name := "type", number := 2, list := some { user := some "depot.self.Self" } }] }]
  components :=
    [{ name := "Crate", id := 7, qualifiedName := "depot.self.Crate", data := "depot.self.Self",
       events := [{ name := "super", index := 1, type := "depot.self.Self" }],
       commands := [{ name := "crate", index := 1, request := "depot.self.Self",
                      response := "depot.self.Self" }] }]

/-- The document is generated without a clash. -/
theorem clashFree_wordsDocument :
    ∃ s t, (Registry.addDocument {} wordsDocument).2.link = .ok s ∧ s.moduleTree = .ok t ∧
      t.ClashFree ["", "depot.self", "depot.self"] := by
  obtain ⟨s, linked⟩ : ∃ s, (Registry.addDocument {} wordsDocument).2.link = .ok s := ⟨_, rfl⟩
  obtain ⟨t, htree, hiff⟩ :=
    Registered.clashFree_iff_keptApart (.add wordsDocument .empty) linked
  have hapart : (Registry.addDocument {} wordsDocument).2.KeptApart := by decide +kernel
  exact ⟨s, t, linked, htree, hiff.mpr hapart⟩

/-- A document with two fields that validation tells apart. -/
def underscoreDocument : Document where
  package := "p"
  types :=
    [{ name := "D", qualifiedName := "p.D",
       fields :=
        [{ name := "self", number := 1, singular := some { builtIn := some "bool" } },
          { name := "self_", number := 2, singular := some { builtIn := some "bool" } }] }]

/-- The type of the document. -/
def underscoreType : UserType where
  package := "p"
  name := "D"
  qualifiedName := "p.D"
  fields := [⟨"self", 1, .scalar .bool, false⟩, ⟨"self_", 2, .scalar .bool, false⟩]

/-- The document links, and its structure has two members with one identifier. -/
theorem not_clashFree_underscoreDocument :
    ∃ t, Linked.ofDocuments [underscoreDocument] = .ok { types := [underscoreType] } ∧
      Linked.moduleTree { types := [underscoreType] } = .ok t ∧ ¬ t.ClashFree ["", "p"] := by
  refine ⟨.node [(Dispatch.mk []).fragment] [("p", .node [underscoreType.fragment] [])], rfl, rfl,
    fun h => ?_⟩
  have hmembers : Distinct (underscoreType.members.map Member.name) :=
    h.members ⟨["p"], [underscoreType.fragment], []⟩ (List.mem_cons_of_mem _ List.mem_cons_self)
      underscoreType.fragment List.mem_cons_self _ _ _ List.mem_cons_self
  exact absurd hmembers.nodup (by decide)

end Registry

end EntitySchema.Schema
