import EntitySchema.Proofs.Mentions
import EntitySchema.Proofs.EmittedNames

/-!
# Where emitted paths lead

Generated code cites other generated items by absolute paths, and a path is of use only if it leads
to the item that is meant. In the modules of a linked schema every path that any code cites spells
the way to one module, segment by segment as the modules are declared, and then the identifier of an
item that is written into that very module.

## Implementation notes

`Registered.meets_placements` takes what the code of all fragments mentions back to what it was made
from. A path is made from the qualified name of a registered type or from an item of a component. A
qualified name is divided at its last point into the package and the name under which the type was
placed, since names hold no point.
-/

namespace EntitySchema.Text

theorem divide_append_cons (divider : Char) (cs ds : List Char) :
    divide divider (cs ++ divider :: ds) = divide divider cs ++ divide divider ds := by
  induction cs with
  | nil => simp [divide]
  | cons c rest ih =>
      obtain ⟨part, parts, hrest⟩ := List.exists_cons_of_ne_nil (divide_ne_nil divider rest)
      rw [List.cons_append, divide, divide, ih, hrest]
      split_ifs <;> rfl

theorem divide_of_notMem {divider : Char} {cs : List Char} (h : divider ∉ cs) :
    divide divider cs = [cs] := by
  induction cs with
  | nil => rfl
  | cons c rest ih =>
      rw [List.mem_cons, not_or] at h
      obtain ⟨hc, hrest⟩ := h
      rw [divide, if_neg (Ne.symm hc), ih hrest]

/-- A name without points is the last segment behind a point. -/
theorem segments_append_name (package : String) {name : String} (h : '.' ∉ name.toList) :
    segments (package ++ "." ++ name) = segments package ++ [name] := by
  have hchars : (package ++ "." ++ name).toList = package.toList ++ '.' :: name.toList := by simp
  rw [segments, hchars, divide_append_cons, divide_of_notMem h, segments, List.map_append]
  simp

end EntitySchema.Text

namespace EntitySchema.Code

open Text (isPlainIdentifier)
open ModuleTree (modulePath ofPlacements)

/-- Whether a token is the path of a generated item. -/
def Token.isItem : Token → Bool
  | .item _ _ => true
  | _ => false

/-- All generated items that the code cites have the property. -/
def CitesOnly (P : Token → Prop) (c : Code) : Prop := ∀ t ∈ c, t.isItem = true → P t

/-- A property of paths of generated items, which nothing else is asked for. -/
def Condition.citing (P : Token → Prop) : Condition where
  Holds t := t.isItem = true → P t
  word _ h := by cases h
  runtime _ h := by cases h

/-- A qualified name has the path of the name in its package. -/
theorem itemOf_qualified (package : String) {name : String} (h : isPlainIdentifier name = true) :
    itemOf (package ++ "." ++ name) = itemIn package name := by
  have hpoint : '.' ∉ name.toList := fun hmem =>
    absurd (Text.isNameChar_of_mem h hmem) (by decide)
  rw [itemOf, Text.segments_append_name package hpoint, itemIn]
  simp

/-- An identifier without the mark of a raw one. -/
def bare (identifier : String) : String :=
  match identifier.toList with
  | 'r' :: '#' :: rest => String.ofList rest
  | _ => identifier

theorem bare_raw (name : String) : bare ("r#" ++ name) = name := by
  simp [bare]

theorem bare_of_isPlainIdentifier {name : String} (h : isPlainIdentifier name = true) :
    bare name = name := by
  unfold bare
  split
  · rename_i rest hlist
    have hmark : '#' ∈ name.toList := by simp [hlist]
    exact absurd (Text.isNameChar_of_mem h hmark) (by decide)
  · rfl

/-- A plain name can be spelled, and without the mark its spelling is the name with the underscore
added. -/
theorem exists_spellName {name : String} (h : isPlainIdentifier name = true) :
    ∃ own, spellName name = .ok own ∧ spellName (sanitize name) = .ok own ∧
      bare own = sanitize name := by
  have hplain := isPlainIdentifier_sanitize h
  simp only [spellName, identifier, sanitize_sanitize,
    Text.isIdentifier_of_isPlainIdentifier hplain, if_true]
  by_cases hkeyword : sanitize name ∈ keywords
  · exact ⟨"r#" ++ sanitize name, by simp [hkeyword], by simp [hkeyword], bare_raw _⟩
  · exact ⟨sanitize name, by simp [hkeyword], by simp [hkeyword],
      bare_of_isPlainIdentifier hplain⟩

/-- Plain names are spelled as the modules on their way are. -/
theorem exists_spelled_way {names : List String}
    (h : ∀ name ∈ names, isPlainIdentifier name = true) :
    ∃ way, names.mapM spellName = .ok way ∧ (names.map sanitize).mapM spellName = .ok way ∧
      way.map bare = names.map sanitize := by
  induction names with
  | nil => exact ⟨[], rfl, rfl, rfl⟩
  | cons name rest ih =>
      obtain ⟨hname, hrest⟩ := List.forall_mem_cons.mp h
      obtain ⟨own, hown, hsanitized, hbare⟩ := exists_spellName hname
      obtain ⟨way, hway, hmodules, hbares⟩ := ih hrest
      refine ⟨own :: way, ?_, ?_, by rw [List.map_cons, hbare, hbares, List.map_cons]⟩
      · rw [List.mapM_cons, hown, hway]
        rfl
      · rw [List.map_cons, List.mapM_cons, hsanitized, hmodules]
        rfl

theorem spell_itemIn {package name own : String} {way : List String}
    (hway : ((Text.segments package).filter fun s => s ≠ "").mapM spellName = .ok way)
    (hown : spellName name = .ok own) (paths : Paths) :
    (itemIn package name).spell paths =
      .ok (paths.root ++ (way ++ [own]).flatMap fun s => ["::", s]) := by
  have hspelled : (((Text.segments package).filter fun s => s ≠ "") ++ [name]).mapM spellName =
      .ok (way ++ [own]) := by
    rw [List.mapM_append, hway, List.mapM_cons, hown]
    rfl
  rw [itemIn, Token.spell, hspelled]
  rfl

/-- The path that a token stands for leads to a module of the tree and an item written into it: it
spells the names of the modules on the way as they are declared and then the name of the item. -/
structure ModuleTree.LeadsTo (t : ModuleTree) (token : Token) (m : Module) (name : String) :
    Prop where
  mem : m ∈ t.nodes
  unique : ∀ n ∈ t.nodes, n.path = m.path → n = m
  item : ∃ f ∈ m.fragments, name ∈ Fragment.names f
  spelled : ∃ way own, m.path.mapM spellName = .ok way ∧ way.map bare = m.path ∧
    spellName name = .ok own ∧ bare own = sanitize name ∧
    ∀ paths, token.spell paths =
      .ok (paths.root ++ (way ++ [own]).flatMap fun s => ["::", s])

theorem mem_placedItems {placements : List (String × Fragment)} {package name : String} :
    (package, name) ∈ placedItems placements ↔
      ∃ f, (package, f) ∈ placements ∧ name ∈ Fragment.names f := by
  simp [placedItems]

/-- A placed item is found under its path. -/
theorem WellPlaced.exists_leadsTo {placements : List (String × Fragment)}
    (hplaced : WellPlaced placements) {package name : String}
    (hitem : (package, name) ∈ placedItems placements) :
    ∃ m, (ofPlacements placements).LeadsTo (itemIn package name) m name := by
  obtain ⟨f, hmem, hname⟩ := mem_placedItems.mp hitem
  obtain ⟨m, hm, hpath⟩ := ModuleTree.exists_node_of_prefix hmem (List.prefix_refl _)
  have hfragment : f ∈ m.fragments := by
    rw [(ModuleTree.node_of_placements hm).1]
    exact List.mem_map.mpr ⟨_, List.mem_filter.mpr ⟨hmem, by simp [hpath]⟩, rfl⟩
  have hsegments : ∀ s ∈ (Text.segments package).filter fun s => s ≠ "",
      isPlainIdentifier s = true := by
    intro s hs
    obtain ⟨hs, hne⟩ := List.mem_filter.mp hs
    exact hplaced.segments (package, f) hmem s hs (by simpa using hne)
  obtain ⟨way, hway, hmodules, hbares⟩ := exists_spelled_way hsegments
  obtain ⟨own, hown, -, hbare⟩ := exists_spellName (hplaced.items (package, name) hitem)
  refine ⟨m, ?_⟩
  constructor
  · exact hm
  · intro n hn hsame
    exact ModuleTree.ordered_empty.foldl.eq_of_path hn hm hsame
  · exact ⟨f, hfragment, hname⟩
  · refine ⟨way, own, ?_, ?_, hown, hbare, spell_itemIn hway hown⟩
    · rw [hpath]
      exact hmodules
    · rw [hpath]
      exact hbares

end EntitySchema.Code

namespace EntitySchema.Schema

open Code (CitesOnly Condition Fragment Meets ModuleTree Token)

/-- The qualified name of a well-named type leads where its package and its name do. -/
theorem UserType.WellNamed.itemOf_eq {u : UserType} (h : u.WellNamed) :
    Code.itemOf u.qualifiedName = Code.itemIn u.package u.name := by
  rw [h.qualifiedName]
  exact Code.itemOf_qualified u.package h.name

/-- A promoted type has the shapes of the type that was registered, and the events of the component
that promoted it. -/
theorem UserType.promoteBy_shapes {components : List Component} (t : UserType)
    (own : (components.map Component.dataType).Nodup) :
    (∀ f ∈ (t.promoteBy components).fields, ∃ g ∈ t.fields, f.shape = g.shape) ∧
      (t.promoteBy components = t ∨
        ∃ c ∈ components, (t.promoteBy components).events = c.events) := by
  rcases t.promoteBy_cases own with h | ⟨c, hc, -, h⟩
  · rw [h]
    exact ⟨fun f hf => ⟨f, hf, rfl⟩, Or.inl rfl⟩
  · rw [h]
    refine ⟨fun f hf => ?_, Or.inr ⟨c, hc, rfl⟩⟩
    obtain ⟨g, hg, rfl⟩ := List.mem_map.mp hf
    exact ⟨g, hg, rfl⟩

namespace Linked

/-- The names of a schema that become identifiers: the segments of its packages, and the names of
its types, fields, events, components and commands, with those that are made up for the changes of a
component, for the markers of its commands and for its variant in sums. -/
def names (s : Linked) : List String :=
  (s.types.flatMap fun t => Text.segments t.package ++ t.name :: t.fields.map Field.name) ++
    s.components.flatMap fun c => Text.segments c.package ++ Entry.variantOf c.id :: c.items ++
      c.events.map Event.name ++ c.commands.map Command.name

variable {s : Linked}

theorem mem_names_of_type {t : UserType} (ht : t ∈ s.types) : t.name ∈ s.names := by
  apply List.mem_append_left
  exact List.mem_flatMap.mpr ⟨t, ht, by simp⟩

theorem mem_names_of_field {t : UserType} (ht : t ∈ s.types) {f : Field} (hf : f ∈ t.fields) :
    f.name ∈ s.names := by
  apply List.mem_append_left
  refine List.mem_flatMap.mpr ⟨t, ht, ?_⟩
  exact List.mem_append_right _ (List.mem_cons_of_mem _ (List.mem_map_of_mem hf))

theorem mem_names_of_item {c : Component} (hc : c ∈ s.components) {name : String}
    (hname : name ∈ c.items) : name ∈ s.names := by
  apply List.mem_append_right
  exact List.mem_flatMap.mpr ⟨c, hc, by simp [hname]⟩

theorem mem_names_of_event {c : Component} (hc : c ∈ s.components) {e : Event}
    (he : e ∈ c.events) : e.name ∈ s.names := by
  apply List.mem_append_right
  refine List.mem_flatMap.mpr ⟨c, hc, ?_⟩
  exact List.mem_append_left _ (List.mem_append_right _ (List.mem_map_of_mem he))

theorem mem_names_of_command {c : Component} (hc : c ∈ s.components) {m : Command}
    (hm : m ∈ c.commands) : m.name ∈ s.names := by
  apply List.mem_append_right
  exact List.mem_flatMap.mpr ⟨c, hc, List.mem_append_right _ (List.mem_map_of_mem hm)⟩

end Linked

namespace Registry

variable {r : Registry} {s : Linked}

/-- What holds of the paths of all registered types holds of those that a valid shape refers to. -/
theorem Resolves.refersOnly {P : Condition} {shape : Shape} (h : r.Resolves shape)
    (htypes : ∀ u ∈ r.types, P.Holds (Code.itemOf u.qualifiedName)) : shape.RefersOnly P := by
  intro name hname
  obtain ⟨u, hu, rfl⟩ := h.references name hname
  exact htypes u hu

/-- A condition holds of all that the code of a schema can mention: a few fixed names, the names of
the schema, the paths of its types and those of the items of its components. -/
structure Provides (r : Registry) (s : Linked) (P : Condition) : Prop where
  fixed : ∀ name ∈ dirtyMember :: rootItems, P.Holds (.name name)
  names : ∀ name ∈ s.names, P.Holds (.name name)
  types : ∀ u ∈ r.types, P.Holds (Code.itemOf u.qualifiedName)
  items : ∀ c ∈ r.components, ∀ name ∈ c.items, P.Holds (Code.itemIn c.package name)

namespace Provides

variable {P : Condition}

theorem flag (h : r.Provides s P) : P.Holds (.name dirtyMember) := h.fixed _ List.mem_cons_self

theorem path (h : r.Provides s P) (linked : r.link = .ok s) {t : UserType} (ht : t ∈ s.types) :
    P.Holds (Code.itemOf t.qualifiedName) := by
  obtain ⟨hwell, rfl⟩ := link_eq_ok linked
  obtain ⟨u, hu, rfl⟩ := List.mem_map.mp ht
  rw [(u.promoteBy_keeps hwell.ownData).2.2.1]
  exact h.types u hu

theorem field (h : r.Provides s P) (linked : r.link = .ok s) {t : UserType} (ht : t ∈ s.types)
    {f : Field} (hf : f ∈ t.fields) : f.Meets P := by
  refine ⟨h.names _ (Linked.mem_names_of_field ht hf), ?_⟩
  obtain ⟨hwell, rfl⟩ := link_eq_ok linked
  obtain ⟨u, hu, rfl⟩ := List.mem_map.mp ht
  obtain ⟨g, hg, hshape⟩ := (u.promoteBy_shapes hwell.ownData).1 f hf
  rw [hshape]
  exact (hwell.fieldShapes u hu g hg).refersOnly h.types

theorem event (h : r.Provides s P) (linked : r.link = .ok s) {c : Component}
    (hc : c ∈ r.components) {e : Event} (he : e ∈ c.events) : e.Meets P := by
  obtain ⟨hwell, rfl⟩ := link_eq_ok linked
  exact ⟨h.names _ (Linked.mem_names_of_event hc he),
    (hwell.eventShapes c hc e he).refersOnly h.types⟩

theorem userType (h : r.Provides s P) (registered : r.Registered) (linked : r.link = .ok s)
    {t : UserType} (ht : t ∈ s.types) : t.Meets P := by
  constructor
  · exact h.names _ (Linked.mem_names_of_type ht)
  · exact fun f hf => h.field linked ht hf
  · exact fun _ => h.flag
  · intro hdata
    have hevents := fun c hc e he => h.event linked (c := c) hc (e := e) he
    obtain ⟨hwell, rfl⟩ := link_eq_ok linked
    obtain ⟨u, hu, rfl⟩ := List.mem_map.mp ht
    -- only a component gives a type events, and they are those of the component
    rcases (u.promoteBy_shapes hwell.ownData).2 with hsame | ⟨c, hc, hsame⟩
    · rw [hsame, UserType.isData, registered.unpromoted.component u hu] at hdata
      cases hdata
    · rw [hsame]
      exact hevents c hc

theorem component (h : r.Provides s P) (linked : r.link = .ok s) {e : Entry}
    (hc : e.component ∈ r.components) (he : e.Promoted s) : e.component.Meets P e.data := by
  obtain ⟨hwell, hs⟩ := link_eq_ok linked
  have hmem : e.component ∈ s.components := by rwa [hs]
  have hown : ∀ name ∈ e.component.items, P.Holds (.name name) := fun name hname =>
    h.names _ (Linked.mem_names_of_item hmem hname)
  constructor
  · exact h.path linked he.mem
  · exact hown _ List.mem_cons_self
  · exact hown _ (List.mem_cons_of_mem _ List.mem_cons_self)
  · exact fun f hf => h.field linked he.mem hf
  · exact h.flag
  · exact fun ev hev => h.event linked hc hev
  · intro m hm
    obtain ⟨hrequest, hresponse⟩ := hwell.commandShapes e.component hc m hm
    exact ⟨h.names _ (Linked.mem_names_of_command hmem hm),
      hown _ (List.mem_cons_of_mem _ (List.mem_cons_of_mem _ (List.mem_map_of_mem hm))),
      hrequest.refersOnly h.types, hresponse.refersOnly h.types⟩

end Provides

/-- The code of a schema mentions only names of the schema, registered types and items of
components, beside a few fixed names. -/
theorem Registered.meets_placements {P : Condition} (registered : r.Registered)
    (linked : r.link = .ok s) {entries : List Entry}
    (hcomponents : entries.map Entry.component = r.components)
    (hpromoted : ∀ e ∈ entries, e.Promoted s) (h : r.Provides s P) :
    ∀ p ∈ s.placements entries, Meets P (Fragment.code p.2) := by
  intro p hp
  simp only [Linked.placements, List.mem_append, List.mem_map, List.mem_singleton] at hp
  rcases hp with (⟨t, ht, rfl⟩ | ⟨e, he, rfl⟩) | rfl
  · exact (h.userType registered linked ht).fragment
  · exact (h.component linked (mem_components hcomponents he) (hpromoted e he)).fragment
  · apply Dispatch.Meets.fragment
    constructor
    · exact fun name hname => h.fixed name (List.mem_cons_of_mem _ hname)
    · exact fun e he => h.path linked (hpromoted e he).mem
    · exact fun e he => h.items e.component (mem_components hcomponents he)

/-- The code of a schema cites only registered types and items of components. -/
theorem Registered.citesOnly_placements {P : Token → Prop} (registered : r.Registered)
    (linked : r.link = .ok s) {entries : List Entry}
    (hcomponents : entries.map Entry.component = r.components)
    (hpromoted : ∀ e ∈ entries, e.Promoted s)
    (htypes : ∀ u ∈ r.types, P (Code.itemOf u.qualifiedName))
    (hitems : ∀ c ∈ r.components, ∀ name ∈ c.items, P (Code.itemIn c.package name)) :
    ∀ p ∈ s.placements entries, CitesOnly P (Fragment.code p.2) := by
  have hname (name : String) : (Condition.citing P).Holds (.name name) := fun h => by cases h
  have hprovides : r.Provides s (.citing P) :=
    ⟨fun name _ => hname name, fun name _ => hname name, fun u hu _ => htypes u hu,
      fun c hc name hmem _ => hitems c hc name hmem⟩
  exact registered.meets_placements linked hcomponents hpromoted hprovides

/-- Every item that validation looks at is found under its path. -/
theorem exists_leadsTo_of_defined (linked : r.link = .ok s) {entries : List Entry}
    (hcomponents : entries.map Entry.component = r.components) {package name : String}
    (h : (package, name) ∈ r.definedItems) :
    ∃ target, (ModuleTree.ofPlacements (s.placements entries)).LeadsTo (Code.itemIn package name)
      target name := by
  apply (wellPlaced_placements linked hcomponents).exists_leadsTo
  exact (perm_placedItems linked hcomponents).mem_iff.mpr h

theorem type_mem_definedItems {u : UserType} (hu : u ∈ r.types) :
    (u.package, u.name) ∈ r.definedItems := by
  apply List.mem_append_left
  apply List.mem_append_right
  exact List.mem_map.mpr ⟨u, hu, rfl⟩

theorem component_mem_definedItems {c : Component} (hc : c ∈ r.components) {name : String}
    (hname : name ∈ c.items) : (c.package, name) ∈ r.definedItems := by
  apply List.mem_append_right
  exact List.mem_flatMap.mpr ⟨c, hc, List.mem_map_of_mem hname⟩

/-- Every path that the generated code cites leads to an item, and so do the paths of all registered
types, whether by their qualified names or by package and name, and of all items of components. -/
theorem Registered.emitted_paths_lead (registered : r.Registered) (linked : r.link = .ok s) :
    ∃ t, s.moduleTree = .ok t ∧
      (∀ m ∈ t.nodes, ∀ f ∈ m.fragments, ∀ token ∈ Fragment.code f, token.isItem = true →
        ∃ target name, t.LeadsTo token target name) ∧
      (∀ u ∈ r.types, Code.itemOf u.qualifiedName = Code.itemIn u.package u.name ∧
        ∃ target, t.LeadsTo (Code.itemOf u.qualifiedName) target u.name) ∧
      ∀ c ∈ r.components, ∀ name ∈ c.items,
        ∃ target, t.LeadsTo (Code.itemIn c.package name) target name := by
  obtain ⟨entries, hentries, hcomponents, hpromoted⟩ := registered.exists_entries linked
  have hqualified : ∀ u ∈ r.types,
      Code.itemOf u.qualifiedName = Code.itemIn u.package u.name := fun u hu =>
    ((link_eq_ok linked).1.typeNames u hu).itemOf_eq
  have htypes : ∀ u ∈ r.types, ∃ target, (ModuleTree.ofPlacements (s.placements entries)).LeadsTo
      (Code.itemOf u.qualifiedName) target u.name := by
    intro u hu
    rw [hqualified u hu]
    exact exists_leadsTo_of_defined linked hcomponents (type_mem_definedItems hu)
  have hitems : ∀ c ∈ r.components, ∀ name ∈ c.items, ∃ target,
      (ModuleTree.ofPlacements (s.placements entries)).LeadsTo (Code.itemIn c.package name) target
        name := by
    intro c hc name hname
    exact exists_leadsTo_of_defined linked hcomponents (component_mem_definedItems hc hname)
  refine ⟨_, Linked.moduleTree_of_entries hentries, ?_, ?_, hitems⟩
  · intro m hm f hf
    rw [(ModuleTree.node_of_placements hm).1] at hf
    obtain ⟨p, hp, rfl⟩ := List.mem_map.mp hf
    refine registered.citesOnly_placements linked hcomponents hpromoted ?_ ?_ p
      (List.mem_of_mem_filter hp)
    · intro u hu
      obtain ⟨target, hleads⟩ := htypes u hu
      exact ⟨target, u.name, hleads⟩
    · intro c hc name hname
      obtain ⟨target, hleads⟩ := hitems c hc name hname
      exact ⟨target, name, hleads⟩
  · intro u hu
    exact ⟨hqualified u hu, htypes u hu⟩

/-- A document whose package and type need raw identifiers and an underscore. -/
def rawDocument : Document where
  package := "depot.type.self"
  types :=
    [{ name := "match", qualifiedName := "depot.type.self.match",
       fields :=
        [{ name := "label", number := 1, singular := some { builtIn := some "string" } }] }]
  components :=
    [{ name := "Crate", id := 7, qualifiedName := "depot.type.self.Crate",
       data := "depot.type.self.match",
       commands := [{ name := "stow", index := 1, request := "depot.type.self.match",
                      response := "depot.type.self.match" }] }]

/-- The paths of the type and of the marker of the document lead to them. -/
theorem emitted_paths_lead_raw :
    ∃ s t, (Registry.addDocument {} rawDocument).2.link = .ok s ∧ s.moduleTree = .ok t ∧
      (∃ target, t.LeadsTo (Code.itemOf "depot.type.self.match") target "match") ∧
      (Code.itemOf "depot.type.self.match").spell ⟨["crate"], []⟩ =
        .ok ["crate", "::", "depot", "::", "r#type", "::", "self_", "::", "r#match"] ∧
      ∃ target, t.LeadsTo (Code.itemIn "depot.type.self" "CrateStow") target "CrateStow" := by
  obtain ⟨s, linked⟩ : ∃ s, (Registry.addDocument {} rawDocument).2.link = .ok s := ⟨_, rfl⟩
  obtain ⟨t, htree, -, htypes, hitems⟩ :=
    Registered.emitted_paths_lead (.add rawDocument .empty) linked
  exact ⟨s, t, linked, htree, (htypes _ List.mem_cons_self).2, rfl,
    hitems _ List.mem_cons_self "CrateStow" (by decide)⟩

end Registry

end EntitySchema.Schema
