import EntitySchema.Code.Data
import EntitySchema.Proofs.WellFormed
import EntitySchema.Schema.Linked

/-!
# What linking guarantees

A registry that is filled by documents has types with distinct qualified names, fields of flat shapes
and nothing promoted. Linking validates it and promotes each data type once, so in the linked schema
the numbers of the fields of a type and the names of the members of its structure are distinct, and a
field is tracked exactly when its type holds the data of a component.
-/

namespace EntitySchema

theorem bind_eq_ok_iff {ε α β : Type} {x : Except ε α} {f : α → Except ε β} {b : β} :
    x >>= f = .ok b ↔ ∃ a, x = .ok a ∧ f a = .ok b := by
  cases x with
  | error e => simp [bind, Except.bind]
  | ok a => simp [bind, Except.bind]

theorem map_eq_ok_iff {ε α β : Type} {x : Except ε α} {f : α → β} {b : β} :
    f <$> x = .ok b ↔ ∃ a, x = .ok a ∧ f a = b := by
  cases x with
  | error e => simp [Functor.map, Except.map]
  | ok a => simp [Functor.map, Except.map]

theorem mapError_eq_ok {ε δ α : Type} {x : Except ε α} {a : α} {f : ε → δ} (h : x = .ok a) :
    x.mapError f = .ok a := by
  rw [h]
  rfl

end EntitySchema

namespace EntitySchema.Schema

/-- A single value, or a container of single values. -/
def Shape.isFlat : Shape → Bool
  | .scalar _ | .reference _ => true
  | .option inner | .list inner => !inner.isContainer
  | .map key value => !key.isContainer && !value.isContainer

theorem Shape.isFlat_of_single {shape : Shape} (h : shape.isContainer = false) :
    shape.isFlat = true := by
  cases shape <;> simp_all [isContainer, isFlat]

/-- A registry that documents were registered in, each of them as far as it went. -/
inductive Registry.Registered : Registry → Prop
  | empty : Registered {}
  | add {r : Registry} (d : Document) : Registered r → Registered (r.addDocument d).2

/-- The types as registration leaves them: known by distinct names, with flat fields, and not yet
promoted. -/
structure Registry.Unpromoted (r : Registry) : Prop where
  names : (r.types.map UserType.qualifiedName).Nodup
  component : ∀ t ∈ r.types, t.component = none
  tracked : ∀ t ∈ r.types, ∀ f ∈ t.fields, f.isTracked = false
  flat : ∀ t ∈ r.types, ∀ f ∈ t.fields, f.shape.isFlat

/-- What generated code relies on in a linked schema. -/
structure Linked.Sound (s : Linked) : Prop where
  /-- Fields are single values or containers of single values. -/
  flat : ∀ t ∈ s.types, ∀ f ∈ t.fields, f.shape.isFlat
  /-- Fields are tracked in the data types of components and nowhere else. -/
  tracked : ∀ t ∈ s.types, ∀ f ∈ t.fields, f.isTracked = t.isData
  /-- The fields of a type have distinct numbers. -/
  fieldIds : ∀ t ∈ s.types, (t.fields.map Field.id).Nodup
  /-- The members of the structure of a type have distinct names. -/
  memberNames : ∀ t ∈ s.types, (t.members.map Code.Member.name).Nodup

/-! ### Registering -/

theorem Reference.isContainer_of_shape {site : Site} {r : Reference} {shape : Shape}
    (h : r.shape site = .ok shape) : shape.isContainer = false := by
  unfold Reference.shape at h
  split at h
  · split at h
    · obtain rfl := Except.ok.inj h
      rfl
    · cases h
  · obtain rfl := Except.ok.inj h
    rfl
  · cases h

theorem FieldDeclaration.isFlat_of_shape {site : Site} {f : FieldDeclaration} {shape : Shape}
    (h : f.shape site = .ok shape) : shape.isFlat = true := by
  unfold FieldDeclaration.shape at h
  split at h
  · exact Shape.isFlat_of_single (Reference.isContainer_of_shape h)
  · obtain ⟨inner, hinner, rfl⟩ := map_eq_ok_iff.mp h
    simpa [Shape.isFlat] using Reference.isContainer_of_shape hinner
  · obtain ⟨inner, hinner, rfl⟩ := map_eq_ok_iff.mp h
    simpa [Shape.isFlat] using Reference.isContainer_of_shape hinner
  · obtain ⟨key, hkey, h⟩ := bind_eq_ok_iff.mp h
    obtain ⟨value, hvalue, h⟩ := bind_eq_ok_iff.mp h
    obtain rfl := Except.ok.inj h
    simp [Shape.isFlat, Reference.isContainer_of_shape hkey, Reference.isContainer_of_shape hvalue]
  · cases h
  · cases h

theorem Field.ofDeclaration_eq_ok {type : String} {d : FieldDeclaration} {f : Field}
    (h : Field.ofDeclaration type d = .ok f) : f.isTracked = false ∧ f.shape.isFlat = true := by
  obtain ⟨shape, hshape, h⟩ := bind_eq_ok_iff.mp h
  obtain rfl := Except.ok.inj h
  exact ⟨rfl, FieldDeclaration.isFlat_of_shape hshape⟩

/-- Every result of a list of steps is the result of a step. -/
theorem exists_of_mem_mapM {ε α β : Type} {g : α → Except ε β} {as : List α} {bs : List β}
    (h : as.mapM g = .ok bs) {b : β} (hb : b ∈ bs) : ∃ a ∈ as, g a = .ok b := by
  induction as generalizing bs with
  | nil =>
      obtain rfl := Except.ok.inj h
      cases hb
  | cons a rest ih =>
      rw [List.mapM_cons] at h
      obtain ⟨c, hc, h⟩ := bind_eq_ok_iff.mp h
      obtain ⟨cs, hcs, h⟩ := bind_eq_ok_iff.mp h
      obtain rfl := Except.ok.inj h
      rcases List.mem_cons.mp hb with rfl | hb
      · exact ⟨a, List.mem_cons_self, hc⟩
      · obtain ⟨x, hx, hxb⟩ := ih hcs hb
        exact ⟨x, List.mem_cons_of_mem a hx, hxb⟩

/-- Steps that all succeed have a list of results, each as its step says. -/
theorem exists_mapM_eq_ok {ε α β : Type} {f : α → Except ε β} {R : α → β → Prop} {as : List α}
    (h : ∀ a ∈ as, ∃ b, f a = .ok b ∧ R a b) : ∃ bs, as.mapM f = .ok bs ∧ List.Forall₂ R as bs := by
  induction as with
  | nil => exact ⟨[], rfl, .nil⟩
  | cons a rest ih =>
      obtain ⟨b, hb, hab⟩ := h a List.mem_cons_self
      obtain ⟨bs, hbs, hrest⟩ := ih fun x hx => h x (List.mem_cons_of_mem a hx)
      refine ⟨b :: bs, ?_, .cons hab hrest⟩
      rw [List.mapM_cons, hb, hbs]
      rfl

theorem exists_mapM_of_forall {ε α β : Type} {f : α → Except ε β} {as : List α}
    (h : ∀ a ∈ as, ∃ b, f a = .ok b) : ∃ bs, as.mapM f = .ok bs := by
  have hsteps : ∀ a ∈ as, ∃ b, f a = .ok b ∧ True := by simpa using h
  obtain ⟨bs, hbs, -⟩ := exists_mapM_eq_ok hsteps
  exact ⟨bs, hbs⟩

theorem UserType.ofDeclaration_eq_ok {package : String} {d : TypeDeclaration} {t : UserType}
    (h : UserType.ofDeclaration package d = .ok t) :
    t.qualifiedName = d.qualifiedName ∧ t.component = none ∧
      ∀ f ∈ t.fields, f.isTracked = false ∧ f.shape.isFlat = true := by
  obtain ⟨fields, hfields, h⟩ := bind_eq_ok_iff.mp h
  obtain rfl := Except.ok.inj h
  refine ⟨rfl, rfl, fun f hf => ?_⟩
  obtain ⟨d, _, hd⟩ := exists_of_mem_mapM hfields hf
  exact Field.ofDeclaration_eq_ok hd

namespace Registry

theorem Unpromoted.addType {r : Registry} (h : r.Unpromoted) {package : String}
    {d : TypeDeclaration} {t : UserType} (ht : UserType.ofDeclaration package d = .ok t)
    (hnew : r.hasType d.qualifiedName = false) :
    ({ r with types := r.types ++ [t] } : Registry).Unpromoted := by
  obtain ⟨hname, hcomponent, hfields⟩ := UserType.ofDeclaration_eq_ok ht
  have hfresh : t.qualifiedName ∉ r.types.map UserType.qualifiedName := by
    simpa [hname, hasType] using hnew
  refine ⟨?_, ?_, ?_, ?_⟩
  · simpa using List.Nodup.concat hfresh h.names
  all_goals
    intro u hu
    rcases List.mem_append.mp hu with hu | hu
  · exact h.component u hu
  · rw [List.mem_singleton.mp hu, hcomponent]
  · exact h.tracked u hu
  · rw [List.mem_singleton.mp hu]
    exact fun f hf => (hfields f hf).1
  · exact h.flat u hu
  · rw [List.mem_singleton.mp hu]
    exact fun f hf => (hfields f hf).2

theorem Unpromoted.addTypes {package : String} {ds : List TypeDeclaration} {r : Registry}
    (h : r.Unpromoted) : (Registry.addTypes package ds r).2.Unpromoted := by
  induction ds generalizing r with
  | nil => exact h
  | cons d rest ih =>
      unfold Registry.addTypes
      split
      · exact h
      · rename_i t ht
        split
        · exact h
        · rename_i hnew
          exact ih (h.addType ht (by simpa using hnew))

theorem types_addComponents (package : String) (ds : List ComponentDeclaration) (r : Registry) :
    (Registry.addComponents package ds r).2.types = r.types := by
  induction ds generalizing r with
  | nil => rfl
  | cons d rest ih =>
      unfold Registry.addComponents
      split
      · rfl
      · exact ih _

theorem Unpromoted.addDocument {r : Registry} (h : r.Unpromoted) (d : Document) :
    (r.addDocument d).2.Unpromoted := by
  have htypes : (Registry.addTypes d.package d.types r).2.Unpromoted := h.addTypes
  unfold Registry.addDocument
  split
  · rename_i r' hr
    rw [hr] at htypes
    have heq := types_addComponents d.package d.components r'
    exact ⟨heq ▸ htypes.names, heq ▸ htypes.component, heq ▸ htypes.tracked, heq ▸ htypes.flat⟩
  · exact htypes

theorem Registered.unpromoted {r : Registry} (h : r.Registered) : r.Unpromoted := by
  induction h with
  | empty => exact ⟨List.nodup_nil, by simp, by simp, by simp⟩
  | add d _ ih => exact ih.addDocument d

theorem components_addTypes (package : String) (ds : List TypeDeclaration) (r : Registry) :
    (Registry.addTypes package ds r).2.components = r.components := by
  induction ds generalizing r with
  | nil => rfl
  | cons d rest ih =>
      unfold Registry.addTypes
      split
      · rfl
      · split
        · rfl
        · exact ih _

/-- Every event carries a single value. -/
def SingleEvents (r : Registry) : Prop :=
  ∀ c ∈ r.components, ∀ e ∈ c.events, e.shape.isContainer = false

theorem SingleEvents.addComponents {package : String} {ds : List ComponentDeclaration}
    {r : Registry} (h : r.SingleEvents) : (Registry.addComponents package ds r).2.SingleEvents := by
  induction ds generalizing r with
  | nil => exact h
  | cons d rest ih =>
      unfold Registry.addComponents
      split
      · exact h
      · refine ih (List.forall_mem_append.mpr ⟨h, List.forall_mem_singleton.mpr ?_⟩)
        exact List.forall_mem_map.mpr fun _ _ => rfl

theorem Registered.singleEvents {r : Registry} (h : r.Registered) : r.SingleEvents := by
  induction h with
  | empty => exact List.forall_mem_nil _
  | @add r d _ ih =>
      have htypes : (Registry.addTypes d.package d.types r).2.SingleEvents := by
        unfold SingleEvents
        rw [components_addTypes]
        exact ih
      unfold Registry.addDocument
      split
      · rename_i r' hr
        rw [hr] at htypes
        exact htypes.addComponents
      · exact htypes

theorem Registered.ofDocuments {ds : List Document} {r r' : Registry} (h : r.Registered)
    (hall : ofDocuments ds r = .ok r') : r'.Registered := by
  induction ds generalizing r with
  | nil =>
      obtain rfl := Except.ok.inj hall
      exact h
  | cons d rest ih =>
      unfold Registry.ofDocuments at hall
      split at hall
      · rename_i r₁ hadd
        have hregistered := h.add d
        rw [hadd] at hregistered
        exact ih hregistered hall
      · cases hall

end Registry

/-- Documents that link were registered in a registry that links. -/
theorem Linked.exists_registered {ds : List Document} {s : Linked}
    (linked : ofDocuments ds = .ok s) : ∃ r : Registry, r.Registered ∧ r.link = .ok s := by
  obtain ⟨r, hall, hlink⟩ := bind_eq_ok_iff.mp linked
  exact ⟨r, Registry.Registered.empty.ofDocuments hall, hlink⟩

/-! ### Promoting -/

/-- A type after the components have promoted theirs. -/
def UserType.promoteBy (components : List Component) (t : UserType) : UserType :=
  components.foldl (fun t c => if t.qualifiedName = c.dataType then t.promote c else t) t

/-- Promoting the data types one component after the other promotes every type on its own. -/
theorem foldlM_promoteData {components : List Component} {types promoted : List UserType}
    (h : components.foldlM promoteData types = .ok promoted) :
    promoted = types.map (UserType.promoteBy components) := by
  induction components generalizing types with
  | nil =>
      obtain rfl := Except.ok.inj h
      exact (List.map_id types).symm
  | cons c rest ih =>
      rw [List.foldlM_cons] at h
      obtain ⟨marked, hmarked, h⟩ := bind_eq_ok_iff.mp h
      unfold promoteData at hmarked
      split at hmarked
      · obtain rfl := Except.ok.inj hmarked
        rw [ih h, List.map_map]
        rfl
      · cases hmarked

theorem UserType.promoteBy_of_forall_ne {components : List Component} {t : UserType}
    (h : ∀ c ∈ components, t.qualifiedName ≠ c.dataType) : t.promoteBy components = t := by
  induction components with
  | nil => rfl
  | cons c rest ih =>
      have hc : t.qualifiedName ≠ c.dataType := h c List.mem_cons_self
      rw [promoteBy, List.foldl_cons, if_neg hc]
      exact ih fun d hd => h d (List.mem_cons_of_mem c hd)

/-- No two components share a data type, so the data type of a component is promoted by it alone. -/
theorem UserType.promoteBy_of_mem {components : List Component} {t : UserType} {c : Component}
    (own : (components.map Component.dataType).Nodup) (hc : c ∈ components)
    (hdata : t.qualifiedName = c.dataType) : t.promoteBy components = t.promote c := by
  induction components with
  | nil => cases hc
  | cons d rest ih =>
      obtain ⟨hfresh, hrest⟩ := List.nodup_cons.mp own
      rw [promoteBy, List.foldl_cons]
      rcases List.mem_cons.mp hc with rfl | hc
      · have hothers : ∀ d ∈ rest, (t.promote c).qualifiedName ≠ d.dataType := by
          intro d hd heq
          exact hfresh (List.mem_map.mpr ⟨d, hd, heq.symm.trans hdata⟩)
        rw [if_pos hdata]
        exact promoteBy_of_forall_ne hothers
      · have hd : t.qualifiedName ≠ d.dataType := by
          intro heq
          exact hfresh (List.mem_map.mpr ⟨c, hc, hdata.symm.trans heq⟩)
        rw [if_neg hd]
        exact ih hrest hc

/-- A type is promoted once or not at all. -/
theorem UserType.promoteBy_cases {components : List Component} (t : UserType)
    (own : (components.map Component.dataType).Nodup) :
    t.promoteBy components = t ∨
      ∃ c ∈ components, t.qualifiedName = c.dataType ∧ t.promoteBy components = t.promote c := by
  by_cases h : ∃ c ∈ components, t.qualifiedName = c.dataType
  · obtain ⟨c, hc, hdata⟩ := h
    exact Or.inr ⟨c, hc, hdata, promoteBy_of_mem own hc hdata⟩
  · push Not at h
    exact Or.inl (promoteBy_of_forall_ne h)

/-- Promoting keeps every name of a type. -/
theorem UserType.promoteBy_keeps {components : List Component} (t : UserType)
    (own : (components.map Component.dataType).Nodup) :
    (t.promoteBy components).package = t.package ∧ (t.promoteBy components).name = t.name ∧
      (t.promoteBy components).qualifiedName = t.qualifiedName ∧
      (t.promoteBy components).fields.map Field.name = t.fields.map Field.name := by
  rcases t.promoteBy_cases own with h | ⟨c, -, -, h⟩
  · rw [h]
    exact ⟨rfl, rfl, rfl, rfl⟩
  · rw [h]
    exact ⟨rfl, rfl, rfl, by simp [promote, Function.comp_def]⟩

/-- Looking a key up gives the one item that has it, wherever it stands. -/
theorem find?_eq_some_iff_of_nodup {α β : Type} [DecidableEq β] {key : α → β} {xs : List α}
    (distinct : (xs.map key).Nodup) {k : β} {x : α} :
    (xs.find? fun y => key y = k) = some x ↔ x ∈ xs ∧ key x = k := by
  constructor
  · intro hfind
    exact ⟨List.mem_of_find?_eq_some hfind, by simpa using List.find?_some hfind⟩
  · rintro ⟨hx, rfl⟩
    have hsome : (xs.find? fun y => key y = key x).isSome := by
      rw [List.find?_isSome]
      exact ⟨x, hx, by simp⟩
    obtain ⟨y, hy⟩ := Option.isSome_iff_exists.mp hsome
    have hkey : key y = key x := by simpa using List.find?_some hy
    rw [hy, List.inj_on_of_nodup_map distinct (List.mem_of_find?_eq_some hy) hx hkey]

/-- The type found under the name of a registered type is that type. -/
theorem Registry.Unpromoted.type?_eq {r : Registry} (h : r.Unpromoted) {t : UserType}
    (ht : t ∈ r.types) : r.type? t.qualifiedName = some t :=
  (find?_eq_some_iff_of_nodup h.names).mpr ⟨ht, rfl⟩

theorem UserType.names_members_promote (t : UserType) (c : Component) :
    ((t.promote c).members.map Code.Member.name).Perm
      (dirtyMember :: t.fields.map Field.name ++ c.events.map Event.name) := by
  have hnames : (t.promote c).members.map Code.Member.name =
      t.fields.map Field.name ++ dirtyMember :: c.events.map Event.name := by
    simp [members, isData, promote, Field.dataMember, Event.dataMember, dirtyFlag,
      Function.comp_def]
  rw [hnames]
  exact List.perm_middle

/-- A registry that links is well-formed, and the schema has its types promoted. -/
theorem Registry.link_eq_ok {r : Registry} {s : Linked} (h : r.link = .ok s) :
    r.WellFormed ∧ s = ⟨r.types.map (UserType.promoteBy r.components), r.components⟩ := by
  obtain ⟨_, hvalid, h⟩ := bind_eq_ok_iff.mp h
  obtain ⟨types, htypes, h⟩ := bind_eq_ok_iff.mp h
  obtain rfl := Except.ok.inj h
  rw [foldlM_promoteData htypes]
  exact ⟨(validateIn_eq_ok_iff (enumerates_modules r)).mp hvalid, rfl⟩

/-- A linked schema of registered documents is sound. -/
theorem Registry.Registered.sound_of_link {r : Registry} {s : Linked} (h : r.Registered)
    (linked : r.link = .ok s) : s.Sound := by
  obtain ⟨hwell, rfl⟩ := link_eq_ok linked
  have hplain := h.unpromoted
  -- every type of the schema is a registered one, as it was or promoted by its component
  have hcases : ∀ t ∈ r.types.map (UserType.promoteBy r.components), t ∈ r.types ∨
      ∃ u ∈ r.types, ∃ c ∈ r.components, u.qualifiedName = c.dataType ∧ t = u.promote c := by
    intro t ht
    obtain ⟨u, hu, rfl⟩ := List.mem_map.mp ht
    rcases u.promoteBy_cases hwell.ownData with heq | ⟨c, hc, hdata, heq⟩
    · exact Or.inl (heq.symm ▸ hu)
    · exact Or.inr ⟨u, hu, c, hc, hdata, heq⟩
  constructor
  all_goals
    intro t ht
    rcases hcases t ht with ht | ⟨u, hu, c, hc, hdata, rfl⟩
  · exact hplain.flat t ht
  · intro f hf
    obtain ⟨g, hg, rfl⟩ := List.mem_map.mp hf
    exact hplain.flat u hu g hg
  · intro f hf
    rw [hplain.tracked t ht f hf, UserType.isData, hplain.component t ht]
    rfl
  · intro f hf
    obtain ⟨g, hg, rfl⟩ := List.mem_map.mp hf
    rfl
  · exact hwell.fieldIds t ht
  · simpa [UserType.promote, Function.comp_def] using hwell.fieldIds u hu
  · have hnames := hwell.fieldNames t ht
    simpa [UserType.members, UserType.isData, hplain.component t ht, Field.plainMember,
      Function.comp_def] using hnames
  · have hfound : r.type? c.dataType = some u := hdata ▸ hplain.type?_eq hu
    exact (u.names_members_promote c).nodup_iff.mpr (hwell.memberNames c hc u hfound)

end EntitySchema.Schema
