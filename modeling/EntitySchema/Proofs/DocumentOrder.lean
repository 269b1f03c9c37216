import EntitySchema.Proofs.Linking

/-!
# The order of documents

Documents refer to each other's types, and a component may promote a type of a document that comes
before its own or after it. Linking documents in another order succeeds on the same documents and
finds the same definitions under every qualified name; only the order in which they are met changes.

## Implementation notes

Registration stops at the first defect, so it is described by the registry it ends with: documents
are registered exactly when all their fields can be read and no qualified name is declared twice, and
then the registry holds what they declare one after the other. Both conditions and the rules of
`WellFormed` do not depend on an order. A type is promoted by the one component whose data it holds,
so promotion does not depend on the order of the components either.
-/

namespace EntitySchema.Schema

/-! ### What is registered -/

/-- The type of a declaration whose fields can be read. -/
def UserType.ofReadable (package : String) (t : TypeDeclaration) : Option UserType :=
  (UserType.ofDeclaration package t).toOption

/-- The types that a document declares, as far as their fields can be read. -/
def Document.declaredTypes (d : Document) : List UserType :=
  d.types.filterMap (UserType.ofReadable d.package)

/-- The components that a document declares. -/
def Document.declaredComponents (d : Document) : List Component :=
  d.components.map (Component.ofDeclaration d.package)

/-- The fields of all types of a document can be read. -/
def Document.Readable (d : Document) : Prop :=
  ∀ t ∈ d.types, ∃ u, UserType.ofDeclaration d.package t = .ok u

namespace Registry

/-- No two types and no two components share a qualified name. -/
structure Named (r : Registry) : Prop where
  types : (r.types.map UserType.qualifiedName).Nodup
  components : (r.components.map Component.qualifiedName).Nodup

/-- The registry with all that some documents declare behind what it has. -/
def extend (r : Registry) (ds : List Document) : Registry where
  types := r.types ++ ds.flatMap Document.declaredTypes
  components := r.components ++ ds.flatMap Document.declaredComponents

theorem Named.of_extend {r : Registry} {ds : List Document} (h : (r.extend ds).Named) : r.Named where
  types := h.types.sublist ((List.sublist_append_left _ _).map _)
  components := h.components.sublist ((List.sublist_append_left _ _).map _)

theorem extend_cons (r : Registry) (d : Document) (ds : List Document) :
    r.extend (d :: ds) = (r.extend [d]).extend ds := by
  simp [extend]

/-- Types are registered when all of them can be read and their names are new and distinct. -/
theorem addTypes_eq_ok_iff {package : String} {ts : List TypeDeclaration} {r r' : Registry}
    (h : (r.types.map UserType.qualifiedName).Nodup) :
    addTypes package ts r = (.ok (), r') ↔
      (∀ t ∈ ts, ∃ u, UserType.ofDeclaration package t = .ok u) ∧
      r' = { r with types := r.types ++ ts.filterMap (UserType.ofReadable package) } ∧
      (r'.types.map UserType.qualifiedName).Nodup := by
  induction ts generalizing r with
  | nil =>
      simp only [addTypes, Prod.mk.injEq, true_and, List.not_mem_nil, IsEmpty.forall_iff,
        implies_true, List.filterMap_nil, List.append_nil]
      constructor
      · rintro rfl
        exact ⟨rfl, h⟩
      · rintro ⟨rfl, -⟩
        rfl
  | cons t rest ih =>
      rw [addTypes]
      cases hread : UserType.ofDeclaration package t with
      | error e => simp [hread]
      | ok u =>
          have hname : u.qualifiedName = t.qualifiedName := (UserType.ofDeclaration_eq_ok hread).1
          have hreadable : UserType.ofReadable package t = some u := by
            rw [UserType.ofReadable, hread]
            rfl
          have hfound : ∃ u, UserType.ofDeclaration package t = .ok u := ⟨u, hread⟩
          rw [List.forall_mem_cons, and_iff_right hfound, List.filterMap_cons_some hreadable]
          dsimp only
          by_cases hknown : r.hasType t.qualifiedName = true
          · -- the name is taken, so it would stand twice among the names
            have hmem : u.qualifiedName ∈ r.types.map UserType.qualifiedName := by
              simpa [hname, hasType] using hknown
            rw [if_pos hknown]
            refine iff_of_false (by simp) ?_
            rintro ⟨-, rfl, hnodup⟩
            rw [List.map_append, List.nodup_append'] at hnodup
            exact hnodup.2.2 hmem (by simp)
          · have hnew : (({ r with types := r.types ++ [u] } : Registry).types.map
                UserType.qualifiedName).Nodup := by
              have hfresh : u.qualifiedName ∉ r.types.map UserType.qualifiedName := by
                simpa [hname, hasType] using hknown
              simpa using List.Nodup.concat hfresh h
            rw [if_neg hknown, ih hnew, List.append_assoc, List.singleton_append]

/-- Components are registered when their names are new and distinct. -/
theorem addComponents_eq_ok_iff {package : String} {cs : List ComponentDeclaration}
    {r r' : Registry} (h : (r.components.map Component.qualifiedName).Nodup) :
    addComponents package cs r = (.ok (), r') ↔
      r' = { r with components := r.components ++ cs.map (Component.ofDeclaration package) } ∧
      (r'.components.map Component.qualifiedName).Nodup := by
  induction cs generalizing r with
  | nil =>
      simp only [addComponents, Prod.mk.injEq, true_and, List.map_nil, List.append_nil]
      constructor
      · rintro rfl
        exact ⟨rfl, h⟩
      · rintro ⟨rfl, -⟩
        rfl
  | cons c rest ih =>
      rw [addComponents]
      by_cases hknown : r.hasComponent c.qualifiedName = true
      · have hmem : c.qualifiedName ∈ r.components.map Component.qualifiedName := by
          simpa [hasComponent] using hknown
        rw [if_pos hknown]
        refine iff_of_false (by simp) ?_
        rintro ⟨rfl, hnodup⟩
        rw [List.map_append, List.nodup_append'] at hnodup
        exact hnodup.2.2 hmem (by simp [Component.ofDeclaration])
      · have hnew : (({ r with components :=
              r.components ++ [Component.ofDeclaration package c] } : Registry).components.map
            Component.qualifiedName).Nodup := by
          have hfresh : c.qualifiedName ∉ r.components.map Component.qualifiedName := by
            simpa [hasComponent] using hknown
          simpa [Component.ofDeclaration] using List.Nodup.concat hfresh h
        rw [if_neg hknown, ih hnew]
        simp

theorem addDocument_eq_ok_iff {r r' : Registry} {d : Document} (h : r.Named) :
    r.addDocument d = (.ok (), r') ↔ d.Readable ∧ r' = r.extend [d] ∧ r'.Named := by
  have hextend : r.extend [d] =
      { types := r.types ++ d.declaredTypes
        components := r.components ++ d.declaredComponents } := by
    simp [extend]
  rw [hextend]
  constructor
  · intro hadd
    unfold addDocument at hadd
    split at hadd
    · rename_i r₁ htypes
      obtain ⟨hread, rfl, hnames⟩ := (addTypes_eq_ok_iff h.types).mp htypes
      obtain ⟨rfl, hcomponents⟩ := (addComponents_eq_ok_iff (by exact h.components)).mp hadd
      exact ⟨hread, rfl, ⟨hnames, hcomponents⟩⟩
    · rename_i hfailed
      exact absurd hadd (hfailed r')
  · rintro ⟨hread, rfl, hnamed⟩
    have htypes : addTypes d.package d.types r =
        (.ok (), { r with types := r.types ++ d.declaredTypes }) :=
      (addTypes_eq_ok_iff h.types).mpr ⟨hread, rfl, hnamed.types⟩
    rw [addDocument, htypes]
    exact (addComponents_eq_ok_iff (by exact h.components)).mpr ⟨rfl, hnamed.components⟩

/-- Documents are registered when all their fields can be read and no qualified name is declared
twice, by whichever of them. -/
theorem ofDocuments_eq_ok_iff {ds : List Document} {r r' : Registry} (h : r.Named) :
    ofDocuments ds r = .ok r' ↔ (∀ d ∈ ds, d.Readable) ∧ r' = r.extend ds ∧ r'.Named := by
  induction ds generalizing r with
  | nil =>
      have hextend : r.extend [] = r := by simp [extend]
      rw [ofDocuments, hextend, Except.ok.injEq]
      constructor
      · rintro rfl
        exact ⟨by simp, rfl, h⟩
      · rintro ⟨-, rfl, -⟩
        rfl
  | cons d rest ih =>
      rw [extend_cons, List.forall_mem_cons]
      constructor
      · intro hall
        unfold ofDocuments at hall
        split at hall
        · rename_i r₁ hadd
          obtain ⟨hread, rfl, hnamed⟩ := (addDocument_eq_ok_iff h).mp hadd
          obtain ⟨hrest, heq, hfinal⟩ := (ih hnamed).mp hall
          exact ⟨⟨hread, hrest⟩, heq, hfinal⟩
        · cases hall
      · rintro ⟨⟨hread, hrest⟩, rfl, hfinal⟩
        have hnamed : (r.extend [d]).Named := hfinal.of_extend
        rw [ofDocuments, (addDocument_eq_ok_iff h).mpr ⟨hread, rfl, hnamed⟩]
        exact (ih hnamed).mpr ⟨hrest, rfl, hfinal⟩

/-! ### Registries in another order -/

/-- Two registries hold the same definitions, each in an order of its own. -/
structure Reordered (r r' : Registry) : Prop where
  types : r.types.Perm r'.types
  components : r.components.Perm r'.components

theorem reordered_extend (r : Registry) {ds es : List Document} (h : ds.Perm es) :
    (r.extend ds).Reordered (r.extend es) :=
  ⟨(h.flatMap_right _).append_left _, (h.flatMap_right _).append_left _⟩

theorem Reordered.named {r r' : Registry} (h : r.Reordered r') (named : r.Named) : r'.Named :=
  ⟨(h.types.map _).nodup_iff.mp named.types, (h.components.map _).nodup_iff.mp named.components⟩

end Registry

/-- Looking a key up does not depend on the order of items with distinct keys. -/
theorem find?_eq_of_perm {α β : Type} [DecidableEq β] {key : α → β} {xs ys : List α}
    (h : xs.Perm ys) (distinct : (xs.map key).Nodup) (k : β) :
    (xs.find? fun x => key x = k) = ys.find? fun y => key y = k := by
  have distinct' : (ys.map key).Nodup := (h.map key).nodup_iff.mp distinct
  ext x
  rw [find?_eq_some_iff_of_nodup distinct, find?_eq_some_iff_of_nodup distinct', h.mem_iff]

namespace Registry

variable {r r' : Registry}

theorem Reordered.registers_iff (h : r.Reordered r') (name : String) :
    r.Registers name ↔ r'.Registers name := by
  simp only [Registers, h.types.mem_iff]

theorem Reordered.resolves (h : r.Reordered r') {shape : Shape} (resolves : r.Resolves shape) :
    r'.Resolves shape :=
  ⟨fun name hname => (h.registers_iff name).mp (resolves.references name hname), resolves.keys⟩

theorem Reordered.isModule_iff (h : r.Reordered r') (m : String × String) :
    r.IsModule m ↔ r'.IsModule m := by
  have hpackages : r.packages.Perm r'.packages :=
    (h.types.map _).append (h.components.map _)
  simp only [IsModule, hpackages.mem_iff]

theorem Reordered.definedItems (h : r.Reordered r') : r.definedItems.Perm r'.definedItems :=
  ((h.types.map _).append_left _).append (h.components.flatMap_right _)

/-- The rules of a registry do not depend on the order of its definitions. -/
theorem Reordered.wellFormed (h : r.Reordered r') (named : r.Named) (well : r.WellFormed) :
    r'.WellFormed where
  typeNames t ht := well.typeNames t (h.types.mem_iff.mpr ht)
  componentNames c hc := well.componentNames c (h.components.mem_iff.mpr hc)
  componentIds := (h.components.map _).nodup_iff.mp well.componentIds
  fieldIds t ht := well.fieldIds t (h.types.mem_iff.mpr ht)
  fieldShapes t ht f hf := h.resolves (well.fieldShapes t (h.types.mem_iff.mpr ht) f hf)
  dataTypes c hc := (h.registers_iff _).mp (well.dataTypes c (h.components.mem_iff.mpr hc))
  eventIndices c hc := well.eventIndices c (h.components.mem_iff.mpr hc)
  eventShapes c hc e he := h.resolves (well.eventShapes c (h.components.mem_iff.mpr hc) e he)
  commandIndices c hc := well.commandIndices c (h.components.mem_iff.mpr hc)
  commandShapes c hc m hm :=
    (well.commandShapes c (h.components.mem_iff.mpr hc) m hm).imp h.resolves h.resolves
  ownData := (h.components.map _).nodup_iff.mp well.ownData
  items := h.definedItems.nodup_iff.mp well.items
  modules m hm := by
    rw [← h.definedItems.mem_iff]
    exact well.modules m ((h.isModule_iff m).mpr hm)
  fieldNames t ht := well.fieldNames t (h.types.mem_iff.mpr ht)
  memberNames c hc t ht := by
    refine well.memberNames c (h.components.mem_iff.mpr hc) t ?_
    rwa [type?, find?_eq_of_perm h.types named.types]

/-! ### Linking -/

/-- Promotion succeeds when every component finds its data type: promoting keeps all names. -/
theorem exists_foldlM_promoteData {components : List Component} {types : List UserType}
    (h : ∀ c ∈ components, ∃ t ∈ types, t.qualifiedName = c.dataType) :
    ∃ promoted, components.foldlM promoteData types = .ok promoted := by
  induction components generalizing types with
  | nil => exact ⟨types, rfl⟩
  | cons c rest ih =>
      obtain ⟨hfound, hrest⟩ := List.forall_mem_cons.mp h
      have hstep : promoteData types c =
          .ok (types.map fun t => if t.qualifiedName = c.dataType then t.promote c else t) := by
        rw [promoteData, if_pos (by simpa using hfound)]
      rw [List.foldlM_cons, hstep]
      apply ih
      intro d hd
      obtain ⟨t, ht, hname⟩ := hrest d hd
      refine ⟨_, List.mem_map_of_mem ht, ?_⟩
      split_ifs
      · exact hname
      · exact hname

/-- A registry links exactly when it is well-formed. -/
theorem exists_link_iff : (∃ s, r.link = .ok s) ↔ r.WellFormed := by
  constructor
  · rintro ⟨s, hs⟩
    exact (link_eq_ok hs).1
  · intro hwell
    obtain ⟨types, htypes⟩ := exists_foldlM_promoteData hwell.dataTypes
    have hvalid : r.validate = .ok () := (validateIn_eq_ok_iff r.enumerates_modules).mpr hwell
    refine ⟨⟨types, r.components⟩, ?_⟩
    exact bind_eq_ok_iff.mpr ⟨(), hvalid, bind_eq_ok_iff.mpr ⟨types, htypes, rfl⟩⟩

/-- A type is promoted by the component whose data it holds, in whatever order the components
come. -/
theorem promoteBy_eq_of_perm {components components' : List Component}
    (h : components.Perm components') (own : (components.map Component.dataType).Nodup)
    (t : UserType) : t.promoteBy components = t.promoteBy components' := by
  have own' : (components'.map Component.dataType).Nodup := (h.map _).nodup_iff.mp own
  by_cases hdata : ∃ c ∈ components, t.qualifiedName = c.dataType
  · obtain ⟨c, hc, hname⟩ := hdata
    rw [UserType.promoteBy_of_mem own hc hname,
      UserType.promoteBy_of_mem own' (h.mem_iff.mp hc) hname]
  · push Not at hdata
    rw [UserType.promoteBy_of_forall_ne hdata,
      UserType.promoteBy_of_forall_ne fun c hc => hdata c (h.mem_iff.mpr hc)]

/-- Linking the same definitions in another order gives the same linked definitions in another
order. -/
theorem Reordered.link (h : r.Reordered r') {s s' : Linked} (linked : r.link = .ok s)
    (linked' : r'.link = .ok s') :
    s.types.Perm s'.types ∧ s.components.Perm s'.components := by
  obtain ⟨hwell, rfl⟩ := link_eq_ok linked
  obtain ⟨-, rfl⟩ := link_eq_ok linked'
  have hpromote : UserType.promoteBy r.components = UserType.promoteBy r'.components :=
    funext (promoteBy_eq_of_perm h.components hwell.ownData)
  refine ⟨?_, h.components⟩
  rw [hpromote]
  exact h.types.map _

/-- Linking keeps the qualified names of all definitions. -/
theorem Named.link {s : Linked} (named : r.Named) (linked : r.link = .ok s) :
    (s.types.map UserType.qualifiedName).Nodup ∧
      (s.components.map Component.qualifiedName).Nodup := by
  obtain ⟨hwell, rfl⟩ := link_eq_ok linked
  have hkeeps : ∀ t : UserType, (t.promoteBy r.components).qualifiedName = t.qualifiedName :=
    fun t => (t.promoteBy_keeps hwell.ownData).2.2.1
  refine ⟨?_, named.components⟩
  simpa only [List.map_map, Function.comp_def, hkeeps] using named.types

end Registry

namespace Linked

/-- Documents link when they are registered without a defect and make up a well-formed registry. -/
theorem ofDocuments_eq_ok_iff {ds : List Document} {s : Linked} :
    ofDocuments ds = .ok s ↔
      (∀ d ∈ ds, d.Readable) ∧ (Registry.extend {} ds).Named ∧
        (Registry.extend {} ds).link = .ok s := by
  have hempty : ({} : Registry).Named := ⟨List.nodup_nil, List.nodup_nil⟩
  rw [ofDocuments, bind_eq_ok_iff]
  simp only [Registry.ofDocuments_eq_ok_iff hempty]
  constructor
  · rintro ⟨r, ⟨hread, rfl, hnamed⟩, hlink⟩
    exact ⟨hread, hnamed, hlink⟩
  · rintro ⟨hread, hnamed, hlink⟩
    exact ⟨_, ⟨hread, rfl, hnamed⟩, hlink⟩

theorem exists_ofDocuments_of_perm {ds es : List Document} (h : ds.Perm es)
    (linked : ∃ s, ofDocuments ds = .ok s) : ∃ s, ofDocuments es = .ok s := by
  obtain ⟨s, hs⟩ := linked
  obtain ⟨hread, hnamed, hlink⟩ := ofDocuments_eq_ok_iff.mp hs
  have hreordered := Registry.reordered_extend {} h
  have hwell : (Registry.extend {} es).WellFormed :=
    hreordered.wellFormed hnamed (Registry.exists_link_iff.mp ⟨s, hlink⟩)
  obtain ⟨s', hs'⟩ := Registry.exists_link_iff.mpr hwell
  exact ⟨s', ofDocuments_eq_ok_iff.mpr
    ⟨fun d hd => hread d (h.mem_iff.mpr hd), hreordered.named hnamed, hs'⟩⟩

/-- Documents link in every order or in none. In whatever order they link, the same type and the
same component stand under each qualified name, and the schemas differ in the order of their
definitions only. -/
theorem ofDocuments_orderFree {ds es : List Document} (h : ds.Perm es) :
    ((∃ s, ofDocuments ds = .ok s) ↔ ∃ s, ofDocuments es = .ok s) ∧
      ∀ s s', ofDocuments ds = .ok s → ofDocuments es = .ok s' →
        (∀ name, s.type? name = s'.type? name) ∧
        (∀ name, s.component? name = s'.component? name) ∧
        s.types.Perm s'.types ∧ s.components.Perm s'.components := by
  refine ⟨⟨exists_ofDocuments_of_perm h, exists_ofDocuments_of_perm h.symm⟩, ?_⟩
  intro s s' hs hs'
  obtain ⟨-, hnamed, hlink⟩ := ofDocuments_eq_ok_iff.mp hs
  obtain ⟨-, -, hlink'⟩ := ofDocuments_eq_ok_iff.mp hs'
  obtain ⟨htypes, hcomponents⟩ := (Registry.reordered_extend {} h).link hlink hlink'
  obtain ⟨htypeNames, hcomponentNames⟩ := hnamed.link hlink
  exact ⟨find?_eq_of_perm htypes htypeNames, find?_eq_of_perm hcomponents hcomponentNames, htypes,
    hcomponents⟩

/-- A document with the data of a component that another document declares. -/
def cargoDocument : Document where
  package := "cargo"
  types :=
    [{ name := "Hold", qualifiedName := "cargo.Hold",
       fields := [{ name := "load", number := 1, singular := some { builtIn := some "uint32" } }] }]

/-- A document with a component that promotes a type of the other document, and whose own type is
promoted by nothing. -/
def shipDocument : Document where
  package := "ship"
  types :=
    [{ name := "Alarm", qualifiedName := "ship.Alarm",
       fields := [{ name := "hold", number := 1, option := some { user := some "cargo.Hold" } }] }]
  components :=
    [{ name := "Ship", id := 3, qualifiedName := "ship.Ship", data := "cargo.Hold",
       events := [{ name := "alarm", index := 1, type := "ship.Alarm" }] }]

/-- The two documents link in both orders, with different orders of their types, and in both the
type of the one is promoted by the component of the other. -/
theorem ofDocuments_orderFree_cargo :
    ∃ s s', ofDocuments [cargoDocument, shipDocument] = .ok s ∧
      ofDocuments [shipDocument, cargoDocument] = .ok s' ∧ s.types ≠ s'.types ∧
      (∀ name, s.type? name = s'.type? name) ∧
      (s'.type? "cargo.Hold").map UserType.component = some (some "ship.Ship") := by
  have hperm : [cargoDocument, shipDocument].Perm [shipDocument, cargoDocument] := .swap _ _ _
  have hlinked : ∃ s, ofDocuments [cargoDocument, shipDocument] = .ok s := ⟨_, rfl⟩
  obtain ⟨horder, hsame⟩ := ofDocuments_orderFree hperm
  obtain ⟨s', hs'⟩ := horder.mp hlinked
  refine ⟨_, s', rfl, hs', ?_, (hsame _ s' rfl hs').1, ?_⟩
  · obtain rfl := Except.ok.inj hs'
    decide
  · rw [← (hsame _ s' rfl hs').1]
    rfl

end Linked

end EntitySchema.Schema
