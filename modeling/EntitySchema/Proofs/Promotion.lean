import EntitySchema.Proofs.DocumentOrder
import EntitySchema.Proofs.Registration

/-!
# What linking changes

Linking goes over the components and rewrites the types in place. Whatever documents were registered
before, with success or not, it keeps all definitions in their order and the components as they are.
It marks the type of each component's data, in nothing but the component, the events and the
tracking of the fields, and no other type. It refuses exactly what validation refuses: in a valid
registry every component finds its data type, also after the components before it have marked
theirs.

## Implementation notes

`Registry.Marks` relates one type to what becomes of it. That a type is marked at most once rests on
the rule that components do not share a data type. That a type left alone has no component, no
events and no tracked field is not a matter of linking but of registration, and is read off the
declaration that the type comes from.
-/

namespace EntitySchema.Schema

/-- What linking makes of a type: the type of a component's data is marked by that one component,
any other type is left as it is, unmarked. -/
inductive Registry.Marks (r : Registry) (t : UserType) : UserType → Prop
  | data {c : Component} : c ∈ r.components → c.dataType = t.qualifiedName →
    (∀ c' ∈ r.components, c'.dataType = t.qualifiedName → c' = c) →
    Marks r t
      { t with
        component := some c.qualifiedName
        events := c.events
        fields := t.fields.map fun f => { f with isTracked := true } }
  | plain : (∀ c ∈ r.components, c.dataType ≠ t.qualifiedName) → t.component = none →
    t.events = [] → (∀ f ∈ t.fields, f.isTracked = false) → Marks r t t

/-! ### Registered types -/

/-- Every type of a catalog comes from a declaration. -/
theorem Catalog.exists_declaration {ds : List Document} {t : UserType}
    (ht : t ∈ (after ds).types.values) :
    ∃ package d, UserType.ofDeclaration package d = .ok t := by
  induction ds using List.reverseRecOn with
  | nil => cases ht
  | append_singleton ds d ih =>
      obtain ⟨n, m, types, -, hall, hentries, -⟩ := enters_addDocument (after ds) d
      rw [after_concat, Table.values, hentries, List.map_append] at ht
      rcases List.mem_append.mp ht with ht | ht
      · exact ih ht
      · have hmem : t ∈ types := by simpa [Table.entriesOf] using ht
        obtain ⟨x, -, hx⟩ := exists_of_mem_mapM hall hmem
        exact ⟨d.package, x, hx⟩

theorem UserType.events_ofDeclaration {package : String} {d : TypeDeclaration} {t : UserType}
    (h : UserType.ofDeclaration package d = .ok t) : t.events = [] := by
  obtain ⟨fields, -, h⟩ := bind_eq_ok_iff.mp h
  obtain rfl := Except.ok.inj h
  rfl

namespace Registry

theorem Registered.events_eq_nil {r : Registry} (h : r.Registered) {t : UserType}
    (ht : t ∈ r.types) : t.events = [] := by
  obtain ⟨ds, rfl⟩ := h.exists_after
  obtain ⟨package, d, hd⟩ := Catalog.exists_declaration ht
  exact UserType.events_ofDeclaration hd

/-! ### Linking -/

variable {r : Registry}

theorem Registered.marks_promoteBy (h : r.Registered)
    (own : (r.components.map Component.dataType).Nodup) {t : UserType} (ht : t ∈ r.types) :
    r.Marks t (t.promoteBy r.components) := by
  by_cases hdata : ∃ c ∈ r.components, t.qualifiedName = c.dataType
  · obtain ⟨c, hc, hname⟩ := hdata
    rw [UserType.promoteBy_of_mem own hc hname]
    refine .data hc hname.symm fun c' hc' hname' => ?_
    exact List.inj_on_of_nodup_map own hc' hc (hname'.trans hname)
  · push Not at hdata
    rw [UserType.promoteBy_of_forall_ne hdata]
    exact .plain (fun c hc => (hdata c hc).symm) (h.unpromoted.component t ht) (h.events_eq_nil ht)
      (h.unpromoted.tracked t ht)

/-- In a valid registry every component finds its data type. -/
theorem exists_promoted_of_validate (h : r.validate = .ok ()) :
    ∃ types, r.components.foldlM promoteData r.types = .ok types :=
  exists_foldlM_promoteData ((validateIn_eq_ok_iff r.enumerates_modules).mp h).dataTypes

/-- Linking has no error of its own. -/
theorem link_eq_error_iff {e : Error} : r.link = .error e ↔ r.validate = .error e := by
  rw [link, bind_eq_error_iff]
  constructor
  · rintro (hinvalid | ⟨_, hvalid, hpromote⟩)
    · exact hinvalid
    · obtain ⟨types, htypes⟩ := exists_promoted_of_validate hvalid
      rw [htypes] at hpromote
      cases hpromote
  · exact Or.inl

/-- Linking what was registered marks the data types of the components and changes nothing else, and
it fails where validation fails: the marking of the data types never does. -/
theorem Registered.link_marks (h : r.Registered) :
    (∀ s, r.link = .ok s →
      s.components = r.components ∧ List.Forall₂ r.Marks r.types s.types) ∧
    (r.validate = .ok () → ∃ types, r.components.foldlM promoteData r.types = .ok types) ∧
    ∀ e, r.link = .error e ↔ r.validate = .error e := by
  refine ⟨fun s hs => ?_, exists_promoted_of_validate, fun e => link_eq_error_iff⟩
  obtain ⟨hwell, rfl⟩ := link_eq_ok hs
  refine ⟨rfl, List.forall₂_map_right_iff.mpr (List.forall₂_same.mpr fun t ht => ?_)⟩
  exact h.marks_promoteBy hwell.ownData ht

/-- Of the two types, one is the data of the component and is marked. The other is left alone. -/
theorem Registered.link_marks_ship :
    ∃ r : Registry, r.Registered ∧
      (r.types.map UserType.qualifiedName = ["cargo.Hold", "ship.Alarm"]) ∧
      ∃ s, r.link = .ok s ∧ List.Forall₂ r.Marks r.types s.types ∧
        s.types.map UserType.component = [some "ship.Ship", none] := by
  have hregistered : ((({} : Registry).addDocument Linked.cargoDocument).2.addDocument
      Linked.shipDocument).2.Registered := .add _ (.add _ .empty)
  exact ⟨_, hregistered, rfl, _, rfl, (hregistered.link_marks.1 _ rfl).2, rfl⟩

end Registry

end EntitySchema.Schema
