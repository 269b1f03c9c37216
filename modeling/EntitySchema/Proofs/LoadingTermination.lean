import EntitySchema.Proofs.Loading

/-!
# When loading comes to an end

Loading a user type ends on every object exactly when no user type has itself as a single value,
directly or through others. Where single values do lead back to a type, the empty object is loaded
from the empty object, on and on. Structures that are generated have sizes exactly when no user type
holds itself, also as an option.
-/

namespace EntitySchema.Schema

open Code (Instance)
open Filter (atTop)
open Wire (Object)

namespace Linked

/-- Loading the type from the object comes to an end: with enough calls open at once it has a
result, which is the same for more of them. -/
def Terminates (s : Linked) (type : String) (o : Object) : Prop :=
  ∃ n w, ∀ depth, n ≤ depth → s.deserialize depth type o = some w

theorem terminates_iff {s : Linked} {type : String} {o : Object} :
    s.Terminates type o ↔ ∃ w, ∀ᶠ depth in atTop, s.deserialize depth type o = some w := by
  simp only [Terminates, Filter.eventually_atTop]
  exact exists_comm

end Linked

namespace Registry

variable {r : Registry} {s : Linked}

theorem Registered.terminates_of_acyclic (registered : r.Registered) (linked : r.link = .ok s)
    (acyclic : Acyclic s.Requires) {a : String} {t : UserType} (ht : s.type? a = some t)
    (o : Object) : s.Terminates a o := by
  obtain ⟨w, -, hw⟩ := registered.loadsAs_loadLevels linked acyclic ht (Nat.le_refl (s.levels o))
  exact Linked.terminates_iff.mpr ⟨w, hw⟩

end Registry

/-- A step of a loop without a result leaves the loop without one. -/
theorem mapM_eq_none {α β : Type} {as : List α} {step : α → Option β} {a : α} (ha : a ∈ as)
    (h : step a = none) : as.mapM step = none := by
  induction as with
  | nil => cases ha
  | cons b rest ih =>
      rw [List.mapM_cons]
      rcases List.mem_cons.mp ha with rfl | ha
      · rw [h]
        rfl
      · rw [ih ha]
        cases step b <;> rfl

/-- A type that has itself as a single value is never loaded from the empty object. -/
theorem Linked.deserialize_eq_none {s : Linked} {a : String}
    (hcycle : Relation.TransGen s.Requires a a) (depth : Nat) :
    s.deserialize depth a .empty = none := by
  induction depth generalizing a with
  | zero => rfl
  | succ depth ih =>
      obtain ⟨b, ⟨t, ht, f, hf, hshape⟩, hback⟩ := Relation.TransGen.head'_iff.mp hcycle
      -- the type that is called lies on the cycle too
      have hcall : s.deserialize depth b .empty = none :=
        ih (Relation.TransGen.tail' hback ⟨t, ht, f, hf, hshape⟩)
      have hloading : f.loading ∈ t.loadings := List.mem_append_left _ (List.mem_map_of_mem hf)
      have hvalue : f.loading.value.eval (s.deserialize depth) ⟨[(["object"], .empty)], []⟩ =
          none := by
        have hread : (f.shape.reading ["object"] f.id "0").eval (s.deserialize depth)
            ⟨[(["object"], .empty)], []⟩ = none := by
          rw [hshape]
          exact hcall
        unfold Field.loading
        cases f.isTracked with
        | false => exact hread
        | true => exact congrArg (Option.map fun v => Instance.cell v false) hread
      rw [Linked.deserialize, ht, Option.bind_eq_bind, Option.bind_some,
        mapM_eq_none hloading (by rw [hvalue]; rfl)]
      rfl

namespace Linked

/-- What holding by value decides in a schema that documents link to, with cycles or without. Every
structure that is generated has a size exactly when no user type holds itself; then loading every
type ends on every object. Loading ends on every object exactly when no user type has itself as a
single value; a type that does is never loaded from the empty object, however many calls may be open
at once. -/
theorem hasSize_iff_acyclic {documents : List Document} {s : Linked}
    (linked : ofDocuments documents = .ok s) :
    ∃ tree, s.moduleTree = .ok tree ∧
      ((∀ members, HasRecord tree members → ∃ n, s.HasSize members n) ↔ Acyclic s.Holds) ∧
      (Acyclic s.Holds → ∀ t ∈ s.types, ∀ o, s.Terminates t.qualifiedName o) ∧
      ((∀ t ∈ s.types, ∀ o, s.Terminates t.qualifiedName o) ↔ Acyclic s.Requires) ∧
      ∀ a, Relation.TransGen s.Requires a a → ∀ depth, s.deserialize depth a .empty = none := by
  obtain ⟨r, registered, hlink⟩ := exists_registered linked
  obtain ⟨entries, hentries, -, hpromoted⟩ := registered.exists_entries hlink
  have hterminates (acyclic : Acyclic s.Requires) :
      ∀ t ∈ s.types, ∀ o, s.Terminates t.qualifiedName o := fun t ht =>
    registered.terminates_of_acyclic hlink acyclic (registered.type?_of_mem hlink ht)
  refine ⟨_, moduleTree_of_entries hentries, registered.forall_hasSize_iff hlink hpromoted, ?_, ?_,
    fun a hcycle => deserialize_eq_none hcycle⟩
  · intro acyclic
    apply hterminates
    intro a hcycle
    exact acyclic a (Relation.TransGen.mono (fun _ _ h => h.holds) a a hcycle)
  · refine ⟨fun h a hcycle => ?_, hterminates⟩
    obtain ⟨_, ⟨t, ht, -⟩, -⟩ := Relation.TransGen.head'_iff.mp hcycle
    have hname : t.qualifiedName = a := by simpa using List.find?_some ht
    obtain ⟨n, w, hn⟩ := h t (List.mem_of_find?_eq_some ht) .empty
    have hnever := deserialize_eq_none hcycle n
    rw [← hname, hn n le_rfl] at hnever
    cases hnever

theorem not_holds_crateSchema (a b : String) : ¬ crateSchema.Holds a b := by
  rintro ⟨t, ht, f, hf, hshape⟩
  obtain rfl : t = crateType := List.mem_singleton.mp (List.mem_of_find?_eq_some ht)
  simp only [crateType, List.mem_cons, List.not_mem_nil, or_false] at hf
  rcases hf with rfl | rfl | rfl <;> simp at hshape

/-- A crate holds crates in a list and in a map only, so its structures have sizes and loading it
ends. -/
theorem hasSize_iff_acyclic_crate :
    ofDocuments [crateDocument] = .ok crateSchema ∧
      (∃ n, crateSchema.HasSize crateType.members n) ∧
      ∀ o, crateSchema.Terminates "depot.Crate" o := by
  have linked : ofDocuments [crateDocument] = .ok crateSchema := rfl
  obtain ⟨tree, htree, hsizes, hends, -⟩ := hasSize_iff_acyclic linked
  have acyclic : Acyclic crateSchema.Holds := by
    intro a hcycle
    obtain ⟨b, hab, -⟩ := Relation.TransGen.head'_iff.mp hcycle
    exact not_holds_crateSchema a b hab
  refine ⟨linked, hsizes.mpr acyclic _ ?_, hends acyclic crateType List.mem_cons_self⟩
  obtain rfl := Except.ok.inj htree
  exact ⟨⟨["depot"], _, []⟩, List.mem_cons_of_mem _ List.mem_cons_self, crateType.fragment,
    List.mem_cons_self, crateType.summary, crateType.name, List.mem_cons_self⟩

/-- A document with one type, which has itself as a single value. -/
def nodeDocument : Document where
  package := "p"
  types :=
    [{ name := "Node", qualifiedName := "p.Node",
       fields := [{ name := "next", number := 1, singular := some { user := some "p.Node" } }] }]

/-- The linked schema of the document. -/
def nodeSchema : Linked where
  types :=
    [{ package := "p", name := "Node", qualifiedName := "p.Node",
       fields := [⟨"next", 1, .reference "p.Node", false⟩] }]

/-- The document links although its type holds itself, which has no size and is never loaded from
the empty object. -/
theorem not_acyclic_nodeSchema :
    ofDocuments [nodeDocument] = .ok nodeSchema ∧
      Relation.TransGen nodeSchema.Holds "p.Node" "p.Node" ∧
      (∀ n, ¬ nodeSchema.Occupies (.plain (.reference "p.Node")) n) ∧
      ∀ depth, nodeSchema.deserialize depth "p.Node" .empty = none := by
  have hrequires : nodeSchema.Requires "p.Node" "p.Node" :=
    ⟨_, rfl, _, List.mem_cons_self, rfl⟩
  have hcycle : Relation.TransGen nodeSchema.Holds "p.Node" "p.Node" := .single hrequires.holds
  refine ⟨rfl, hcycle, fun n hn => ?_, deserialize_eq_none (.single hrequires)⟩
  exact not_transGen_of_acc (hn.acc "p.Node" (Or.inl rfl)) hcycle

end Linked

end EntitySchema.Schema
