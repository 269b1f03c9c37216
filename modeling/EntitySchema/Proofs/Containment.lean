import EntitySchema.Proofs.EmittedPaths

/-!
# Which structures have a size

A structure holds the values of its members where it stands, except for the contents of lists, maps
and queues, which are kept elsewhere. So a user type that holds itself, directly or through others,
by value or as an option, has no size. The structures that are generated for a linked schema all
have a size exactly when its user types do not hold each other in a cycle. Linking does not look for
cycles, so both happen.

## Implementation notes

`Linked.Occupies` is the least relation that adds up the members of a structure. A derivation of it
is a proof that the type is accessible along `Linked.Holds`, which excludes a cycle through it.
Conversely, where there is no cycle, the number of types that a type holds falls along `Holds`
(`exists_rank`), and sizes are found by induction on it.
-/

namespace EntitySchema.Schema

open Code (Declaration Fragment Member MemberType ModuleTree)

/-! ## Holding by value -/

namespace Linked

/-- A value of the first type has values of the second one in it, at least where an option is
present: a field has the second type as its shape, or the option of it. -/
def Holds (s : Linked) (a b : String) : Prop :=
  ∃ t, s.type? a = some t ∧
    ∃ f ∈ t.fields, f.shape = .reference b ∨ f.shape = .option (.reference b)

/-- How many cells a value takes up where it stands. A scalar, a flag and what is kept elsewhere
take up one cell, an option and a tracked value one more than their content, and a structure what
its members take up together. -/
inductive Occupies (s : Linked) : MemberType → Nat → Prop
  | scalar (k : Scalar) : Occupies s (.plain (.scalar k)) 1
  | record {type : String} {t : UserType} {size : Member → Nat} : s.type? type = some t →
      (∀ m ∈ t.members, Occupies s m.type (size m)) →
      Occupies s (.plain (.reference type)) (t.members.map size).sum
  | option {inner : Shape} {n : Nat} : Occupies s (.plain inner) n →
      Occupies s (.plain (.option inner)) (n + 1)
  | list (inner : Shape) : Occupies s (.plain (.list inner)) 1
  | map (key value : Shape) : Occupies s (.plain (.map key value)) 1
  | tracked {shape : Shape} {n : Nat} : Occupies s (.plain shape) n →
      Occupies s (.tracked shape) (n + 1)
  | flag : Occupies s .flag 1
  | queue (shape : Shape) : Occupies s (.queue shape) 1

/-- The members of a structure take up a number of cells together. -/
def HasSize (s : Linked) (members : List Member) (n : Nat) : Prop :=
  ∃ size : Member → Nat, (∀ m ∈ members, s.Occupies m.type (size m)) ∧
    n = (members.map size).sum

theorem exists_hasSize {s : Linked} {members : List Member}
    (h : ∀ m ∈ members, ∃ n, s.Occupies m.type n) : ∃ n, s.HasSize members n := by
  choose! size hsize using h
  exact ⟨_, size, hsize, rfl⟩

end Linked

/-- No way along a relation leads back to where it starts. -/
def Acyclic {α : Type} (R : α → α → Prop) : Prop := ∀ a, ¬ Relation.TransGen R a a

/-- What is accessible lies on no cycle. -/
theorem not_transGen_of_acc {α : Type} {R : α → α → Prop} {a : α}
    (h : Acc (fun b a => R a b) a) : ¬ Relation.TransGen R a a := by
  have hacc := h.transGen
  clear h
  induction hacc with
  | intro a _ ih => exact fun hcycle => ih a (Relation.transGen_swap.mpr hcycle) hcycle

/-- Along an acyclic relation between finitely many things some number, which is no greater than
there are things, falls with every step. -/
theorem exists_rank {α : Type} {R : α → α → Prop} (names : List α)
    (hnames : ∀ a b, R a b → b ∈ names) (acyclic : Acyclic R) :
    ∃ rank : α → Nat, (∀ a, rank a ≤ names.length) ∧ ∀ a b, R a b → rank b < rank a := by
  classical
  refine ⟨fun a => (names.toFinset.filter fun b => Relation.TransGen R a b).card, ?_, ?_⟩
  · intro a
    exact (Finset.card_filter_le _ _).trans names.toFinset_card_le
  intro a b hab
  apply Finset.card_lt_card
  -- what is reached from the second is reached from the first, and the second is not among it
  refine ⟨fun c hc => ?_, fun hsubset => ?_⟩
  · obtain ⟨hmem, hbc⟩ := Finset.mem_filter.mp hc
    exact Finset.mem_filter.mpr ⟨hmem, hbc.head hab⟩
  · have hb : b ∈ names.toFinset.filter fun c => Relation.TransGen R a c :=
      Finset.mem_filter.mpr ⟨List.mem_toFinset.mpr (hnames a b hab), .single hab⟩
    exact acyclic b (Finset.mem_filter.mp (hsubset hb)).2

/-! ## Sizes and cycles -/

/-- The type of a member has values of a user type in it. -/
def MemberHolds (b : String) : MemberType → Prop
  | .plain shape | .tracked shape => shape = .reference b ∨ shape = .option (.reference b)
  | .flag | .queue _ => False

theorem UserType.exists_member_of_field {t : UserType} {f : Field} (hf : f ∈ t.fields) :
    ∃ m ∈ t.members, m.type = .plain f.shape ∨ m.type = .tracked f.shape := by
  unfold UserType.members
  split_ifs
  · exact ⟨f.dataMember, List.mem_append_left _ (List.mem_map_of_mem hf), Or.inr rfl⟩
  · exact ⟨f.plainMember, List.mem_map_of_mem hf, Or.inl rfl⟩

/-- Every user type that a member with a size has in it is accessible. -/
theorem Linked.Occupies.acc {s : Linked} {type : MemberType} {n : Nat} (h : s.Occupies type n) :
    ∀ b, MemberHolds b type → Acc (fun b a => s.Holds a b) b := by
  induction h with
  | scalar k => rintro b (h | h) <;> cases h
  | @record a t size ht _ ih =>
      rintro b (h | h)
      · obtain rfl := Shape.reference.inj h
        refine ⟨_, fun c hc => ?_⟩
        obtain ⟨u, hu, f, hf, hshape⟩ := hc
        obtain rfl := Option.some.inj (ht.symm.trans hu)
        obtain ⟨m, hm, htype⟩ := UserType.exists_member_of_field hf
        apply ih m hm c
        rcases htype with htype | htype
        · rw [htype]
          exact hshape
        · rw [htype]
          exact hshape
      · cases h
  | option _ ih =>
      rintro b (h | h)
      · cases h
      · exact ih b (Or.inl (Shape.option.inj h))
  | list inner => rintro b (h | h) <;> cases h
  | map key value => rintro b (h | h) <;> cases h
  | tracked _ ih => exact fun b h => ih b h
  | flag => exact fun b h => h.elim
  | queue shape => exact fun b h => h.elim

/-- A flat shape has a size if the user type that it holds, if any, has one. -/
theorem Shape.exists_occupies {s : Linked} {shape : Shape} (flat : shape.isFlat)
    (h : ∀ b, shape = .reference b ∨ shape = .option (.reference b) →
      ∃ n, s.Occupies (.plain (.reference b)) n) : ∃ n, s.Occupies (.plain shape) n := by
  cases shape with
  | scalar k => exact ⟨1, .scalar k⟩
  | reference b => exact h b (Or.inl rfl)
  | option inner =>
      cases inner with
      | scalar k => exact ⟨2, .option (.scalar k)⟩
      | reference b =>
          obtain ⟨n, hn⟩ := h b (Or.inr rfl)
          exact ⟨n + 1, .option hn⟩
      | _ => cases flat
  | list inner => exact ⟨1, .list inner⟩
  | map key value => exact ⟨1, .map key value⟩

/-- The structure of a type has a size if the shapes of all its fields have one. -/
theorem UserType.exists_hasSize {s : Linked} {t : UserType}
    (h : ∀ f ∈ t.fields, ∃ n, s.Occupies (.plain f.shape) n) : ∃ n, s.HasSize t.members n := by
  apply Linked.exists_hasSize
  intro m hm
  unfold UserType.members at hm
  split_ifs at hm
  · rcases List.mem_append.mp hm with hm | hm
    · obtain ⟨f, hf, rfl⟩ := List.mem_map.mp hm
      obtain ⟨n, hn⟩ := h f hf
      exact ⟨n + 1, .tracked hn⟩
    · rcases List.mem_cons.mp hm with rfl | hm
      · exact ⟨1, .flag⟩
      · obtain ⟨e, -, rfl⟩ := List.mem_map.mp hm
        exact ⟨1, .queue e.shape⟩
  · obtain ⟨f, hf, rfl⟩ := List.mem_map.mp hm
    exact h f hf

/-- The structures of a component have a size if the shapes of all fields of its data have one. -/
theorem Component.exists_hasSize {s : Linked} {c : Component} {data : UserType} {doc name : String}
    {members : List Member} (hrecord : Declaration.record doc name members ∈ c.fragment data)
    (h : ∀ f ∈ data.fields, ∃ n, s.Occupies (.plain f.shape) n) : ∃ n, s.HasSize members n := by
  apply Linked.exists_hasSize
  intro m hm
  rcases members_cases hrecord with rfl | rfl
  · obtain ⟨f, hf, rfl⟩ := List.mem_map.mp hm
    exact h f hf
  · rcases List.mem_append.mp hm with hm | hm
    · obtain ⟨f, hf, rfl⟩ := List.mem_map.mp hm
      obtain ⟨n, hn⟩ := h f hf
      exact ⟨n + 1, .option hn⟩
    · obtain ⟨e, -, rfl⟩ := List.mem_map.mp hm
      exact ⟨1, .list e.shape⟩

/-! ## The structures of a schema -/

/-- Some structure of the modules has the members. -/
def HasRecord (tree : ModuleTree) (members : List Member) : Prop :=
  ∃ m ∈ tree.nodes, ∃ f ∈ m.fragments, ∃ doc name, Declaration.record doc name members ∈ f

/-- The structures of the modules are those of the fragments that were placed there. -/
theorem hasRecord_iff {placements : List (String × Fragment)} {members : List Member} :
    HasRecord (ModuleTree.ofPlacements placements) members ↔
      ∃ p ∈ placements, ∃ doc name, Declaration.record doc name members ∈ p.2 := by
  constructor
  · rintro ⟨m, hm, f, hf, hrecord⟩
    rw [(ModuleTree.node_of_placements hm).1] at hf
    obtain ⟨p, hp, rfl⟩ := List.mem_map.mp hf
    exact ⟨p, List.mem_of_mem_filter hp, hrecord⟩
  · rintro ⟨p, hp, hrecord⟩
    obtain ⟨m, hm, hpath⟩ := ModuleTree.exists_node_of_prefix hp (List.prefix_refl _)
    refine ⟨m, hm, p.2, ?_, hrecord⟩
    rw [(ModuleTree.node_of_placements hm).1]
    exact List.mem_map.mpr ⟨p, List.mem_filter.mpr ⟨hp, by simp [hpath]⟩, rfl⟩

namespace Registry

variable {r : Registry} {s : Linked}

/-- Linking keeps the qualified names of the types. -/
theorem map_qualifiedName (linked : r.link = .ok s) :
    s.types.map UserType.qualifiedName = r.types.map UserType.qualifiedName := by
  obtain ⟨hwell, rfl⟩ := link_eq_ok linked
  rw [List.map_map]
  exact List.map_congr_left fun t _ => (t.promoteBy_keeps hwell.ownData).2.2.1

/-- A type of the schema is found under its qualified name. -/
theorem Registered.type?_of_mem (registered : r.Registered) (linked : r.link = .ok s)
    {t : UserType} (ht : t ∈ s.types) : s.type? t.qualifiedName = some t := by
  have hnames : (s.types.map UserType.qualifiedName).Nodup := by
    rw [map_qualifiedName linked]
    exact registered.unpromoted.names
  exact (find?_eq_some_iff_of_nodup hnames).mpr ⟨ht, rfl⟩

theorem exists_type?_of_registers (linked : r.link = .ok s) {name : String}
    (h : r.Registers name) : ∃ t, s.type? name = some t := by
  obtain ⟨u, hu, rfl⟩ := h
  have hname : u.qualifiedName ∈ s.types.map UserType.qualifiedName := by
    rw [map_qualifiedName linked]
    exact List.mem_map_of_mem hu
  obtain ⟨t, ht, hsame⟩ := List.mem_map.mp hname
  rw [← Option.isSome_iff_exists, Linked.type?, List.find?_isSome]
  exact ⟨t, ht, by simpa using hsame⟩

/-- The fields of a linked schema refer to types of the schema, and their keys are scalars. -/
theorem resolves_of_link (linked : r.link = .ok s) {t : UserType} (ht : t ∈ s.types) {f : Field}
    (hf : f ∈ t.fields) : r.Resolves f.shape := by
  obtain ⟨hwell, rfl⟩ := link_eq_ok linked
  obtain ⟨u, hu, rfl⟩ := List.mem_map.mp ht
  obtain ⟨g, hg, hshape⟩ := (u.promoteBy_shapes hwell.ownData).1 f hf
  rw [hshape]
  exact hwell.fieldShapes u hu g hg

/-- Every type that is held is a type of the schema. -/
theorem exists_type?_of_holds (linked : r.link = .ok s) {a b : String} (h : s.Holds a b) :
    ∃ t, s.type? b = some t := by
  obtain ⟨t, ht, f, hf, hshape⟩ := h
  have hresolves := resolves_of_link linked (List.mem_of_find?_eq_some ht) hf
  refine exists_type?_of_registers linked (hresolves.references b ?_)
  rcases hshape with hshape | hshape
  · simp [hshape, Shape.references]
  · simp [hshape, Shape.references]

/-- Where types do not hold each other in a cycle, some number, which is no greater than there are
types, falls from each to what it holds. -/
theorem exists_rank_of_acyclic (linked : r.link = .ok s) {R : String → String → Prop}
    (hR : ∀ a b, R a b → s.Holds a b) (acyclic : Acyclic R) :
    ∃ rank : String → Nat, (∀ a, rank a ≤ s.types.length) ∧ ∀ a b, R a b → rank b < rank a := by
  have hnames : ∀ a b, R a b → b ∈ s.types.map UserType.qualifiedName := by
    intro a b hab
    obtain ⟨u, hu⟩ := exists_type?_of_holds linked (hR a b hab)
    have hname : u.qualifiedName = b := by simpa using List.find?_some hu
    exact hname ▸ List.mem_map_of_mem (List.mem_of_find?_eq_some hu)
  simpa using exists_rank (s.types.map UserType.qualifiedName) hnames acyclic

/-- The shapes of the fields of a type have sizes if the types that it holds have. -/
theorem Registered.exists_occupies_field (registered : r.Registered) (linked : r.link = .ok s)
    {t : UserType} (ht : t ∈ s.types)
    (h : ∀ b u, s.Holds t.qualifiedName b → s.type? b = some u →
      ∃ n, s.Occupies (.plain (.reference b)) n) :
    ∀ f ∈ t.fields, ∃ n, s.Occupies (.plain f.shape) n := by
  intro f hf
  have hflat := (registered.sound_of_link linked).flat t ht f hf
  refine Shape.exists_occupies hflat fun b hb => ?_
  have hholds : s.Holds t.qualifiedName b := ⟨t, registered.type?_of_mem linked ht, f, hf, hb⟩
  obtain ⟨u, hu⟩ := exists_type?_of_holds linked hholds
  exact h b u hholds hu

/-- Every type that is found has a size where types do not hold each other in a cycle. -/
theorem Registered.exists_occupies (registered : r.Registered) (linked : r.link = .ok s)
    (acyclic : Acyclic s.Holds) {a : String} {t : UserType} (ht : s.type? a = some t) :
    ∃ n, s.Occupies (.plain (.reference a)) n := by
  obtain ⟨rank, -, hrank⟩ := exists_rank_of_acyclic linked (fun _ _ h => h) acyclic
  induction hn : rank a using Nat.strong_induction_on generalizing a t with
  | _ n ih =>
      have hname : t.qualifiedName = a := by simpa using List.find?_some ht
      have hfields := registered.exists_occupies_field linked (List.mem_of_find?_eq_some ht)
        fun b u hholds hu => ih (rank b) (hn ▸ hrank a b (hname ▸ hholds)) hu rfl
      obtain ⟨_, size, hsize, -⟩ := UserType.exists_hasSize hfields
      exact ⟨_, .record ht hsize⟩

/-- The structures that are generated all have a size exactly when no user type holds itself. -/
theorem Registered.forall_hasSize_iff (registered : r.Registered) (linked : r.link = .ok s)
    {entries : List Entry} (hpromoted : ∀ e ∈ entries, e.Promoted s) :
    (∀ members, HasRecord (ModuleTree.ofPlacements (s.placements entries)) members →
      ∃ n, s.HasSize members n) ↔ Acyclic s.Holds := by
  simp only [hasRecord_iff]
  constructor
  · -- the size of the type's own structure makes the type accessible
    intro h a hcycle
    obtain ⟨_, ⟨t, ht, -⟩, -⟩ := Relation.TransGen.head'_iff.mp hcycle
    have hplaced : (t.package, t.fragment) ∈ s.placements entries := by
      simp only [Linked.placements, List.mem_append, List.mem_map]
      exact Or.inl (Or.inl ⟨t, List.mem_of_find?_eq_some ht, rfl⟩)
    obtain ⟨_, size, hsize, -⟩ := h t.members ⟨_, hplaced, t.summary, t.name, List.mem_cons_self⟩
    have hoccupies := Linked.Occupies.record ht hsize
    exact not_transGen_of_acc (hoccupies.acc a (Or.inl rfl)) hcycle
  · rintro acyclic members ⟨p, hp, doc, name, hrecord⟩
    have hfields : ∀ t ∈ s.types, ∀ f ∈ t.fields, ∃ n, s.Occupies (.plain f.shape) n := by
      intro t ht
      apply registered.exists_occupies_field linked ht
      intro b u _ hu
      exact registered.exists_occupies linked acyclic hu
    simp only [Linked.placements, List.mem_append, List.mem_map, List.mem_singleton] at hp
    rcases hp with (⟨t, ht, rfl⟩ | ⟨e, he, rfl⟩) | rfl
    · rw [UserType.members_of_record hrecord]
      exact UserType.exists_hasSize (hfields t ht)
    · exact Component.exists_hasSize hrecord (hfields e.data (hpromoted e he).mem)
    · exact absurd hrecord Dispatch.record_notMem

end Registry

end EntitySchema.Schema
