import EntitySchema.Proofs.KindIndex
import EntitySchema.Proofs.Normalization

/-!
# A store is a map from numbers to lists

Whatever sequence of operations makes a store, every read of it, at every depth, is answered by the
map from field numbers to lists of values that the same operations make.

## Implementation notes

The operations are written once, over a `Container`, and run on stores, on objects and on maps. A
relation that the primitive operations of two containers keep is kept by every run; the refinement
is two such relations put together. Between stores and objects the relation is that the positions
are in step, and between objects and maps that every object is ordered.
-/

namespace EntitySchema.Wire

/-! ## Maps from numbers to lists -/

/-- A value that keeps no index: an object is a map from field numbers to lists of values. -/
inductive Plain where
  | single (v : Single)
  | object (fields : FieldId → List Plain)

namespace Plain

/-- For every field number the values under it. -/
abbrev Map := FieldId → List Plain

/-- The kind of a value. -/
def kind : Plain → Kind
  | .single v => v.val.kind
  | .object _ => .object

/-- The values of a kind under a number. -/
def ofKind (m : Map) (k : Kind) (f : FieldId) : List Plain := (m f).filter fun v => v.kind = k

/-- The child object at a position under a number, or the empty one. -/
def child (m : Map) (f : FieldId) (i : Nat) : Map :=
  match (ofKind m .object f)[i]? with
  | some (.object fields) => fields
  | _ => fun _ => []

/-- The object that a path of children leads to. -/
def descend (m : Map) : List (FieldId × Nat) → Map
  | [] => m
  | (f, i) :: path => descend (child m f i) path

end Plain

mutual

/-- A value as a plain one. -/
def Value.plain : Value → Plain
  | .object ⟨entries⟩ => .object (plainEntries entries)
  | v => if h : v.kind ≠ .object then .single ⟨v, h⟩ else .object fun _ => []

/-- The values of some entries under a number. -/
def plainEntries : List (FieldId × List Value) → Plain.Map
  | [], _ => []
  | (g, values) :: rest, f => if f = g then plainValues values else plainEntries rest f

/-- Values as plain ones. -/
def plainValues : List Value → List Plain
  | [] => []
  | v :: rest => v.plain :: plainValues rest

end

/-- The map of an object. -/
def Fields.plain (o : Object) : Plain.Map := fun f => (o.values f).map Value.plain

theorem plainValues_eq (values : List Value) : plainValues values = values.map Value.plain := by
  induction values with
  | nil => rfl
  | cons v rest ih => rw [plainValues, ih, List.map_cons]

theorem Value.plain_object (o : Object) : (Value.object o).plain = .object o.plain := by
  obtain ⟨entries⟩ := o
  rw [Value.plain]
  congr 1
  funext f
  rw [Fields.plain, Fields.values]
  induction entries with
  | nil => rfl
  | cons e rest ih =>
      rw [plainEntries, Fields.lookup_cons_eq_ite]
      split_ifs
      · exact plainValues_eq e.2
      · exact ih

theorem Value.plain_single (v : Single) : v.val.plain = .single v := by
  obtain ⟨v, h⟩ := v
  cases v <;> first | exact absurd rfl h | rfl

@[simp] theorem Value.kind_plain (v : Value) : v.plain.kind = v.kind := by
  cases v <;> rfl

theorem Fields.plain_push {o : Object} (h : o.Ascending) (f : FieldId) (v : Value) :
    (o.push f v).plain = Function.update o.plain f (o.plain f ++ [v.plain]) := by
  funext g
  rw [plain, push_eq_pushAll, h.values_pushAll, List.map_append, Function.update_apply]
  split_ifs with hg
  · rw [hg]
    rfl
  · exact List.append_nil _

theorem Fields.plain_erase (o : Object) (f : FieldId) :
    (o.erase f).plain = Function.update o.plain f [] := by
  funext g
  rw [plain, values_erase, Function.update_apply, apply_ite (List.map Value.plain)]
  rfl

theorem Fields.map_plain_ofKind (o : Object) (k : Kind) (f : FieldId) :
    (o.ofKind k f).map Value.plain = Plain.ofKind o.plain k f := by
  rw [ofKind, Plain.ofKind, plain, List.filter_map]
  simp [Function.comp_def]

theorem Fields.plain_child (o : Object) (f : FieldId) (i : Nat) :
    (o.child f i).plain = Plain.child o.plain f i := by
  rw [Plain.child, ← map_plain_ofKind, List.getElem?_map, child, index]
  cases hv : (o.ofKind .object f)[i]? with
  | none => rfl
  | some v =>
      have hkind : v.kind = .object :=
        of_decide_eq_true (List.mem_filter.mp (List.mem_of_getElem? hv)).2
      cases v with
      | object child =>
          rw [Option.map_some, Value.plain_object]
          rfl
      | _ => cases hkind

/-! ## Operations and their runs -/

/-- What is done to a container. -/
inductive Operation where
  /-- Stores a value that is not an object. -/
  | push (f : FieldId) (v : Single)
  /-- Stores an object that is made on its own. -/
  | pushObject (f : FieldId) (making : List Operation)
  /-- Adds an empty child and writes to it where it stands. -/
  | addObject (f : FieldId) (writing : List Operation)
  /-- Removes the values under a number. -/
  | erase (f : FieldId)
  /-- Removes all values. -/
  | clear
  /-- Takes what a byte string decodes to, if it does. -/
  | decode (bytes : Bytes)

/-- The primitive operations of a way of keeping values. -/
structure Container (σ : Type) where
  empty : σ
  push : σ → FieldId → Single → σ
  pushObject : σ → FieldId → σ → σ
  addObject : σ → FieldId → (σ → σ) → σ
  erase : σ → FieldId → σ
  decode : Bytes → Except DecodeError σ

mutual

/-- Performs an operation. -/
def Operation.run {σ : Type} (c : Container σ) : Operation → σ → σ
  | .push f v, s => c.push s f v
  | .pushObject f making, s => c.pushObject s f (runAll c making c.empty)
  | .addObject f writing, s => c.addObject s f fun child => runAll c writing child
  | .erase f, s => c.erase s f
  | .clear, _ => c.empty
  | .decode bytes, s => (c.decode bytes).toOption.getD s

/-- Performs operations in order. -/
def runAll {σ : Type} (c : Container σ) : List Operation → σ → σ
  | [], s => s
  | op :: rest, s => runAll c rest (op.run c s)

end

/-- Values that are kept in a store. -/
def stores : Container Store where
  empty := .empty
  push s f v := s.push f (.single v)
  pushObject s f child := s.push f (.object child.columns)
  addObject := Store.addObject
  erase := Store.erase
  decode := Store.decode

/-- Values that are kept in an object. -/
def objects : Container Object where
  empty := .empty
  push o f v := o.push f v.val
  pushObject o f child := o.push f (.object child)
  addObject o f write := o.push f (.object (write .empty))
  erase := Fields.erase
  decode := Fields.decode

/-- Values that are kept in a map. -/
def maps : Container Plain.Map where
  empty := fun _ => []
  push m f v := Function.update m f (m f ++ [.single v])
  pushObject m f child := Function.update m f (m f ++ [.object child])
  addObject m f write := Function.update m f (m f ++ [.object (write fun _ => [])])
  erase m f := Function.update m f []
  decode bytes := (Fields.decode bytes).map Fields.plain

/-- The primitive operations of two containers keep a relation. -/
structure Container.Simulates {σ τ : Type} (c : Container σ) (d : Container τ)
    (R : σ → τ → Prop) : Prop where
  empty : R c.empty d.empty
  push : ∀ {s t}, R s t → ∀ f v, R (c.push s f v) (d.push t f v)
  pushObject : ∀ {s t}, R s t → ∀ f {s' t'}, R s' t' → R (c.pushObject s f s') (d.pushObject t f t')
  addObject : ∀ {s t}, R s t → ∀ f {w : σ → σ} {w' : τ → τ}, (∀ {s t}, R s t → R (w s) (w' t)) →
    R (c.addObject s f w) (d.addObject t f w')
  erase : ∀ {s t}, R s t → ∀ f, R (c.erase s f) (d.erase t f)
  decode : ∀ bytes, Option.Rel R (c.decode bytes).toOption (d.decode bytes).toOption

section Simulation

variable {σ τ : Type} {c : Container σ} {d : Container τ} {R : σ → τ → Prop}

mutual

theorem Container.Simulates.run (h : c.Simulates d R) :
    (op : Operation) → {s : σ} → {t : τ} → R s t → R (op.run c s) (op.run d t)
  | .push f v, _, _, hst => h.push hst f v
  | .pushObject f making, _, _, hst => h.pushObject hst f (h.runAll making h.empty)
  | .addObject f writing, _, _, hst => h.addObject hst f (h.runAll writing)
  | .erase f, _, _, hst => h.erase hst f
  | .clear, _, _, _ => h.empty
  | .decode bytes, _, _, hst => by
      have hread := h.decode bytes
      rw [Operation.run, Operation.run]
      generalize (c.decode bytes).toOption = x, (d.decode bytes).toOption = y at hread ⊢
      cases hread with
      | some hread => exact hread
      | none => exact hst

/-- A relation that the primitive operations keep is kept by every run. -/
theorem Container.Simulates.runAll (h : c.Simulates d R) :
    (ops : List Operation) → {s : σ} → {t : τ} → R s t → R (runAll c ops s) (runAll d ops t)
  | [], _, _, hst => hst
  | op :: rest, _, _, hst => h.runAll rest (h.run op hst)

end

end Simulation

/-! ## Stores and objects -/

/-- The store holds the object, with its positions in step. -/
def Store.Holds (s : Store) (o : Object) : Prop := s.Indexed ∧ s.object = o

theorem Store.holds_empty : Store.empty.Holds .empty := ⟨Store.indexed_empty, rfl⟩

theorem Store.Holds.push {s : Store} {o : Object} (h : s.Holds o) (f : FieldId) {v : Stored}
    (hv : v.Indexed) : (s.push f v).Holds (o.push f v.value) :=
  ⟨h.1.push f hv, h.2 ▸ s.object_push f v⟩

theorem Store.Holds.child {s : Store} {o : Object} (h : s.Holds o) (f : FieldId) (i : Nat) :
    (s.child f i).Holds (o.child f i) :=
  ⟨(h.1.child f i).1, h.2 ▸ (h.1.child f i).2⟩

/-- What decodes is ordered at every depth. -/
theorem Fields.ordered_of_decode {bytes : Bytes} {o : Object} (h : Fields.decode bytes = .ok o) :
    Value.Ordered (.object o) := by
  obtain ⟨fields, hspells, rfl, -⟩ := spellsObject_of_decode h
  have hordered := hspells.proper.ordered_value
  rwa [Written.value_object] at hordered

theorem stores_simulate_objects : stores.Simulates objects Store.Holds where
  empty := Store.holds_empty
  push h f v := h.push f (.single v)
  pushObject := by
    rintro s o h f child _ ⟨hchild, rfl⟩
    exact h.push f hchild
  addObject := by
    intro s o h f write write' hwrite
    obtain ⟨hchild, hobject⟩ := hwrite Store.holds_empty
    change (s.addObject f write).Holds (o.push f (.object (write' .empty)))
    rw [Store.addObject_eq_push, ← hobject]
    exact h.push f hchild
  erase := by
    rintro s _ ⟨hs, rfl⟩ f
    exact ⟨hs.erase f, s.object_erase f⟩
  decode := by
    intro bytes
    change Option.Rel _ (Store.decode bytes).toOption (Fields.decode bytes).toOption
    rw [Store.decode]
    cases hread : Fields.decode bytes with
    | error e => exact .none
    | ok o =>
        exact .some ⟨Store.indexed_ofEntries o.entries Store.indexed_empty,
          Store.object_ofObject (Fields.ordered_of_decode hread)⟩

/-! ## Objects and maps -/

/-- The object is ordered at every depth and has the values of the map. -/
def Fields.Lists (o : Object) (m : Plain.Map) : Prop := Value.Ordered (.object o) ∧ o.plain = m

theorem Fields.lists_empty : Fields.Lists .empty fun _ => [] := ⟨Fields.Built.empty.ordered, rfl⟩

theorem Fields.Lists.push {o : Object} {m : Plain.Map} (h : o.Lists m) (f : FieldId) {v : Value}
    {p : Plain} (hv : v.Ordered) (hp : v.plain = p) :
    (o.push f v).Lists (Function.update m f (m f ++ [p])) := by
  obtain ⟨ho, rfl⟩ := h
  exact ⟨ho.push f hv, hp ▸ Fields.plain_push ho.ascending f v⟩

theorem Fields.Lists.pushObject {o child : Object} {m n : Plain.Map} (h : o.Lists m) (f : FieldId)
    (hchild : child.Lists n) :
    (o.push f (.object child)).Lists (Function.update m f (m f ++ [Plain.object n])) := by
  obtain ⟨hordered, rfl⟩ := hchild
  exact h.push f hordered (Value.plain_object child)

theorem Fields.Lists.child {o : Object} {m : Plain.Map} (h : o.Lists m) (f : FieldId) (i : Nat) :
    (o.child f i).Lists (Plain.child m f i) := by
  obtain ⟨hordered, rfl⟩ := h
  refine ⟨?_, o.plain_child f i⟩
  rw [Fields.child, Fields.index]
  cases hv : (o.ofKind .object f)[i]? with
  | none => exact lists_empty.1
  | some v =>
      have hmem : v ∈ o.values f := List.mem_of_mem_filter (List.mem_of_getElem? hv)
      obtain ⟨e, he, hve⟩ := mem_values hmem
      have hordered := hordered.stored e he v hve
      cases v with
      | object child => exact hordered
      | _ => exact lists_empty.1

theorem objects_simulate_maps : objects.Simulates maps Fields.Lists where
  empty := Fields.lists_empty
  push h f v := h.push f (.single v.property) (Value.plain_single v)
  pushObject h f _ _ hchild := h.pushObject f hchild
  addObject h f _ _ hwrite := h.pushObject f (hwrite Fields.lists_empty)
  erase := by
    rintro o _ ⟨ho, rfl⟩ f
    exact ⟨ho.erase f, o.plain_erase f⟩
  decode := by
    intro bytes
    change Option.Rel _ (Fields.decode bytes).toOption
      ((Fields.decode bytes).map Fields.plain).toOption
    cases hread : Fields.decode bytes with
    | error e => exact .none
    | ok o => exact .some ⟨Fields.ordered_of_decode hread, rfl⟩

/-! ## Reading -/

/-- Every read of the store is answered by the map. -/
structure Store.Answers (s : Store) (m : Plain.Map) : Prop where
  /-- The values under a number are those of its list, in order. -/
  values : ∀ f, (s.values f).map (fun v => v.value.plain) = m f
  /-- The values of a kind are counted, up to the greatest 32-bit number. -/
  count : ∀ k f, (s.count k f).toNat = min (2 ^ 32 - 1) ((m f).countP fun v => v.kind = k)
  /-- A read by kind finds the values of the kind in order, and its default behind them. -/
  index : ∀ k f i, (s.index k f i).value.plain = ((Plain.ofKind m k f)[i]?).getD k.default.plain
  /-- The numbers ascend strictly. -/
  ascending : s.ids.Pairwise (· < ·)
  /-- The numbers are those with a value. -/
  mem_ids : ∀ f, f ∈ s.ids ↔ m f ≠ []
  has : ∀ f, s.has f = true ↔ f ∈ s.ids
  isEmpty : s.isEmpty = true ↔ s.ids = []

theorem Fields.Ascending.mem_ids {o : Object} (h : o.Ascending) (f : FieldId) :
    f ∈ o.ids ↔ o.values f ≠ [] := by
  constructor
  · intro hf
    obtain ⟨e, he, rfl⟩ := List.mem_map.mp hf
    rw [h.values_of_mem he]
    exact h.nonempty e he
  · intro hne
    rw [Fields.values] at hne
    cases hlookup : o.entries.lookup f with
    | none => simp [hlookup] at hne
    | some values =>
        obtain ⟨before, after, heq, -⟩ := List.lookup_eq_some_iff.mp hlookup
        exact List.mem_map.mpr ⟨(f, values), by simp [heq], rfl⟩

theorem Store.Holds.answers {s : Store} {o : Object} {m : Plain.Map} (hs : s.Holds o)
    (ho : o.Lists m) : s.Answers m := by
  obtain ⟨hindexed, rfl⟩ := hs
  obtain ⟨hordered, rfl⟩ := ho
  have hreads := hindexed.readsAs
  have hids := hordered.ascending.mem_ids
  constructor
  case values =>
    intro f
    rw [Fields.plain, ← hreads.values, List.map_map]
    rfl
  case count =>
    intro k f
    have hlength : (s.object.ofKind k f).length = (Plain.ofKind s.object.plain k f).length := by
      rw [← Fields.map_plain_ofKind, List.length_map]
    rw [hreads.count, Fields.count, toNat_count32_eq_min, hlength, List.countP_eq_length_filter]
    rfl
  case index =>
    intro k f i
    rw [hreads.index, Fields.index, ← Fields.map_plain_ofKind, List.getElem?_map, Option.getD_map]
  case ascending =>
    rw [hreads.ids]
    exact List.pairwise_map.mpr hordered.ascending.sorted
  case mem_ids =>
    intro f
    rw [hreads.ids, hids, Fields.plain, ne_eq, ne_eq, List.map_eq_nil_iff]
  case has =>
    intro f
    rw [hreads.has, hreads.ids, hids, Fields.has]
    simp
  case isEmpty =>
    rw [Store.isEmpty, Store.ids, List.isEmpty_iff, List.map_eq_nil_iff]

/-- The store that a path of children leads to. -/
def Store.descend (s : Store) : List (FieldId × Nat) → Store
  | [] => s
  | (f, i) :: path => (s.child f i).descend path

theorem Store.Holds.answers_descend {s : Store} {o : Object} {m : Plain.Map} (hs : s.Holds o)
    (ho : o.Lists m) (path : List (FieldId × Nat)) :
    (s.descend path).Answers (Plain.descend m path) := by
  induction path generalizing s o m with
  | nil => exact hs.answers ho
  | cons step path ih => exact ih (hs.child step.1 step.2) (ho.child step.1 step.2)

/-! ## Other numbers -/

/-- The number that an operation is about, if it is about one. -/
def Operation.field? : Operation → Option FieldId
  | .push f _ | .pushObject f _ | .addObject f _ | .erase f => some f
  | .clear | .decode _ => none

/-- The reads under a number are the same in two stores. -/
structure Store.SameUnder (g : FieldId) (s t : Store) : Prop where
  values : s.values g = t.values g
  count : ∀ k, s.count k g = t.count k g
  index : ∀ k i, s.index k g i = t.index k g i
  child : ∀ i, s.child g i = t.child g i
  has : s.has g = t.has g
  mem_ids : g ∈ s.ids ↔ g ∈ t.ids

theorem Store.mem_ids_iff (s : Store) (g : FieldId) : g ∈ s.ids ↔ (s.column? g).isSome := by
  rw [ids, column?, List.lookup_isSome_iff, List.mem_map]
  simp only [beq_iff_eq, @eq_comm _ g]

theorem Store.sameUnder_of_column? {g : FieldId} {s t : Store} (h : s.column? g = t.column? g) :
    SameUnder g s t := by
  have hnth : ∀ k i, s.nth? k g i = t.nth? k g i := fun k i => by rw [nth?, nth?, h]
  have hindex : ∀ k i, s.index k g i = t.index k g i := fun k i => by rw [index, index, hnth]
  constructor
  case values => rw [values, values, h]
  case count => exact fun k => by rw [count, count, h]
  case index => exact hindex
  case child => exact fun i => by rw [child, child, hindex]
  case has => rw [has, has, h]
  case mem_ids => rw [mem_ids_iff, mem_ids_iff, h]

theorem Operation.column?_run {op : Operation} {f g : FieldId} (hf : op.field? = some f)
    (hg : g ≠ f) (s : Store) : (op.run stores s).column? g = s.column? g := by
  cases op with
  | push f' v =>
      cases hf
      exact Store.column?_push_of_ne hg s (.single v)
  | pushObject f' making =>
      cases hf
      exact Store.column?_push_of_ne hg s _
  | addObject f' writing =>
      cases hf
      exact Store.lookup_alter_of_ne hg _ s.columns
  | erase f' =>
      cases hf
      exact Store.column?_erase_of_ne hg s
  | clear => cases hf
  | decode bytes => cases hf

/-- A store refines the map from numbers to lists. After any operations every read of the store, and
of every child that a path leads to, is answered by the map that the same operations make; what the
store holds is the object they make; and a further operation on one number leaves what is read under
every other number as it was. -/
theorem Store.runAll_refines (ops : List Operation) :
    (∀ path, ((runAll stores ops .empty).descend path).Answers
      (Plain.descend (runAll maps ops fun _ => []) path)) ∧
    (runAll stores ops .empty).object = runAll objects ops .empty ∧
    ∀ (op : Operation) (f : FieldId), op.field? = some f → ∀ g, g ≠ f →
      SameUnder g (op.run stores (runAll stores ops .empty)) (runAll stores ops .empty) := by
  have hholds := stores_simulate_objects.runAll ops Store.holds_empty
  have hlists := objects_simulate_maps.runAll ops Fields.lists_empty
  refine ⟨hholds.answers_descend hlists, hholds.2, ?_⟩
  intro op f hf g hg
  exact Store.sameUnder_of_column? (Operation.column?_run hf hg _)

example :
    let s := runAll stores [.push 5 ⟨.uint32 1, by decide⟩,
      .addObject 5 [.push 1 ⟨.bool true, by decide⟩], .push 5 ⟨.uint32 2, by decide⟩] .empty
    ((s.index .uint32 5 1).value, ((s.child 5 0).index .bool 1 0).value) =
      (.uint32 2, .bool true) := rfl

end EntitySchema.Wire
