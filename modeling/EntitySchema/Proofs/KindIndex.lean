import EntitySchema.Proofs.ObjectRoundTrip
import EntitySchema.Wire.Store

/-!
# The positions that a store keeps

A column is in step when the positions it keeps for a kind are those of the values of the kind.
Every way of writing to a store keeps its columns in step, at every depth, and in a store of such
columns the reads that go by position answer what a scan of the held object would.

## Implementation notes

A child is indexed while it is empty and then written to in place. `Store.addObject_eq_push` turns
this into storing the finished child, so that one argument, for `Store.push`, covers every write.
-/

namespace EntitySchema.Wire

/-- The positions of a kind in a list of kinds. -/
def kindPositions (kinds : List Kind) (k : Kind) : List Nat :=
  (kinds.zipIdx.filter fun p => p.1 = k).map Prod.snd

theorem kindPositions_concat (kinds : List Kind) (j k : Kind) :
    kindPositions (kinds ++ [j]) k =
      kindPositions kinds k ++ if k = j then [kinds.length] else [] := by
  rw [kindPositions, List.zipIdx_append, List.filter_append, List.map_append, kindPositions]
  by_cases h : k = j
  · simp [h]
  · simp [h, Ne.symm h]

theorem kindPositions_map {α : Type} (kind : α → Kind) (values : List α) (k : Kind) :
    kindPositions (values.map kind) k =
      (values.zipIdx.filter fun p => kind p.1 = k).map Prod.snd := by
  rw [kindPositions, List.zipIdx_map, List.filter_map, List.map_map]
  rfl

theorem filter_eq_map_zipIdx {α : Type} (kind : α → Kind) (values : List α) (k : Kind) :
    values.filter (fun v => kind v = k) =
      (values.zipIdx.filter fun p => kind p.1 = k).map Prod.fst := by
  conv_lhs => rw [← List.zipIdx_map_fst 0 values, List.filter_map]
  rfl

/-- The positions of a kind lead to the values of the kind, in their order. -/
theorem getElem?_kindPositions {α : Type} (kind : α → Kind) (values : List α) (k : Kind) (i : Nat) :
    ((kindPositions (values.map kind) k)[i]?.bind fun position => values[position]?) =
      (values.filter fun v => kind v = k)[i]? := by
  rw [kindPositions_map, filter_eq_map_zipIdx kind values, List.getElem?_map, List.getElem?_map]
  cases h : (values.zipIdx.filter fun p => kind p.1 = k)[i]? with
  | none => rfl
  | some p =>
      have hmem : p ∈ values.zipIdx := List.mem_of_mem_filter (List.mem_of_getElem? h)
      exact List.mk_mem_zipIdx_iff_getElem?.mp hmem

namespace Column

variable {α : Type}

theorem lookup_note (k j : Kind) (position : Nat) (positions : List (Kind × List Nat)) :
    ((note k position positions).lookup j).getD [] =
      (positions.lookup j).getD [] ++ if j = k then [position] else [] := by
  induction positions with
  | nil => by_cases h : j = k <;> simp [note, Fields.lookup_cons_eq_ite, h]
  | cons entry rest ih =>
      obtain ⟨other, noted⟩ := entry
      rw [note, Fields.lookup_cons_eq_ite]
      by_cases hother : other = k
      · by_cases h : j = k <;> simp [Fields.lookup_cons_eq_ite, hother, h]
      · rw [if_neg hother, Fields.lookup_cons_eq_ite]
        by_cases h : j = other
        · simp [h, hother]
        · simpa [h] using ih

theorem ofKind_push (c : Column α) (k j : Kind) (a : α) :
    (c.push k a).ofKind j = c.ofKind j ++ if j = k then [c.values.length] else [] :=
  lookup_note k j c.values.length c.positions

/-- A value that is changed where it was stored last might as well have been stored changed. -/
theorem modify_push (c : Column α) (k : Kind) (a : α) (change : α → α) :
    (c.push k a).modify c.values.length change = c.push k (change a) := by
  simp [modify, push, List.modify_eq_take_drop]

/-- The positions that are kept for each kind are those of its values. -/
def InStep (kind : α → Kind) (c : Column α) : Prop :=
  ∀ k, c.ofKind k = kindPositions (c.values.map kind) k

theorem inStep_empty (kind : α → Kind) : InStep kind {} := fun _ => rfl

theorem InStep.push {kind : α → Kind} {c : Column α} (h : c.InStep kind) (a : α) :
    (c.push (kind a) a).InStep kind := by
  intro k
  rw [ofKind_push, h k, Column.push, List.map_append, List.map_singleton, kindPositions_concat,
    List.length_map]

/-- In a column that is in step the kept positions lead to the values of their kind. -/
theorem InStep.getElem? {kind : α → Kind} {c : Column α} (h : c.InStep kind) (k : Kind) (i : Nat) :
    ((c.ofKind k)[i]?.bind fun position => c.values[position]?) =
      (c.values.filter fun v => kind v = k)[i]? := by
  rw [h k, getElem?_kindPositions]

/-- In a column that is in step as many positions are kept for a kind as it has values. -/
theorem InStep.length_ofKind {kind : α → Kind} {c : Column α} (h : c.InStep kind) (k : Kind) :
    (c.ofKind k).length = (c.values.filter fun v => kind v = k).length := by
  rw [h k, kindPositions_map, filter_eq_map_zipIdx kind c.values, List.length_map, List.length_map]

end Column

/-- Every column of every object in the value, at any depth, is in step. -/
inductive Stored.Indexed : Stored → Prop
  | single (v : Single) : Indexed (.single v)
  | object {columns : List (FieldId × Column Stored)} :
    (∀ e ∈ columns, e.2.InStep Stored.kind) → (∀ e ∈ columns, ∀ v ∈ e.2.values, Indexed v) →
    Indexed (.object columns)

/-- Every column of the store, at any depth, is in step. -/
def Store.Indexed (s : Store) : Prop := Stored.Indexed (.object s.columns)

theorem Store.Indexed.inStep {s : Store} (h : s.Indexed) :
    ∀ e ∈ s.columns, e.2.InStep Stored.kind := by
  cases h with
  | object hcolumns _ => exact hcolumns

theorem Store.Indexed.stored {s : Store} (h : s.Indexed) :
    ∀ e ∈ s.columns, ∀ v ∈ e.2.values, v.Indexed := by
  cases h with
  | object _ hstored => exact hstored

theorem storedValues_eq (values : List Stored) : storedValues values = values.map Stored.value := by
  induction values with
  | nil => rfl
  | cons v rest ih => rw [storedValues, ih, List.map_cons]

theorem columnEntries_eq (columns : List (FieldId × Column Stored)) :
    columnEntries columns = columns.map fun e => (e.1, e.2.values.map Stored.value) := by
  induction columns with
  | nil => rfl
  | cons e rest ih => rw [columnEntries, storedValues_eq, ih, List.map_cons]

@[simp] theorem Stored.kind_value (v : Stored) : v.value.kind = v.kind := by
  cases v <;> simp [value, kind, Value.kind]

namespace Store

/-! ## What the operations do to the held object -/

@[simp] theorem object_empty : (empty : Store).object = .empty := rfl

theorem columnEntries_alter_push (f : FieldId) (v : Stored)
    (columns : List (FieldId × Column Stored)) :
    columnEntries (alter f (fun c => c.push v.kind v) columns) =
      Fields.appendEntry f [v.value] (columnEntries columns) := by
  induction columns with
  | nil => simp [alter, columnEntries, storedValues, Fields.appendEntry, Column.push]
  | cons e rest ih =>
      obtain ⟨g, c⟩ := e
      by_cases hlt : f < g
      · simp [alter, hlt, columnEntries, storedValues, Fields.appendEntry, Column.push]
      · by_cases heq : f = g
        · simp [alter, heq, columnEntries, storedValues_eq, Fields.appendEntry, Column.push]
        · simp [alter, hlt, heq, columnEntries, Fields.appendEntry, ih]

@[simp] theorem object_push (s : Store) (f : FieldId) (v : Stored) :
    (s.push f v).object = s.object.push f v.value := by
  rw [object, push, columnEntries_alter_push]
  rfl

/-- Writing to a child where it stands is storing the child that the writing leaves. -/
theorem addObject_eq_push (s : Store) (f : FieldId) (write : Store → Store) :
    s.addObject f write = s.push f (.object (write .empty).columns) := by
  simp only [addObject, push, Column.modify_push]
  rfl

@[simp] theorem object_erase (s : Store) (f : FieldId) : (s.erase f).object = s.object.erase f := by
  simp only [object, erase, Fields.erase, columnEntries_eq, List.filter_map]
  rfl

/-! ## What the operations leave as it was -/

theorem lookup_alter_of_ne {f g : FieldId} (h : g ≠ f) (change : Column Stored → Column Stored)
    (columns : List (FieldId × Column Stored)) :
    (alter f change columns).lookup g = columns.lookup g := by
  induction columns with
  | nil => simp [alter, Fields.lookup_cons_eq_ite, h]
  | cons e rest ih =>
      obtain ⟨k, c⟩ := e
      rw [alter]
      split_ifs with hlt heq
      · rw [Fields.lookup_cons_eq_ite, if_neg h]
      · have hk : g ≠ k := heq ▸ h
        rw [Fields.lookup_cons_eq_ite, Fields.lookup_cons_eq_ite, if_neg hk, if_neg hk]
      · rw [Fields.lookup_cons_eq_ite, Fields.lookup_cons_eq_ite, ih]

theorem column?_push_of_ne {f g : FieldId} (h : g ≠ f) (s : Store) (v : Stored) :
    (s.push f v).column? g = s.column? g :=
  lookup_alter_of_ne h _ s.columns

theorem column?_erase_of_ne {f g : FieldId} (h : g ≠ f) (s : Store) :
    (s.erase f).column? g = s.column? g := by
  rw [column?, erase, Fields.lookup_filter_ne, if_neg h, column?]

/-! ## Every write keeps the positions in step -/

theorem indexed_empty : (empty : Store).Indexed := .object (by simp [empty]) (by simp [empty])

/-- A column after a change is an old one, or a changed one of the number. -/
theorem mem_alter {f : FieldId} {change : Column Stored → Column Stored}
    {columns : List (FieldId × Column Stored)} {e : FieldId × Column Stored}
    (h : e ∈ alter f change columns) :
    e ∈ columns ∨ e = (f, change {}) ∨ ∃ c, (f, c) ∈ columns ∧ e = (f, change c) := by
  induction columns with
  | nil => simpa [alter] using h
  | cons x rest ih =>
      obtain ⟨g, c⟩ := x
      simp only [alter] at h
      split_ifs at h with hlt heq
      · simp only [List.mem_cons] at h ⊢
        tauto
      · subst heq
        rcases List.mem_cons.mp h with rfl | hr
        · exact Or.inr (Or.inr ⟨c, List.mem_cons_self, rfl⟩)
        · exact Or.inl (List.mem_cons_of_mem _ hr)
      · rcases List.mem_cons.mp h with rfl | hr
        · exact Or.inl List.mem_cons_self
        · rcases ih hr with he | he | ⟨d, hd, he⟩
          · exact Or.inl (List.mem_cons_of_mem _ he)
          · exact Or.inr (Or.inl he)
          · exact Or.inr (Or.inr ⟨d, List.mem_cons_of_mem _ hd, he⟩)

theorem Indexed.push {s : Store} (h : s.Indexed) (f : FieldId) {v : Stored} (hv : v.Indexed) :
    (s.push f v).Indexed := by
  have hgrown : ∀ w ∈ [v], w.Indexed := fun w hw => List.mem_singleton.mp hw ▸ hv
  constructor
  · intro e he
    rcases mem_alter he with he | rfl | ⟨c, hc, rfl⟩
    · exact h.inStep e he
    · exact (Column.inStep_empty Stored.kind).push v
    · exact (h.inStep (f, c) hc).push v
  · intro e he w hw
    rcases mem_alter he with he | rfl | ⟨c, hc, rfl⟩
    · exact h.stored e he w hw
    · exact hgrown w hw
    · rcases List.mem_append.mp hw with hw | hw
      · exact h.stored (f, c) hc w hw
      · exact hgrown w hw

theorem Indexed.erase {s : Store} (h : s.Indexed) (f : FieldId) : (s.erase f).Indexed :=
  .object (fun e he => h.inStep e (List.mem_of_mem_filter he))
    fun e he => h.stored e (List.mem_of_mem_filter he)

end Store

mutual

theorem Stored.indexed_ofValue : (v : Value) → (Stored.ofValue v).Indexed
  | .object ⟨entries⟩ => Store.indexed_ofEntries entries Store.indexed_empty
  | .bool _ | .uint32 _ | .uint64 _ => .single _
  | .int32 _ | .int64 _ | .sint32 _ | .sint64 _ => .single _
  | .fixed32 _ | .fixed64 _ | .sfixed32 _ | .sfixed64 _ => .single _
  | .float _ | .double _ | .string _ | .bytes _ | .entityId _ => .single _

theorem Store.indexed_ofEntries : (entries : List (FieldId × List Value)) → {s : Store} →
    s.Indexed → (Store.ofEntries entries s).Indexed
  | [], _, h => h
  | (f, values) :: rest, _, h => Store.indexed_ofEntries rest (Store.indexed_ofValues f values h)

theorem Store.indexed_ofValues (f : FieldId) : (values : List Value) → {s : Store} →
    s.Indexed → (Store.ofValues f values s).Indexed
  | [], _, h => h
  | v :: rest, _, h => Store.indexed_ofValues f rest (h.push f (Stored.indexed_ofValue v))

end

theorem Stored.value_ofValue_of_single {v : Value} (h : v.kind ≠ .object) :
    (Stored.ofValue v).value = v := by
  cases v <;> first | exact absurd rfl h | rfl

theorem Stored.value_default (k : Kind) : (Stored.ofValue k.default).value = k.default := by
  cases k <;> rfl

theorem Store.object_ofValues (f : FieldId) {values : List Value}
    (h : ∀ v ∈ values, (Stored.ofValue v).value = v) (s : Store) :
    (Store.ofValues f values s).object = s.object.pushAll f values := by
  induction values generalizing s with
  | nil => rfl
  | cons v rest ih =>
      rw [Store.ofValues, ih (fun w hw => h w (List.mem_cons_of_mem v hw)), Store.object_push,
        h v List.mem_cons_self, Fields.push_eq_pushAll, Fields.pushAll_pushAll,
        List.singleton_append]

theorem Store.object_ofEntries {entries : List (FieldId × List Value)}
    (h : ∀ e ∈ entries, ∀ v ∈ e.2, (Stored.ofValue v).value = v) (s : Store) :
    (Store.ofEntries entries s).object =
      entries.foldl (fun o e => o.pushAll e.1 e.2) s.object := by
  induction entries generalizing s with
  | nil => rfl
  | cons e rest ih =>
      rw [Store.ofEntries, ih (fun d hd => h d (List.mem_cons_of_mem e hd)),
        Store.object_ofValues e.1 (h e List.mem_cons_self), List.foldl_cons]

theorem Store.object_ofObject_of_stored {o : Object} (ascending : o.Ascending)
    (h : ∀ e ∈ o.entries, ∀ v ∈ e.2, (Stored.ofValue v).value = v) :
    (Store.ofObject o).object = o := by
  rw [Store.ofObject, Store.object_ofEntries h, Store.object_empty,
    foldl_pushAll .empty (by simp [Fields.empty]) ascending.sorted ascending.nonempty]
  rfl

/-- An ordered value is what is stored of it. -/
theorem Stored.value_ofValue {v : Value} (h : v.Ordered) : (Stored.ofValue v).value = v := by
  induction h with
  | single h => exact Stored.value_ofValue_of_single h
  | object ascending _ ih =>
      exact congrArg Value.object (Store.object_ofObject_of_stored ascending ih)

/-- The store of an object that is ordered at every depth holds the object. -/
theorem Store.object_ofObject {o : Object} (h : Value.Ordered (.object o)) :
    (Store.ofObject o).object = o :=
  Store.object_ofObject_of_stored h.ascending fun e he v hv =>
    Stored.value_ofValue (h.stored e he v hv)

namespace Store

/-! ## Reads that go by position -/

/-- Every read of the store answers what the read of the object does. -/
structure ReadsAs (s : Store) (o : Object) : Prop where
  values : ∀ f, (s.values f).map Stored.value = o.values f
  count : ∀ k f, s.count k f = o.count k f
  index : ∀ k f i, (s.index k f i).value = o.index k f i
  ids : s.ids = o.ids
  has : ∀ f, s.has f = o.has f
  isEmpty : s.isEmpty = o.isEmpty

theorem lookup_columnEntries (columns : List (FieldId × Column Stored)) (f : FieldId) :
    (columnEntries columns).lookup f =
      (columns.lookup f).map fun c => c.values.map Stored.value := by
  rw [columnEntries_eq]
  induction columns with
  | nil => rfl
  | cons e rest ih =>
      rw [List.map_cons, Fields.lookup_cons_eq_ite, Fields.lookup_cons_eq_ite, ih]
      split_ifs <;> rfl

theorem map_value_values (s : Store) (f : FieldId) :
    (s.values f).map Stored.value = s.object.values f := by
  rw [Fields.values, object, lookup_columnEntries, values, column?]
  cases s.columns.lookup f <;> rfl

theorem mem_columns_of_column? {s : Store} {f : FieldId} {c : Column Stored}
    (h : s.column? f = some c) : (f, c) ∈ s.columns := by
  obtain ⟨before, after, heq, -⟩ := List.lookup_eq_some_iff.mp h
  rw [heq]
  exact List.mem_append_right before List.mem_cons_self

theorem map_value_filter (values : List Stored) (k : Kind) :
    (values.filter fun v => v.kind = k).map Stored.value =
      (values.map Stored.value).filter fun v => v.kind = k := by
  rw [List.filter_map]
  simp [Function.comp_def]

theorem Indexed.nth? {s : Store} (h : s.Indexed) (k : Kind) (f : FieldId) (i : Nat) :
    s.nth? k f i = ((s.values f).filter fun v => v.kind = k)[i]? := by
  rw [Store.nth?, values]
  cases hc : s.column? f with
  | none => rfl
  | some c => exact (h.inStep (f, c) (mem_columns_of_column? hc)).getElem? k i

theorem Indexed.count {s : Store} (h : s.Indexed) (k : Kind) (f : FieldId) :
    s.count k f = count32 ((s.values f).filter fun v => v.kind = k).length := by
  rw [Store.count, values]
  cases hc : s.column? f with
  | none => rfl
  | some c =>
      exact congrArg count32 ((h.inStep (f, c) (mem_columns_of_column? hc)).length_ofKind k)

/-- A value that is found by position has the kind it was looked up by, so it is what is read. -/
theorem Indexed.index {s : Store} (h : s.Indexed) (k : Kind) (f : FieldId) (i : Nat) :
    s.index k f i =
      (((s.values f).filter fun v => v.kind = k)[i]?).getD (Stored.ofValue k.default) := by
  rw [Store.index, h.nth?]
  cases hv : ((s.values f).filter fun v => v.kind = k)[i]? with
  | none => rfl
  | some v =>
      have hkind : decide (v.kind = k) = true := (List.mem_filter.mp (List.mem_of_getElem? hv)).2
      rw [Option.filter_some, if_pos hkind]

/-- The reads of a store whose positions are in step are those of the object it holds. -/
theorem Indexed.readsAs {s : Store} (h : s.Indexed) : s.ReadsAs s.object where
  values := s.map_value_values
  count k f := by
    rw [h.count, Fields.count, Fields.ofKind, ← map_value_values, ← map_value_filter,
      List.length_map]
  index k f i := by
    rw [h.index, Fields.index, Fields.ofKind, ← map_value_values, ← map_value_filter,
      List.getElem?_map]
    cases ((s.values f).filter fun v => v.kind = k)[i]? with
    | none => exact Stored.value_default k
    | some v => rfl
  ids := by
    rw [ids, Fields.ids, object, columnEntries_eq, List.map_map]
    rfl
  has f := by
    rw [has, Fields.has, ← map_value_values, values]
    cases s.column? f <;> simp
  isEmpty := by
    rw [isEmpty, Fields.isEmpty, object, columnEntries_eq, List.isEmpty_map]

theorem Indexed.index_indexed {s : Store} (h : s.Indexed) (k : Kind) (f : FieldId) (i : Nat) :
    (s.index k f i).Indexed := by
  rw [h.index]
  cases hv : ((s.values f).filter fun v => v.kind = k)[i]? with
  | none => exact Stored.indexed_ofValue k.default
  | some v =>
      have hmem : v ∈ s.values f := List.mem_of_mem_filter (List.mem_of_getElem? hv)
      rw [values] at hmem
      cases hc : s.column? f with
      | none => simp [hc] at hmem
      | some c =>
          rw [hc] at hmem
          exact h.stored (f, c) (mem_columns_of_column? hc) v hmem

/-- The child that is read is in step itself and holds the child of the held object. -/
theorem Indexed.child {s : Store} (h : s.Indexed) (f : FieldId) (i : Nat) :
    (s.child f i).Indexed ∧ (s.child f i).object = s.object.child f i := by
  have hread := h.readsAs.index .object f i
  have hindexed := h.index_indexed .object f i
  rw [Store.child, Fields.child, ← hread]
  cases hv : s.index .object f i with
  | object columns =>
      rw [hv] at hindexed
      exact ⟨hindexed, rfl⟩
  | single v =>
      refine ⟨indexed_empty, ?_⟩
      obtain ⟨v, hkind⟩ := v
      cases v <;> first | exact absurd rfl hkind | rfl

end Store

end EntitySchema.Wire
