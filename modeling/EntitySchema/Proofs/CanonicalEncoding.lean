import EntitySchema.Proofs.StoreRefinement

/-!
# Encoding is canonical

Two sequences of additions make stores with the same encoding exactly when, under every field
number, they add the same values in the same order. The order among different numbers is not kept.

## Implementation notes

What a sequence adds under a number (`addedAll`) is read off the operations alone. An object counts
by what it holds under every number, so equality of plain values is the comparison at every depth.
An ordered object is determined both by its encoding and by its map from numbers to lists, with no
limit on the depth: decoding, which has one, plays no part here.
-/

namespace EntitySchema.Wire

/-! ## Additions -/

/-- The operation adds a value, and so does every operation that writes to the child it adds. An
object that is made on its own may have been made in any way. -/
inductive Operation.Adds : Operation → Prop
  | push (f : FieldId) (v : Single) : Adds (.push f v)
  | pushObject (f : FieldId) (making : List Operation) : Adds (.pushObject f making)
  | addObject (f : FieldId) {writing : List Operation} : (∀ op ∈ writing, op.Adds) →
      Adds (.addObject f writing)

mutual

/-- What an operation adds under a number. -/
def Operation.added : Operation → Plain.Map
  | .push g v, f => if f = g then [.single v] else []
  | .pushObject g making, f => if f = g then [.object (runAll maps making fun _ => [])] else []
  | .addObject g writing, f => if f = g then [.object (addedAll writing)] else []
  | .erase _, _ => []
  | .clear, _ => []
  | .decode _, _ => []

/-- What operations add under a number, in order. -/
def addedAll : List Operation → Plain.Map
  | [], _ => []
  | op :: rest, f => op.added f ++ addedAll rest f

end

/-- Operations that each add behind what is there do so one after another. -/
theorem runAll_maps_eq {ops : List Operation}
    (h : ∀ op ∈ ops, ∀ m : Plain.Map, op.run maps m = fun f => m f ++ op.added f)
    (m : Plain.Map) : runAll maps ops m = fun f => m f ++ addedAll ops f := by
  induction ops generalizing m with
  | nil =>
      funext f
      rw [runAll, addedAll, List.append_nil]
  | cons op rest ih =>
      rw [runAll, ih fun op' hop' => h op' (List.mem_cons_of_mem op hop'),
        h op List.mem_cons_self]
      funext f
      rw [addedAll, List.append_assoc]

theorem update_append (m : Plain.Map) (g : FieldId) (p : Plain) :
    Function.update m g (m g ++ [p]) = fun f => m f ++ if f = g then [p] else [] := by
  funext f
  rw [Function.update_apply]
  split_ifs with hf
  · rw [hf]
  · rw [List.append_nil]

/-- An addition puts what it adds behind what is there. -/
theorem Operation.Adds.run_maps {op : Operation} (h : op.Adds) (m : Plain.Map) :
    op.run maps m = fun f => m f ++ op.added f := by
  induction h generalizing m with
  | push g v =>
      simp only [Operation.run, Operation.added]
      exact update_append m g (.single v)
  | pushObject g making =>
      simp only [Operation.run, Operation.added]
      exact update_append m g _
  | addObject g _ ih =>
      have hchild := runAll_maps_eq ih fun _ => []
      simp only [List.nil_append] at hchild
      simp only [Operation.run, Operation.added, ← hchild]
      exact update_append m g _

/-- Additions to an empty map leave what they add. -/
theorem runAll_maps_of_adds {ops : List Operation} (h : ∀ op ∈ ops, op.Adds) :
    runAll maps ops (fun _ => []) = addedAll ops := by
  rw [runAll_maps_eq fun op hop => (h op hop).run_maps]
  simp only [List.nil_append]

theorem Operation.added_eq_nil {op : Operation} {f : FieldId} (h : op.field? ≠ some f) :
    op.added f = [] := by
  cases op with
  | push g v => exact if_neg fun hf => h (congrArg some hf.symm)
  | pushObject g making => exact if_neg fun hf => h (congrArg some hf.symm)
  | addObject g writing =>
      rw [Operation.added]
      exact if_neg fun hf => h (congrArg some hf.symm)
  | erase g => rfl
  | clear => rfl
  | decode bytes => rfl

/-- Only the operations on a number add under it. -/
theorem addedAll_filter (ops : List Operation) (f : FieldId) :
    addedAll (ops.filter fun op => op.field? = some f) f = addedAll ops f := by
  induction ops with
  | nil => rfl
  | cons op rest ih =>
      rw [List.filter_cons]
      split_ifs with hf
      · rw [addedAll, addedAll, ih]
      · rw [ih, addedAll, Operation.added_eq_nil (of_decide_eq_false (Bool.not_eq_true _ ▸ hf)),
          List.nil_append]

/-! ## What determines an ordered object -/

/-- An ordered value is what its written form stands for. -/
theorem Written.value_ofValue {v : Value} (h : v.Ordered) : (ofValue v).value = v := by
  induction h with
  | @single v hobject =>
      by_cases hbool : v.kind = .bool
      · cases v with
        | bool b => cases b <;> rfl
        | _ => cases hbool
      · rw [ofValue_eq_single hbool hobject, value]
  | @object o hasc hstored ih =>
      have hcanonical := canonical_ofValue (.object hasc hstored)
      rw [ofValue_object] at hcanonical ⊢
      have hentry : ∀ e ∈ o.entries, (e.1, (e.2.map ofValue).map value) = e := by
        intro e he
        have hvalues : ∀ v ∈ e.2, (value ∘ ofValue) v = v := ih e he
        rw [List.map_map, List.map_congr_left hvalues, List.map_id']
      cases hcanonical with
      | object hsorted hfilled _ =>
          rw [value_object, objectOf_eq hsorted hfilled, List.map_map]
          exact congrArg (fun entries => Value.object ⟨entries⟩)
            ((List.map_congr_left hentry).trans (List.map_id' o.entries))

/-- An ordered object is determined by its encoding, however deep it is. -/
theorem Fields.eq_of_encode_eq {o o' : Object} (ho : Value.Ordered (.object o))
    (ho' : Value.Ordered (.object o')) (hfits : o.Fits) (hfits' : o'.Fits)
    (h : o.encode = o'.encode) : o = o' := by
  have hbytes : (Written.ofValue (.object o)).bytes ++ [] =
      (Written.ofValue (.object o')).bytes ++ [] := by
    rw [Written.bytes_ofValue ho, Written.bytes_ofValue ho', Value.encode, Value.encode]
    exact congrArg (fun bytes => (Kind.object.tag :: bytes) ++ []) h
  have hwritten := ((Written.proper_ofValue hfits).bytes_append_inj
    (Written.proper_ofValue hfits') hbytes).1
  have hvalue : Value.object o = .object o' := by
    rw [← Written.value_ofValue ho, hwritten, Written.value_ofValue ho']
  exact Value.object.inj hvalue

/-- The entries are the numbers with values, with their values. -/
theorem Fields.Ascending.mem_entries {o : Object} (h : o.Ascending) (e : FieldId × List Value) :
    e ∈ o.entries ↔ e.2 ≠ [] ∧ o.values e.1 = e.2 := by
  constructor
  · intro he
    exact ⟨h.nonempty e he, h.values_of_mem he⟩
  · rintro ⟨hne, hvalues⟩
    have hid : e.1 ∈ o.ids := (h.mem_ids e.1).mpr (hvalues ▸ hne)
    obtain ⟨d, hd, hsame⟩ := List.mem_map.mp hid
    have hde : d = e := Prod.ext hsame (by rw [← h.values_of_mem hd, hsame, hvalues])
    exact hde ▸ hd

/-- An ascending object is determined by its values. -/
theorem Fields.Ascending.eq_of_values {o o' : Object} (h : o.Ascending) (h' : o'.Ascending)
    (hvalues : ∀ f, o.values f = o'.values f) : o = o' := by
  obtain ⟨entries⟩ := o
  obtain ⟨entries'⟩ := o'
  have hnodup : ∀ {es : List (FieldId × List Value)}, es.Pairwise (fun a b => a.1 < b.1) →
      es.Nodup := by
    intro es hsorted
    refine hsorted.imp fun {a b} hlt heq => ?_
    exact UInt32.ne_of_lt hlt (congrArg Prod.fst heq)
  have hmem : ∀ e, e ∈ entries ↔ e ∈ entries' := by
    intro e
    rw [h.mem_entries e, h'.mem_entries e, hvalues]
  have hperm : entries.Perm entries' :=
    (List.perm_ext_iff_of_nodup (hnodup h.sorted) (hnodup h'.sorted)).mpr hmem
  have hentries : entries = entries' :=
    hperm.eq_of_pairwise (fun a b _ _ hab hba => absurd hab (UInt32.lt_asymm hba))
      h.sorted h'.sorted
  exact congrArg Fields.mk hentries

theorem eq_of_map_eq {α β : Type} {g : α → β} {xs ys : List α}
    (h : ∀ x ∈ xs, ∀ y ∈ ys, g x = g y → x = y) (hmap : xs.map g = ys.map g) : xs = ys := by
  induction xs generalizing ys with
  | nil => exact (List.map_eq_nil_iff.mp hmap.symm).symm
  | cons x rest ih =>
      obtain ⟨y, rest', rfl, hxy, hrest⟩ := List.map_eq_cons_iff.mp hmap.symm
      obtain rfl := h x List.mem_cons_self y List.mem_cons_self hxy.symm
      rw [ih (fun a ha b hb => h a (List.mem_cons_of_mem x ha) b (List.mem_cons_of_mem x hb))
        hrest.symm]

/-- An ordered value is determined by its plain one. -/
theorem Value.Ordered.eq_of_plain {v w : Value} (hv : v.Ordered) (hw : w.Ordered)
    (h : v.plain = w.plain) : v = w := by
  have hkind : v.kind = w.kind := by rw [← v.kind_plain, h, w.kind_plain]
  induction hv generalizing w with
  | @single v hobject =>
      have hv := Value.plain_single ⟨v, hobject⟩
      have hw := Value.plain_single ⟨w, hkind ▸ hobject⟩
      have hsingle : Plain.single ⟨v, hobject⟩ = .single ⟨w, hkind ▸ hobject⟩ :=
        hv.symm.trans (h.trans hw)
      exact congrArg Subtype.val (Plain.single.inj hsingle)
  | @object o hasc _ ih =>
      cases hw with
      | single hobject => exact absurd hkind.symm hobject
      | @object o' hasc' hstored' =>
          rw [Value.plain_object, Value.plain_object] at h
          -- the lists under a number are compared value by value
          have hvalues : ∀ f, o.values f = o'.values f := by
            intro f
            have hmap : (o.values f).map Value.plain = (o'.values f).map Value.plain :=
              congrFun (Plain.object.inj h) f
            refine eq_of_map_eq (fun v hv w hw heq => ?_) hmap
            obtain ⟨e, he, hv⟩ := Fields.mem_values hv
            obtain ⟨e', he', hw⟩ := Fields.mem_values hw
            refine ih e he v hv (hstored' e' he' w hw) heq ?_
            rw [← v.kind_plain, heq, w.kind_plain]
          rw [hasc.eq_of_values hasc' hvalues]

theorem Fields.Lists.unique {o o' : Object} {m : Plain.Map} (h : o.Lists m) (h' : o'.Lists m) :
    o = o' := by
  refine Value.object.inj (h.1.eq_of_plain h'.1 ?_)
  rw [Value.plain_object, Value.plain_object, h.2, h'.2]

/-! ## Encodings of stores -/

theorem Store.lists_runAll (ops : List Operation) :
    (runAll stores ops .empty).object.Lists (runAll maps ops fun _ => []) := by
  rw [(stores_simulate_objects.runAll ops Store.holds_empty).2]
  exact objects_simulate_maps.runAll ops Fields.lists_empty

/-- Additions make the same object exactly when they add the same under every number. -/
theorem Store.object_eq_iff {ops ops' : List Operation} (adds : ∀ op ∈ ops, op.Adds)
    (adds' : ∀ op ∈ ops', op.Adds) :
    (runAll stores ops .empty).object = (runAll stores ops' .empty).object ↔
      ∀ f, addedAll ops f = addedAll ops' f := by
  have hlists := Store.lists_runAll ops
  have hlists' := Store.lists_runAll ops'
  rw [runAll_maps_of_adds adds] at hlists
  rw [runAll_maps_of_adds adds'] at hlists'
  constructor
  · intro h f
    rw [← hlists.2, h, hlists'.2]
  · intro h
    rw [← funext h] at hlists'
    exact hlists.unique hlists'

/-- Encoding is canonical. The stores that two sequences of additions make have the same encoding
exactly when the sequences add, under every number, the same values in the same order. In
particular the encoding is the same when the operations on each number are the same and in the same
order, however they are mixed, and different objects have different encodings. -/
theorem Store.encode_eq_iff_addedAll {ops ops' : List Operation} (adds : ∀ op ∈ ops, op.Adds)
    (adds' : ∀ op ∈ ops', op.Adds) (fits : (runAll stores ops .empty).object.Fits)
    (fits' : (runAll stores ops' .empty).object.Fits) :
    ((runAll stores ops .empty).object.encode = (runAll stores ops' .empty).object.encode ↔
      ∀ f, addedAll ops f = addedAll ops' f) ∧
    ((∀ f, (ops.filter fun op => op.field? = some f) = ops'.filter fun op => op.field? = some f) →
      (runAll stores ops .empty).object.encode = (runAll stores ops' .empty).object.encode) ∧
    ((runAll stores ops .empty).object ≠ (runAll stores ops' .empty).object →
      (runAll stores ops .empty).object.encode ≠ (runAll stores ops' .empty).object.encode) := by
  have hobject := Store.object_eq_iff adds adds'
  have hencode : (runAll stores ops .empty).object.encode =
      (runAll stores ops' .empty).object.encode → _ :=
    Fields.eq_of_encode_eq (Store.lists_runAll ops).1 (Store.lists_runAll ops').1 fits fits'
  refine ⟨⟨fun h => hobject.mp (hencode h), fun h => ?_⟩, fun h => ?_, fun hne h => ?_⟩
  · rw [hobject.mpr h]
  · have hadded : ∀ f, addedAll ops f = addedAll ops' f := by
      intro f
      rw [← addedAll_filter ops f, h f, addedAll_filter ops' f]
    rw [hobject.mpr hadded]
  · exact hne (hencode h)

/-- A truth value under two and an object under one. -/
def childWrites : List Operation :=
  [.push 2 ⟨.bool true, nofun⟩, .addObject 1 [.push 6 ⟨.string "deep", nofun⟩]]

/-- Two values under nine, and a child under four between them. -/
def interleaved : List Operation :=
  [.push 9 ⟨.double 0x7ff8000000000001, nofun⟩, .addObject 4 childWrites,
    .push 9 ⟨.uint32 1, nofun⟩]

/-- The child first, made on its own and written the other way round. -/
def gathered : List Operation :=
  [.pushObject 4 childWrites.reverse, .push 9 ⟨.double 0x7ff8000000000001, nofun⟩,
    .push 9 ⟨.uint32 1, nofun⟩]

/-- Mixing fields keeps the encoding, and exchanging two values of one field does not. -/
theorem Store.encode_eq_iff_addedAll_mixed :
    ((∀ op ∈ interleaved, op.Adds) ∧ (∀ op ∈ gathered, op.Adds)) ∧
      (runAll stores interleaved .empty).object.encode =
        (runAll stores gathered .empty).object.encode ∧
      (runAll stores interleaved .empty).object.encode ≠
        (runAll stores interleaved.reverse .empty).object.encode := by
  have hchild : ∀ op ∈ childWrites, op.Adds := by
    simp only [childWrites, List.forall_mem_cons]
    refine ⟨.push 2 _, .addObject 1 ?_, nofun⟩
    exact List.forall_mem_singleton.mpr (.push 6 _)
  have hadds : ∀ op ∈ interleaved, op.Adds := by
    simp only [interleaved, List.forall_mem_cons]
    exact ⟨.push 9 _, .addObject 4 hchild, .push 9 _, nofun⟩
  have hadds' : ∀ op ∈ gathered, op.Adds := by
    simp only [gathered, List.forall_mem_cons]
    exact ⟨.pushObject 4 _, .push 9 _, .push 9 _, nofun⟩
  have hfits := (Store.lists_runAll interleaved).1.fits (by decide +kernel)
  refine ⟨⟨hadds, hadds'⟩, ?_, ?_⟩
  · have hmade : runAll maps childWrites.reverse (fun _ => []) = addedAll childWrites := by
      rw [runAll_maps_of_adds fun op hop => hchild op (List.mem_reverse.mp hop)]
      funext f
      by_cases hf : f = 2 <;> simp [childWrites, addedAll, Operation.added, hf]
    refine (Store.encode_eq_iff_addedAll hadds hadds' hfits
      ((Store.lists_runAll gathered).1.fits (by decide +kernel))).1.mpr fun f => ?_
    by_cases hf : f = 4 <;> simp [interleaved, gathered, addedAll, Operation.added, hmade, hf]
  · intro h
    have hadded := (Store.encode_eq_iff_addedAll hadds
      (fun op hop => hadds op (List.mem_reverse.mp hop)) hfits
      ((Store.lists_runAll interleaved.reverse).1.fits (by decide +kernel))).1.mp h 9
    simp [interleaved, addedAll, Operation.added] at hadded

end EntitySchema.Wire
