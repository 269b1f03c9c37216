import EntitySchema.Proofs.Execution
import EntitySchema.Proofs.Fields
import EntitySchema.Proofs.Linking
import EntitySchema.Proofs.Placement

/-!
# Structures survive being stored and loaded

The code that is generated for a user type stores a structure in an empty object, and the code that
is generated to load it gives the structure back: built-in values bit for bit, lists in order, maps
with the same entries, tracked values clean, flags down and queues empty.

## Implementation notes

`StoredAs` says of one value how its code behaves on both sides: which values it leaves under a
field number and what is read where exactly these values are found. It is proved by one lemma for
each form of shape and holds for all depths of the call stack from some depth on.
-/

namespace EntitySchema.Code

open Schema
open Wire (FieldId Object Value)
open Filter (atTop)

/-- The values of the type of a member. -/
inductive Instance.Is (s : Linked) : MemberType → Instance → Prop
  | scalar {k : Scalar} {p : Primitive} :
    p.typeName = scalarName k → Is s (.plain (.scalar k)) (.scalar p)
  | record {type : String} {t : UserType} {members : List (String × Instance)} :
    s.type? type = some t → members.map Prod.fst = t.members.map Member.name →
    (∀ m ∈ t.members, ∀ v, (m.name, v) ∈ members → Is s m.type v) →
    Is s (.plain (.reference type)) (.record members)
  | absent {inner : Shape} : Is s (.plain (.option inner)) .absent
  | present {inner : Shape} {v : Instance} :
    Is s (.plain inner) v → Is s (.plain (.option inner)) (.present v)
  | list {inner : Shape} {items : List Instance} : items.length < UInt32.size →
    (∀ v ∈ items, Is s (.plain inner) v) → Is s (.plain (.list inner)) (.list items)
  | map {k : Scalar} {inner : Shape} {entries : List (Primitive × Instance)} :
    entries.length < UInt32.size → (entries.map Prod.fst).Nodup →
    (∀ e ∈ entries, e.1.typeName = scalarName k) → (∀ e ∈ entries, Is s (.plain inner) e.2) →
    Is s (.plain (.map (.scalar k) inner)) (.map entries)
  | cell {shape : Shape} {v : Instance} (isDirty : Bool) :
    Is s (.plain shape) v → Is s (.tracked shape) (.cell v isDirty)
  | flag (isUp : Bool) : Is s .flag (.flag isUp)
  | queue {shape : Shape} {received staged : List Instance} :
    (∀ v ∈ received, Is s (.plain shape) v) → (∀ v ∈ staged, Is s (.plain shape) v) →
    Is s (.queue shape) (.queue received staged)

/-- The second value is the first one as it comes back: the same members, items and entries, with
tracked values clean, flags down and queues empty. -/
inductive Instance.Restored : Instance → Instance → Prop
  | scalar (p : Primitive) : Restored (.scalar p) (.scalar p)
  | record {members loaded : List (String × Instance)} :
    members.map Prod.fst = loaded.map Prod.fst →
    (∀ name v w, (name, v) ∈ members → (name, w) ∈ loaded → Restored v w) →
    Restored (.record members) (.record loaded)
  | absent : Restored .absent .absent
  | present {v w : Instance} : Restored v w → Restored (.present v) (.present w)
  | list {items loaded : List Instance} : items.length = loaded.length →
    (∀ p ∈ items.zip loaded, Restored p.1 p.2) → Restored (.list items) (.list loaded)
  | map {entries loaded : List (Primitive × Instance)} :
    (entries.map Prod.fst).Perm (loaded.map Prod.fst) →
    (∀ key v w, (key, v) ∈ entries → (key, w) ∈ loaded → Restored v w) →
    Restored (.map entries) (.map loaded)
  | cell {v w : Instance} (isDirty : Bool) :
    Restored v w → Restored (.cell v isDirty) (.cell w false)
  | flag (isUp : Bool) : Restored (.flag isUp) (.flag false)
  | queue (received staged : List Instance) : Restored (.queue received staged) (.queue [] [])

/-- The code of a shape stores a value as a list of values and loads another one where it sees
them. -/
structure StoredAs (s : Linked) (shape : Shape) (v : Instance) (values : List Value)
    (w : Instance) : Prop where
  /-- The values are of the kind that is read. -/
  kinds : ∀ x ∈ values, x.kind = shape.kind
  /-- There are no more of them than are counted. -/
  length_lt : values.length < UInt32.size
  /-- A shape that is no container stores one value. -/
  single : shape.isContainer = false → ∃ x, values = [x]
  /-- The statement stores the values. -/
  written : ∀ᶠ depth in atTop, ∀ (frame : Frame) (holder : Holder) (f : FieldId)
    (operand : Operand) (o : Object), operand.eval frame = some v →
    (shape.writing holder f operand).run (s.serialize depth) frame holder o =
      some (o.pushAll f values)
  /-- The expression loads the other value. -/
  read : ∀ᶠ depth in atTop, ∀ (scope : Scope) (holder : Holder) (f : FieldId) (position : String)
    (o : Object) (i : Nat), scope.objects.lookup holder = some o →
    scope.position? position = some i → shape.view o f i = values →
    (shape.reading holder f position).eval (s.deserialize depth) scope = some w

/-! ### Built-in values -/

/-- A built-in value of the type of a scalar is stored as a value of the kind of the scalar, and
that value is read as it. -/
theorem Primitive.exists_toValue? {p : Primitive} {k : Scalar} (h : p.typeName = scalarName k) :
    ∃ x, p.toValue? k.kind = some x ∧ x.kind = k.kind ∧ Primitive.ofValue? x = some p := by
  cases k <;> cases p <;> first
    | exact ⟨_, rfl, rfl, rfl⟩
    | simp [typeName, scalarName] at h

theorem storedAs_scalar {s : Linked} {k : Scalar} {p : Primitive}
    (h : p.typeName = scalarName k) :
    ∃ x, StoredAs s (.scalar k) (.scalar p) [x] (.scalar p) := by
  obtain ⟨x, hx, hkind, hback⟩ := Primitive.exists_toValue? h
  refine ⟨x, by simpa [Shape.kind] using hkind, by simp, fun _ => ⟨x, rfl⟩,
    .of_forall fun depth => ?_, .of_forall fun depth => ?_⟩
  · intro frame holder f operand o hv
    simp [Shape.writing, Statement.run, hv, hx, Wire.Fields.push_eq_pushAll]
  · intro scope holder f position o i ho hi hview
    have hindex : (o.ofKind k.kind f)[i]? = some x := by
      simpa [Shape.view, Shape.isContainer, Shape.kind] using hview
    simp [Shape.reading, Expression.eval, ho, hi, Wire.Fields.index, hindex, hback]

/-! ### Containers -/

theorem eventually_forall_mem {α : Type} {as : List α} {P : α → Nat → Prop}
    (h : ∀ a ∈ as, ∀ᶠ depth in atTop, P a depth) :
    ∀ᶠ depth in atTop, ∀ a ∈ as, P a depth :=
  (Filter.eventually_all_finite as.finite_toSet).mpr h

/-- A loop whose steps store values under one number stores all of them. -/
theorem foldlM_pushAll {α : Type} {as : List α} {step : Object → α → Option Object} {f : FieldId}
    {values : α → List Value} (h : ∀ a ∈ as, ∀ o, step o a = some (o.pushAll f (values a)))
    (o : Object) : as.foldlM step o = some (o.pushAll f (as.flatMap values)) := by
  induction as generalizing o with
  | nil => rfl
  | cons a rest ih =>
      rw [List.foldlM_cons, h a List.mem_cons_self, Option.bind_eq_bind, Option.bind_some,
        ih fun b hb => h b (List.mem_cons_of_mem a hb), Wire.Fields.pushAll_pushAll,
        List.flatMap_cons]

/-- A loop whose steps all have results has the result of all of them. -/
theorem foldlM_eq_some {α β : Type} {as : List α} {step : β → α → Option β} {g : β → α → β}
    (h : ∀ a ∈ as, ∀ b, step b a = some (g b a)) (b : β) :
    as.foldlM step b = some (as.foldl g b) := by
  induction as generalizing b with
  | nil => rfl
  | cons a rest ih =>
      rw [List.foldlM_cons, h a List.mem_cons_self, Option.bind_eq_bind, Option.bind_some,
        ih fun c hc => h c (List.mem_cons_of_mem a hc), List.foldl_cons]

/-- A loop whose steps all have results has the list of them. -/
theorem mapM_eq_some {α β : Type} {as : List α} {step : α → Option β} {result : α → β}
    (h : ∀ a ∈ as, step a = some (result a)) : as.mapM step = some (as.map result) := by
  induction as with
  | nil => rfl
  | cons a rest ih =>
      simp [List.mapM_cons, h a List.mem_cons_self, ih fun b hb => h b (List.mem_cons_of_mem a hb)]

/-- A loop over the positions of a list whose steps have results has the list of them. -/
theorem mapM_range_eq_some {α β : Type} {as : List α} {step : Nat → Option β} {result : α → β}
    (h : ∀ (i : Nat) (hi : i < as.length), step i = some (result as[i])) :
    (List.range as.length).mapM step = some (as.map result) := by
  induction as generalizing step with
  | nil => rfl
  | cons a rest ih =>
      have hrest : (List.range rest.length).mapM (step ∘ Nat.succ) = some (rest.map result) :=
        ih fun i hi => h (i + 1) (Nat.succ_lt_succ hi)
      have hfirst : step 0 = some (result a) := h 0 (Nat.succ_pos _)
      rw [List.length_cons, List.range_succ_eq_map, List.mapM_cons, hfirst, List.mapM_map]
      simp [hrest]

/-- A loop over the positions of a list is a loop over its items. -/
theorem foldlM_range {α β : Type} {as : List α} {step : β → Nat → Option β}
    {g : β → α → Option β}
    (h : ∀ (b : β) (i : Nat) (hi : i < as.length), step b i = g b as[i]) (b : β) :
    (List.range as.length).foldlM step b = as.foldlM g b := by
  induction as generalizing step b with
  | nil => rfl
  | cons a rest ih =>
      have hfirst : step b 0 = g b a := h b 0 (Nat.succ_pos _)
      have hrest : ∀ c, ((List.range rest.length).map Nat.succ).foldlM step c =
          rest.foldlM g c := by
        intro c
        rw [List.foldlM_map]
        exact ih (fun b i hi => h b (i + 1) (Nat.succ_lt_succ hi)) c
      rw [List.length_cons, List.range_succ_eq_map, List.foldlM_cons, List.foldlM_cons, hfirst]
      exact congrArg _ (funext hrest)

/-- Entries with distinct keys are put behind one another. -/
theorem foldlM_insertEntry {entries : List (Primitive × Instance)}
    {w : Primitive × Instance → Instance} {before : List (Primitive × Instance)}
    (distinct : (before.map Prod.fst ++ entries.map Prod.fst).Nodup) :
    entries.foldlM (fun m e => some (Instance.insertEntry e.1 (w e) m)) before =
      some (before ++ entries.map fun e => (e.1, w e)) := by
  induction entries generalizing before with
  | nil => simp
  | cons e rest ih =>
      have hfresh : e.1 ∉ before.map Prod.fst := by
        intro hmem
        exact (List.nodup_append.mp distinct).2.2 e.1 hmem e.1 (by simp) rfl
      have hrest : ((before ++ [(e.1, w e)]).map Prod.fst ++ rest.map Prod.fst).Nodup := by
        simpa using distinct
      rw [List.foldlM_cons, Instance.insertEntry, if_neg hfresh, Option.bind_eq_bind,
        Option.bind_some, ih hrest]
      simp

theorem storedAs_absent {s : Linked} {inner : Shape} :
    StoredAs s (.option inner) .absent [] .absent := by
  refine ⟨by simp, by simp, by simp [Shape.isContainer], .of_forall fun depth => ?_,
    .of_forall fun depth => ?_⟩
  · intro frame holder f operand o hv
    simp [Shape.writing, Statement.run, hv]
  · intro scope holder f position o i ho hi hview
    have hvalues : o.ofKind inner.kind f = [] := by
      simpa [Shape.view, Shape.isContainer, Shape.kind] using hview
    have hcount : ¬ 0 < o.count inner.kind f := by simp [count_pos_iff hvalues]
    simp [Shape.reading, Expression.eval, ho, hcount]

theorem StoredAs.present {s : Linked} {inner : Shape} {v w : Instance} {x : Value}
    (h : StoredAs s inner v [x] w) (hinner : inner.isContainer = false) :
    StoredAs s (.option inner) (.present v) [x] (.present w) := by
  refine ⟨h.kinds, h.length_lt, by simp [Shape.isContainer], ?_, ?_⟩
  · filter_upwards [h.written] with depth hwritten
    intro frame holder f operand o hv
    have hbody := hwritten (frame.bind "item" v) holder f (.variable "item") o
      (by simp [Operand.eval, Frame.bind])
    simpa [Shape.writing, Statement.run, hv] using hbody
  · filter_upwards [h.read] with depth hread
    intro scope holder f position o i ho hi hview
    have hvalues : o.ofKind inner.kind f = [x] := by
      simpa [Shape.view, Shape.isContainer, Shape.kind] using hview
    have hcount : 0 < o.count inner.kind f := by simp [count_pos_iff hvalues h.length_lt]
    have hcontent := hread scope holder f "0" o 0 ho rfl (by simp [Shape.view, hinner, hvalues])
    simp [Shape.reading, Expression.eval, ho, hcount, hcontent]

theorem storedAs_list {s : Linked} {inner : Shape} {items : List Instance} {x : Instance → Value}
    {w : Instance → Instance} (h : ∀ v ∈ items, StoredAs s inner v [x v] (w v))
    (hinner : inner.isContainer = false) (hlength : items.length < UInt32.size) :
    StoredAs s (.list inner) (.list items) (items.map x) (.list (items.map w)) := by
  refine ⟨?_, by simpa using hlength, by simp [Shape.isContainer], ?_, ?_⟩
  · intro y hy
    obtain ⟨v, hv, rfl⟩ := List.mem_map.mp hy
    exact (h v hv).kinds (x v) (by simp)
  · filter_upwards [eventually_forall_mem fun v hv => (h v hv).written] with depth hwritten
    intro frame holder f operand o hv
    have hloop := foldlM_pushAll (fun v hv o => hwritten v hv (frame.bind "item" v) holder f
      (.variable "item") o (by simp [Operand.eval, Frame.bind])) o
    rw [← List.map_eq_flatMap] at hloop
    simpa [Shape.writing, Statement.run, hv] using hloop
  · filter_upwards [eventually_forall_mem fun v hv => (h v hv).read] with depth hread
    intro scope holder f position o i ho hi hview
    have hvalues : o.ofKind inner.kind f = items.map x := by
      simpa [Shape.view, Shape.isContainer, Shape.kind] using hview
    have hcount : (o.count inner.kind f).toNat = items.length := by
      rw [toNat_count hvalues (by simpa using hlength), List.length_map]
    have hitems := mapM_range_eq_some fun i (hi : i < items.length) =>
      hread items[i] (List.getElem_mem hi) (scope.count "i" i) holder f "i" o i ho
        (by simp [Scope.position?, Scope.count]) (by simp [Shape.view, hinner, hvalues, hi])
    simp [Shape.reading, Expression.eval, ho, hcount, hitems]

theorem storedAs_map {s : Linked} {keys inner : Shape} {entries : List (Primitive × Instance)}
    {key item : Primitive × Instance → Value} {w : Primitive × Instance → Instance}
    (hkeys : ∀ e ∈ entries, StoredAs s keys (.scalar e.1) [key e] (.scalar e.1))
    (hitems : ∀ e ∈ entries, StoredAs s inner e.2 [item e] (w e))
    (hlength : entries.length < UInt32.size) (distinct : (entries.map Prod.fst).Nodup) :
    StoredAs s (.map keys inner) (.map entries)
      (entries.map fun e => .object (entryObject (key e) (item e)))
      (.map (entries.map fun e => (e.1, w e))) := by
  refine ⟨?_, by simpa using hlength, by simp [Shape.isContainer], ?_, ?_⟩
  · intro y hy
    obtain ⟨e, _, rfl⟩ := List.mem_map.mp hy
    rfl
  · filter_upwards [eventually_forall_mem fun e he => (hkeys e he).written,
      eventually_forall_mem fun e he => (hitems e he).written] with depth hkey hitem
    intro frame holder f operand o hv
    simp only [Shape.writing, Statement.run, hv]
    rw [List.map_eq_flatMap]
    refine foldlM_pushAll (fun e he o => ?_) o
    have hkeyRun := hkey e he ((frame.bind "key" (.scalar e.1)).bind "item" e.2) ["entry"] entryKey
      (.variable "key") .empty rfl
    have hitemRun := hitem e he ((frame.bind "key" (.scalar e.1)).bind "item" e.2) ["entry"]
      entryValue (.variable "item") (Wire.Fields.empty.pushAll entryKey [key e]) rfl
    simp [hkeyRun, hitemRun, Wire.Fields.push_eq_pushAll, entryObject, Wire.Fields.ofGroups]
  · filter_upwards [eventually_forall_mem fun e he => (hkeys e he).read,
      eventually_forall_mem fun e he => (hitems e he).read] with depth hkey hitem
    intro scope holder f position o i ho hi hview
    have hvalues : o.ofKind .object f =
        entries.map fun e => .object (entryObject (key e) (item e)) := by
      simpa [Shape.view, Shape.isContainer, Shape.kind] using hview
    have hcount : (o.count .object f).toNat = entries.length := by
      rw [toNat_count hvalues (by simpa using hlength), List.length_map]
    have hloop : entries.foldlM (fun m e => some (Instance.insertEntry e.1 (w e) m)) [] =
        some (entries.map fun e => (e.1, w e)) :=
      foldlM_insertEntry (by simpa using distinct)
    simp only [Shape.reading, Expression.eval, ho, Option.bind_eq_bind, Option.bind_some, hcount]
    rw [foldlM_range (g := fun m e => some (Instance.insertEntry e.1 (w e) m)), hloop]
    · rfl
    · intro m i hi
      have he : entries[i] ∈ entries := List.getElem_mem hi
      have hchild : o.child f i = entryObject (key entries[i]) (item entries[i]) :=
        child_of_ofKind (by simp [hvalues, hi])
      obtain ⟨hkeyView, hitemView⟩ := view_entryObject
        ((hkeys _ he).kinds _ List.mem_cons_self) ((hitems _ he).kinds _ List.mem_cons_self)
      rw [hchild,
        hkey _ he ((scope.count "i" i).bind "entry" _) ["entry"] entryKey "0" _ 0 rfl rfl hkeyView,
        hitem _ he ((scope.count "i" i).bind "entry" _) ["entry"] entryValue "0" _ 0 rfl rfl
          hitemView]

/-! ### Structures -/

/-- The function of a type stores a structure in an empty object and loads another one from it. -/
def Recovers (s : Linked) (type : String) (v w : Instance) : Prop :=
  ∃ o, ∀ᶠ depth in atTop,
    s.serialize depth type v .empty = some o ∧ s.deserialize depth type o = some w

theorem storedAs_reference {s : Linked} {type : String} {v w : Instance}
    (h : Recovers s type v w) : ∃ x, StoredAs s (.reference type) v [x] w := by
  obtain ⟨child, hchild⟩ := h
  refine ⟨.object child, by simp [Shape.kind, Value.kind], by simp, fun _ => ⟨_, rfl⟩, ?_, ?_⟩
  · filter_upwards [hchild] with depth hdepth
    intro frame holder f operand o hv
    simp [Shape.writing, Statement.run, hv, hdepth.1, Wire.Fields.push_eq_pushAll]
  · filter_upwards [hchild] with depth hdepth
    intro scope holder f position o i ho hi hview
    have hindex : (o.ofKind .object f)[i]? = some (.object child) := by
      simpa [Shape.view, Shape.isContainer, Shape.kind] using hview
    simp [Shape.reading, Expression.eval, ho, hi, child_of_ofKind hindex, hdepth.2]

/-- Statements that store the values of each field under its number store all of them. -/
theorem foldlM_storing {run : Statement → Object → Option Object} {fields : List Field}
    {values : Field → List Value}
    (h : ∀ f ∈ fields, ∀ o, run f.storing o = some (o.pushAll f.id (values f))) (o : Object) :
    (fields.map Field.storing).foldlM (fun o statement => run statement o) o =
      some ((fields.map fun f => (f.id, values f)).foldl (fun o g => o.pushAll g.1 g.2) o) := by
  induction fields generalizing o with
  | nil => rfl
  | cons f rest ih =>
      rw [List.map_cons, List.foldlM_cons, h f List.mem_cons_self, Option.bind_eq_bind,
        Option.bind_some, ih fun g hg => h g (List.mem_cons_of_mem f hg)]
      rfl

/-- How the member of a field comes back. -/
def loadedMember (f : Field) (w : Instance) : Instance := if f.isTracked then .cell w false else w

/-- The members of a structure that is loaded. -/
def loadedMembers (t : UserType) (loaded : Field → Instance) : List (String × Instance) :=
  (t.fields.map fun f => (f.name, loadedMember f (loaded f))) ++
    if t.isData then (dirtyMember, .flag false) :: t.events.map fun e => (e.name, .queue [] [])
    else []

/-- Where the values of all fields are loaded, the structure is. -/
theorem mapM_loadings {call : String → Object → Option Instance} {t : UserType} {scope : Scope}
    {loaded : Field → Instance}
    (h : ∀ f ∈ t.fields,
      (f.shape.reading ["object"] f.id "0").eval call scope = some (loaded f)) :
    (t.loadings.mapM fun l => (l.value.eval call scope).map fun v => (l.name, v)) =
      some (loadedMembers t loaded) := by
  have hfields : ((t.fields.map Field.loading).mapM fun l =>
      (l.value.eval call scope).map fun v => (l.name, v)) =
      some (t.fields.map fun f => (f.name, loadedMember f (loaded f))) := by
    rw [List.mapM_map]
    refine mapM_eq_some fun f hf => ?_
    cases htracked : f.isTracked with
    | false => simp [Field.loading, loadedMember, htracked, h f hf]
    | true => simp [Field.loading, loadedMember, htracked, h f hf, Expression.eval]
  have hqueues : ((t.events.map Event.loading).mapM fun l =>
      (l.value.eval call scope).map fun v => (l.name, v)) =
      some (t.events.map fun e => (e.name, .queue [] [])) := by
    rw [List.mapM_map]
    exact mapM_eq_some fun e _ => rfl
  rw [UserType.loadings, List.mapM_append, hfields, loadedMembers]
  cases t.isData with
  | false => rfl
  | true => simp [idleLoadings, List.mapM_cons, Expression.eval, hqueues]

theorem eventually_of_succ {P : Nat → Prop} (h : ∀ᶠ depth in atTop, P (depth + 1)) :
    ∀ᶠ depth in atTop, P depth := by
  obtain ⟨n, hn⟩ := Filter.eventually_atTop.mp h
  refine Filter.eventually_atTop.mpr ⟨n + 1, fun depth hdepth => ?_⟩
  obtain ⟨d, rfl⟩ := Nat.exists_eq_add_of_le' hdepth
  exact hn (d + n) (Nat.le_add_left n d)

theorem recovers_record {s : Linked} {type : String} {t : UserType} {self : Instance}
    (ht : s.type? type = some t) (ids : (t.fields.map Field.id).Nodup)
    {content loaded : Field → Instance} {values : Field → List Value}
    (hcontent : ∀ f ∈ t.fields, f.operand.eval ⟨self, []⟩ = some (content f))
    (hstored : ∀ f ∈ t.fields, StoredAs s f.shape (content f) (values f) (loaded f)) :
    Recovers s type self (.record (loadedMembers t loaded)) := by
  refine ⟨.ofGroups (t.fields.map fun f => (f.id, values f)), eventually_of_succ ?_⟩
  filter_upwards [eventually_forall_mem fun f hf => (hstored f hf).written,
    eventually_forall_mem fun f hf => (hstored f hf).read] with depth hwritten hread
  constructor
  · have hfield : ∀ f ∈ t.fields, ∀ o,
        f.storing.run (s.serialize depth) ⟨self, []⟩ ["object"] o =
          some (o.pushAll f.id (values f)) := by
      intro f hf o
      have hbody := hwritten f hf ((⟨self, []⟩ : Frame).bind "value" (content f)) ["object"] f.id
        (.variable "value") o rfl
      simpa [Field.storing, Statement.run, hcontent f hf] using hbody
    simp only [Linked.serialize, ht, UserType.storings, Option.bind_eq_bind, Option.bind_some]
    exact foldlM_storing hfield .empty
  · have distinct : ((t.fields.map fun f => (f.id, values f)).map Prod.fst).Nodup := by
      simpa [Function.comp_def] using ids
    have hfield : ∀ f ∈ t.fields, (f.shape.reading ["object"] f.id "0").eval (s.deserialize depth)
        ⟨[(["object"], .ofGroups (t.fields.map fun f => (f.id, values f)))], []⟩ =
          some (loaded f) := by
      intro f hf
      have hvalues := Wire.Fields.values_ofGroups distinct
        (List.mem_map_of_mem (f := fun f => (f.id, values f)) hf)
      have hview := Shape.view_eq_values hvalues (hstored f hf).kinds (hstored f hf).single
      exact hread f hf ⟨_, []⟩ ["object"] f.id "0" _ 0 rfl rfl hview
    simp only [Linked.deserialize, ht, Option.bind_eq_bind, Option.bind_some,
      mapM_loadings hfield]

/-! ### All values -/

/-- The code of a shape stores a value so that it is restored. -/
def Survives (s : Linked) (shape : Shape) (v : Instance) : Prop :=
  ∃ values w, StoredAs s shape v values w ∧ v.Restored w

/-- What a value of the type of a member has to do to come back with its structure. -/
def Returns (s : Linked) : MemberType → Instance → Prop
  | .plain shape, v => shape.isFlat → Survives s shape v
  | .tracked shape, v => ∃ content isDirty, v = .cell content isDirty ∧
      (shape.isFlat → Survives s shape content)
  | .flag, v => ∃ isUp, v = .flag isUp
  | .queue _, v => ∃ received staged, v = .queue received staged

/-- A value of a shape that is no container survives as one value. -/
theorem Survives.single {s : Linked} {shape : Shape} {v : Instance} (h : Survives s shape v)
    (hshape : shape.isContainer = false) : ∃ x w, StoredAs s shape v [x] w ∧ v.Restored w := by
  obtain ⟨values, w, hstored, hrestored⟩ := h
  obtain ⟨x, rfl⟩ := hstored.single hshape
  exact ⟨x, w, hstored, hrestored⟩

theorem survives_list {s : Linked} {inner : Shape} {items : List Instance}
    (hinner : inner.isContainer = false) (hlength : items.length < UInt32.size)
    (h : ∀ v ∈ items, Survives s inner v) : Survives s (.list inner) (.list items) := by
  have hitems := fun v hv => (h v hv).single hinner
  choose! x w hstored hrestored using hitems
  refine ⟨items.map x, .list (items.map w), storedAs_list hstored hinner hlength,
    .list (by simp) ?_⟩
  intro p hp
  have hzip : items.zip (items.map w) = items.map fun v => (v, w v) := by
    simpa using List.zip_map' (f := id) (g := w) (l := items)
  obtain ⟨v, hv, rfl⟩ := List.mem_map.mp (hzip ▸ hp)
  exact hrestored v hv

theorem survives_map {s : Linked} {k : Scalar} {inner : Shape}
    {entries : List (Primitive × Instance)} (hinner : inner.isContainer = false)
    (hlength : entries.length < UInt32.size) (distinct : (entries.map Prod.fst).Nodup)
    (hkeys : ∀ e ∈ entries, e.1.typeName = scalarName k)
    (h : ∀ e ∈ entries, Survives s inner e.2) :
    Survives s (.map (.scalar k) inner) (.map entries) := by
  have hkeyValues := fun e (he : e ∈ entries) => storedAs_scalar (s := s) (hkeys e he)
  have hitems := fun e (he : e ∈ entries) => (h e he).single hinner
  choose! key hkey using hkeyValues
  choose! item w hitem hrestored using hitems
  refine ⟨_, _, storedAs_map hkey hitem hlength distinct, .map ?_ ?_⟩
  · simp [Function.comp_def]
  · intro k v u hv hu
    obtain ⟨e, he, heq⟩ := List.mem_map.mp hu
    obtain ⟨rfl, rfl⟩ := Prod.mk.inj heq
    have hsame : (e.1, v) = e := List.inj_on_of_nodup_map distinct hv he rfl
    have hvalue : v = e.2 := congrArg Prod.snd hsame
    exact hvalue ▸ hrestored e he

theorem names_loadedMembers (t : UserType) (loaded : Field → Instance) :
    (loadedMembers t loaded).map Prod.fst = t.members.map Member.name := by
  unfold loadedMembers UserType.members
  cases t.isData with
  | false => simp [Field.plainMember, Function.comp_def]
  | true =>
      simp [Field.dataMember, Event.dataMember, dirtyFlag, Function.comp_def]

/-- The member that a field contributes to the structure of its type. -/
theorem exists_member {t : UserType} {f : Field} (hf : f ∈ t.fields)
    (htracked : f.isTracked = t.isData) :
    ∃ m ∈ t.members, m.name = f.name ∧
      m.type = if f.isTracked then .tracked f.shape else .plain f.shape := by
  unfold UserType.members
  rw [htracked]
  cases t.isData with
  | false => exact ⟨f.plainMember, List.mem_map_of_mem hf, rfl, rfl⟩
  | true => exact ⟨f.dataMember, List.mem_append_left _ (List.mem_map_of_mem hf), rfl, rfl⟩

theorem field_survives {s : Linked} {t : UserType} {members : List (String × Instance)} {f : Field}
    (hf : f ∈ t.fields) (htracked : f.isTracked = t.isData) (hflat : f.shape.isFlat)
    (names : members.map Prod.fst = t.members.map Member.name)
    (distinct : (t.members.map Member.name).Nodup)
    (h : ∀ m ∈ t.members, ∀ v, (m.name, v) ∈ members → Returns s m.type v) :
    ∃ content values w, f.operand.eval ⟨.record members, []⟩ = some content ∧
      StoredAs s f.shape content values w ∧
      ∀ v, (f.name, v) ∈ members → v.Restored (loadedMember f w) := by
  obtain ⟨m, hm, hname, htype⟩ := exists_member hf htracked
  have hmem : f.name ∈ members.map Prod.fst := by
    rw [names, ← hname]
    exact List.mem_map_of_mem hm
  obtain ⟨⟨_, v⟩, hv, rfl⟩ := List.mem_map.mp hmem
  have hdistinct : (members.map Prod.fst).Nodup := names ▸ distinct
  have hlookup := Wire.Fields.lookup_of_mem hdistinct hv
  have hunique : ∀ u, (f.name, u) ∈ members → u = v := fun u hu =>
    Option.some.inj ((Wire.Fields.lookup_of_mem hdistinct hu).symm.trans hlookup)
  have hreturns := h m hm v (hname ▸ hv)
  rw [htype] at hreturns
  cases hcase : f.isTracked with
  | false =>
      rw [hcase] at hreturns
      obtain ⟨values, w, hstored, hrestored⟩ := hreturns hflat
      refine ⟨v, values, w, ?_, hstored, ?_⟩
      · simp [Field.operand, hcase, Operand.eval, Instance.member?, hlookup]
      · intro u hu
        simpa [loadedMember, hcase, hunique u hu] using hrestored
  | true =>
      rw [hcase] at hreturns
      obtain ⟨content, isDirty, rfl, hcontent⟩ := hreturns
      obtain ⟨values, w, hstored, hrestored⟩ := hcontent hflat
      refine ⟨content, values, w, ?_, hstored, ?_⟩
      · simp [Field.operand, hcase, Operand.eval, Instance.member?, hlookup]
      · intro u hu
        simpa [loadedMember, hcase, hunique u hu] using hrestored.cell isDirty

theorem survives_record {s : Linked} (sound : s.Sound) {type : String} {t : UserType}
    {members : List (String × Instance)} (ht : s.type? type = some t)
    (names : members.map Prod.fst = t.members.map Member.name)
    (h : ∀ m ∈ t.members, ∀ v, (m.name, v) ∈ members → Returns s m.type v) :
    ∃ w, Recovers s type (.record members) w ∧ (Instance.record members).Restored w := by
  have hmem : t ∈ s.types := List.mem_of_find?_eq_some ht
  have hfields := fun f (hf : f ∈ t.fields) => field_survives hf (sound.tracked t hmem f hf)
    (sound.flat t hmem f hf) names (sound.memberNames t hmem) h
  choose! content values loaded hcontent hstored hrestored using hfields
  refine ⟨_, recovers_record ht (sound.fieldIds t hmem) hcontent hstored,
    .record (names.trans (names_loadedMembers t loaded).symm) ?_⟩
  intro name v w hv hw
  rcases List.mem_append.mp hw with hw | hw
  · obtain ⟨f, hf, heq⟩ := List.mem_map.mp hw
    obtain ⟨rfl, rfl⟩ := Prod.mk.inj heq
    exact hrestored f hf v hv
  · -- only the data of a component has members beside its fields
    split at hw
    · rename_i hdata
      have hmembers : t.members =
          t.fields.map Field.dataMember ++ dirtyFlag :: t.events.map Event.dataMember :=
        if_pos hdata
      rcases List.mem_cons.mp hw with heq | hw
      · obtain ⟨rfl, rfl⟩ := Prod.mk.inj heq
        obtain ⟨isUp, rfl⟩ := h dirtyFlag (by simp [hmembers]) v hv
        exact .flag isUp
      · obtain ⟨e, he, heq⟩ := List.mem_map.mp hw
        obtain ⟨rfl, rfl⟩ := Prod.mk.inj heq
        have hqueue : e.dataMember ∈ t.members := by
          rw [hmembers]
          exact List.mem_append_right _ (List.mem_cons_of_mem _ (List.mem_map_of_mem he))
        obtain ⟨received, staged, rfl⟩ := h e.dataMember hqueue v hv
        exact .queue received staged
    · cases hw

/-- Every value of the type of a member comes back with its structure. -/
theorem Instance.Is.returns {s : Linked} (sound : s.Sound) {type : MemberType} {v : Instance}
    (h : v.Is s type) : Returns s type v := by
  induction h with
  | scalar hp =>
      intro _
      obtain ⟨x, hx⟩ := storedAs_scalar hp
      exact ⟨[x], _, hx, .scalar _⟩
  | record ht names _ ih =>
      intro _
      obtain ⟨w, hrecovers, hrestored⟩ := survives_record sound ht names ih
      obtain ⟨x, hx⟩ := storedAs_reference hrecovers
      exact ⟨[x], w, hx, hrestored⟩
  | absent => exact fun _ => ⟨[], .absent, storedAs_absent, .absent⟩
  | @present inner v _ ih =>
      intro hflat
      have hinner : inner.isContainer = false := by simpa [Shape.isFlat] using hflat
      obtain ⟨x, w, hx, hrestored⟩ := (ih (Shape.isFlat_of_single hinner)).single hinner
      exact ⟨[x], .present w, hx.present hinner, hrestored.present⟩
  | @list inner items hlength _ ih =>
      intro hflat
      have hinner : inner.isContainer = false := by simpa [Shape.isFlat] using hflat
      exact survives_list hinner hlength fun v hv => ih v hv (Shape.isFlat_of_single hinner)
  | @map k inner entries hlength distinct hkeys _ ih =>
      intro hflat
      have hinner : inner.isContainer = false := by
        simpa [Shape.isFlat, Shape.isContainer] using hflat
      exact survives_map hinner hlength distinct hkeys fun e he =>
        ih e he (Shape.isFlat_of_single hinner)
  | cell isDirty _ ih => exact ⟨_, isDirty, rfl, ih⟩
  | flag isUp => exact ⟨isUp, rfl⟩
  | queue => exact ⟨_, _, rfl⟩

end EntitySchema.Code

namespace EntitySchema.Schema.Linked

open Code (Instance)

/-- In a linked schema, what the code of a user type stores in an empty object is loaded by the code
of the type as the same structure, with tracked values clean, flags down and queues empty. -/
theorem exists_deserialize_serialize {r : Registry} {s : Linked} (registered : r.Registered)
    (linked : r.link = .ok s) {type : String} {v : Instance}
    (h : v.Is s (.plain (.reference type))) :
    ∃ o w n, (∀ depth, n ≤ depth →
        s.serialize depth type v .empty = some o ∧ s.deserialize depth type o = some w) ∧
      v.Restored w := by
  have sound : s.Sound := registered.sound_of_link linked
  cases h with
  | record ht names members =>
      obtain ⟨w, ⟨o, hrecovers⟩, hrestored⟩ :=
        Code.survives_record sound ht names fun m hm v hv => (members m hm v hv).returns sound
      obtain ⟨n, hn⟩ := Filter.eventually_atTop.mp hrecovers
      exact ⟨o, w, n, hn, hrestored⟩

/-- A document with one type, which holds itself, is the data of a component and is sent by its
event. -/
def crateDocument : Document where
  package := "depot"
  types :=
    [{ name := "Crate", qualifiedName := "depot.Crate",
       fields :=
        [{ name := "label", number := 1, singular := some { builtIn := some "string" } },
          { name := "content", number := 2, list := some { user := some "depot.Crate" } },
          { name := "stock", number := 3,
            map := some ({ builtIn := some "uint32" }, { user := some "depot.Crate" }) }] }]
  components :=
    [{ name := "Depot", id := 7, qualifiedName := "depot.Depot", data := "depot.Crate",
       events := [{ name := "moved", index := 1, type := "depot.Crate" }] }]

/-- The type of the document, promoted. -/
def crateType : UserType where
  package := "depot"
  name := "Crate"
  qualifiedName := "depot.Crate"
  fields :=
    [⟨"label", 1, .scalar .string, true⟩, ⟨"content", 2, .list (.reference "depot.Crate"), true⟩,
      ⟨"stock", 3, .map (.scalar .uint32) (.reference "depot.Crate"), true⟩]
  component := some "depot.Depot"
  events := [⟨"moved", 1, .reference "depot.Crate"⟩]

/-- The linked schema of the document. -/
def crateSchema : Linked where
  types := [crateType]
  components :=
    [{ package := "depot", name := "Depot", qualifiedName := "depot.Depot", id := 7,
       dataType := "depot.Crate", events := [⟨"moved", 1, .reference "depot.Crate"⟩] }]

theorem link_crateDocument : (Registry.addDocument {} crateDocument).2.link = .ok crateSchema := rfl

/-- A crate with every mark set and an event staged. -/
def crate (label : String) (content : List Instance) (stock : List (Code.Primitive × Instance))
    (moved : List Instance) : Instance :=
  .record
    [("label", .cell (.scalar (.string label)) true), ("content", .cell (.list content) true),
      ("stock", .cell (.map stock) true), (dirtyMember, .flag true), ("moved", .queue [] moved)]

theorem is_crate {label : String} {content : List Instance}
    {stock : List (Code.Primitive × Instance)} {moved : List Instance}
    (hcontent : ∀ v ∈ content, v.Is crateSchema (.plain (.reference "depot.Crate")))
    (hcount : content.length < UInt32.size ∧ stock.length < UInt32.size)
    (hkeys : ∀ e ∈ stock, e.1.typeName = "u32") (distinct : (stock.map Prod.fst).Nodup)
    (hstock : ∀ e ∈ stock, e.2.Is crateSchema (.plain (.reference "depot.Crate")))
    (hmoved : ∀ v ∈ moved, v.Is crateSchema (.plain (.reference "depot.Crate"))) :
    (crate label content stock moved).Is crateSchema (.plain (.reference "depot.Crate")) := by
  refine .record (t := crateType) rfl rfl ?_
  intro m hm v hv
  have hmembers : crateType.members =
      [⟨_, "label", .tracked (.scalar .string)⟩,
        ⟨_, "content", .tracked (.list (.reference "depot.Crate"))⟩,
        ⟨_, "stock", .tracked (.map (.scalar .uint32) (.reference "depot.Crate"))⟩, dirtyFlag,
        ⟨_, "moved", .queue (.reference "depot.Crate")⟩] := rfl
  simp only [hmembers, List.mem_cons, List.not_mem_nil, or_false] at hm
  rcases hm with rfl | rfl | rfl | rfl | rfl
  · obtain rfl : v = _ := by simpa [dirtyMember] using hv
    exact .cell true (.scalar rfl)
  · obtain rfl : v = _ := by simpa [dirtyMember] using hv
    exact .cell true (.list hcount.1 hcontent)
  · obtain rfl : v = _ := by simpa [dirtyMember] using hv
    exact .cell true (.map hcount.2 distinct hkeys hstock)
  · obtain rfl : v = _ := by simpa [dirtyMember, dirtyFlag] using hv
    exact .flag true
  · obtain rfl : v = _ := by simpa [dirtyMember] using hv
    exact .queue (by simp) hmoved

/-- A crate in a crate, with a map that is visited in descending order of its keys. -/
def fullCrate : Instance :=
  crate "outer" [crate "inner" [] [] []]
    [(.u32 2, crate "second" [] [] []), (.u32 1, crate "first" [] [] [])] [crate "sent" [] [] []]

theorem exists_deserialize_serialize_crate :
    ∃ o w n, (∀ depth, n ≤ depth →
        crateSchema.serialize depth "depot.Crate" fullCrate .empty = some o ∧
          crateSchema.deserialize depth "depot.Crate" o = some w) ∧
      fullCrate.Restored w := by
  have hempty (label : String) :
      (crate label [] [] []).Is crateSchema (.plain (.reference "depot.Crate")) :=
    is_crate (by simp) (by decide) (by simp) (by simp) (by simp) (by simp)
  exact exists_deserialize_serialize (.add crateDocument .empty) link_crateDocument
    (is_crate (by simp [hempty]) (by decide) (by decide) (by decide) (by simp [hempty])
      (by simp [hempty]))

end EntitySchema.Schema.Linked
