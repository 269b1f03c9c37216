import EntitySchema.Proofs.Convergence
import Mathlib.Logic.Relation

/-!
# Content that is not read has no influence

What a user type or an update loads from an object is decided by the values of the declared kinds
under the declared field numbers. Values under other numbers, values of other kinds and, where only
one value is read, values behind the first may be put in and taken out anywhere, also in the objects
that are stored in the object, and the same data is loaded.

## Implementation notes

`Gains` puts in one value that is not read, at some depth; taking out is its converse, and any
number of both is its equivalence closure. All slots read the same before and after a step, for
every number of levels (`Gains.readsSame`), because a slot depends on the values of its kind alone.
How many levels are loaded depends on the depth of the whole object, which a step may change, but
there are always more than the user types have (`Linked.load_eq_load_types`).
-/

namespace EntitySchema.Schema

open Replica (Data Entries)
open Wire (FieldId Kind Object Value)

/-! ## Slots -/

/-- The field numbers that are read, with the shapes of what is read there. -/
abbrev Slots := List (FieldId × Shape)

/-- The slots of fields. -/
def fieldSlots (fields : List Field) : Slots := fields.map fun f => (f.id, f.shape)

/-- The slots of events: any number of each may be sent. -/
def eventSlots (events : List Event) : Slots := events.map fun e => (e.index, .list e.shape)

/-- The slots of the objects that a shape is stored as, if it is stored as objects: the fields of a
user type, or the key and the value of an entry. -/
def Shape.slots? (s : Linked) : Shape → Option Slots
  | .scalar _ => none
  | .reference type => some (fieldSlots (s.fieldsOf type))
  | .option inner | .list inner => inner.slots? s
  | .map (.scalar k) value => some [(entryKey, .scalar k), (entryValue, value)]
  | .map _ _ => none

/-- Whether at most one value is read: the shape is single or the option of a single one. -/
def Shape.readsFirst : Shape → Bool
  | .scalar _ | .reference _ => true
  | .option inner => inner.readsFirst
  | .list _ | .map _ _ => false

/-- A value that stands behind some others under a number is not read. -/
inductive Unread (slots : Slots) (f : FieldId) (before : List Value) (v : Value) : Prop
  /-- The number is not declared. -/
  | undeclared : f ∉ slots.map Prod.fst → Unread slots f before v
  /-- The value is not of the declared kind. -/
  | mistyped {shape : Shape} : (f, shape) ∈ slots → v.kind ≠ shape.kind → Unread slots f before v
  /-- One value is read, and there is one before. -/
  | surplus {shape : Shape} : (f, shape) ∈ slots → shape.readsFirst →
      (∃ w ∈ before, w.kind = shape.kind) → Unread slots f before v

/-- Two objects differ at most in the values under a number. -/
structure DifferAt (f : FieldId) (o o' : Object) (values values' : List Value) : Prop where
  left : o.values f = values
  right : o'.values f = values'
  others : ∀ g, g ≠ f → o.values g = o'.values g

/-- The second object has one value more than the first one, and it is not read: it stands under one
of the numbers of the object, or in an object that a slot holds. -/
inductive Gains (s : Linked) : Slots → Object → Object → Prop
  | here {slots : Slots} {o o' : Object} {f : FieldId} {before after : List Value} {v : Value} :
      Unread slots f before v → DifferAt f o o' (before ++ after) (before ++ v :: after) →
      Gains s slots o o'
  | inside {slots inner : Slots} {o o' child child' : Object} {f : FieldId} {shape : Shape}
      {before after : List Value} : (f, shape) ∈ slots → shape.slots? s = some inner →
      Gains s inner child child' →
      DifferAt f o o' (before ++ .object child :: after) (before ++ .object child' :: after) →
      Gains s slots o o'

/-- The objects differ in values that are not read, any number of which were put in or taken out. -/
def SameButUnread (s : Linked) (slots : Slots) : Object → Object → Prop :=
  Relation.EqvGen (Gains s slots)

/-! ## What a slot depends on -/

theorem count_pos_iff_ne_nil {o : Object} {k : Kind} {f : FieldId} :
    0 < o.count k f ↔ o.ofKind k f ≠ [] := by
  rw [UInt32.lt_iff_toNat_lt, Wire.Fields.count, Wire.toNat_count32_eq_min, ← List.length_pos_iff]
  exact lt_min_iff.trans (and_iff_right (by decide))

theorem Shape.load_congr_ofKind {record : String → Object → Data} {shape : Shape} {o o' : Object}
    {f : FieldId} (h : o.ofKind shape.kind f = o'.ofKind shape.kind f) (i : Nat) :
    shape.load record o f i = shape.load record o' f i := by
  induction shape generalizing i with
  | scalar k =>
      rw [kind] at h
      rw [load, load, Wire.Fields.index, Wire.Fields.index, h]
  | reference type =>
      rw [kind] at h
      simp only [load, Wire.Fields.child, Wire.Fields.index, h]
  | option inner ih =>
      rw [kind] at h
      have hcount : o.count inner.kind f = o'.count inner.kind f := by
        rw [Wire.Fields.count, Wire.Fields.count, h]
      rw [load, load, hcount, ih h]
  | list inner ih =>
      rw [kind] at h
      simp only [load, Wire.Fields.count, h, ih h]
  | map key value _ _ =>
      rw [kind] at h
      simp only [load, Wire.Fields.count, Wire.Fields.child, Wire.Fields.index, h]

theorem index_zero_eq_head (o : Object) (k : Kind) (f : FieldId) :
    o.index k f 0 = (o.ofKind k f).head?.getD k.default := by
  rw [Wire.Fields.index, List.head?_eq_getElem?]

theorem count_pos_iff_of_head {o o' : Object} {k : Kind} {f : FieldId}
    (h : (o.ofKind k f).head? = (o'.ofKind k f).head?) : 0 < o.count k f ↔ 0 < o'.count k f := by
  rw [count_pos_iff_ne_nil, count_pos_iff_ne_nil, ne_eq, ← List.head?_eq_none_iff, h,
    List.head?_eq_none_iff]

/-- Where one value is read, the first one of its kind decides. -/
theorem Shape.load_congr_head {record : String → Object → Data} {shape : Shape} {o o' : Object}
    {f : FieldId} (hfirst : shape.readsFirst)
    (h : (o.ofKind shape.kind f).head? = (o'.ofKind shape.kind f).head?) :
    shape.load record o f 0 = shape.load record o' f 0 := by
  induction shape with
  | scalar k =>
      rw [kind] at h
      rw [load, load, index_zero_eq_head, index_zero_eq_head, h]
  | reference type =>
      rw [kind] at h
      simp only [load, Wire.Fields.child, index_zero_eq_head, h]
  | option inner ih =>
      rw [kind] at h
      simp only [load, count_pos_iff_of_head h, ih hfirst h]
  | list inner _ => cases hfirst
  | map key value _ _ => cases hfirst

/-- A slot reads the same from two objects, whatever number of levels is loaded, and finds something
in both of them or in none. -/
structure ReadsSameAt (s : Linked) (slot : FieldId × Shape) (o o' : Object) : Prop where
  found : 0 < o.count slot.2.kind slot.1 ↔ 0 < o'.count slot.2.kind slot.1
  loaded : ∀ levels, slot.2.load (s.loadLevels levels) o slot.1 0 =
    slot.2.load (s.loadLevels levels) o' slot.1 0

/-- All slots read the same from two objects. -/
def ReadsSame (s : Linked) (slots : Slots) (o o' : Object) : Prop :=
  ∀ slot ∈ slots, ReadsSameAt s slot o o'

theorem equivalence_readsSame (s : Linked) (slots : Slots) : Equivalence (ReadsSame s slots) where
  refl _ _ _ := ⟨Iff.rfl, fun _ => rfl⟩
  symm h slot hslot :=
    ⟨(h slot hslot).found.symm, fun levels => ((h slot hslot).loaded levels).symm⟩
  trans h h' slot hslot :=
    ⟨(h slot hslot).found.trans (h' slot hslot).found,
      fun levels => ((h slot hslot).loaded levels).trans ((h' slot hslot).loaded levels)⟩

theorem readsSameAt_of_ofKind {s : Linked} {slot : FieldId × Shape} {o o' : Object}
    (h : o.ofKind slot.2.kind slot.1 = o'.ofKind slot.2.kind slot.1) : ReadsSameAt s slot o o' where
  found := by rw [Wire.Fields.count, Wire.Fields.count, h]
  loaded _ := Shape.load_congr_ofKind h 0

theorem readsSameAt_of_head {s : Linked} {slot : FieldId × Shape} {o o' : Object}
    (hfirst : slot.2.readsFirst)
    (h : (o.ofKind slot.2.kind slot.1).head? = (o'.ofKind slot.2.kind slot.1).head?) :
    ReadsSameAt s slot o o' where
  found := count_pos_iff_of_head h
  loaded _ := Shape.load_congr_head hfirst h

theorem Shape.kind_of_slots? {s : Linked} {shape : Shape} {inner : Slots}
    (h : shape.slots? s = some inner) : shape.kind = .object := by
  induction shape with
  | scalar k => cases h
  | reference type => rfl
  | option shape ih => exact ih h
  | list shape ih => exact ih h
  | map key value _ _ => rfl

/-- A shape that is stored as objects depends on their number and on what is read from each. -/
theorem Shape.load_congr_children {s : Linked} {shape : Shape} {inner : Slots} {o o' : Object}
    {f : FieldId} (hslots : shape.slots? s = some inner)
    (hcount : o.count .object f = o'.count .object f)
    (hchild : ∀ i, ReadsSame s inner (o.child f i) (o'.child f i)) (levels i : Nat) :
    shape.load (s.loadLevels levels) o f i = shape.load (s.loadLevels levels) o' f i := by
  induction shape generalizing i with
  | scalar k => cases hslots
  | reference type =>
      obtain rfl := Option.some.inj hslots
      rw [load, load]
      cases levels with
      | zero => rfl
      | succ levels =>
          refine congrArg Data.record (List.map_congr_left fun field hfield => ?_)
          exact (hchild i (field.id, field.shape) (List.mem_map_of_mem hfield)).loaded levels
  | option shape ih =>
      have hkind : shape.kind = .object := kind_of_slots? hslots
      simp only [load, hkind, hcount, ih hslots]
  | list shape ih =>
      have hkind : shape.kind = .object := kind_of_slots? hslots
      simp only [load, hkind, hcount, ih hslots]
  | map key value _ _ =>
      cases key with
      | scalar k =>
          obtain rfl := Option.some.inj hslots
          have hentry : ∀ i, (o.child f i).index k.kind entryKey 0 =
                (o'.child f i).index k.kind entryKey 0 ∧
              value.load (s.loadLevels levels) (o.child f i) entryValue 0 =
                value.load (s.loadLevels levels) (o'.child f i) entryValue 0 := by
            intro i
            have hkey := (hchild i _ List.mem_cons_self).loaded levels
            have hvalue := (hchild i _ (List.mem_cons_of_mem _ List.mem_cons_self)).loaded levels
            exact ⟨Data.scalar.inj hkey, hvalue⟩
          simp only [load, kind, hcount, hentry]
      | _ => cases hslots

/-! ## One value more -/

/-- The objects of the schema and its entries declare every number once. -/
theorem Shape.nodup_slots {s : Linked} (sound : s.Sound) {shape : Shape} {inner : Slots}
    (h : shape.slots? s = some inner) : (inner.map Prod.fst).Nodup := by
  induction shape with
  | scalar k => cases h
  | reference type =>
      obtain rfl := Option.some.inj h
      rw [fieldSlots, List.map_map]
      exact Linked.fieldsOf_cases (P := fun fields => (fields.map Field.id).Nodup) List.nodup_nil
        sound.fieldIds type
  | option shape ih => exact ih h
  | list shape ih => exact ih h
  | map key value _ _ =>
      cases key with
      | scalar k =>
          obtain rfl := Option.some.inj h
          exact (by decide : [entryKey, entryValue].Nodup)
      | _ => cases h

/-- A number that is declared once is declared with one shape. -/
theorem shape_eq_of_nodup {slots : Slots} (distinct : (slots.map Prod.fst).Nodup) {f : FieldId}
    {shape shape' : Shape} (h : (f, shape) ∈ slots) (h' : (f, shape') ∈ slots) : shape = shape' :=
  congrArg Prod.snd (List.inj_on_of_nodup_map distinct h h' rfl)

theorem DifferAt.ofKind {o o' : Object} {f : FieldId} {values values' : List Value}
    (h : DifferAt f o o' values values') (k : Kind) :
    o.ofKind k f = values.filter (fun v => v.kind = k) ∧
      o'.ofKind k f = values'.filter fun v => v.kind = k :=
  ⟨by rw [Wire.Fields.ofKind, h.left], by rw [Wire.Fields.ofKind, h.right]⟩

theorem DifferAt.readsSameAt_other {s : Linked} {o o' : Object} {f : FieldId}
    {values values' : List Value} (h : DifferAt f o o' values values') {slot : FieldId × Shape}
    (hne : slot.1 ≠ f) : ReadsSameAt s slot o o' := by
  apply readsSameAt_of_ofKind
  rw [Wire.Fields.ofKind, Wire.Fields.ofKind, h.others slot.1 hne]

/-- A value that is not read leaves what the slot of its number reads. -/
theorem Unread.readsSameAt {s : Linked} {slots : Slots} (distinct : (slots.map Prod.fst).Nodup)
    {o o' : Object} {f : FieldId} {before after : List Value} {v : Value}
    (h : Unread slots f before v) (hdiffer : DifferAt f o o' (before ++ after) (before ++ v :: after))
    {shape : Shape} (hslot : (f, shape) ∈ slots) : ReadsSameAt s (f, shape) o o' := by
  obtain ⟨hvalues, hvalues'⟩ := hdiffer.ofKind shape.kind
  cases h with
  | undeclared hf => exact absurd (List.mem_map_of_mem hslot) hf
  | mistyped hmem hkind =>
      obtain rfl := shape_eq_of_nodup distinct hmem hslot
      apply readsSameAt_of_ofKind
      rw [hvalues, hvalues', List.filter_append, List.filter_append,
        List.filter_cons_of_neg (by simpa using hkind)]
  | surplus hmem hfirst hbefore =>
      rw [shape_eq_of_nodup distinct hmem hslot] at hfirst hbefore
      obtain ⟨w, hw, hkind⟩ := hbefore
      apply readsSameAt_of_head hfirst
      have hne : before.filter (fun v => v.kind = shape.kind) ≠ [] :=
        List.ne_nil_of_mem (List.mem_filter.mpr ⟨hw, decide_eq_true hkind⟩)
      rw [hvalues, hvalues', List.filter_append, List.filter_append,
        List.head?_append_of_ne_nil _ hne, List.head?_append_of_ne_nil _ hne]

/-- Where one child is replaced, the children at a position are the same or the replaced ones. -/
theorem DifferAt.child_cases {o o' child child' : Object} {f : FieldId} {before after : List Value}
    (h : DifferAt f o o' (before ++ .object child :: after) (before ++ .object child' :: after))
    (i : Nat) :
    o.child f i = o'.child f i ∨ o.child f i = child ∧ o'.child f i = child' := by
  obtain ⟨hvalues, hvalues'⟩ := h.ofKind .object
  rw [List.filter_append, List.filter_cons_of_pos rfl] at hvalues hvalues'
  rcases Nat.lt_trichotomy i (before.filter fun v => v.kind = .object).length with hi | hi | hi
  · left
    simp only [Wire.Fields.child, Wire.Fields.index, hvalues, hvalues',
      List.getElem?_append_left hi]
  · right
    constructor <;> apply child_of_ofKind
    · rw [hvalues, hi, List.getElem?_append_right le_rfl, Nat.sub_self, List.getElem?_cons_zero]
    · rw [hvalues', hi, List.getElem?_append_right le_rfl, Nat.sub_self, List.getElem?_cons_zero]
  · left
    obtain ⟨j, rfl⟩ := Nat.exists_eq_add_of_lt hi
    simp only [Wire.Fields.child, Wire.Fields.index, hvalues, hvalues', Nat.add_assoc,
      List.getElem?_append_right (Nat.le_add_right _ _), Nat.add_sub_cancel_left,
      List.getElem?_cons_succ]

/-- Storing a value that is not read, behind the values with its number, puts in one value. -/
theorem gains_push {s : Linked} {slots : Slots} {o : Object} (h : o.Ascending) {f : FieldId}
    {v : Value} (hunread : Unread slots f (o.values f) v) : Gains s slots o (o.push f v) := by
  have hvalues : ∀ g, (o.push f v).values g = o.values g ++ if g = f then [v] else [] := by
    intro g
    rw [Wire.Fields.push_eq_pushAll, h.values_pushAll]
  have hdiffer : DifferAt f o (o.push f v) (o.values f ++ []) (o.values f ++ v :: []) := by
    refine ⟨(List.append_nil _).symm, ?_, fun g hg => ?_⟩
    · rw [hvalues, if_pos rfl]
    · rw [hvalues, if_neg hg, List.append_nil]
  exact .here hunread hdiffer

/-- All slots read the same with one value more that is not read. -/
theorem Gains.readsSame {s : Linked} (sound : s.Sound) {slots : Slots} {o o' : Object}
    (h : Gains s slots o o') (distinct : (slots.map Prod.fst).Nodup) : ReadsSame s slots o o' := by
  induction h with
  | @here slots o o' f before after v hunread hdiffer =>
      rintro ⟨g, shape⟩ hslot
      by_cases hg : g = f
      · subst hg
        exact hunread.readsSameAt distinct hdiffer hslot
      · exact hdiffer.readsSameAt_other hg
  | @inside slots inner o o' child child' f shape before after hmem hslots _ hdiffer ih =>
      rintro ⟨g, shape'⟩ hslot
      by_cases hg : g = f
      · subst hg
        obtain rfl := shape_eq_of_nodup distinct hmem hslot
        have hcount : o.count .object g = o'.count .object g := by
          obtain ⟨hvalues, hvalues'⟩ := hdiffer.ofKind .object
          rw [Wire.Fields.count, Wire.Fields.count, hvalues, hvalues']
          simp [Value.kind]
        have hchild : ∀ i, ReadsSame s inner (o.child g i) (o'.child g i) := by
          intro i
          rcases hdiffer.child_cases i with heq | ⟨hl, hr⟩
          · rw [heq]
            exact (equivalence_readsSame s inner).refl _
          · rw [hl, hr]
            exact ih (Shape.nodup_slots sound hslots)
        refine ⟨?_, fun levels => Shape.load_congr_children hslots hcount hchild levels 0⟩
        rw [Shape.kind_of_slots? hslots, hcount]
      · exact hdiffer.readsSameAt_other hg

theorem SameButUnread.readsSame {s : Linked} (sound : s.Sound) {slots : Slots} {o o' : Object}
    (distinct : (slots.map Prod.fst).Nodup) (h : SameButUnread s slots o o') :
    ReadsSame s slots o o' := by
  have hstep : Gains s slots ≤ ReadsSame s slots := fun _ _ hgains =>
    hgains.readsSame sound distinct
  exact (equivalence_readsSame s slots).eqvGen_iff.mp (Relation.EqvGen.mono hstep o o' h)

/-! ## Enough levels -/

theorem Shape.load_congr_record {record record' : String → Object → Data} {p : String → Bool}
    {shape : Shape} (h : shape.nests p)
    (hrecord : ∀ type, p type → ∀ o, record type o = record' type o) (o : Object) (f : FieldId)
    (i : Nat) : shape.load record o f i = shape.load record' o f i := by
  induction shape generalizing o f i with
  | scalar k => rfl
  | reference type => exact hrecord type h _
  | option inner ih => simp only [load, ih h]
  | list inner ih => simp only [load, ih h]
  | map key value _ ih => simp only [load, ih h]

/-- More levels than a user type has make no difference. -/
theorem Linked.loadLevels_eq {s : Linked} {n : Nat} {type : String} (h : s.nests n type) {m : Nat}
    (hm : n ≤ m) (o : Object) : s.loadLevels m type o = s.loadLevels n type o := by
  induction n generalizing type m o with
  | zero => cases h
  | succ n ih =>
      cases m with
      | zero => cases hm
      | succ m =>
          have hfields : ∀ f ∈ s.fieldsOf type, f.shape.nests (s.nests n) := List.all_eq_true.mp h
          refine congrArg Data.record (List.map_congr_left fun f hf => ?_)
          exact Shape.load_congr_record (hfields f hf)
            (fun _ hnests o => ih hnests (Nat.le_of_succ_le_succ hm) o) o f.id 0

theorem Shape.nests_of_forall {p : String → Bool} (h : ∀ type, p type) (shape : Shape) :
    shape.nests p := by
  induction shape with
  | scalar k => rfl
  | reference type => exact h type
  | option inner ih => exact ih
  | list inner ih => exact ih
  | map key value _ ih => exact ih

section Bounded

variable {s : Linked} (bounded : ∀ type, s.nests s.types.length type)

include bounded

/-- Where user types nest no deeper than there are types, the depth of an object has no influence on
what is loaded from it. -/
theorem Linked.load_eq_load_types (shape : Shape) (o : Object) (f : FieldId) :
    s.load shape o f = shape.load (s.loadLevels s.types.length) o f 0 :=
  Shape.load_congr_record (Shape.nests_of_forall bounded shape)
    (fun _ hnests o => Linked.loadLevels_eq hnests (Nat.le_add_left _ _) o) o f 0

theorem Linked.loadType_eq_load_types (type : String) (o : Object) :
    s.loadType type o = .record ((s.fieldsOf type).map fun f =>
      f.shape.load (s.loadLevels s.types.length) o f.id 0) := by
  have hlevels : s.types.length ≤ s.levels o := Nat.le_add_left _ _
  rw [loadType, loadLevels_eq (bounded type) hlevels,
    ← loadLevels_eq (bounded type) (Nat.le_succ _), loadLevels]

variable (sound : s.Sound)

include sound

theorem Linked.load_congr {slots : Slots} (distinct : (slots.map Prod.fst).Nodup) {o o' : Object}
    (h : SameButUnread s slots o o') {f : FieldId} {shape : Shape} (hslot : (f, shape) ∈ slots) :
    s.load shape o' f = s.load shape o f := by
  rw [load_eq_load_types bounded, load_eq_load_types bounded]
  exact ((h.readsSame sound distinct (f, shape) hslot).loaded s.types.length).symm

theorem Linked.loadType_congr {type : String} {o o' : Object}
    (h : SameButUnread s (fieldSlots (s.fieldsOf type)) o o') :
    s.loadType type o' = s.loadType type o := by
  have hslots : (Shape.reference type).slots? s = some (fieldSlots (s.fieldsOf type)) := rfl
  have distinct := Shape.nodup_slots sound hslots
  rw [loadType_eq_load_types bounded, loadType_eq_load_types bounded]
  refine congrArg Data.record (List.map_congr_left fun f hf => ?_)
  exact ((h.readsSame sound distinct (f.id, f.shape) (List.mem_map_of_mem hf)).loaded _).symm

end Bounded

end EntitySchema.Schema

namespace EntitySchema.Replica

open Schema
open Wire (Delta Object)

theorem Replicable.nodup_fieldSlots {s : Linked} {e : Entry} (h : Replicable s e) :
    ((fieldSlots e.data.fields).map Prod.fst).Nodup := by
  rw [fieldSlots, List.map_map]
  exact h.fieldIds

theorem Replicable.nodup_eventSlots {s : Linked} {e : Entry} (h : Replicable s e) :
    ((eventSlots e.component.events).map Prod.fst).Nodup := by
  rw [eventSlots, List.map_map]
  exact h.eventIndices

section Bounded

variable {s : Linked} {e : Entry} (bounded : ∀ type, s.nests s.types.length type)
  (replicable : Replicable s e)

include bounded replicable

theorem State.load_congr {o o' : Object} (h : SameButUnread s (fieldSlots e.data.fields) o o') :
    State.load s e o' = State.load s e o := by
  have hmembers : ∀ f ∈ e.data.fields,
      Tracked.clean (s.load f.shape o' f.id) = .clean (s.load f.shape o f.id) := by
    intro f hf
    rw [Linked.load_congr bounded replicable.sound replicable.nodup_fieldSlots h
      (List.mem_map_of_mem hf)]
  rw [State.load, State.load, List.map_congr_left hmembers]

theorem Update.read_congr {p p' : Delta}
    (hfields : SameButUnread s (fieldSlots e.data.fields) p.fields p'.fields)
    (hevents : SameButUnread s (eventSlots e.component.events) p.events p'.events)
    (hcleared : ∀ f ∈ e.data.fields, p'.isCleared f.id = p.isCleared f.id) :
    Update.read s e p' = Update.read s e p := by
  have distinct := replicable.nodup_fieldSlots
  have hmember : ∀ f ∈ e.data.fields,
      (if sets p' f then some (s.load f.shape p'.fields f.id) else Option.none) =
        if sets p f then some (s.load f.shape p.fields f.id) else Option.none := by
    intro f hf
    have hslot : (f.id, f.shape) ∈ fieldSlots e.data.fields := List.mem_map_of_mem hf
    have hsets : sets p' f = sets p f := by
      have hfound := (hfields.readsSame replicable.sound distinct _ hslot).found
      rw [sets, sets, hcleared f hf, decide_eq_decide.mpr hfound]
    rw [hsets, Linked.load_congr bounded replicable.sound distinct hfields hslot]
  have hbatch : ∀ ev ∈ e.component.events,
      (s.load (.list ev.shape) p'.events ev.index).items =
        (s.load (.list ev.shape) p.events ev.index).items := by
    intro ev hev
    rw [Linked.load_congr bounded replicable.sound replicable.nodup_eventSlots hevents
      (List.mem_map_of_mem hev)]
  rw [Update.read, Update.read, List.map_congr_left hmember, List.map_congr_left hbatch]

end Bounded

end EntitySchema.Replica

namespace EntitySchema.Sample

open Schema Replica
open Wire (Delta Object Value)

theorem nests_schema (type : String) : schema.nests schema.types.length type :=
  Linked.fieldsOf_cases (P := fun fields => fields.all fun f => f.shape.nests (schema.nests 5))
    rfl (by decide +kernel) type

/-- Unknown and mistyped content has no influence on ships and weather. Objects that differ in
values that are not read, at any depth, are loaded as the same value of every user type and as the
same state of every component, and payloads that differ so in their fields and events carry the same
update. -/
theorem load_eq_of_sameButUnread :
    (∀ (type : String) (o o' : Object),
      SameButUnread schema (fieldSlots (schema.fieldsOf type)) o o' →
      schema.loadType type o' = schema.loadType type o) ∧
    ∀ e ∈ [shipEntry, weatherEntry],
      (∀ o o' : Object, SameButUnread schema (fieldSlots e.data.fields) o o' →
        State.load schema e o' = State.load schema e o) ∧
      ∀ p p' : Delta, SameButUnread schema (fieldSlots e.data.fields) p.fields p'.fields →
        SameButUnread schema (eventSlots e.component.events) p.events p'.events →
        (∀ f ∈ e.data.fields, p'.isCleared f.id = p.isCleared f.id) →
        Update.read schema e p' = Update.read schema e p := by
  have hreplicable : ∀ e ∈ [shipEntry, weatherEntry], Replicable schema e := by
    simpa using ⟨replicable_ship, replicable_weather⟩
  refine ⟨fun type o o' h => Linked.loadType_congr nests_schema sound_schema h, fun e he => ?_⟩
  constructor
  · exact fun o o' h => State.load_congr nests_schema (hreplicable e he) h
  · exact fun p p' hfields hevents hcleared =>
      Update.read_congr nests_schema (hreplicable e he) hfields hevents hcleared

/-- A ship with some values under the number of its name and with one waypoint. -/
def shipWith (names : List Value) (waypoint : Object) : Object :=
  ⟨[(1, names), (4, [.object waypoint])]⟩

/-- A point that lacks two coordinates. -/
def shortPoint : Object := ⟨[(2, [.double 0])]⟩

/-- A ship with a name and a waypoint. -/
def namedShip : Object := shipWith [.string "Argo"] shortPoint

/-- The ship with a number in front of its name and another name behind it, a field in the waypoint
that points do not have, and a field that ships do not have. -/
def crowdedShip : Object :=
  (shipWith [.uint32 5, .string "Argo", .string "Ajax"]
    (shortPoint.push 9 (.object .empty))).push 77 (.bool true)

theorem differAt_names (names names' : List Value) (waypoint : Object) :
    DifferAt 1 (shipWith names waypoint) (shipWith names' waypoint) names names' := by
  refine ⟨rfl, rfl, fun g hg => ?_⟩
  simp [shipWith, Wire.Fields.values, Wire.Fields.lookup_cons_eq_ite, hg]

theorem differAt_waypoint (names : List Value) (waypoint waypoint' : Object) :
    DifferAt 4 (shipWith names waypoint) (shipWith names waypoint') [.object waypoint]
      [.object waypoint'] := by
  refine ⟨rfl, rfl, fun g hg => ?_⟩
  simp [shipWith, Wire.Fields.values, Wire.Fields.lookup_cons_eq_ite, hg]

theorem sameButUnread_crowdedShip :
    SameButUnread schema (fieldSlots shipEntry.data.fields) namedShip crowdedShip := by
  have hname : (1, .scalar .string) ∈ fieldSlots shipEntry.data.fields := by decide +kernel
  have hwaypoints : (4, .list vectorShape) ∈ fieldSlots shipEntry.data.fields := by decide +kernel
  have hmistyped : Gains schema (fieldSlots shipEntry.data.fields) namedShip
      (shipWith [.uint32 5, .string "Argo"] shortPoint) := by
    have hdiffer : DifferAt 1 namedShip _ ([] ++ [.string "Argo"])
        ([] ++ .uint32 5 :: [.string "Argo"]) := differAt_names _ _ shortPoint
    exact .here (.mistyped hname (by decide)) hdiffer
  have hsurplus : Gains schema (fieldSlots shipEntry.data.fields)
      (shipWith [.uint32 5, .string "Argo"] shortPoint)
      (shipWith [.uint32 5, .string "Argo", .string "Ajax"] shortPoint) := by
    have hdiffer : DifferAt 1 (shipWith _ shortPoint) (shipWith _ shortPoint)
        ([.uint32 5, .string "Argo"] ++ []) ([.uint32 5, .string "Argo"] ++ .string "Ajax" :: []) :=
      differAt_names _ _ shortPoint
    exact .here (.surplus hname rfl ⟨.string "Argo", by simp, rfl⟩) hdiffer
  have hinside : Gains schema (fieldSlots shipEntry.data.fields)
      (shipWith [.uint32 5, .string "Argo", .string "Ajax"] shortPoint)
      (shipWith [.uint32 5, .string "Argo", .string "Ajax"]
        (shortPoint.push 9 (.object .empty))) := by
    have hdiffer : DifferAt 4 (shipWith [.uint32 5, .string "Argo", .string "Ajax"] shortPoint)
        (shipWith _ (shortPoint.push 9 (.object .empty))) ([] ++ .object shortPoint :: [])
        ([] ++ .object (shortPoint.push 9 (.object .empty)) :: []) := differAt_waypoint _ _ _
    have hpoint : shortPoint.Ascending := ⟨by simp [shortPoint], by simp [shortPoint]⟩
    exact .inside hwaypoints rfl (gains_push hpoint (.undeclared (by decide +kernel))) hdiffer
  have hundeclared : Gains schema (fieldSlots shipEntry.data.fields)
      (shipWith [.uint32 5, .string "Argo", .string "Ajax"] (shortPoint.push 9 (.object .empty)))
      crowdedShip := by
    apply gains_push
    · exact ⟨by simp [shipWith], by simp [shipWith]⟩
    · exact .undeclared (by decide +kernel)
  exact .trans _ _ _ (.rel _ _ hmistyped) (.trans _ _ _ (.rel _ _ hsurplus)
    (.trans _ _ _ (.rel _ _ hinside) (.rel _ _ hundeclared)))

/-- The crowded ship is loaded as the plain one, as a value of its user type, as the state of its
component and from an update. -/
theorem load_eq_of_sameButUnread_crowdedShip :
    SameButUnread schema (fieldSlots shipEntry.data.fields) namedShip crowdedShip ∧
      schema.loadType "fixture.game.ShipState" crowdedShip =
        schema.loadType "fixture.game.ShipState" namedShip ∧
      State.load schema shipEntry crowdedShip = State.load schema shipEntry namedShip ∧
      Update.read schema shipEntry
          { componentId := 1001, fields := crowdedShip, cleared := [5, 77] } =
        Update.read schema shipEntry { componentId := 1001, fields := namedShip, cleared := [5] } := by
  have hship := sameButUnread_crowdedShip
  obtain ⟨htypes, hentries⟩ := load_eq_of_sameButUnread
  obtain ⟨hstate, hupdate⟩ := hentries shipEntry List.mem_cons_self
  refine ⟨hship, htypes _ _ _ hship, hstate _ _ hship, hupdate _ _ hship (.refl _) ?_⟩
  decide +kernel

end EntitySchema.Sample
