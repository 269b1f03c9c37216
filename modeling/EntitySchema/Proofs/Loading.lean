import EntitySchema.Proofs.Containment
import EntitySchema.Proofs.DataStorage
import EntitySchema.Proofs.Representation

/-!
# Generated code loads what is stored

The code that loads a structure calls the code of the user types of its fields. A field that is a
single value calls it whether or not an object is stored there, and an option, a list or a map only
for objects that are. Where no user type has itself as a single value, directly or through others,
loading comes to an end on every object, and the result holds the data that `loadLevels` finds with
`levels` levels.

## Implementation notes

An object that is stored is less deep than the one around it, and one that is not there is read as
the empty object. So the calls first go down the objects that are there. Below them all objects are
empty, and only single values are called for. Where these do not lead back, some number of the types
falls with every call (`exists_rank`), and it is no greater than there are types.
-/

namespace EntitySchema.Wire.Fields

/-! ### Depths -/

theorem depth_object (o : Object) : (Value.object o).depth = o.depth := by
  obtain ⟨entries⟩ := o
  rw [Value.depth, depth]

theorem depth_pos (o : Object) : 0 < o.depth := Nat.succ_pos _

theorem kind_index (o : Object) (k : Kind) (f : FieldId) (i : Nat) : (o.index k f i).kind = k := by
  rw [index]
  cases hv : (o.ofKind k f)[i]? with
  | none => exact k.kind_default
  | some v => exact of_decide_eq_true (List.mem_filter.mp (List.mem_of_getElem? hv)).2

/-- A child that is stored is less deep than the object. -/
theorem depth_child_lt {o : Object} {f : FieldId} {i : Nat} (h : i < (o.ofKind .object f).length) :
    (o.child f i).depth < o.depth := by
  have hmem : (o.ofKind .object f)[i] ∈ o.values f := List.mem_of_mem_filter (List.getElem_mem h)
  have hkind := o.kind_index .object f i
  have hindex : o.index .object f i = (o.ofKind .object f)[i] := by
    rw [index, List.getElem?_eq_getElem h, Option.getD_some]
  rw [child]
  rw [hindex] at hkind ⊢
  generalize (o.ofKind .object f)[i] = v at hmem hkind
  cases v with
  | object c =>
      rw [← depth_object]
      exact depth_lt_of_mem_values hmem
  | _ => cases hkind

/-- A child that is not stored is read as the empty object. -/
theorem child_eq_empty {o : Object} {f : FieldId} {i : Nat}
    (h : ¬ i < (o.ofKind .object f).length) : o.child f i = .empty := by
  have hnone : (o.ofKind .object f)[i]? = none := List.getElem?_eq_none (Nat.le_of_not_lt h)
  rw [child, index, hnone]
  rfl

/-- No child is deeper than the object, whether it is stored or not. -/
theorem depth_child_le (o : Object) (f : FieldId) (i : Nat) : (o.child f i).depth ≤ o.depth := by
  by_cases h : i < (o.ofKind .object f).length
  · exact (depth_child_lt h).le
  · rw [child_eq_empty h]
    exact Nat.succ_le_of_lt o.depth_pos

theorem lt_length_of_lt_count {o : Object} {k : Kind} {f : FieldId} {i : Nat}
    (h : i < (o.count k f).toNat) : i < (o.ofKind k f).length := by
  rw [count, toNat_count32_eq_min] at h
  exact lt_of_lt_of_le h (min_le_right _ _)

end EntitySchema.Wire.Fields

namespace EntitySchema.Schema

open Code (Expression Holder Instance Primitive Scope)
open Filter (atTop)
open Replica (Data Entries Row)
open Wire (FieldId Object Value)

namespace Linked

/-- A value of the first type has a value of the second one in it: a field has the second type as
its shape. -/
def Requires (s : Linked) (a b : String) : Prop :=
  ∃ t, s.type? a = some t ∧ ∃ f ∈ t.fields, f.shape = .reference b

theorem Requires.holds {s : Linked} {a b : String} (h : s.Requires a b) : s.Holds a b := by
  obtain ⟨t, ht, f, hf, hshape⟩ := h
  exact ⟨t, ht, f, hf, Or.inl hshape⟩

/-- With enough calls open at once, loading the type from the object has a result that holds the
data. -/
def LoadsAs (s : Linked) (type : String) (o : Object) (d : Data) : Prop :=
  ∃ w, d.HeldAs s (.reference type) w ∧ ∀ᶠ depth in atTop, s.deserialize depth type o = some w

end Linked

/-! ### Single values -/

theorem exists_primitive {v : Value} (h : v.kind ≠ .object) :
    ∃ p, Primitive.ofValue? v = some p := by
  cases v with
  | object o => exact absurd rfl h
  | _ => exact ⟨_, rfl⟩

/-- With enough calls open at once, the value of a shape is read from a field number of an object as
some result, whatever the object and the position are called. -/
def Evaluates (s : Linked) (shape : Shape) (o : Object) (f : FieldId) (i : Nat) (w : Instance) :
    Prop :=
  ∀ᶠ depth in atTop, ∀ (scope : Scope) (holder : Holder) (position : String),
    scope.objects.lookup holder = some o → scope.position? position = some i →
    (shape.reading holder f position).eval (s.deserialize depth) scope = some w

/-- The value of a shape is read from a field number of an object as a result that holds the data. -/
def ReadsAs (s : Linked) (shape : Shape) (o : Object) (f : FieldId) (i : Nat) (d : Data) : Prop :=
  ∃ w, d.HeldAs s shape w ∧ Evaluates s shape o f i w

/-- Where a scalar is read there is always one. -/
theorem readsAs_scalar (s : Linked) (k : Scalar) (o : Object) (f : FieldId) (i : Nat) :
    ∃ p, Primitive.ofValue? (o.index k.kind f i) = some p ∧
      Evaluates s (.scalar k) o f i (.scalar p) := by
  have hkind : (o.index k.kind f i).kind ≠ .object := by
    rw [Wire.Fields.kind_index]
    exact k.kind_ne_object
  obtain ⟨p, hp⟩ := exists_primitive hkind
  refine ⟨p, hp, .of_forall fun depth scope holder position ho hi => ?_⟩
  simp [Shape.reading, Expression.eval, ho, hi, hp]

/-- A single value is read if its user type, if any, is loaded. -/
theorem readsAs_single {s : Linked} {shape : Shape} (hsingle : shape.isContainer = false)
    {record : String → Object → Data} {o : Object} {f : FieldId} {i : Nat}
    (h : ∀ b, shape = .reference b → s.LoadsAs b (o.child f i) (record b (o.child f i))) :
    ReadsAs s shape o f i (shape.load record o f i) := by
  cases shape with
  | scalar k =>
      obtain ⟨p, hp, heval⟩ := readsAs_scalar s k o f i
      exact ⟨.scalar p, .scalar (o.kind_index k.kind f i) hp, heval⟩
  | reference b =>
      obtain ⟨w, hheld, hw⟩ := h b rfl
      refine ⟨w, hheld, hw.mono fun depth hdepth scope holder position ho hi => ?_⟩
      simp [Shape.reading, Expression.eval, ho, hi, hdepth]
  | option inner => cases hsingle
  | list inner => cases hsingle
  | map key value => cases hsingle

/-! ### Containers -/

section Containers

/-! A container reads only objects that are stored in the object, which are less deep. -/

variable {s : Linked} {inner : Shape} {record : String → Object → Data} {o : Object} {f : FieldId}
  (hsingle : inner.isContainer = false)
  (hless : ∀ b, inner = .reference b → ∀ child : Object, child.depth < o.depth →
    s.LoadsAs b child (record b child))

include hsingle hless

/-- An option is read if its content is wherever it is stored. -/
theorem readsAs_option (i : Nat) :
    ReadsAs s (.option inner) o f i ((Shape.option inner).load record o f i) := by
  rw [Shape.load]
  by_cases hcount : 0 < o.count inner.kind f
  · have hcontent : ∀ b, inner = .reference b →
        s.LoadsAs b (o.child f 0) (record b (o.child f 0)) := by
      rintro b rfl
      have hstored := Wire.Fields.lt_length_of_lt_count (UInt32.lt_iff_toNat_lt.mp hcount)
      exact hless b rfl _ (Wire.Fields.depth_child_lt hstored)
    obtain ⟨w, hheld, hw⟩ := readsAs_single hsingle hcontent
    rw [if_pos hcount]
    refine ⟨.present w, .present hheld, hw.mono fun depth hdepth scope holder _ ho _ => ?_⟩
    simp [Shape.reading, Expression.eval, ho, hcount, hdepth scope holder "0" ho rfl]
  · rw [if_neg hcount]
    refine ⟨.absent, .absent, .of_forall fun depth scope holder _ ho _ => ?_⟩
    simp [Shape.reading, Expression.eval, ho, hcount]

/-- A list is read if every stored item is. -/
theorem readsAs_list (i : Nat) :
    ReadsAs s (.list inner) o f i ((Shape.list inner).load record o f i) := by
  have hitem : ∀ i ∈ List.range (o.count inner.kind f).toNat,
      ReadsAs s inner o f i (inner.load record o f i) := by
    intro i hi
    refine readsAs_single hsingle ?_
    rintro b rfl
    have hstored := Wire.Fields.lt_length_of_lt_count (List.mem_range.mp hi)
    exact hless b rfl _ (Wire.Fields.depth_child_lt hstored)
  choose! w hheld hw using hitem
  refine ⟨.list ((List.range (o.count inner.kind f).toNat).map w), ?_, ?_⟩
  · have hitems : ∀ p ∈ (List.range (o.count inner.kind f).toNat).map fun i =>
        (inner.load record o f i, w i), p.1.HeldAs s inner p.2 := List.forall_mem_map.mpr hheld
    simpa [Shape.load, Function.comp_def] using Data.HeldAs.list hitems
  · filter_upwards [Code.eventually_forall_mem hw] with depth hdepth scope holder _ ho _
    have hitems := Code.mapM_eq_some fun i hi =>
      hdepth i hi (scope.count "i" i) holder "i" ho (by simp [Scope.position?, Scope.count])
    simp [Shape.reading, Expression.eval, ho, hitems]

/-- A map with scalar keys is read if the value of every stored entry is. -/
theorem readsAs_map {k : Scalar} (i : Nat) :
    ReadsAs s (.map (.scalar k) inner) o f i
      ((Shape.map (.scalar k) inner).load record o f i) := by
  have hkey := fun i => readsAs_scalar s k (o.child f i) entryKey 0
  have hitem : ∀ i ∈ List.range (o.count .object f).toNat,
      ReadsAs s inner (o.child f i) entryValue 0
        (inner.load record (o.child f i) entryValue 0) := by
    intro i hi
    refine readsAs_single hsingle ?_
    rintro b rfl
    have hentry := Wire.Fields.depth_child_lt
      (Wire.Fields.lt_length_of_lt_count (List.mem_range.mp hi))
    -- the entry is stored, so its value is less deep than the object even if it is not
    exact hless b rfl _ (lt_of_le_of_lt (Wire.Fields.depth_child_le _ _ _) hentry)
  choose p hp hpeval using hkey
  choose! w hheld hw using hitem
  let row (i : Nat) : Row :=
    ⟨(o.child f i).index k.kind entryKey 0, inner.load record (o.child f i) entryValue 0, p i, w i⟩
  refine ⟨.map ((List.range (o.count .object f).toNat).foldl
    (fun entries i => Instance.insertEntry (p i) (w i) entries) []), ?_, ?_⟩
  · have hkeys : ∀ r ∈ (List.range (o.count .object f).toNat).map row,
        r.key.kind = k.kind ∧ Primitive.ofValue? r.key = some r.heldKey :=
      List.forall_mem_map.mpr fun i _ => ⟨Wire.Fields.kind_index _ _ _ _, hp i⟩
    have hrows := Replica.heldAs_foldl hkeys (List.forall_mem_map.mpr hheld)
      Replica.heldAs_map_nil
    simpa [Shape.load, Shape.kind, Entries.ofList, List.foldl_map, row] using hrows
  · filter_upwards [Code.eventually_forall_mem fun i _ => hpeval i, Code.eventually_forall_mem hw]
      with depth hkeys hitems scope holder _ ho _
    rw [Shape.reading, Expression.eval, ho, Option.bind_eq_bind, Option.bind_some,
      Code.foldlM_eq_some]
    · rfl
    intro i hi entries
    have hkeyEval := hkeys i hi ((scope.count "i" i).bind "entry" (o.child f i)) ["entry"] "0"
      rfl rfl
    have hitemEval := hitems i hi ((scope.count "i" i).bind "entry" (o.child f i)) ["entry"] "0"
      rfl rfl
    simp only [hkeyEval, hitemEval]

end Containers

/-- The value of a flat shape is read if user types are loaded: for a single value from the child
that is read, stored or not, and inside a container from everything less deep than the object. -/
theorem readsAs_load {s : Linked} {shape : Shape} (flat : shape.isFlat)
    (keys : ∀ key ∈ shape.keys, ∃ k : Scalar, key = .scalar k ∧ k.isHashable)
    {record : String → Object → Data} {o : Object} {f : FieldId}
    (hvalue : ∀ b, shape = .reference b → s.LoadsAs b (o.child f 0) (record b (o.child f 0)))
    (hinner : ∀ b ∈ shape.references, ∀ child : Object, child.depth < o.depth →
      s.LoadsAs b child (record b child)) : ReadsAs s shape o f 0 (shape.load record o f 0) := by
  cases shape with
  | scalar k => exact readsAs_single rfl hvalue
  | reference b => exact readsAs_single rfl hvalue
  | option inner =>
      apply readsAs_option (by simpa [Shape.isFlat] using flat)
      rintro b rfl
      exact hinner b List.mem_cons_self
  | list inner =>
      apply readsAs_list (by simpa [Shape.isFlat] using flat)
      rintro b rfl
      exact hinner b List.mem_cons_self
  | map key value =>
      obtain ⟨k, rfl, -⟩ := keys key List.mem_cons_self
      apply readsAs_map (by simpa [Shape.isFlat, Shape.isContainer] using flat)
      rintro b rfl
      exact hinner b List.mem_cons_self

/-! ### Structures -/

/-- The structure that is loaded has each field where it is looked for. -/
theorem operand_loadedMembers {t : UserType} (distinct : (t.members.map Code.Member.name).Nodup)
    (loaded : Field → Instance) {f : Field} (hf : f ∈ t.fields) :
    f.operand.eval ⟨.record (Code.loadedMembers t loaded), []⟩ = some (loaded f) := by
  have hmem : (f.name, Code.loadedMember f (loaded f)) ∈ Code.loadedMembers t loaded :=
    List.mem_append_left _ (List.mem_map_of_mem (f := fun f => (f.name, _)) hf)
  have hlookup := Wire.Fields.lookup_of_mem
    ((Code.names_loadedMembers t loaded).symm ▸ distinct) hmem
  unfold Field.operand
  cases htracked : f.isTracked with
  | false => simp [Code.Operand.eval, Instance.member?, hlookup, Code.loadedMember, htracked]
  | true => simp [Code.Operand.eval, Instance.member?, hlookup, Code.loadedMember, htracked]

/-- A type is loaded where the values of all its fields are read. -/
theorem loadsAs_of_readsAs {s : Linked} (sound : s.Sound) {type : String} {t : UserType}
    (ht : s.type? type = some t) {o : Object} {value : Field → Data}
    (h : ∀ f ∈ t.fields, ReadsAs s f.shape o f.id 0 (value f)) :
    s.LoadsAs type o (.record (t.fields.map value)) := by
  choose! loaded hheld hloaded using h
  have hnames := sound.memberNames t (List.mem_of_find?_eq_some ht)
  refine ⟨.record (Code.loadedMembers t loaded), ?_, Code.eventually_of_succ ?_⟩
  · have hslots : (t.fields.map fun f => (f, value f, loaded f)).map Prod.fst = t.fields := by
      simp [Function.comp_def]
    have hrecord := Data.HeldAs.record ht hslots
      (List.forall_mem_map.mpr fun f hf => operand_loadedMembers hnames loaded hf)
      (List.forall_mem_map.mpr hheld)
    simpa [Function.comp_def] using hrecord
  filter_upwards [Code.eventually_forall_mem hloaded] with depth hdepth
  have hfields : ∀ f ∈ t.fields, (f.shape.reading ["object"] f.id "0").eval (s.deserialize depth)
      ⟨[(["object"], o)], []⟩ = some (loaded f) := fun f hf => hdepth f hf _ _ _ rfl rfl
  rw [Linked.deserialize, ht, Option.bind_eq_bind, Option.bind_some, Code.mapM_loadings hfields]
  rfl

/-! ### All objects -/

namespace Registry

variable {r : Registry} {s : Linked} (registered : r.Registered) (linked : r.link = .ok s)

include registered linked

/-- A type is loaded, with one level more, where the types of its fields are: those of single values
from the children that are read, and all others from what is less deep than the object. -/
theorem loadsAs_succ {a : String} {t : UserType} (ht : s.type? a = some t) {o : Object}
    {levels : Nat}
    (hvalue : ∀ f b u, s.Requires a b → s.type? b = some u →
      s.LoadsAs b (o.child f 0) (s.loadLevels levels b (o.child f 0)))
    (hinner : ∀ b u, s.type? b = some u → ∀ child : Object, child.depth < o.depth →
      s.LoadsAs b child (s.loadLevels levels b child)) :
    s.LoadsAs a o (s.loadLevels (levels + 1) a o) := by
  have sound := registered.sound_of_link linked
  have hmem : t ∈ s.types := List.mem_of_find?_eq_some ht
  have hfields : s.fieldsOf a = t.fields := by simp [Linked.fieldsOf, ht]
  rw [Linked.loadLevels, hfields]
  refine loadsAs_of_readsAs sound ht fun f hf => ?_
  have hresolves := resolves_of_link linked hmem hf
  refine readsAs_load (sound.flat t hmem f hf) hresolves.keys ?_ ?_
  · intro b hb
    have hrequires : s.Requires a b := ⟨t, ht, f, hf, hb⟩
    obtain ⟨u, hu⟩ := exists_type?_of_holds linked hrequires.holds
    exact hvalue f.id b u hrequires hu
  · intro b hb child hless
    obtain ⟨u, hu⟩ := exists_type?_of_registers linked (hresolves.references b hb)
    exact hinner b u hu child hless

/-- From the empty object a type is loaded with as many levels as it can open. -/
theorem loadsAs_empty {rank : String → Nat} (hrank : ∀ a b, s.Requires a b → rank b < rank a)
    {levels : Nat} {a : String} {t : UserType} (ht : s.type? a = some t)
    (hlevels : rank a < levels) : s.LoadsAs a .empty (s.loadLevels levels a .empty) := by
  induction levels generalizing a t with
  | zero => cases hlevels
  | succ levels ih =>
      refine loadsAs_succ registered linked ht ?_ ?_
      · intro f b u hrequires hu
        exact ih hu (lt_of_lt_of_le (hrank a b hrequires) (Nat.le_of_lt_succ hlevels))
      · intro b u hu child hless
        exact absurd hless (Nat.not_lt.mpr (Nat.succ_le_of_lt child.depth_pos))

/-- Where no type has itself as a single value, every type is loaded from every object, as the data
that is found with enough levels. -/
theorem Registered.loadsAs_loadLevels (acyclic : Acyclic s.Requires) {levels : Nat} {a : String}
    {t : UserType} (ht : s.type? a = some t) {o : Object} (hlevels : s.levels o ≤ levels) :
    s.LoadsAs a o (s.loadLevels levels a o) := by
  obtain ⟨rank, hbound, hrank⟩ := exists_rank_of_acyclic linked (fun _ _ h => h.holds) acyclic
  unfold Linked.levels at hlevels
  induction levels generalizing a t o with
  | zero => exact absurd hlevels (by have := o.depth_pos; omega)
  | succ levels ih =>
      refine loadsAs_succ registered linked ht ?_ ?_
      · intro f b u hrequires hu
        by_cases hstored : 0 < (o.ofKind .object f).length
        · have hless := Wire.Fields.depth_child_lt hstored
          exact ih hu (by omega)
        · have hlower := hrank a b hrequires
          have hmost := hbound a
          have hpos := o.depth_pos
          rw [Wire.Fields.child_eq_empty hstored]
          exact loadsAs_empty registered linked hrank hu (by omega)
      · intro b u hu child hless
        exact ih hu (by omega)

/-- A value of a flat shape is read from every object, as the data that is found there. -/
theorem Registered.readsAs_load (acyclic : Acyclic s.Requires) {shape : Shape}
    (flat : shape.isFlat) (hresolves : r.Resolves shape) (o : Object) (f : FieldId) :
    ReadsAs s shape o f 0 (s.load shape o f) := by
  have hloads : ∀ b ∈ shape.references, ∀ child : Object, child.depth ≤ o.depth →
      s.LoadsAs b child (s.loadLevels (s.levels o) b child) := by
    intro b hb child hdepth
    obtain ⟨u, hu⟩ := exists_type?_of_registers linked (hresolves.references b hb)
    exact registered.loadsAs_loadLevels linked acyclic hu (Nat.add_le_add_right hdepth _)
  refine Schema.readsAs_load flat hresolves.keys ?_ fun b hb child hless =>
    hloads b hb child hless.le
  rintro b rfl
  exact hloads b List.mem_cons_self _ (Wire.Fields.depth_child_le o f 0)

end Registry

end EntitySchema.Schema
