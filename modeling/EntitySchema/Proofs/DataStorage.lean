import EntitySchema.Proofs.Linking
import EntitySchema.Proofs.MapOrder
import EntitySchema.Proofs.Placement

/-!
# Data survives being stored and loaded

A value of a flat shape that is stored under a field number is loaded again from where its values
stand, with its maps in order. What is stored can be sent: it is built by the operations on objects,
its counts fit 32-bit words, and its depth is bounded by that of the types it is made of.
-/

namespace EntitySchema.Wire

/-- The values can be sent: they are built by the operations and their counts fit 32-bit words. -/
structure Sendable (values : List Value) : Prop where
  built : ∀ v ∈ values, v.Built
  fits : ∀ v ∈ values, v.Fits

namespace Fields

/-- Groups whose counts fit 32-bit words make an object whose counts do. -/
theorem fits_ofGroups {groups : List (FieldId × List Value)}
    (distinct : (groups.map Prod.fst).Nodup) (hlength : groups.length < UInt32.size)
    (hcounts : ∀ g ∈ groups, g.2.length < UInt32.size) (h : ∀ g ∈ groups, Sendable g.2) :
    (ofGroups groups).Fits := by
  refine .object (Nat.lt_of_le_of_lt (length_ofGroups_le groups) hlength) ?_ ?_
  · exact fun e he => hcounts e (mem_ofGroups distinct he)
  · exact fun e he => (h e (mem_ofGroups distinct he)).fits

/-- A stored value is less deep than the object. -/
theorem depth_lt_of_mem_values {o : Object} {f : FieldId} {v : Value} (h : v ∈ o.values f) :
    v.depth < o.depth := by
  obtain ⟨e, he, hv⟩ := mem_values h
  exact Nat.lt_succ_of_le (depth_le_entriesDepth he hv)

theorem depth_ofGroups_le {groups : List (FieldId × List Value)}
    (distinct : (groups.map Prod.fst).Nodup) {n : Nat}
    (h : ∀ g ∈ groups, ∀ v ∈ g.2, v.depth ≤ n) : (ofGroups groups).depth ≤ n + 1 :=
  Nat.succ_le_succ (entriesDepth_le fun e he => h e (mem_ofGroups distinct he))

end Fields

end EntitySchema.Wire

namespace EntitySchema.Schema

open Replica (Data Entries)
open Wire (FieldId Object Sendable Value)

/-- Whether every user type in a shape is accepted. -/
def Shape.nests (record : String → Bool) : Shape → Bool
  | .scalar _ => true
  | .reference type => record type
  | .option inner | .list inner => inner.nests record
  | .map _ value => value.nests record

/-- Whether the values of a user type have at most some levels of user types in them. -/
def Linked.nests (s : Linked) : Nat → String → Bool
  | 0, _ => false
  | levels + 1, type => (s.fieldsOf type).all fun f => f.shape.nests (s.nests levels)

/-- The greatest depth of the values of a shape with some levels of user types: each level is an
object, and around it there may be the entry of a map. -/
def Shape.greatestDepth (shape : Shape) (levels : Nat) : Nat :=
  2 * levels + if shape.isContainer then 1 else 0

theorem Shape.greatestDepth_of_single {shape : Shape} (h : shape.isContainer = false)
    (levels : Nat) : shape.greatestDepth levels = 2 * levels := by
  simp [greatestDepth, h]

theorem Shape.greatestDepth_of_container {shape : Shape} (h : shape.isContainer = true)
    (levels : Nat) : shape.greatestDepth levels = 2 * levels + 1 := by
  simp [greatestDepth, h]

theorem Shape.greatestDepth_le (shape : Shape) (levels : Nat) :
    shape.greatestDepth levels ≤ 2 * levels + 1 := by
  unfold greatestDepth
  split_ifs <;> omega

/-- A value is stored as a list of values and loaded from where they stand. -/
structure Placed (s : Linked) (shape : Shape) (d : Data) (values : List Value) : Prop where
  /-- The values are of the kind that is read. -/
  kinds : ∀ x ∈ values, x.kind = shape.kind
  /-- There are no more of them than are counted. -/
  length_lt : values.length < UInt32.size
  /-- A shape that is no container stores one value. -/
  single : shape.isContainer = false → ∃ x, values = [x]
  /-- Storing stores the values. -/
  stored : ∀ (f : FieldId) (o : Object), store s d shape f o = o.pushAll f values
  /-- Loading with enough levels finds the value, with its maps in order. -/
  loaded : ∀ (levels : Nat) (o : Object) (f : FieldId) (i : Nat),
    (∀ x ∈ values, x.depth ≤ levels) → shape.view o f i = values →
    shape.load (s.loadLevels levels) o f i = d.sorted
  /-- The values can be sent. -/
  sendable : Sendable values
  /-- Their depth is bounded by that of the user types. -/
  depth_le : ∀ levels, shape.nests (s.nests levels) → ∀ x ∈ values,
    x.depth ≤ shape.greatestDepth levels

theorem placed_scalar {s : Linked} {k : Scalar} {v : Value} (hkind : v.kind = k.kind)
    (hfits : v.Fits) : Placed s (.scalar k) (.scalar v) [v] := by
  have hsingle : v.kind ≠ .object := hkind ▸ k.kind_ne_object
  have hdepth : v.depth = 0 := by
    cases v with
    | object o => exact absurd rfl hsingle
    | _ => rfl
  refine ⟨by simpa [Shape.kind] using hkind, by simp, fun _ => ⟨v, rfl⟩, ?_, ?_, ?_, ?_⟩
  · intro f o
    rw [store, Wire.Fields.push_eq_pushAll]
  · intro levels o f i _ hview
    have hindex : (o.ofKind k.kind f)[i]? = some v := by
      simpa [Shape.view, Shape.isContainer, Shape.kind] using hview
    simp [Shape.load, Wire.Fields.index, hindex, Data.sorted]
  · exact ⟨by simpa using .single hsingle, by simpa using hfits⟩
  · intro levels _
    simp [hdepth]

theorem placed_absent {s : Linked} {inner : Shape} : Placed s (.option inner) .absent [] := by
  refine ⟨by simp, by simp, by simp [Shape.isContainer], ?_, ?_, ⟨by simp, by simp⟩, by simp⟩
  · intro f o
    simp [store]
  · intro levels o f i _ hview
    have hvalues : o.ofKind inner.kind f = [] := by
      simpa [Shape.view, Shape.isContainer, Shape.kind] using hview
    have hcount : ¬ 0 < o.count inner.kind f := by simp [count_pos_iff hvalues]
    simp [Shape.load, hcount, Data.sorted]

theorem Placed.present {s : Linked} {inner : Shape} {d : Data} {x : Value}
    (h : Placed s inner d [x]) (hinner : inner.isContainer = false) :
    Placed s (.option inner) (.present d) [x] := by
  refine ⟨h.kinds, h.length_lt, by simp [Shape.isContainer], ?_, ?_, h.sendable, ?_⟩
  · intro f o
    rw [store, h.stored]
  · intro levels o f i hlevels hview
    have hvalues : o.ofKind inner.kind f = [x] := by
      simpa [Shape.view, Shape.isContainer, Shape.kind] using hview
    have hcount : 0 < o.count inner.kind f := by simp [count_pos_iff hvalues h.length_lt]
    have hcontent := h.loaded levels o f 0 hlevels (by simp [Shape.view, hinner, hvalues])
    simp [Shape.load, hcount, hcontent, Data.sorted]
  · intro levels hnests x hx
    have hdepth := h.depth_le levels hnests x hx
    rw [Shape.greatestDepth_of_single hinner] at hdepth
    rw [Shape.greatestDepth_of_container rfl]
    exact hdepth.trans (Nat.le_succ _)

theorem map_range_eq {α β : Type} {as : List α} {g : Nat → β} {r : α → β}
    (h : ∀ (i : Nat) (hi : i < as.length), g i = r as[i]) :
    (List.range as.length).map g = as.map r := by
  apply List.ext_getElem
  · simp
  · intro i hi _
    have hi : i < as.length := by simpa using hi
    simp [h i hi]

theorem storeItems_eq {s : Linked} {inner : Shape} {items : List Data} {x : Data → Value}
    (h : ∀ d ∈ items, Placed s inner d [x d]) (f : FieldId) (o : Object) :
    storeItems s items inner f o = o.pushAll f (items.map x) := by
  induction items generalizing o with
  | nil => simp [storeItems]
  | cons d rest ih =>
      rw [storeItems, (h d List.mem_cons_self).stored,
        ih fun c hc => h c (List.mem_cons_of_mem d hc), Wire.Fields.pushAll_pushAll]
      rfl

theorem placed_list {s : Linked} {inner : Shape} {items : List Data} {x : Data → Value}
    (h : ∀ d ∈ items, Placed s inner d [x d]) (hinner : inner.isContainer = false)
    (hlength : items.length < UInt32.size) :
    Placed s (.list inner) (.list items) (items.map x) := by
  refine ⟨?_, by simpa using hlength, by simp [Shape.isContainer], ?_, ?_, ⟨?_, ?_⟩, ?_⟩
  · intro y hy
    obtain ⟨d, hd, rfl⟩ := List.mem_map.mp hy
    exact (h d hd).kinds (x d) (by simp)
  · intro f o
    rw [store, storeItems_eq h]
  · intro levels o f i hlevels hview
    have hvalues : o.ofKind inner.kind f = items.map x := by
      simpa [Shape.view, Shape.isContainer, Shape.kind] using hview
    have hcount : (o.count inner.kind f).toNat = items.length := by
      rw [toNat_count hvalues (by simpa using hlength), List.length_map]
    have hitems := map_range_eq (r := Data.sorted) fun i (hi : i < items.length) =>
      (h items[i] (List.getElem_mem hi)).loaded levels o f i
        (by simpa using hlevels (x items[i]) (List.mem_map_of_mem (List.getElem_mem hi)))
        (by simp [Shape.view, hinner, hvalues, hi])
    rw [Shape.load, hcount, hitems, Data.sorted_list]
  · intro y hy
    obtain ⟨d, hd, rfl⟩ := List.mem_map.mp hy
    exact (h d hd).sendable.built (x d) (by simp)
  · intro y hy
    obtain ⟨d, hd, rfl⟩ := List.mem_map.mp hy
    exact (h d hd).sendable.fits (x d) (by simp)
  · intro levels hnests y hy
    obtain ⟨d, hd, rfl⟩ := List.mem_map.mp hy
    have hdepth := (h d hd).depth_le levels hnests (x d) (by simp)
    rw [Shape.greatestDepth_of_single hinner] at hdepth
    rw [Shape.greatestDepth_of_container rfl]
    exact hdepth.trans (Nat.le_succ _)

/-- Values that are sent with their keys make an entry of a map that can be sent. -/
theorem sendable_entryObject {key item : Value} (hkey : Sendable [key]) (hitem : Sendable [item]) :
    Sendable [.object (entryObject key item)] := by
  have hgroups : ∀ g ∈ [(entryKey, [key]), (entryValue, [item])], Sendable g.2 := by
    simpa using ⟨hkey, hitem⟩
  have hfits : (Value.object (entryObject key item)).Fits :=
    Wire.Fields.fits_ofGroups (distinct_entryObject key item)
      (by decide : 2 < UInt32.size) (by simp) hgroups
  have hbuilt := Wire.Fields.built_ofGroups fun g hg => (hgroups g hg).built
  exact ⟨by simpa using .object hbuilt, by simpa using hfits⟩

theorem storeEntries_eq {s : Linked} {inner : Shape} {entries : Entries}
    {item : Value × Data → Value} (hitems : ∀ e ∈ entries, Placed s inner e.2 [item e])
    (f : FieldId) (o : Object) :
    storeEntries s entries inner f o =
      o.pushAll f (entries.map fun e => .object (entryObject e.1 (item e))) := by
  induction entries generalizing o with
  | nil => simp [storeEntries]
  | cons e rest ih =>
      obtain ⟨key, d⟩ := e
      rw [storeEntries, (hitems (key, d) List.mem_cons_self).stored,
        ih fun c hc => hitems c (List.mem_cons_of_mem _ hc), Wire.Fields.push_eq_pushAll,
        Wire.Fields.push_eq_pushAll, Wire.Fields.pushAll_pushAll]
      rfl

/-- The key and the value of an entry are loaded from its child object. -/
theorem load_entryObject {s : Linked} {k : Scalar} {inner : Shape} {key item : Value} {d : Data}
    (hkey : key.kind = k.kind) (hitem : Placed s inner d [item]) {levels : Nat}
    (hlevels : (entryObject key item).depth ≤ levels) :
    (entryObject key item).index k.kind entryKey 0 = key ∧
      inner.load (s.loadLevels levels) (entryObject key item) entryValue 0 = d.sorted := by
  constructor
  · rw [Wire.Fields.index, ofKind_of_values (values_entryObject_key key item)
      (by simpa using hkey)]
    rfl
  · have hview := Shape.view_eq_values (values_entryObject_item key item) hitem.kinds
      hitem.single
    refine hitem.loaded levels _ entryValue 0 (fun x hx => ?_) hview
    have hlt : x.depth < (entryObject key item).depth :=
      Wire.Fields.depth_lt_of_mem_values (f := entryValue) (by rwa [values_entryObject_item])
    exact hlt.le.trans hlevels

/-- A map is loaded, with its entries in order, from where the objects of its entries stand. -/
theorem load_entryObjects {s : Linked} {k : Scalar} {inner : Shape} {entries : Entries}
    {item : Value × Data → Value} (hkeys : ∀ e ∈ entries, e.1.kind = k.kind)
    (hitems : ∀ e ∈ entries, Placed s inner e.2 [item e]) (hlength : entries.length < UInt32.size)
    {levels : Nat} (hlevels : ∀ e ∈ entries, (entryObject e.1 (item e)).depth ≤ levels)
    {o : Object} {f : FieldId}
    (hvalues : o.ofKind .object f = entries.map fun e => .object (entryObject e.1 (item e)))
    (i : Nat) :
    (Shape.map (.scalar k) inner).load (s.loadLevels levels) o f i = (Data.map entries).sorted := by
  have hcount : (o.count .object f).toNat = entries.length := by
    rw [toNat_count hvalues (by simpa using hlength), List.length_map]
  have hentry : ∀ (i : Nat) (hi : i < entries.length),
      ((o.child f i).index k.kind entryKey 0,
        inner.load (s.loadLevels levels) (o.child f i) entryValue 0) =
        (entries[i].1, entries[i].2.sorted) := by
    intro i hi
    have he : entries[i] ∈ entries := List.getElem_mem hi
    have hchild : o.child f i = entryObject entries[i].1 (item entries[i]) :=
      child_of_ofKind (by simp [hvalues, hi])
    obtain ⟨hindex, hload⟩ := load_entryObject (hkeys _ he) (hitems _ he) (hlevels _ he)
    rw [hchild, hindex, hload]
  rw [Shape.load, hcount, Data.sorted_map]
  simp only [Shape.kind]
  rw [map_range_eq (r := fun e => (e.1, e.2.sorted)) hentry]

theorem placed_map {s : Linked} {k : Scalar} {inner : Shape} {entries : Entries}
    {item : Value × Data → Value}
    (hkeys : ∀ e ∈ entries, e.1.kind = k.kind ∧ e.1.Fits)
    (hitems : ∀ e ∈ entries, Placed s inner e.2 [item e]) (hinner : inner.isContainer = false)
    (hlength : entries.length < UInt32.size) :
    Placed s (.map (.scalar k) inner) (.map entries)
      (entries.map fun e => .object (entryObject e.1 (item e))) := by
  have hkey : ∀ e ∈ entries, Placed s (.scalar k) (.scalar e.1) [e.1] := fun e he =>
    placed_scalar (hkeys e he).1 (hkeys e he).2
  have hsendable : ∀ e ∈ entries, Sendable [.object (entryObject e.1 (item e))] := fun e he =>
    sendable_entryObject (hkey e he).sendable (hitems e he).sendable
  refine ⟨?_, by simpa using hlength, by simp [Shape.isContainer], ?_, ?_, ⟨?_, ?_⟩, ?_⟩
  · intro y hy
    obtain ⟨e, _, rfl⟩ := List.mem_map.mp hy
    rfl
  · intro f o
    rw [store, storeEntries_eq hitems]
  · intro levels o f i hlevels hview
    exact load_entryObjects (fun e he => (hkeys e he).1) hitems hlength
      (fun e he => hlevels _ (List.mem_map_of_mem he))
      (by simpa [Shape.view, Shape.isContainer, Shape.kind] using hview) i
  · intro y hy
    obtain ⟨e, he, rfl⟩ := List.mem_map.mp hy
    exact (hsendable e he).built _ List.mem_cons_self
  · intro y hy
    obtain ⟨e, he, rfl⟩ := List.mem_map.mp hy
    exact (hsendable e he).fits _ List.mem_cons_self
  · intro levels hnests y hy
    obtain ⟨e, he, rfl⟩ := List.mem_map.mp hy
    have hkeyDepth := (hkey e he).depth_le levels rfl e.1 List.mem_cons_self
    have hitemDepth := (hitems e he).depth_le levels hnests (item e) List.mem_cons_self
    rw [Shape.greatestDepth_of_single rfl] at hkeyDepth
    rw [Shape.greatestDepth_of_single hinner] at hitemDepth
    rw [Shape.greatestDepth_of_container rfl]
    exact Wire.Fields.depth_ofGroups_le (distinct_entryObject _ _)
      (by simpa using ⟨hkeyDepth, hitemDepth⟩)

/-! ### User types -/

theorem map_zip_fst {α β γ : Type} {as : List α} {bs : List β} (h : bs.length = as.length)
    (g : α → γ) : ((as.zip bs).map fun p => g p.1) = as.map g := by
  have hfst : (as.zip bs).map Prod.fst = as := List.map_fst_zip h.ge
  calc ((as.zip bs).map fun p => g p.1) = ((as.zip bs).map Prod.fst).map g := by
        simp [Function.comp_def]
    _ = as.map g := by rw [hfst]

/-- The groups of values of the members of a user type, by the numbers of the fields. -/
def memberGroups (fields : List Field) (members : List Data) (values : Field × Data → List Value) :
    List (FieldId × List Value) :=
  (fields.zip members).map fun p => (p.1.id, values p)

theorem map_fst_memberGroups {fields : List Field} {members : List Data}
    (hlength : members.length = fields.length) (values : Field × Data → List Value) :
    (memberGroups fields members values).map Prod.fst = fields.map Field.id := by
  rw [memberGroups, List.map_map]
  exact map_zip_fst hlength Field.id

theorem storeFields_eq {s : Linked} {fields : List Field} {members : List Data}
    {values : Field × Data → List Value}
    (h : ∀ p ∈ fields.zip members, Placed s p.1.shape p.2 (values p)) (o : Object) :
    storeFields s members fields o =
      (memberGroups fields members values).foldl (fun o g => o.pushAll g.1 g.2) o := by
  induction fields generalizing members o with
  | nil => cases members <;> simp [storeFields, memberGroups]
  | cons f rest ih =>
      cases members with
      | nil => simp [storeFields, memberGroups]
      | cons d ds =>
          have hd : store s d f.shape f.id o = o.pushAll f.id (values (f, d)) :=
            (h (f, d) List.mem_cons_self).stored f.id o
          have hrest : ∀ p ∈ rest.zip ds, Placed s p.1.shape p.2 (values p) := fun p hp =>
            h p (List.mem_cons_of_mem _ hp)
          rw [storeFields, hd, ih hrest]
          rfl

theorem map_eq_of_zip {α β γ : Type} {as : List α} {bs : List β} {g : α → γ} {r : β → γ}
    (hlength : bs.length = as.length) (h : ∀ p ∈ as.zip bs, g p.1 = r p.2) :
    as.map g = bs.map r := by
  induction as generalizing bs with
  | nil =>
      rw [List.eq_nil_of_length_eq_zero hlength]
      rfl
  | cons a rest ih =>
      cases bs with
      | nil => simp at hlength
      | cons b bs =>
          have hb : g a = r b := h (a, b) List.mem_cons_self
          rw [List.map_cons, List.map_cons, hb, ih (by simpa using hlength) fun p hp =>
            h p (List.mem_cons_of_mem _ hp)]

theorem mem_memberGroups {fields : List Field} {members : List Data}
    {values : Field × Data → List Value} {g : FieldId × List Value}
    (hg : g ∈ memberGroups fields members values) :
    ∃ p ∈ fields.zip members, g = (p.1.id, values p) := by
  obtain ⟨p, hp, rfl⟩ := List.mem_map.mp hg
  exact ⟨p, hp, rfl⟩

/-- Members that are placed make an object that can be sent. -/
theorem sendable_memberGroups {s : Linked} {fields : List Field} {members : List Data}
    {values : Field × Data → List Value}
    (h : ∀ p ∈ fields.zip members, Placed s p.1.shape p.2 (values p))
    (distinct : ((memberGroups fields members values).map Prod.fst).Nodup)
    (hlength : members.length = fields.length) (hfields : fields.length < UInt32.size) :
    Sendable [.object (.ofGroups (memberGroups fields members values))] := by
  have hsendable : ∀ g ∈ memberGroups fields members values, Sendable g.2 := by
    intro g hg
    obtain ⟨p, hp, rfl⟩ := mem_memberGroups hg
    exact (h p hp).sendable
  have hfits : (Value.object (.ofGroups (memberGroups fields members values))).Fits := by
    refine Wire.Fields.fits_ofGroups distinct ?_ ?_ hsendable
    · simpa [memberGroups, hlength] using hfields
    · intro g hg
      obtain ⟨p, hp, rfl⟩ := mem_memberGroups hg
      exact (h p hp).length_lt
  have hbuilt := Wire.Fields.built_ofGroups fun g hg => (hsendable g hg).built
  exact ⟨by simpa using .object hbuilt, by simpa using hfits⟩

/-- A user type is loaded from the object of its members, with as many levels as the object has. -/
theorem loadLevels_memberGroups {s : Linked} {type : String} {members : List Data}
    {values : Field × Data → List Value}
    (hlength : members.length = (s.fieldsOf type).length)
    (h : ∀ p ∈ (s.fieldsOf type).zip members, Placed s p.1.shape p.2 (values p))
    (distinct : ((memberGroups (s.fieldsOf type) members values).map Prod.fst).Nodup) {levels : Nat}
    (hdepth : (Wire.Fields.ofGroups
      (memberGroups (s.fieldsOf type) members values)).depth ≤ levels) :
    s.loadLevels levels type (.ofGroups (memberGroups (s.fieldsOf type) members values)) =
      (Data.record members).sorted := by
  cases levels with
  | zero => exact absurd hdepth (Nat.not_succ_le_zero _)
  | succ levels =>
      rw [Linked.loadLevels, Data.sorted_record]
      refine congrArg Data.record (map_eq_of_zip hlength fun p hp => ?_)
      have hvalues : (Wire.Fields.ofGroups
          (memberGroups (s.fieldsOf type) members values)).values p.1.id = values p :=
        Wire.Fields.values_ofGroups distinct
          (List.mem_map_of_mem (f := fun p => (p.1.id, values p)) hp)
      refine (h p hp).loaded levels _ p.1.id 0 ?_
        (Shape.view_eq_values hvalues (h p hp).kinds (h p hp).single)
      intro x hx
      have hlt := Wire.Fields.depth_lt_of_mem_values (hvalues ▸ hx)
      exact Nat.le_of_lt_succ (Nat.lt_of_lt_of_le hlt hdepth)

theorem placed_record {s : Linked} {type : String} {members : List Data}
    {values : Field × Data → List Value}
    (hlength : members.length = (s.fieldsOf type).length)
    (h : ∀ p ∈ (s.fieldsOf type).zip members, Placed s p.1.shape p.2 (values p))
    (ids : ((s.fieldsOf type).map Field.id).Nodup)
    (hfields : (s.fieldsOf type).length < UInt32.size) :
    Placed s (.reference type) (.record members)
      [.object (.ofGroups (memberGroups (s.fieldsOf type) members values))] := by
  have distinct : ((memberGroups (s.fieldsOf type) members values).map Prod.fst).Nodup := by
    rwa [map_fst_memberGroups hlength]
  refine ⟨by simp [Shape.kind, Value.kind], by simp, fun _ => ⟨_, rfl⟩, ?_, ?_,
    sendable_memberGroups h distinct hlength hfields, ?_⟩
  · intro f o
    rw [store, storeFields_eq h, Wire.Fields.push_eq_pushAll]
    rfl
  · intro levels o f i hlevels hview
    have hindex : (o.ofKind .object f)[i]? =
        some (.object (.ofGroups (memberGroups (s.fieldsOf type) members values))) := by
      simpa [Shape.view, Shape.isContainer, Shape.kind] using hview
    rw [Shape.load, child_of_ofKind hindex]
    exact loadLevels_memberGroups hlength h distinct (hlevels _ List.mem_cons_self)
  · intro levels hnests x hx
    rw [List.mem_singleton.mp hx, Shape.greatestDepth_of_single rfl]
    cases levels with
    | zero => cases hnests
    | succ levels =>
        have hall : ∀ f ∈ s.fieldsOf type, f.shape.nests (s.nests levels) :=
          List.all_eq_true.mp hnests
        refine Wire.Fields.depth_ofGroups_le (n := 2 * levels + 1) distinct fun g hg v hv => ?_
        obtain ⟨p, hp, rfl⟩ := mem_memberGroups hg
        exact ((h p hp).depth_le levels (hall p.1 (List.of_mem_zip hp).1) v hv).trans
          (p.1.shape.greatestDepth_le levels)

/-! ### All data -/

/-- A property of no fields and of the fields of all types is one of the fields of any name. -/
theorem Linked.fieldsOf_cases {s : Linked} {P : List Field → Prop} (hnone : P [])
    (htypes : ∀ t ∈ s.types, P t.fields) (type : String) : P (s.fieldsOf type) := by
  unfold fieldsOf
  cases ht : s.type? type with
  | none => exact hnone
  | some t => exact htypes t (List.mem_of_find?_eq_some ht)

section Visited

variable {s : Linked} {shape inner : Shape} {type : String}

/-- What can be placed under a shape that is no container is placed as one value. -/
theorem exists_placed_single {d : Data} (hinner : inner.isContainer = false)
    (h : inner.isFlat → ∃ values, Placed s inner d values) : ∃ x, Placed s inner d [x] := by
  obtain ⟨values, hvalues⟩ := h (Shape.isFlat_of_single hinner)
  obtain ⟨x, rfl⟩ := hvalues.single hinner
  exact ⟨x, hvalues⟩

/-- A user type is placed when each of its members is. -/
theorem exists_placed_record (sound : s.Sound)
    (small : ∀ t ∈ s.types, t.fields.length < UInt32.size) {members : List Data}
    (hlength : members.length = (s.fieldsOf type).length)
    (h : ∀ p ∈ (s.fieldsOf type).zip members, p.1.shape.isFlat →
      ∃ values, Placed s p.1.shape p.2 values) :
    ∃ values, Placed s (.reference type) (.record members) values := by
  have hflats : ∀ f ∈ s.fieldsOf type, f.shape.isFlat :=
    Linked.fieldsOf_cases (P := fun fields => ∀ f ∈ fields, f.shape.isFlat) (by simp) sound.flat
      type
  have ids : ((s.fieldsOf type).map Field.id).Nodup :=
    Linked.fieldsOf_cases (P := fun fields => (fields.map Field.id).Nodup) List.nodup_nil
      sound.fieldIds type
  have hfields : (s.fieldsOf type).length < UInt32.size :=
    Linked.fieldsOf_cases (P := fun fields => fields.length < UInt32.size) (by decide) small type
  have hplaced : ∀ p ∈ (s.fieldsOf type).zip members, ∃ values, Placed s p.1.shape p.2 values :=
    fun p hp => h p hp (hflats p.1 (List.of_mem_zip hp).1)
  choose! values hvalues using hplaced
  exact ⟨_, placed_record hlength hvalues ids hfields⟩

/-- A list is placed when each of its items is. -/
theorem exists_placed_list {items : List Data} (hlength : items.length < UInt32.size)
    (hinner : inner.isContainer = false) (h : ∀ d ∈ items, ∃ x, Placed s inner d [x]) :
    ∃ values, Placed s (.list inner) (.list items) values := by
  choose! x hx using h
  exact ⟨_, placed_list hx hinner hlength⟩

/-- A map is placed when the value of each of its entries is. -/
theorem exists_placed_map {k : Scalar} {entries : Entries} (hlength : entries.length < UInt32.size)
    (hinner : inner.isContainer = false) (hkeys : ∀ e ∈ entries, e.1.kind = k.kind ∧ e.1.Fits)
    (h : ∀ e ∈ entries, ∃ x, Placed s inner e.2 [x]) :
    ∃ values, Placed s (.map (.scalar k) inner) (.map entries) values := by
  choose! item hitem using h
  exact ⟨_, placed_map hkeys hitem hinner hlength⟩

/-- In a sound schema every value of a flat shape, with its maps visited in any order, is stored so
that it is loaded again and can be sent. -/
theorem exists_placed (sound : s.Sound) (small : ∀ t ∈ s.types, t.fields.length < UInt32.size)
    {d visited : Data} (h : d.HasShape s shape) (hvisited : d.VisitedAs visited)
    (hflat : shape.isFlat) : ∃ values, Placed s shape visited values := by
  induction h generalizing visited with
  | scalar hkind hfits =>
      cases hvisited with
      | scalar v => exact ⟨_, placed_scalar hkind hfits⟩
  | @record type members hlength _ ih =>
      cases hvisited with
      | @record members hmembers =>
          refine exists_placed_record sound small (by simpa using hlength) ?_
          rw [List.zip_map_right, List.forall_mem_map]
          intro p hp
          have hfst : (p.1, p.2.1) ∈ (s.fieldsOf type).zip (members.map Prod.fst) := by
            rw [List.zip_map_right]
            exact List.mem_map_of_mem (f := Prod.map id Prod.fst) hp
          exact ih (p.1, p.2.1) hfst (hmembers p.2 (List.of_mem_zip hp).2)
  | absent =>
      cases hvisited with
      | absent => exact ⟨[], placed_absent⟩
  | @present inner d _ ih =>
      cases hvisited with
      | present hcontent =>
          have hinner : inner.isContainer = false := by simpa [Shape.isFlat] using hflat
          obtain ⟨x, hx⟩ := exists_placed_single hinner (ih hcontent)
          exact ⟨[x], hx.present hinner⟩
  | @list inner items hlength _ ih =>
      cases hvisited with
      | @list items hitems =>
          have hinner : inner.isContainer = false := by simpa [Shape.isFlat] using hflat
          refine exists_placed_list (by simpa using hlength) hinner ?_
          rw [List.forall_mem_map]
          exact fun p hp =>
            exists_placed_single hinner (ih p.1 (List.mem_map_of_mem hp) (hitems p hp))
  | @map k inner entries hlength _ hkeys _ ih =>
      cases hvisited with
      | @map _ order hperm horder =>
          have hinner : inner.isContainer = false := by
            simpa [Shape.isFlat, Shape.isContainer] using hflat
          have hmem : ∀ e ∈ order, (e.1, e.2.1) ∈ entries := fun e he =>
            hperm.mem_iff.mp (List.mem_map_of_mem (f := fun e => (e.1, e.2.1)) he)
          have hcount : order.length = entries.length := by simpa using hperm.length_eq
          apply exists_placed_map
          · simpa [hcount] using hlength
          · exact hinner
          · rw [List.forall_mem_map]
            exact fun e he => hkeys (e.1, e.2.1) (hmem e he)
          · rw [List.forall_mem_map]
            exact fun e he =>
              exists_placed_single hinner (ih (e.1, e.2.1) (hmem e he) (horder e he))

end Visited

end EntitySchema.Schema
