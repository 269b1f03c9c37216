import EntitySchema.Proofs.MapOrder
import EntitySchema.Proofs.StructureRoundTrip

/-!
# Data as generated code holds it

`Data` says what a value is, and `Instance` how generated code holds it while it runs: members by
name, with dirty bits in the data of components, and maps in the order in which they are visited.
`Data.HeldAs` relates the two. Generated code that stores a value stores what `store` does for the
value it holds, with the entries of every map in the order in which the code visits them.

## Implementation notes

A structure holds a value if the operand of every field finds what the field holds. Members beside
the fields, the flag and the queues of a component, are not looked at. The entries of a map stand in
rows, each with both forms of the key and of the value; the rows are in the order of the code, and
sorting their keys gives the order of the data.
-/

namespace EntitySchema.Replica

open Code (Frame Holder Instance Operand Primitive Statement)
open Filter (atTop)
open Schema
open Wire (FieldId Object Value)

/-! ### Holding a value -/

/-- An entry of a map, as data and as generated code holds it. -/
structure Row where
  /-- The key. -/
  key : Value
  /-- The value. -/
  value : Data
  /-- How the key is held. -/
  heldKey : Primitive
  /-- How the value is held. -/
  held : Instance

namespace Row

/-- The entry as data. -/
def entry (r : Row) : Value × Data := (r.key, r.value)

/-- The entry as it is held. -/
def heldEntry (r : Row) : Primitive × Instance := (r.heldKey, r.held)

end Row

/-- Generated code holds a value of a shape as an instance. -/
inductive Data.HeldAs (s : Linked) : Shape → Data → Instance → Prop
  | scalar {k : Scalar} {v : Value} {p : Primitive} : v.kind = k.kind →
    Primitive.ofValue? v = some p → HeldAs s (.scalar k) (.scalar v) (.scalar p)
  | record {type : String} {t : UserType} {self : Instance}
      {slots : List (Field × Data × Instance)} : s.type? type = some t →
    slots.map Prod.fst = t.fields →
    (∀ slot ∈ slots, slot.1.operand.eval ⟨self, []⟩ = some slot.2.2) →
    (∀ slot ∈ slots, HeldAs s slot.1.shape slot.2.1 slot.2.2) →
    HeldAs s (.reference type) (.record (slots.map fun slot => slot.2.1)) self
  | absent {inner : Shape} : HeldAs s (.option inner) .absent .absent
  | present {inner : Shape} {d : Data} {v : Instance} : HeldAs s inner d v →
    HeldAs s (.option inner) (.present d) (.present v)
  | list {inner : Shape} {items : List (Data × Instance)} :
    (∀ p ∈ items, HeldAs s inner p.1 p.2) →
    HeldAs s (.list inner) (.list (items.map Prod.fst)) (.list (items.map Prod.snd))
  | map {k : Scalar} {inner : Shape} {entries : Entries} {rows : List Row} : entries.Ascending →
    (rows.map Row.entry).Perm entries →
    (∀ r ∈ rows, r.key.kind = k.kind ∧ Primitive.ofValue? r.key = some r.heldKey) →
    (∀ r ∈ rows, HeldAs s inner r.value r.held) →
    HeldAs s (.map (.scalar k) inner) (.map entries) (.map (rows.map Row.heldEntry))

theorem heldAs_nil {s : Linked} {inner : Shape} :
    (Data.list []).HeldAs s (.list inner) (.list []) :=
  @Data.HeldAs.list s inner [] (List.forall_mem_nil _)

theorem heldAs_map_nil {s : Linked} {k : Scalar} {inner : Shape} :
    (Data.map []).HeldAs s (.map (.scalar k) inner) (.map []) :=
  @Data.HeldAs.map s k inner [] [] .nil (.refl _) (List.forall_mem_nil _) (List.forall_mem_nil _)

/-! ### Storing as loops -/

section Loops

variable {s : Linked}

theorem storeItems_eq_foldl (items : List Data) (inner : Shape) (f : FieldId) (o : Object) :
    storeItems s items inner f o = items.foldl (fun o d => store s d inner f o) o := by
  induction items generalizing o with
  | nil => rw [storeItems, List.foldl_nil]
  | cons d rest ih => rw [storeItems, ih, List.foldl_cons]

theorem storeEntries_eq_foldl (entries : Entries) (inner : Shape) (f : FieldId) (o : Object) :
    storeEntries s entries inner f o =
      entries.foldl (fun o e => o.push f (.object
        (store s e.2 inner entryValue (Wire.Fields.empty.push entryKey e.1)))) o := by
  induction entries generalizing o with
  | nil => rw [storeEntries, List.foldl_nil]
  | cons e rest ih =>
      obtain ⟨key, d⟩ := e
      rw [storeEntries, ih, List.foldl_cons]

theorem storeFields_eq_foldl {α : Type} (items : List α) (field : α → Field) (d : α → Data)
    (o : Object) :
    storeFields s (items.map d) (items.map field) o =
      items.foldl (fun o a => store s (d a) (field a).shape (field a).id o) o := by
  induction items generalizing o with
  | nil => simp [storeFields]
  | cons a rest ih => rw [List.map_cons, List.map_cons, storeFields, ih, List.foldl_cons]

end Loops

/-! ### Storing what is held -/

/-- With enough calls open at once, the code of a shape stores the instance as the value is stored. -/
def StoredLike (s : Linked) (shape : Shape) (v : Instance) (d : Data) : Prop :=
  ∀ᶠ depth in atTop, ∀ (frame : Frame) (holder : Holder) (f : FieldId) (operand : Operand)
    (o : Object), operand.eval frame = some v →
    (shape.writing holder f operand).run (s.serialize depth) frame holder o =
      some (store s d shape f o)

/-- A built-in value that is read from a value is stored as that value. -/
theorem toValue?_of_ofValue? {v : Value} {p : Primitive} (h : Primitive.ofValue? v = some p) :
    p.toValue? v.kind = some v := by
  cases v <;> cases h <;> rfl

section Storing

variable {s : Linked} {inner : Shape}

theorem storedLike_scalar {k : Scalar} {v : Value} {p : Primitive} (hkind : v.kind = k.kind)
    (hp : Primitive.ofValue? v = some p) : StoredLike s (.scalar k) (.scalar p) (.scalar v) := by
  refine .of_forall fun depth frame holder f operand o hv => ?_
  have hvalue : p.toValue? k.kind = some v := hkind ▸ toValue?_of_ofValue? hp
  simp [Shape.writing, Statement.run, hv, hvalue, store]

theorem storedLike_absent : StoredLike s (.option inner) .absent .absent := by
  refine .of_forall fun depth frame holder f operand o hv => ?_
  simp [Shape.writing, Statement.run, hv, store]

theorem StoredLike.present {v : Instance} {d : Data} (h : StoredLike s inner v d) :
    StoredLike s (.option inner) (.present v) (.present d) := by
  filter_upwards [h] with depth hdepth frame holder f operand o hv
  have hcontent := hdepth (frame.bind "item" v) holder f (.variable "item") o
    (by simp [Operand.eval, Frame.bind])
  simpa [Shape.writing, Statement.run, hv, store] using hcontent

theorem storedLike_list {α : Type} {items : List α} {v : α → Instance} {d : α → Data}
    (h : ∀ a ∈ items, StoredLike s inner (v a) (d a)) :
    StoredLike s (.list inner) (.list (items.map v)) (.list (items.map d)) := by
  filter_upwards [Code.eventually_forall_mem h] with depth hdepth frame holder f operand o hv
  have hloop := Code.foldlM_eq_some (fun a ha o => hdepth a ha (frame.bind "item" (v a)) holder f
    (.variable "item") o (by simp [Operand.eval, Frame.bind])) o
  simpa [Shape.writing, Statement.run, hv, store, storeItems_eq_foldl, List.foldl_map,
    List.foldlM_map] using hloop

theorem storedLike_map {k : Scalar} {rows : List Row} {d : Row → Data}
    (hkeys : ∀ r ∈ rows, r.key.kind = k.kind ∧ Primitive.ofValue? r.key = some r.heldKey)
    (h : ∀ r ∈ rows, StoredLike s inner r.held (d r)) :
    StoredLike s (.map (.scalar k) inner) (.map (rows.map Row.heldEntry))
      (.map (rows.map fun r => (r.key, d r))) := by
  have hkeysStored : ∀ r ∈ rows, StoredLike s (.scalar k) (.scalar r.heldKey) (.scalar r.key) :=
    fun r hr => storedLike_scalar (hkeys r hr).1 (hkeys r hr).2
  filter_upwards [Code.eventually_forall_mem hkeysStored, Code.eventually_forall_mem h]
    with depth hkey hitem frame holder f operand o hv
  rw [Shape.writing, Statement.run, hv, store, storeEntries_eq_foldl, List.foldl_map]
  simp only [List.foldlM_map]
  refine Code.foldlM_eq_some (fun r hr o => ?_) o
  have hkeyRun := hkey r hr ((frame.bind "key" (.scalar r.heldKey)).bind "item" r.held) ["entry"]
    entryKey (.variable "key") .empty rfl
  have hitemRun := hitem r hr ((frame.bind "key" (.scalar r.heldKey)).bind "item" r.held)
    ["entry"] entryValue (.variable "item") (Wire.Fields.empty.push entryKey r.key) rfl
  rw [store] at hkeyRun
  simp [Row.heldEntry, hkeyRun, hitemRun]

/-- The function of a user type stores the members of a structure one after the other. -/
theorem eventually_serialize {type : String} {t : UserType} (ht : s.type? type = some t)
    {α : Type} {items : List α} {field : α → Field} (hfields : items.map field = t.fields)
    {self : Instance} {content : α → Instance} {d : α → Data}
    (hcontent : ∀ a ∈ items, (field a).operand.eval ⟨self, []⟩ = some (content a))
    (h : ∀ a ∈ items, StoredLike s (field a).shape (content a) (d a)) :
    ∀ᶠ depth in atTop, ∀ o, s.serialize depth type self o =
      some (storeFields s (items.map d) t.fields o) := by
  refine Code.eventually_of_succ ?_
  filter_upwards [Code.eventually_forall_mem h] with depth hdepth o
  rw [Linked.serialize, ht, Option.bind_eq_bind, Option.bind_some, UserType.storings, ← hfields,
    List.foldlM_map, List.foldlM_map, storeFields_eq_foldl]
  refine Code.foldlM_eq_some (fun a ha o => ?_) o
  have hbody := hdepth a ha ((⟨self, []⟩ : Frame).bind "value" (content a)) ["object"]
    (field a).id (.variable "value") o rfl
  simpa [Field.storing, Statement.run, hcontent a ha] using hbody

theorem storedLike_reference {type : String} {t : UserType} (ht : s.type? type = some t)
    {α : Type} {items : List α} {field : α → Field} (hfields : items.map field = t.fields)
    {self : Instance} {content : α → Instance} {d : α → Data}
    (hcontent : ∀ a ∈ items, (field a).operand.eval ⟨self, []⟩ = some (content a))
    (h : ∀ a ∈ items, StoredLike s (field a).shape (content a) (d a)) :
    StoredLike s (.reference type) self (.record (items.map d)) := by
  have hfieldsOf : s.fieldsOf type = t.fields := by simp [Linked.fieldsOf, ht]
  filter_upwards [eventually_serialize ht hfields hcontent h]
    with depth hdepth frame holder f operand o hv
  simp [Shape.writing, Statement.run, hv, hdepth, store, hfieldsOf]

end Storing

/-- A value that generated code holds is stored as it is visited. -/
theorem Data.HeldAs.exists_storedLike {s : Linked} {shape : Shape} {d : Data} {v : Instance}
    (h : d.HeldAs s shape v) : ∃ visited, d.VisitedAs visited ∧ StoredLike s shape v visited := by
  induction h with
  | scalar hkind hp => exact ⟨_, .scalar _, storedLike_scalar hkind hp⟩
  | @record type t self slots ht hfields hcontent _ ih =>
      choose! visited hvisited hstored using ih
      refine ⟨_, ?_, storedLike_reference ht hfields hcontent hstored⟩
      have hmembers : ∀ p ∈ slots.map fun slot => (slot.2.1, visited slot),
          Data.VisitedAs p.1 p.2 := List.forall_mem_map.mpr hvisited
      simpa [Function.comp_def] using Data.VisitedAs.record hmembers
  | absent => exact ⟨_, .absent, storedLike_absent⟩
  | present _ ih =>
      obtain ⟨visited, hvisited, hstored⟩ := ih
      exact ⟨_, .present hvisited, hstored.present⟩
  | @list inner items _ ih =>
      choose! visited hvisited hstored using ih
      refine ⟨_, ?_, storedLike_list hstored⟩
      have hitems : ∀ p ∈ items.map fun p => (p.1, visited p), Data.VisitedAs p.1 p.2 :=
        List.forall_mem_map.mpr hvisited
      simpa [Function.comp_def] using Data.VisitedAs.list hitems
  | @map k inner entries rows ascending hperm hkeys _ ih =>
      choose! visited hvisited hstored using ih
      refine ⟨_, ?_, storedLike_map hkeys hstored⟩
      have horder : ∀ e ∈ rows.map fun r => (r.key, r.value, visited r),
          Data.VisitedAs e.2.1 e.2.2 := List.forall_mem_map.mpr hvisited
      have hentries : ((rows.map fun r => (r.key, r.value, visited r)).map
          fun e => (e.1, e.2.1)).Perm entries := by
        rw [List.map_map]
        exact hperm
      simpa [Function.comp_def] using Data.VisitedAs.map hentries horder

/-! ### Inserting entries -/

/-- Values of one kind that are held alike are the same. -/
theorem eq_of_ofValue? {a b : Value} {p : Primitive} (hkind : a.kind = b.kind)
    (ha : Primitive.ofValue? a = some p) (hb : Primitive.ofValue? b = some p) : a = b := by
  have hvalue := toValue?_of_ofValue? ha
  rw [hkind, toValue?_of_ofValue? hb] at hvalue
  exact (Option.some.inj hvalue).symm

section Insert

variable {s : Linked} {k : Scalar} {inner : Shape} {entries : Entries} {rows : List Row}
  {new : Row}

/-- The key of a row is the key of another one exactly if they are held alike. -/
theorem compareKeys_eq_iff_heldKey {r : Row}
    (hr : r.key.kind = k.kind ∧ Primitive.ofValue? r.key = some r.heldKey)
    (hnew : new.key.kind = k.kind ∧ Primitive.ofValue? new.key = some new.heldKey) :
    compareKeys new.key r.key = .eq ↔ r.heldKey = new.heldKey := by
  have hkind : new.key.kind = r.key.kind := hnew.1.trans hr.1.symm
  rw [compareKeys_eq_iff hkind (hnew.1 ▸ k.kind_ne_object)]
  constructor
  · intro hkey
    rw [← hkey, hnew.2] at hr
    exact (Option.some.inj hr.2).symm
  · intro hheld
    exact eq_of_ofValue? hkind hnew.2 (hheld ▸ hr.2)

/-- A key that is there keeps its place in the map that generated code holds. -/
theorem insertEntry_of_mem (h : new.heldKey ∈ rows.map Row.heldKey) :
    Instance.insertEntry new.heldKey new.held (rows.map Row.heldEntry) =
      (rows.map fun r => if r.heldKey = new.heldKey then new else r).map Row.heldEntry := by
  have hkey : new.heldKey ∈ (rows.map Row.heldEntry).map Prod.fst := by rwa [List.map_map]
  rw [Instance.insertEntry, if_pos hkey, List.map_map, List.map_map]
  refine List.map_congr_left fun r _ => ?_
  by_cases hr : r.heldKey = new.heldKey <;> simp [Row.heldEntry, hr]

/-- Another key comes last. -/
theorem insertEntry_of_notMem (h : new.heldKey ∉ rows.map Row.heldKey) :
    Instance.insertEntry new.heldKey new.held (rows.map Row.heldEntry) =
      (rows ++ [new]).map Row.heldEntry := by
  have hkey : new.heldKey ∉ (rows.map Row.heldEntry).map Prod.fst := by rwa [List.map_map]
  rw [Instance.insertEntry, if_neg hkey, List.map_append]
  rfl

section Rows

variable (ascending : entries.Ascending) (hperm : (rows.map Row.entry).Perm entries)
  (hkeys : ∀ r ∈ rows, r.key.kind = k.kind ∧ Primitive.ofValue? r.key = some r.heldKey)
  (hvalues : ∀ r ∈ rows, r.value.HeldAs s inner r.held)
  (hnew : new.key.kind = k.kind ∧ Primitive.ofValue? new.key = some new.heldKey)
  (hvalue : new.value.HeldAs s inner new.held)

include hperm hkeys hnew

theorem kind_of_perm_rows : ∀ e ∈ entries, e.1.kind = new.key.kind := by
  intro e he
  obtain ⟨r, hr, rfl⟩ := List.mem_map.mp (hperm.mem_iff.mpr he)
  exact (hkeys r hr).1.trans hnew.1.symm

include ascending hvalues hvalue

theorem heldAs_insert_of_mem (hmem : new.heldKey ∈ rows.map Row.heldKey) :
    (Data.map (entries.insert new.key new.value)).HeldAs s (.map (.scalar k) inner)
      (.map (Instance.insertEntry new.heldKey new.held (rows.map Row.heldEntry))) := by
  have hkinds := kind_of_perm_rows hperm hkeys hnew
  have hobject : new.key.kind ≠ .object := hnew.1 ▸ k.kind_ne_object
  have hkey : new.key ∈ entries.map Prod.fst := by
    obtain ⟨r, hr, hheld⟩ := List.mem_map.mp hmem
    have hsame := (compareKeys_eq_iff_heldKey (hkeys r hr) hnew).mpr hheld
    rw [compareKeys_eq_iff (hnew.1.trans (hkeys r hr).1.symm) hobject] at hsame
    rw [hsame]
    exact List.mem_map_of_mem (hperm.mem_iff.mp (List.mem_map_of_mem hr))
  have hrows : (rows.map fun r => if r.heldKey = new.heldKey then new else r).map Row.entry =
      Entries.replace new.key new.value (rows.map Row.entry) := by
    rw [Entries.replace, List.map_map, List.map_map]
    refine List.map_congr_left fun r hr => ?_
    by_cases hheld : r.heldKey = new.heldKey <;>
      simp [Row.entry, compareKeys_eq_iff_heldKey (hkeys r hr) hnew, hheld]
  rw [Entries.insert_of_mem ascending hkinds hobject hkey, insertEntry_of_mem hmem]
  refine .map (ascending.replace hkinds hobject) (hrows ▸ hperm.map _) ?_ ?_
  · refine List.forall_mem_map.mpr fun r hr => ?_
    split_ifs
    exacts [hnew, hkeys r hr]
  · refine List.forall_mem_map.mpr fun r hr => ?_
    split_ifs
    exacts [hvalue, hvalues r hr]

theorem heldAs_insert_of_notMem (hmem : new.heldKey ∉ rows.map Row.heldKey) :
    (Data.map (entries.insert new.key new.value)).HeldAs s (.map (.scalar k) inner)
      (.map (Instance.insertEntry new.heldKey new.held (rows.map Row.heldEntry))) := by
  have hkinds := kind_of_perm_rows hperm hkeys hnew
  have hfresh : ∀ e ∈ entries, compareKeys new.key e.1 ≠ .eq := by
    intro e he heq
    obtain ⟨r, hr, rfl⟩ := List.mem_map.mp (hperm.mem_iff.mpr he)
    have hheld := (compareKeys_eq_iff_heldKey (hkeys r hr) hnew).mp heq
    exact hmem (hheld ▸ List.mem_map_of_mem hr)
  rw [insertEntry_of_notMem hmem]
  refine .map (ascending.insert hkinds rfl hfresh) ?_ ?_ ?_
  · calc (rows ++ [new]).map Row.entry = rows.map Row.entry ++ [new.entry] := List.map_append
      List.Perm _ (new.entry :: rows.map Row.entry) := List.perm_append_singleton _ _
      List.Perm _ (new.entry :: entries) := hperm.cons _
      List.Perm _ (entries.insert new.key new.value) := (Entries.perm_insert hfresh).symm
  · exact List.forall_mem_append.mpr ⟨hkeys, List.forall_mem_singleton.mpr hnew⟩
  · exact List.forall_mem_append.mpr ⟨hvalues, List.forall_mem_singleton.mpr hvalue⟩

end Rows

/-- Putting a value under a key keeps a map held: a key that is there keeps its place in both forms
of the map, and another one gets a place in the order or comes last. -/
theorem Data.HeldAs.insert {held : List (Primitive × Instance)}
    (h : (Data.map entries).HeldAs s (.map (.scalar k) inner) (.map held))
    (hnew : new.key.kind = k.kind ∧ Primitive.ofValue? new.key = some new.heldKey)
    (hvalue : new.value.HeldAs s inner new.held) :
    (Data.map (entries.insert new.key new.value)).HeldAs s (.map (.scalar k) inner)
      (.map (Instance.insertEntry new.heldKey new.held held)) := by
  cases h with
  | @map _ _ _ rows ascending hperm hkeys hvalues =>
      by_cases hmem : new.heldKey ∈ rows.map Row.heldKey
      · exact heldAs_insert_of_mem ascending hperm hkeys hvalues hnew hvalue hmem
      · exact heldAs_insert_of_notMem ascending hperm hkeys hvalues hnew hvalue hmem

/-- Putting values under keys one after the other keeps a map held. -/
theorem heldAs_foldl {items : List Row}
    (hkeys : ∀ r ∈ items, r.key.kind = k.kind ∧ Primitive.ofValue? r.key = some r.heldKey)
    (hvalues : ∀ r ∈ items, r.value.HeldAs s inner r.held) {held : List (Primitive × Instance)}
    (h : (Data.map entries).HeldAs s (.map (.scalar k) inner) (.map held)) :
    (Data.map (items.foldl (fun m r => Entries.insert r.key r.value m) entries)).HeldAs s
      (.map (.scalar k) inner)
      (.map (items.foldl (fun m r => Instance.insertEntry r.heldKey r.held m) held)) := by
  induction items generalizing entries held with
  | nil => exact h
  | cons r rest ih =>
      obtain ⟨hkey, hkeys⟩ := List.forall_mem_cons.mp hkeys
      obtain ⟨hvalue, hvalues⟩ := List.forall_mem_cons.mp hvalues
      exact ih hkeys hvalues (h.insert hkey hvalue)

end Insert

end EntitySchema.Replica
