import EntitySchema.Proofs.DocumentOrder
import EntitySchema.Proofs.Loading
import EntitySchema.Proofs.MethodRefinement
import EntitySchema.Proofs.Transmission

/-!
# Generated code replicates states

The structures that generated code makes hold what is expected: the data that is made from plain
values, the data that is loaded from an object, and the update that is read from a payload. With the
methods of `MethodRefinement` this closes the way from one program to another one: what the data of a
producer flushes or stores is decoded, read and taken over as data that holds the state of the
producer.

## Implementation notes

The types of a registry that links may still contain themselves as single values, and loading such a
type does not come to an end. So whatever loads asks for `Acyclic s.Requires`, and nothing else does.
-/

namespace EntitySchema.Replica

open Code (Instance)
open Filter (atTop)
open Schema
open Wire (Delta Object Snapshot)

/-! ### Members of new structures -/

theorem zip_map_self {α β : Type} (as : List α) (g : α → β) :
    as.zip (as.map g) = as.map fun a => (a, g a) := by
  have hzip : (as.map id).zip (as.map g) = as.map fun a => (a, g a) := List.zip_map'
  rwa [List.map_id] at hzip

/-- The members of a new structure are made one after the other. -/
theorem mapM_makings {α : Type} {items : List α} {making : α → Code.Making}
    {result : α → Instance} {call : String → Object → Option Instance} {p : Delta}
    {plain : Instance}
    (h : ∀ a ∈ items, (making a).source.eval call p plain = some (result a)) :
    ((items.map making).mapM fun m => (m.source.eval call p plain).map fun v => (m.name, v)) =
      some (items.map fun a => ((making a).name, result a)) := by
  rw [List.mapM_map]
  refine Code.mapM_eq_some fun a ha => ?_
  rw [Function.comp_apply, h a ha]
  rfl

/-- The members of data whose flag is down and whose queues are empty. -/
def idleMembers (e : Entry) (ts : List (Tracked Data)) (w : Field × Tracked Data → Instance) :
    List (String × Instance) :=
  ((e.data.fields.zip ts).map fun slot => (slot.1.name, .cell (w slot) slot.2.isDirty)) ++
    (dirtyMember, .flag false) :: e.component.events.map fun ev => (ev.name, .queue [] [])

/-- The members of an update. -/
def updateMembers (e : Entry) (w : Field → Instance) (items : Event → List Instance) :
    List (String × Instance) :=
  (e.data.fields.map fun f => (f.name, w f)) ++
    e.component.events.map fun ev => (ev.name, .list (items ev))

section Make

variable {s : Linked} {e : Entry} (sound : s.Sound) (promoted : e.Promoted s)

include sound promoted

theorem heldAs_idleMembers {ts : List (Tracked Data)} {w : Field × Tracked Data → Instance}
    (hlength : ts.length = e.data.fields.length)
    (h : ∀ slot ∈ e.data.fields.zip ts, slot.2.value.HeldAs s slot.1.shape (w slot)) :
    State.HeldAs s e { members := ts, queues := State.emptyQueues e }
      (.record (idleMembers e ts w)) := by
  have hnames : ((idleMembers e ts w).map Prod.fst).Nodup := by
    have hfields : (e.data.fields.zip ts).map (fun slot => slot.1.name) =
        e.data.fields.map Field.name := map_zip_fst hlength Field.name
    simpa [idleMembers, hfields, Function.comp_def] using nodup_memberNames sound promoted
  have hmember {name : String} {v : Instance} (hv : (name, v) ∈ idleMembers e ts w) :
      (Instance.record (idleMembers e ts w)).member? name = some v :=
    Wire.Fields.lookup_of_mem hnames hv
  refine ⟨hlength, fun slot hslot => ⟨w slot, hmember ?_, h slot hslot⟩, hmember ?_,
    by simp [State.emptyQueues], fun slot hslot => ?_⟩
  · exact List.mem_append_left _ (List.mem_map.mpr ⟨slot, hslot, rfl⟩)
  · exact List.mem_append_right _ List.mem_cons_self
  · rw [State.emptyQueues, zip_map_self] at hslot
    obtain ⟨ev, hev, rfl⟩ := List.mem_map.mp hslot
    refine ⟨[], [], hmember ?_, heldAs_nil, heldAs_nil⟩
    exact List.mem_append_right _ (List.mem_cons_of_mem _ (List.mem_map.mpr ⟨ev, hev, rfl⟩))

theorem heldAs_updateMembers {u : Update} {w : Field → Instance} {items : Event → List Instance}
    {member : Field → Option Data} {batch : Event → List Data}
    (hu : u = ⟨e.data.fields.map member, e.component.events.map batch⟩)
    (hmembers : ∀ f ∈ e.data.fields, (optional (member f)).HeldAs s (.option f.shape) (w f))
    (hevents : ∀ ev ∈ e.component.events,
      (Data.list (batch ev)).HeldAs s ev.batch (.list (items ev))) :
    u.HeldAs s e (.record (updateMembers e w items)) := by
  subst hu
  have hnames : ((updateMembers e w items).map Prod.fst).Nodup := by
    have hsublist := (nodup_memberNames sound promoted).sublist
      ((List.Sublist.refl _).append (List.sublist_cons_self _ _))
    simpa [updateMembers, Function.comp_def] using hsublist
  have hmember {name : String} {v : Instance} (hv : (name, v) ∈ updateMembers e w items) :
      (Instance.record (updateMembers e w items)).member? name = some v :=
    Wire.Fields.lookup_of_mem hnames hv
  refine ⟨by simp, fun slot hslot => ?_, by simp, fun slot hslot => ?_⟩
  · rw [zip_map_self] at hslot
    obtain ⟨f, hf, rfl⟩ := List.mem_map.mp hslot
    exact ⟨w f, hmember (List.mem_append_left _ (List.mem_map_of_mem hf)), hmembers f hf⟩
  · rw [zip_map_self] at hslot
    obtain ⟨ev, hev, rfl⟩ := List.mem_map.mp hslot
    exact ⟨items ev, hmember (List.mem_append_right _ (List.mem_map_of_mem hev)), hevents ev hev⟩

/-- The data that is made from plain values holds the state with these values, all of them dirty. -/
theorem heldAs_fromPlain {values : List Data} {plain : Instance}
    (hlength : values.length = e.data.fields.length)
    (h : ∀ slot ∈ e.data.fields.zip values, ∃ w,
      plain.member? slot.1.name = some w ∧ slot.2.HeldAs s slot.1.shape w) :
    ∃ self, (∀ depth, s.fromPlain depth e plain = some self) ∧
      (State.ofPlain e values).HeldAs s e self := by
  have hdirty : (values.map Tracked.dirty).length = e.data.fields.length := by
    rw [List.length_map, hlength]
  have hslots : ∀ slot ∈ e.data.fields.zip (values.map Tracked.dirty), ∃ w,
      (plain.member? slot.1.name = some w ∧ slot.2.isDirty = true) ∧
        slot.2.value.HeldAs s slot.1.shape w := by
    intro slot hslot
    rw [List.zip_map_right] at hslot
    obtain ⟨x, hx, rfl⟩ := List.mem_map.mp hslot
    obtain ⟨w, hw, hheld⟩ := h x hx
    exact ⟨w, ⟨hw, rfl⟩, hheld⟩
  choose! w hw hheld using hslots
  refine ⟨.record (idleMembers e (values.map Tracked.dirty) w), fun depth => ?_,
    heldAs_idleMembers sound promoted hdirty hheld⟩
  have hfields : ((e.data.fields.map Field.converting).mapM fun m =>
      (m.source.eval (s.deserialize depth) { componentId := e.component.id } plain).map
        fun v => (m.name, v)) =
      some ((e.data.fields.zip (values.map Tracked.dirty)).map fun slot =>
        (slot.1.name, .cell (w slot) slot.2.isDirty)) := by
    rw [← map_zip_fst hdirty Field.converting]
    refine mapM_makings fun slot hslot => ?_
    obtain ⟨hmember, hdirty⟩ := hw slot hslot
    simp [Field.converting, Code.Source.eval, hmember, hdirty]
  have hqueues : ((e.component.events.map (Code.Loading.making ∘ Event.loading)).mapM fun m =>
      (m.source.eval (s.deserialize depth) { componentId := e.component.id } plain).map
        fun v => (m.name, v)) =
      some (e.component.events.map fun ev => (ev.name, .queue [] [])) :=
    mapM_makings fun _ _ => rfl
  rw [Linked.fromPlain, Linked.make, Component.converting, List.mapM_append, hfields, idleLoadings,
    List.map_cons, List.map_map, List.mapM_cons, hqueues]
  rfl

end Make

/-! ### Loading -/

section Load

variable {r : Registry} {s : Linked} {e : Entry} (registered : r.Registered)
  (linked : r.link = .ok s) (promoted : e.Promoted s) (acyclic : Acyclic s.Requires)

include registered linked promoted acyclic

/-- The value of a field is read from every object. -/
theorem readsAs_field {f : Field} (hf : f ∈ e.data.fields) (o : Object) :
    ReadsAs s f.shape o f.id 0 (s.load f.shape o f.id) :=
  registered.readsAs_load linked acyclic
    ((registered.sound_of_link linked).flat _ promoted.mem f hf)
    (Registry.resolves_of_link linked promoted.mem hf) o f.id

/-- The data that is loaded from an object holds the state that is found there. -/
theorem heldAs_deserialize (o : Object) :
    ∃ self, (∀ᶠ depth in atTop, s.deserialize depth e.data.qualifiedName o = some self) ∧
      (State.load s e o).HeldAs s e self := by
  have sound := registered.sound_of_link linked
  choose! w hheld hw using fun (f : Field) (hf : f ∈ e.data.fields) =>
    readsAs_field registered linked promoted acyclic hf o
  have hslots : ∀ slot ∈ e.data.fields.zip (State.load s e o).members,
      slot.2.value.HeldAs s slot.1.shape (w slot.1) := by
    intro slot hslot
    rw [State.load, zip_map_self] at hslot
    obtain ⟨f, hf, rfl⟩ := List.mem_map.mp hslot
    exact hheld f hf
  have hmembers : Code.loadedMembers e.data w =
      idleMembers e (State.load s e o).members fun slot => w slot.1 := by
    have htracked : ∀ f ∈ e.data.fields, f.isTracked = true := fun f hf =>
      (sound.tracked _ promoted.mem f hf).trans promoted.isData
    rw [Code.loadedMembers, idleMembers, if_pos promoted.isData, promoted.events, State.load,
      zip_map_self, List.map_map]
    congr 1
    refine List.map_congr_left fun f hf => ?_
    simp [Code.loadedMember, htracked f hf, Tracked.clean]
  refine ⟨.record (idleMembers e (State.load s e o).members fun slot => w slot.1),
    Code.eventually_of_succ ?_, heldAs_idleMembers sound promoted (List.length_map _) hslots⟩
  filter_upwards [Code.eventually_forall_mem hw] with depth hdepth
  have hfields : ∀ f ∈ e.data.fields, (f.shape.reading ["object"] f.id "0").eval
      (s.deserialize depth) ⟨[(["object"], o)], []⟩ = some (w f) :=
    fun f hf => hdepth f hf _ _ _ rfl rfl
  rw [Linked.deserialize, registered.type?_of_mem linked promoted.mem, Option.bind_eq_bind,
    Option.bind_some, Code.mapM_loadings hfields, hmembers]
  rfl

/-- The member of a field is read from a payload where the payload sets the field. -/
theorem exists_receiving_field (p : Delta) {f : Field} (hf : f ∈ e.data.fields) :
    ∃ w, (optional (if Update.sets p f then some (s.load f.shape p.fields f.id) else none)).HeldAs s
        (.option f.shape) w ∧
      ∀ᶠ depth in atTop, f.receiving.source.eval (s.deserialize depth) p (.record []) = some w := by
  obtain ⟨w, hheld, hw⟩ := readsAs_field registered linked promoted acyclic hf p.fields
  have hsets : Update.sets p f ↔ 0 < p.fields.count f.shape.kind f.id ∨ p.isCleared f.id := by
    simp [Update.sets]
  by_cases hset : Update.sets p f
  · rw [if_pos hset]
    refine ⟨.present w, .present hheld, hw.mono fun depth hdepth => ?_⟩
    rw [Field.receiving, Code.Source.eval, if_pos (hsets.mp hset), hdepth _ _ _ rfl rfl]
    rfl
  · rw [if_neg hset]
    refine ⟨.absent, .absent, .of_forall fun depth => ?_⟩
    rw [Field.receiving, Code.Source.eval, if_neg (mt hsets.mpr hset)]

omit promoted in
/-- The events are read from a payload. -/
theorem exists_receiving_event (p : Delta) (hcomponent : e.component ∈ r.components) {ev : Event}
    (hev : ev ∈ e.component.events) :
    ∃ items, (Data.list (s.load (.list ev.shape) p.events ev.index).items).HeldAs s ev.batch
        (.list items) ∧
      ∀ᶠ depth in atTop, ev.receiving.source.eval (s.deserialize depth) p (.record []) =
        some (.list items) := by
  have flat : ev.batch.isFlat := by
    simp [Event.batch, Shape.isFlat, registered.singleEvents _ hcomponent ev hev]
  have hresolves := (Registry.link_eq_ok linked).1.eventShapes _ hcomponent ev hev
  obtain ⟨w, hheld, hw⟩ := registered.readsAs_load linked acyclic flat
    ⟨hresolves.references, hresolves.keys⟩ p.events ev.index
  obtain ⟨items, rfl⟩ := hheld.exists_list
  exact ⟨items, hheld, hw.mono fun depth hdepth => hdepth _ _ "0" rfl rfl⟩

/-- The update that is read from a payload holds the changes that the payload carries. -/
theorem heldAs_readUpdate (hcomponent : e.component ∈ r.components) (p : Delta) :
    ∃ update, (∀ᶠ depth in atTop, s.readUpdate depth e p = some update) ∧
      (Update.read s e p).HeldAs s e update := by
  choose! w hheld hw using fun (f : Field) (hf : f ∈ e.data.fields) =>
    exists_receiving_field registered linked promoted acyclic p hf
  choose! items hitems hread using fun (ev : Event) (hev : ev ∈ e.component.events) =>
    exists_receiving_event registered linked acyclic p hcomponent hev
  refine ⟨.record (updateMembers e w items), ?_,
    heldAs_updateMembers (registered.sound_of_link linked) promoted rfl hheld hitems⟩
  filter_upwards [Code.eventually_forall_mem hw, Code.eventually_forall_mem hread]
    with depth hfields hevents
  rw [Linked.readUpdate, Linked.make, Component.receiving, List.mapM_append,
    mapM_makings hfields, mapM_makings hevents]
  rfl

end Load

/-! ### From one program to another -/

section Replicate

variable {r : Registry} {s : Linked} {e : Entry} (registered : r.Registered)
  (linked : r.link = .ok s) (promoted : e.Promoted s)

include registered linked promoted

/-- Storing data that holds a state gives the object of its members, in the order in which the code
visits the entries of its maps. -/
theorem State.HeldAs.serialize {st : State} {self : Instance} (h : st.HeldAs s e self) :
    ∃ visited, st.VisitedAs visited ∧ ∀ᶠ depth in atTop,
      s.serialize depth e.data.qualifiedName self .empty = some (visited.object s e) := by
  have sound := registered.sound_of_link linked
  choose! v hv hvheld using h.members
  choose! d hd hdstored using fun slot hslot => (hvheld slot hslot).exists_storedLike
  have hcontent : ∀ slot ∈ e.data.fields.zip st.members,
      slot.1.operand.eval ⟨self, []⟩ = some (v slot) := by
    intro slot hslot
    have htracked : slot.1.isTracked = true :=
      (sound.tracked _ promoted.mem _ (List.of_mem_zip hslot).1).trans promoted.isData
    simp [Field.operand, htracked, Code.Operand.eval, hv slot hslot]
  refine ⟨st.visit e d fun x => x.2.staged, h.visitedAs_visit hd fun x _ =>
    List.forall₂_same.mpr fun d _ => d.visitedAs_self, ?_⟩
  filter_upwards [eventually_serialize (registered.type?_of_mem linked promoted.mem)
    (List.map_fst_zip h.membersLength.ge) hcontent hdstored] with depth hdepth
  rw [hdepth, State.object, State.visit, List.map_map]
  rfl

/-- A snapshot, all in generated code: what the data of a producer is stored as is decoded and loaded
as data that holds its members, all of them clean. -/
theorem State.HeldAs.serialize_deserialize (acyclic : Acyclic s.Requires)
    (replicable : Replicable s e) {producer : State} {self : Instance} (h : producer.HeldAs s e self) (hshape : producer.HasShape s e)
    (addressable : ∀ visited, producer.VisitedAs visited →
      (visited.save s e).encode.length ≤ Wire.maxPosition) :
    ∃ object received self',
      (∀ᶠ depth in atTop, s.serialize depth e.data.qualifiedName self .empty = some object) ∧
      Snapshot.decode (Snapshot.mk e.component.id object).encode = .ok received ∧
      (∀ᶠ depth in atTop,
        s.deserialize depth e.data.qualifiedName received.fields = some self') ∧
      State.HeldAs s e { members := producer.members.map fun t => .clean t.value
                         queues := State.emptyQueues e } self' := by
  obtain ⟨visited, hvisited, hserialize⟩ := h.serialize registered linked promoted
  have hvalues : List.Forall₂ (fun f d => d.HasShape s f.shape) e.data.fields
      (producer.members.map Tracked.value) :=
    List.forall₂_map_right_iff.mpr hshape.forall₂_members
  have hvisit : List.Forall₂ Data.VisitedAs (producer.members.map Tracked.value)
      (visited.members.map Tracked.value) := by
    rw [List.forall₂_map_left_iff, List.forall₂_map_right_iff]
    exact hvisited.members.imp fun _ _ ht => ht.value
  obtain ⟨self', hdeserialize, hheld⟩ :=
    heldAs_deserialize registered linked promoted acyclic (visited.object s e)
  rw [State.load_object_visited replicable hvalues hvisit, List.map_map] at hheld
  exact ⟨visited.object s e, visited.save s e, self', hserialize,
    State.decode_encode_save replicable hvalues hvisit (addressable visited hvisited),
    hdeserialize, hheld⟩

/-- A flush and a delivery, all in generated code: what the data of a producer flushes is decoded,
read as an update and applied to the data of a replica, which then holds its state with everything
applied that waited to be sent. -/
theorem State.HeldAs.flush_deliver (acyclic : Acyclic s.Requires)
    (hcomponent : e.component ∈ r.components) (replicable : Replicable s e)
    {producer replica : State} {self target : Instance} (h : producer.HeldAs s e self)
    (htarget : replica.HeldAs s e target) (hshape : producer.HasShape s e)
    (sendable : ∀ visited, producer.pending.VisitedAs visited → producer.Sendable s e visited) :
    ∃ payload self' received update target',
      (∀ᶠ depth in atTop, s.flushUpdate depth e self = some (payload, self')) ∧
      (producer.flush s e).2.HeldAs s e self' ∧
      Delta.decode payload.encode = .ok received ∧
      (∀ᶠ depth in atTop, s.readUpdate depth e received = some update) ∧
      (∀ depth, s.applyUpdate depth e target update = some target') ∧
      (replica.apply producer.pending).HeldAs s e target' := by
  have sound := registered.sound_of_link linked
  obtain ⟨visited, self', hvisited, hflush, hself'⟩ := h.flushUpdate sound promoted
  have hsendable := sendable visited.pending hvisited.pending
  have hpending := hshape.pending hsendable.batches
  obtain ⟨received, hdecode, hreceive⟩ :=
    hpending.receive_decode_encode_visited hsendable.order replicable hsendable.addressable
  have hread : Update.read s e received = producer.pending := by
    rw [Update.receive] at hreceive
    split_ifs at hreceive
    exact Except.ok.inj hreceive
  obtain ⟨update, hupdate, hheld⟩ :=
    heldAs_readUpdate registered linked promoted acyclic hcomponent received
  rw [hread] at hheld
  obtain ⟨target', happly, htarget'⟩ := htarget.applyUpdate sound promoted hheld
  exact ⟨_, self', received, update, target', hflush, hself', hdecode, hupdate, happly, htarget'⟩

end Replicate

end EntitySchema.Replica

namespace EntitySchema.Sample

open Code (Instance)
open Filter (atTop)
open Replica Schema
open Wire (Delta)

/-- The registry of a hold and of the ship whose data it is. -/
def holdRegistry : Registry :=
  ((({} : Registry).addDocument Linked.cargoDocument).2.addDocument Linked.shipDocument).2

/-- The ship with its hold. -/
def holdEntry : Entry where
  component :=
    { package := "ship", name := "Ship", qualifiedName := "ship.Ship", id := 3,
      dataType := "cargo.Hold", events := [⟨"alarm", 1, .reference "ship.Alarm"⟩] }
  data :=
    { package := "cargo", name := "Hold", qualifiedName := "cargo.Hold",
      fields := [⟨"load", 1, .scalar .uint32, true⟩], component := some "ship.Ship",
      events := [⟨"alarm", 1, .reference "ship.Alarm"⟩] }

/-- What the registry links to. -/
def holdSchema : Linked where
  types :=
    [holdEntry.data,
      { package := "ship", name := "Alarm", qualifiedName := "ship.Alarm",
        fields := [⟨"hold", 1, .option (.reference "cargo.Hold"), false⟩] }]
  components := [holdEntry.component]

theorem registered_holdRegistry : holdRegistry.Registered := .add _ (.add _ .empty)

theorem link_holdRegistry : holdRegistry.link = .ok holdSchema := rfl

theorem promoted_holdEntry : holdEntry.Promoted holdSchema := ⟨List.mem_cons_self, rfl, rfl⟩

/-- No type of the schema has a type as a single value. -/
theorem acyclic_holdSchema : Acyclic holdSchema.Requires := by
  intro a hcycle
  obtain ⟨b, ⟨t, ht, f, hf, hshape⟩, -⟩ := Relation.TransGen.head'_iff.mp hcycle
  have hshapes : ∀ t ∈ holdSchema.types, ∀ f ∈ t.fields, ∀ b, f.shape ≠ .reference b := by
    simp [holdSchema, holdEntry]
  exact hshapes t (List.mem_of_find?_eq_some ht) f hf b hshape

theorem replicable_holdEntry : Replicable holdSchema holdEntry where
  sound := registered_holdRegistry.sound_of_link link_holdRegistry
  small := by decide +kernel
  flat := by decide +kernel
  singleEvents := by decide +kernel
  fieldIds := by decide +kernel
  eventIndices := by decide +kernel
  fewFields := by decide +kernel
  fewEvents := by decide +kernel
  nests := ⟨3, by decide +kernel, by decide +kernel, by decide +kernel⟩

/-- The state of a hold. -/
def holdState (load : UInt32) (isDirty : Bool) : State where
  members := [⟨.scalar (.uint32 load), isDirty⟩]
  queues := [{}]

/-- The data of a hold. -/
def hold (load : UInt32) (isDirty : Bool) : Instance :=
  .record [("load", .cell (.scalar (.u32 load)) isDirty), ("is_dirty", .flag false),
    ("alarm", .queue [] [])]

theorem heldAs_hold (load : UInt32) (isDirty : Bool) :
    (holdState load isDirty).HeldAs holdSchema holdEntry (hold load isDirty) where
  membersLength := rfl
  members := List.forall_mem_singleton.mpr ⟨.scalar (.u32 load), rfl, .scalar rfl rfl⟩
  isDirty := rfl
  queuesLength := rfl
  queues := List.forall_mem_singleton.mpr ⟨[], [], rfl, heldAs_nil, heldAs_nil⟩

theorem hasShape_holdState (load : UInt32) (isDirty : Bool) :
    (holdState load isDirty).HasShape holdSchema holdEntry :=
  State.hasShape_of_forall₂ (.cons (.scalar rfl (.word rfl)) .nil)
    (.cons (List.forall_mem_nil _) .nil)

theorem sendable_holdState {visited : Update} (h : (holdState 7 true).pending.VisitedAs visited) :
    (holdState 7 true).Sendable holdSchema holdEntry visited := by
  -- there is no map in a hold, so it is visited in one order only
  have hsame : visited = (holdState 7 true).pending :=
    match visited, h with
    | ⟨_, _⟩, ⟨.cons (.some (.scalar _)) .nil, .cons .nil .nil⟩ => rfl
  subst hsame
  exact ⟨h, by decide +kernel, by decide +kernel⟩

/-- A hold that was loaded passes its load on to an empty one. -/
theorem flush_deliver_hold :
    ∃ payload self' received update target',
      (∀ᶠ depth in atTop,
        holdSchema.flushUpdate depth holdEntry (hold 7 true) = some (payload, self')) ∧
      Delta.decode payload.encode = .ok received ∧
      (∀ᶠ depth in atTop, holdSchema.readUpdate depth holdEntry received = some update) ∧
      (∀ depth, holdSchema.applyUpdate depth holdEntry (hold 0 false) update = some target') ∧
      (holdState 7 false).HeldAs holdSchema holdEntry target' := by
  obtain ⟨payload, self', received, update, target', hflush, -, hdecode, hread, happly, hheld⟩ :=
    (heldAs_hold 7 true).flush_deliver registered_holdRegistry link_holdRegistry promoted_holdEntry
      acyclic_holdSchema List.mem_cons_self replicable_holdEntry (heldAs_hold 0 false)
      (hasShape_holdState 7 true) fun _ => sendable_holdState
  exact ⟨payload, self', received, update, target', hflush, hdecode, hread, happly, hheld⟩

end EntitySchema.Sample
