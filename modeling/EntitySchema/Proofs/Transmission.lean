import EntitySchema.Proofs.Convergence

/-!
# Updates and snapshots survive being sent

What a component sends is decoded on the other side and read as what was sent: an update keeps apart
the members that are not set, those that are set to nothing and those that are set to a value; a
snapshot is found by the number of its component and gives every member as a clean value, with the
dirty flag down and no events. Neither depends on the order in which the entries of a map are
visited while they are written.
-/

namespace EntitySchema.Replica

open Schema
open Wire (FieldId Fields Snapshot Value)

section Snapshots

variable {s : Linked} {e : Entry} {values : List Data} {st : State}

/-- The values that the members of a state are stored as. -/
theorem exists_placed_members (replicable : Replicable s e)
    (h : List.Forall₂ (fun f d => d.HasShape s f.shape) e.data.fields values)
    (hvisited : List.Forall₂ Data.VisitedAs values (st.members.map Tracked.value)) :
    ∃ stored : Field × Data → List Value,
      ∀ p ∈ e.data.fields.zip (st.members.map Tracked.value),
        Placed s p.1.shape p.2 (stored p) := by
  have hplaced : ∀ p ∈ e.data.fields.zip (st.members.map Tracked.value),
      ∃ stored, Placed s p.1.shape p.2 stored := by
    intro p hp
    obtain ⟨d, hd, hvisit⟩ := exists_mem_zip_of_forall₂ hvisited hp
    exact exists_placed replicable.sound replicable.small ((List.forall₂_iff_zip.mp h).2 hd) hvisit
      (replicable.flat p.1 (List.of_mem_zip hp).1)
  choose! stored hstored using hplaced
  exact ⟨stored, hstored⟩

section Stored

variable {stored : Field × Data → List Value}

/-- The object of a state holds the values of its members under the numbers of the fields. -/
theorem State.object_eq (hstored : ∀ p ∈ e.data.fields.zip (st.members.map Tracked.value),
      Placed s p.1.shape p.2 (stored p)) :
    st.object s e =
      .ofGroups (memberGroups e.data.fields (st.members.map Tracked.value) stored) :=
  storeFields_eq hstored .empty

theorem Replicable.distinct_members (replicable : Replicable s e)
    (hlength : (st.members.map Tracked.value).length = e.data.fields.length) :
    ((memberGroups e.data.fields (st.members.map Tracked.value) stored).map Prod.fst).Nodup := by
  rw [map_fst_memberGroups hlength]
  exact replicable.fieldIds

theorem State.transportable_object (replicable : Replicable s e)
    (hlength : (st.members.map Tracked.value).length = e.data.fields.length)
    (hstored : ∀ p ∈ e.data.fields.zip (st.members.map Tracked.value),
      Placed s p.1.shape p.2 (stored p)) : (st.object s e).Transportable := by
  obtain ⟨levels, hlevels, hfields, -⟩ := replicable.nests
  rw [State.object_eq hstored]
  refine transportable_ofGroups (replicable.distinct_members hlength) ?_ hlevels fun g hg => ?_
  · rw [memberGroups, List.length_map, List.length_zip, hlength, min_self]
    exact replicable.fewFields
  · obtain ⟨p, hp, rfl⟩ := List.mem_map.mp hg
    exact ⟨s, p.1.shape, p.2, hstored p hp, hfields p.1 (List.of_mem_zip hp).1⟩

/-- The members are loaded from the object of a state, with their maps in order. -/
theorem State.load_object (replicable : Replicable s e)
    (hlength : (st.members.map Tracked.value).length = e.data.fields.length)
    (hstored : ∀ p ∈ e.data.fields.zip (st.members.map Tracked.value),
      Placed s p.1.shape p.2 (stored p)) :
    e.data.fields.map (fun f => s.load f.shape (st.object s e) f.id) =
      (st.members.map Tracked.value).map Data.sorted := by
  refine map_eq_of_zip hlength fun p hp => load_of_values (hstored p hp) ?_
  rw [State.object_eq hstored]
  exact Fields.values_ofGroups (replicable.distinct_members hlength)
    (List.mem_map_of_mem (f := fun p => (p.1.id, stored p)) hp)

end Stored

section Sent

variable (replicable : Replicable s e)
  (h : List.Forall₂ (fun f d => d.HasShape s f.shape) e.data.fields values)
  (hvisited : List.Forall₂ Data.VisitedAs values (st.members.map Tracked.value))

include replicable h hvisited

/-- The payload with all members of a state comes through its encoding. -/
theorem State.decode_encode_save
    (addressable : (st.save s e).encode.length ≤ Wire.maxPosition) :
    Snapshot.decode (st.save s e).encode = .ok (st.save s e) := by
  obtain ⟨stored, hstored⟩ := exists_placed_members replicable h hvisited
  have hlength : (st.members.map Tracked.value).length = e.data.fields.length :=
    hvisited.length_eq.symm.trans h.length_eq.symm
  exact Snapshot.decode_encode_of_transportable
    (State.transportable_object replicable hlength hstored) addressable

/-- The members are loaded from the object of a state as clean values, in whatever order their maps
are visited. -/
theorem State.load_object_visited :
    State.load s e (st.object s e) =
      { members := values.map .clean, isDirty := false, queues := emptyQueues e } := by
  obtain ⟨stored, hstored⟩ := exists_placed_members replicable h hvisited
  have hlength : (st.members.map Tracked.value).length = e.data.fields.length :=
    hvisited.length_eq.symm.trans h.length_eq.symm
  have hsorted : (st.members.map Tracked.value).map Data.sorted = values := by
    refine map_eq_of_forall₂ hvisited fun d hd visited hvisit => ?_
    obtain ⟨f, hf⟩ := Data.exists_mem_zip h.length_eq.symm hd
    exact ((List.forall₂_iff_zip.mp h).2 hf).sorted_eq hvisit
  rw [State.load, ← hsorted, ← State.load_object replicable hlength hstored, List.map_map]
  rfl

/-- The payload with all members of a state, written in whatever order their maps are visited, comes
through its encoding; from it the component is found, and its members are loaded as clean values. -/
theorem State.receive_decode_encode (known : s.entry? e.component.id = some e)
    (addressable : (st.save s e).encode.length ≤ Wire.maxPosition) :
    ∃ p, Snapshot.decode (st.save s e).encode = .ok p ∧
      AnyState.receive s p =
        .ok ⟨e, { members := values.map .clean, isDirty := false, queues := emptyQueues e }⟩ := by
  have hfind : findComponent s (st.save s e).componentId = .ok e := by
    rw [State.save, findComponent, known]
  have hreceive : State.receive s e (st.save s e) = .ok (State.load s e (st.object s e)) :=
    if_pos rfl
  rw [State.load_object_visited replicable h hvisited] at hreceive
  refine ⟨st.save s e, State.decode_encode_save replicable h hvisited addressable, ?_⟩
  simp only [AnyState.receive, hfind, hreceive, bind, Except.bind]
  rfl

end Sent

end Snapshots

end EntitySchema.Replica

namespace EntitySchema.Sample

open Schema Replica

theorem replicable_entry {e : Entry} (he : e = shipEntry ∨ e = weatherEntry) :
    Replicable schema e := by
  rcases he with rfl | rfl
  · exact replicable_ship
  · exact replicable_weather

theorem entry?_schema {e : Entry} (he : e = shipEntry ∨ e = weatherEntry) :
    schema.entry? e.component.id = some e := by
  rcases he with rfl | rfl <;> rfl

/-- An update of a ship or of the weather is received as it was sent, whichever members are set, to
a value or to nothing, whatever events go with it, and in whatever order the entries of its maps
were visited while it was written. -/
theorem update_survives_sending {e : Entry} (he : e = shipEntry ∨ e = weatherEntry)
    {u visited : Update} (hu : u.HasShape schema e) (hvisited : u.VisitedAs visited)
    (addressable : (visited.write schema e).encode.length ≤ Wire.maxPosition) :
    ∃ p, Wire.Delta.decode (visited.write schema e).encode = .ok p ∧
      Update.receive schema e p = .ok u :=
  hu.receive_decode_encode_visited hvisited (replicable_entry he) addressable

/-- An update that clears the target, the waypoints and the offsets, sets the position, the cargo
and the escort, leaves the rest alone, and carries two hits. -/
def refit (entries : List (String × UInt32)) : Update where
  members := [none, some origin, some .absent, some (.list []), some (cargo entries), none, none,
    some (.present origin), some (.list [])]
  events := [[struck 1, struck 2]]

theorem hasShape_refit : (refit [("grain", 5), ("tar", 2)]).HasShape schema shipEntry := by
  have hevents : (Data.list [struck 1, struck 2]).HasShape schema
      (.list (.reference "fixture.game.Hit")) := by
    refine .list (by decide) ?_
    simp only [List.forall_mem_cons]
    exact ⟨hasShape_struck 1, hasShape_struck 2, by simp⟩
  have hcleared (inner : Shape) : (Data.list []).HasShape schema (.list inner) :=
    .list (by decide) (by simp)
  have hset {shape : Shape} {d : Data} (h : d.HasShape schema shape) :
      ∀ c, some d = some c → c.HasShape schema shape := fun _ hc => Option.some.inj hc ▸ h
  exact Update.hasShape_of_forall₂
    (.cons nofun <| .cons (hset hasShape_origin) <| .cons (hset .absent) <|
      .cons (hset (hcleared _)) <| .cons (hset hasShape_cargo) <| .cons nofun <| .cons nofun <|
      .cons (hset (.present hasShape_origin)) <| .cons (hset (hcleared _)) .nil)
    (.cons hevents .nil)

theorem visitedAs_refit :
    (refit [("grain", 5), ("tar", 2)]).VisitedAs (refit [("tar", 2), ("grain", 5)]) where
  members := .cons .none <| .cons (.some (Data.visitedAs_self _)) <| .cons (.some .absent) <|
    .cons (.some (Data.visitedAs_self _)) <| .cons (.some visitedAs_cargo) <| .cons .none <|
    .cons .none <| .cons (.some (Data.visitedAs_self _)) <|
    .cons (.some (Data.visitedAs_self _)) .nil
  events := List.forall₂_same.mpr fun _ _ => List.forall₂_same.mpr fun d _ => d.visitedAs_self

/-- The refit comes through although its cargo is visited against the order. -/
theorem update_survives_sending_refit :
    (refit [("grain", 5), ("tar", 2)]).HasShape schema shipEntry ∧
      (refit [("grain", 5), ("tar", 2)]).VisitedAs (refit [("tar", 2), ("grain", 5)]) ∧
      ∃ p, Wire.Delta.decode
          ((refit [("tar", 2), ("grain", 5)]).write schema shipEntry).encode = .ok p ∧
        Update.receive schema shipEntry p = .ok (refit [("grain", 5), ("tar", 2)]) :=
  ⟨hasShape_refit, visitedAs_refit,
    update_survives_sending (.inl rfl) hasShape_refit visitedAs_refit (by decide +kernel)⟩

/-- A snapshot of a ship or of the weather is received as the data of that component with the same
members, all clean, with the dirty flag down and without events, whatever the dirty bits, the flag
and the events of the sender and in whatever order the entries of its maps were visited; and so is
the snapshot that is made from plain members. -/
theorem snapshot_survives_sending {e : Entry} (he : e = shipEntry ∨ e = weatherEntry)
    {values : List Data}
    (hvalues : List.Forall₂ (fun f d => d.HasShape schema f.shape) e.data.fields values) :
    (∀ st : State, List.Forall₂ Data.VisitedAs values (st.members.map Tracked.value) →
      (st.save schema e).encode.length ≤ Wire.maxPosition →
      ∃ p, Wire.Snapshot.decode (st.save schema e).encode = .ok p ∧
        AnyState.receive schema p = .ok ⟨e, {
          members := values.map fun d => ⟨d, false⟩
          isDirty := false
          queues := e.component.events.map fun _ => ⟨[], []⟩ }⟩) ∧
    ∀ plain : List Data, List.Forall₂ Data.VisitedAs values plain →
      ((State.ofPlain e plain).save schema e).encode.length ≤ Wire.maxPosition →
      ∃ p, Wire.Snapshot.decode ((State.ofPlain e plain).save schema e).encode = .ok p ∧
        AnyState.receive schema p = .ok ⟨e, {
          members := values.map fun d => ⟨d, false⟩
          isDirty := false
          queues := e.component.events.map fun _ => ⟨[], []⟩ }⟩ := by
  have hstate (st : State)
      (hvisited : List.Forall₂ Data.VisitedAs values (st.members.map Tracked.value))
      (addressable : (st.save schema e).encode.length ≤ Wire.maxPosition) :=
    State.receive_decode_encode (replicable_entry he) hvalues hvisited (entry?_schema he)
      addressable
  refine ⟨hstate, fun plain hplain addressable => hstate _ ?_ addressable⟩
  have hmembers : (State.ofPlain e plain).members.map Tracked.value = plain := by
    simp [State.ofPlain, Tracked.dirty, Function.comp_def]
  rwa [hmembers]

/-- The values of a ship with some cargo. -/
def laden (entries : List (String × UInt32)) : List Data :=
  [.scalar (.string "Argo"), origin, .present (.scalar (.entityId ⟨7⟩)), .list [origin],
    cargo entries, .scalar (.sint32 (-3)), .scalar (.fixed64 4), .absent, .list []]

/-- A ship that has all members dirty, its flag up, and hits at both ends of its queue, and whose
cargo is visited against the order. -/
def ladenShip : State where
  members := (laden [("tar", 2), ("grain", 5)]).map .dirty
  isDirty := true
  queues := [⟨[struck 1], [struck 2]⟩]

theorem hasShape_laden : List.Forall₂ (fun f d => Data.HasShape schema f.shape d)
    shipEntry.data.fields (laden [("grain", 5), ("tar", 2)]) :=
  .cons (.scalar rfl (.string (by decide +kernel))) <| .cons hasShape_origin <|
    .cons (.present (.scalar rfl (.word rfl))) <|
    .cons (.list (by decide) (List.forall_mem_singleton.mpr hasShape_origin)) <|
    .cons hasShape_cargo <| .cons (.scalar rfl (.word rfl)) <| .cons (.scalar rfl (.word rfl)) <|
    .cons .absent <| .cons (.list (by decide) (by simp)) .nil

theorem visitedAs_laden : List.Forall₂ Data.VisitedAs (laden [("grain", 5), ("tar", 2)])
    (laden [("tar", 2), ("grain", 5)]) :=
  .cons (Data.visitedAs_self _) <| .cons (Data.visitedAs_self _) <|
    .cons (Data.visitedAs_self _) <| .cons (Data.visitedAs_self _) <| .cons visitedAs_cargo <|
    .cons (Data.visitedAs_self _) <| .cons (Data.visitedAs_self _) <|
    .cons (Data.visitedAs_self _) <| .cons (Data.visitedAs_self _) .nil

theorem snapshot_survives_sending_laden :
    List.Forall₂ Data.VisitedAs (laden [("grain", 5), ("tar", 2)])
        (ladenShip.members.map Tracked.value) ∧
      ∃ p, Wire.Snapshot.decode (ladenShip.save schema shipEntry).encode = .ok p ∧
        AnyState.receive schema p = .ok ⟨shipEntry, {
          members := (laden [("grain", 5), ("tar", 2)]).map fun d => ⟨d, false⟩
          isDirty := false
          queues := [⟨[], []⟩] }⟩ :=
  ⟨visitedAs_laden, (snapshot_survives_sending (.inl rfl) hasShape_laden).1 ladenShip
    visitedAs_laden (by decide +kernel)⟩

end EntitySchema.Sample
