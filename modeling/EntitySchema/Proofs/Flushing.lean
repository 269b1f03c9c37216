import EntitySchema.Proofs.Transmission

/-!
# A flush sends what is pending, once

A component has something pending when a member is dirty or an event is staged. A flush turns just
that into a payload: the payload carries something if and only if something is pending, and reading
it gives the dirty members and the staged events. The members, the received events and the flag of
the component stay as they are, nothing is pending afterwards, and so the next flush sends nothing
and changes nothing.

## Implementation notes

A dirty member that stores no value leaves its trace in the list of cleared fields only. That no
change is lost is therefore not read off the objects in the payload: an empty payload is read as the
update without changes, and reading undoes writing.
-/

namespace EntitySchema.Replica

open Schema
open Wire (Delta Value)

/-! ### States in some order -/

/-- The second member is the first one with the entries of its maps in some order. -/
structure Tracked.VisitedAs (t visited : Tracked Data) : Prop where
  value : t.value.VisitedAs visited.value
  isDirty : visited.isDirty = t.isDirty

/-- The second queue is the first one with the entries of the maps in its events in some order. -/
structure EventQueue.VisitedAs (q visited : EventQueue Data) : Prop where
  received : List.Forall₂ Data.VisitedAs q.received visited.received
  staged : List.Forall₂ Data.VisitedAs q.staged visited.staged

/-- The second state is the first one with the entries of every map in some order. -/
structure State.VisitedAs (st visited : State) : Prop where
  members : List.Forall₂ Tracked.VisitedAs st.members visited.members
  isDirty : visited.isDirty = st.isDirty
  queues : List.Forall₂ EventQueue.VisitedAs st.queues visited.queues

/-- What is pending is visited in the order in which the state is. -/
theorem State.VisitedAs.pending {st visited : State} (h : st.VisitedAs visited) :
    st.pending.VisitedAs visited.pending where
  members := by
    simp only [State.pending, List.forall₂_map_left_iff, List.forall₂_map_right_iff]
    refine h.members.imp fun t v htv => ?_
    rw [htv.isDirty]
    cases t.isDirty with
    | false => exact .none
    | true => exact .some htv.value
  events := by
    simp only [State.pending, List.forall₂_map_left_iff, List.forall₂_map_right_iff]
    exact h.queues.imp fun q v hqv => hqv.staged

/-! ### The update without changes -/

section NoChange

variable {s : Linked} {e : Entry} {u : Update} {st : State}

theorem Update.eq_none_iff :
    u = .none e ↔
      (u.members.length = e.data.fields.length ∧ ∀ m ∈ u.members, m = Option.none) ∧
        u.events.length = e.component.events.length ∧ ∀ es ∈ u.events, es = [] := by
  obtain ⟨members, events⟩ := u
  rw [Update.none, Update.mk.injEq, List.map_const', List.map_const', List.eq_replicate_iff,
    List.eq_replicate_iff]

theorem Update.sorted_eq_none_iff : u.sorted = .none e ↔ u = .none e := by
  simp [Update.eq_none_iff, Update.sorted]

/-- Nothing is pending when the pending update is the one without changes. -/
theorem State.pending_eq_none_iff (hmembers : st.members.length = e.data.fields.length)
    (hqueues : st.queues.length = e.component.events.length) :
    st.pending = .none e ↔ st.hasPending = false := by
  simp [Update.eq_none_iff, State.pending, State.hasPending, EventQueue.hasStaged, hmembers,
    hqueues]

theorem writeMembers_none (fields : List Field) (p : Delta) :
    Update.writeMembers s fields (fields.map fun _ => none) p = p := by
  induction fields with
  | nil => rfl
  | cons f rest ih => exact ih

theorem writeEvents_none (events : List Event) (p : Delta) :
    Update.writeEvents s events (events.map fun _ => []) p = p := by
  induction events with
  | nil => rfl
  | cons ev rest ih =>
      rw [List.map_cons, Update.writeEvents, storeItems]
      exact ih

theorem write_none (s : Linked) (e : Entry) :
    (Update.none e).write s e = { componentId := e.component.id } := by
  rw [Update.write, Update.none, writeMembers_none, writeEvents_none]

/-- An empty payload sets no member and carries no event. -/
theorem read_of_isEmpty {p : Delta} (h : p.isEmpty = true) : Update.read s e p = .none e := by
  obtain ⟨id, ⟨fields⟩, ⟨events⟩, cleared⟩ := p
  obtain ⟨⟨rfl, rfl⟩, rfl⟩ : (fields = [] ∧ events = []) ∧ cleared = [] := by
    simpa [Delta.isEmpty, Wire.Fields.isEmpty] using h
  rfl

/-- The payload of an update is empty exactly when the update changes nothing. -/
theorem WrittenAs.isEmpty_write_iff {members : Field × Data → List Value}
    {events : Event × List Data → List Value} (h : WrittenAs s e u members events)
    (hmembers : u.members.length = e.data.fields.length)
    (hevents : u.events.length = e.component.events.length) (replicable : Replicable s e) :
    (u.write s e).isEmpty = true ↔ u = .none e := by
  constructor
  · intro hempty
    have hread := read_write h hmembers hevents replicable
    rw [read_of_isEmpty hempty] at hread
    exact Update.sorted_eq_none_iff.mp hread.symm
  · rintro rfl
    rw [write_none]
    rfl

end NoChange

/-! ### Flushing -/

section Flush

variable {s : Linked} {e : Entry} {st visited : State}

/-- The payload of a flush is read as what was pending, and it is empty exactly when nothing was. -/
theorem State.HasShape.flush_visited (h : st.HasShape s e)
    (hbatches : ∀ q ∈ st.queues, q.staged.length < UInt32.size) (hvisited : st.VisitedAs visited)
    (replicable : Replicable s e) :
    Update.read s e (visited.flush s e).1 = st.pending ∧
      ((visited.flush s e).1.isEmpty = true ↔ visited.hasPending = false) := by
  have hpending := h.pending hbatches
  have hmembers : visited.members.length = e.data.fields.length :=
    hvisited.members.length_eq.symm.trans h.membersLength
  have hqueues : visited.queues.length = e.component.events.length :=
    hvisited.queues.length_eq.symm.trans h.queuesLength
  have hset : visited.pending.members.length = e.data.fields.length := by
    simpa [State.pending] using hmembers
  have hsent : visited.pending.events.length = e.component.events.length := by
    simpa [State.pending] using hqueues
  obtain ⟨members, events, hwritten⟩ := hpending.exists_writtenAs hvisited.pending replicable
  constructor
  · exact (read_write hwritten hset hsent replicable).trans (hpending.sorted_eq hvisited.pending)
  · exact (hwritten.isEmpty_write_iff hset hsent replicable).trans
      (State.pending_eq_none_iff hmembers hqueues)

theorem State.hasPending_flush (s : Linked) (e : Entry) (st : State) :
    (st.flush s e).2.hasPending = false := by
  simp [State.flush, State.hasPending, Tracked.take, Tracked.clean, EventQueue.clearStaged,
    EventQueue.hasStaged]

/-- A state with nothing pending sends the payload that carries nothing. -/
theorem State.flush_of_not_pending (hmembers : st.members.length = e.data.fields.length)
    (hqueues : st.queues.length = e.component.events.length) (h : st.hasPending = false) :
    (st.flush s e).1 = { componentId := e.component.id } := by
  have hnone : st.pending = .none e := (State.pending_eq_none_iff hmembers hqueues).mpr h
  rw [State.flush, hnone, write_none]

theorem State.flush_flush (s : Linked) (e : Entry) (st : State) :
    ((st.flush s e).2.flush s e).2 = (st.flush s e).2 := by
  simp [State.flush, Tracked.take, Tracked.clean, EventQueue.clearStaged]

end Flush

end EntitySchema.Replica

namespace EntitySchema.Sample

open Schema Replica

/-- Flushing the data of a ship or of the weather sends what is pending, and sends it once, in
whatever order the entries of its maps are visited. The payload carries something exactly when
something is pending; reading it sets the dirty members to their values and no others, and gives the
staged events in order. Afterwards no member is dirty, nothing is staged and all else is as it was,
so a second flush sends nothing and changes nothing. -/
theorem flush_sends_pending_once {e : Entry} (he : e = shipEntry ∨ e = weatherEntry)
    {st visited : State} (hst : st.HasShape schema e)
    (hstaged : ∀ q ∈ st.queues, q.staged.length < UInt32.size) (hvisited : st.VisitedAs visited) :
    (visited.hasPending = true ↔ (visited.flush schema e).1.isEmpty = false) ∧
    Update.read schema e (visited.flush schema e).1 = {
      members := st.members.map fun t => if t.isDirty then some t.value else none
      events := st.queues.map fun q => q.staged } ∧
    (visited.flush schema e).2 = {
      members := visited.members.map fun t => ⟨t.value, false⟩
      isDirty := visited.isDirty
      queues := visited.queues.map fun q => ⟨q.received, []⟩ } ∧
    (visited.flush schema e).2.hasPending = false ∧
    ((visited.flush schema e).2.flush schema e).1.isEmpty = true ∧
    ((visited.flush schema e).2.flush schema e).2 = (visited.flush schema e).2 := by
  obtain ⟨hread, hempty⟩ := hst.flush_visited hstaged hvisited (replicable_entry he)
  have hmembers : (visited.flush schema e).2.members.length = e.data.fields.length := by
    simpa [State.flush, ← hvisited.members.length_eq] using hst.membersLength
  have hqueues : (visited.flush schema e).2.queues.length = e.component.events.length := by
    simpa [State.flush, ← hvisited.queues.length_eq] using hst.queuesLength
  have hsecond := State.flush_of_not_pending (s := schema) hmembers hqueues
    (State.hasPending_flush schema e visited)
  refine ⟨?_, hread, rfl, State.hasPending_flush schema e visited, ?_,
    State.flush_flush schema e visited⟩
  · rw [← Bool.not_eq_true, hempty, Bool.not_eq_false]
  · rw [hsecond]
    rfl

/-- A ship whose cargo, escort and offsets are dirty, the last two with nothing to store, and which
has events at both ends of its queue. -/
def restockedShip (entries : List (String × UInt32)) : State where
  members := List.zipWith Tracked.mk (laden entries)
    [false, false, false, false, true, false, false, true, true]
  isDirty := true
  queues := [⟨[struck 1], [struck 2, struck 3]⟩]

theorem hasShape_restockedShip :
    (restockedShip [("grain", 5), ("tar", 2)]).HasShape schema shipEntry := by
  refine State.hasShape_of_forall₂ (List.forall₂_map_right_iff.mp hasShape_laden) (.cons ?_ .nil)
  simp only [List.forall_mem_cons]
  exact ⟨hasShape_struck 2, hasShape_struck 3, by simp⟩

theorem visitedAs_restockedShip :
    (restockedShip [("grain", 5), ("tar", 2)]).VisitedAs
      (restockedShip [("tar", 2), ("grain", 5)]) := by
  have hself (d : Data) (b : Bool) : Tracked.VisitedAs ⟨d, b⟩ ⟨d, b⟩ := ⟨d.visitedAs_self, rfl⟩
  have hevents (es : List Data) : List.Forall₂ Data.VisitedAs es es :=
    List.forall₂_same.mpr fun d _ => d.visitedAs_self
  exact ⟨.cons (hself _ _) <| .cons (hself _ _) <| .cons (hself _ _) <| .cons (hself _ _) <|
      .cons ⟨visitedAs_cargo, rfl⟩ <| .cons (hself _ _) <| .cons (hself _ _) <|
      .cons (hself _ _) <| .cons (hself _ _) .nil,
    rfl, .cons ⟨hevents _, hevents _⟩ .nil⟩

/-- The cargo is sent although it is visited against the order, and so are the members that have
nothing to store. -/
theorem flush_sends_pending_once_restocked :
    (restockedShip [("tar", 2), ("grain", 5)]).hasPending = true ∧
    ((restockedShip [("tar", 2), ("grain", 5)]).flush schema shipEntry).1.isEmpty = false ∧
    Update.read schema shipEntry
        ((restockedShip [("tar", 2), ("grain", 5)]).flush schema shipEntry).1 = {
      members := [none, none, none, none, some (cargo [("grain", 5), ("tar", 2)]), none, none,
        some .absent, some (.list [])]
      events := [[struck 2, struck 3]] } := by
  obtain ⟨hpending, hread, -⟩ := flush_sends_pending_once (.inl rfl) hasShape_restockedShip
    (List.forall_mem_singleton.mpr (by decide)) visitedAs_restockedShip
  exact ⟨rfl, hpending.mp rfl, hread⟩

end EntitySchema.Sample
