import EntitySchema.Proofs.Transmission

/-!
# Updates act by merging

Two updates of a component merge into one: a member comes from the later update if that one sets it
and from the earlier one otherwise, while the events of the later update come behind those of the
earlier one. Applying updates one after the other is applying what they merge into, and the update
without changes does nothing at all. Here states are compared with their dirty bits, their staged
events and their flag.

Members are overwritten and events pile up. Both are the same law for one position, so the two
lists of a state are treated alike: an update is applied position by position, and so is the merge.
-/

namespace EntitySchema.Replica

open Schema

/-- The state has one member for each field and one queue for each event of the component. -/
structure State.Conforms (e : Entry) (st : State) : Prop where
  members : st.members.length = e.data.fields.length
  queues : st.queues.length = e.component.events.length

/-- The update has one member for each field and one batch for each event of the component. -/
structure Update.Conforms (e : Entry) (u : Update) : Prop where
  members : u.members.length = e.data.fields.length
  events : u.events.length = e.component.events.length

/-- What two updates do one after the other: the members of the later one in front of those of the
earlier one, and its events behind. -/
def Update.merge (earlier later : Update) : Update where
  members := List.zipWith (fun a b => b.or a) earlier.members later.members
  events := List.zipWith (fun as bs => as ++ bs) earlier.events later.events

/-- Two passes over a list merge into one when they do so at every position. -/
theorem zipWith_zipWith {α β γ : Type} {act : α → β → α} {act' : α → γ → α} {merge : β → γ → β}
    (h : ∀ a b c, act' (act a b) c = act a (merge b c)) (as : List α) (bs : List β) (cs : List γ) :
    List.zipWith act' (List.zipWith act as bs) cs =
      List.zipWith act as (List.zipWith merge bs cs) := by
  rw [List.zipWith_zipWith_left, List.zipWith_zipWith_right]
  simp only [h]

section Merging

variable {e : Entry} {st : State} {u v : Update}

theorem Update.Conforms.merge (hu : u.Conforms e) (hv : v.Conforms e) :
    (u.merge v).Conforms e where
  members := by rw [Update.merge, List.length_zipWith, hu.members, hv.members, min_self]
  events := by rw [Update.merge, List.length_zipWith, hu.events, hv.events, min_self]

theorem Update.conforms_none (e : Entry) : (Update.none e).Conforms e :=
  ⟨List.length_map _, List.length_map _⟩

/-- A set member takes the place of the old one, and a member that is not set stays. -/
theorem State.Conforms.members_apply (hst : st.Conforms e) (hu : u.Conforms e) :
    (st.apply u).members = List.zipWith (fun t d => d.elim t Tracked.clean) st.members u.members :=
  overlay_eq_zipWith Tracked.clean (hu.members.trans hst.members.symm)

theorem State.Conforms.queues_apply (hst : st.Conforms e) (hu : u.Conforms e) :
    (st.apply u).queues = List.zipWith EventQueue.receiveAll st.queues u.events :=
  receiveEvents_eq_zipWith (hu.events.trans hst.queues.symm)

theorem State.Conforms.apply (hst : st.Conforms e) (hu : u.Conforms e) :
    (st.apply u).Conforms e where
  members := by rw [hst.members_apply hu, List.length_zipWith, hst.members, hu.members, min_self]
  queues := by rw [hst.queues_apply hu, List.length_zipWith, hst.queues, hu.events, min_self]

/-- Applying two updates one after the other is applying their merge. -/
theorem State.Conforms.apply_apply (hst : st.Conforms e) (hu : u.Conforms e) (hv : v.Conforms e) :
    (st.apply u).apply v = st.apply (u.merge v) := by
  have hmembers : ((st.apply u).apply v).members = (st.apply (u.merge v)).members := by
    rw [(hst.apply hu).members_apply hv, hst.members_apply hu, hst.members_apply (hu.merge hv)]
    refine zipWith_zipWith (fun t a b => ?_) _ _ _
    cases b with
    | none => rfl
    | some d => rfl
  have hqueues : ((st.apply u).apply v).queues = (st.apply (u.merge v)).queues := by
    rw [(hst.apply hu).queues_apply hv, hst.queues_apply hu, hst.queues_apply (hu.merge hv)]
    refine zipWith_zipWith (fun q as bs => ?_) _ _ _
    simp [EventQueue.receiveAll]
  calc (st.apply u).apply v
      = ⟨((st.apply u).apply v).members, st.isDirty, ((st.apply u).apply v).queues⟩ := rfl
    _ = st.apply (u.merge v) := by rw [hmembers, hqueues]; rfl

theorem overlay_none (put : Data → Tracked Data) (ts : List (Tracked Data)) (fields : List Field) :
    State.overlay put ts (fields.map fun _ => none) = ts := by
  induction ts generalizing fields with
  | nil => cases fields <;> rfl
  | cons t rest ih =>
      cases fields with
      | nil => rfl
      | cons f fields => rw [List.map_cons, State.overlay, ih]

theorem receiveEvents_none (qs : List (EventQueue Data)) (events : List Event) :
    State.receiveEvents qs (events.map fun _ => []) = qs := by
  induction qs generalizing events with
  | nil => cases events <;> rfl
  | cons q rest ih =>
      cases events with
      | nil => rfl
      | cons ev events =>
          rw [List.map_cons, State.receiveEvents, ih, EventQueue.receiveAll, List.append_nil]

/-- The update without changes leaves a state exactly as it is. -/
theorem State.apply_none (e : Entry) (st : State) : st.apply (.none e) = st := by
  rw [State.apply, Update.none, overlay_none, receiveEvents_none]

/-- Applying any number of updates is applying what they merge into. -/
theorem State.Conforms.foldl_apply (hst : st.Conforms e) (hu : u.Conforms e) {us : List Update}
    (hus : ∀ v ∈ us, v.Conforms e) :
    us.foldl State.apply (st.apply u) = st.apply (us.foldl Update.merge u) := by
  induction us generalizing u with
  | nil => rfl
  | cons v rest ih =>
      obtain ⟨hv, hrest⟩ := List.forall_mem_cons.mp hus
      rw [List.foldl_cons, List.foldl_cons, hst.apply_apply hu hv, ih (hu.merge hv) hrest]

theorem State.Conforms.getElem?_members_apply (hst : st.Conforms e) (hu : u.Conforms e) {i : Nat}
    {m : Option Data} (hm : u.members[i]? = some m) :
    (st.apply u).members[i]? = (st.members[i]?).map fun t => m.elim t Tracked.clean := by
  rw [hst.members_apply hu, List.getElem?_zipWith, hm]
  cases st.members[i]? <;> rfl

theorem State.Conforms.getElem?_queues_apply (hst : st.Conforms e) (hu : u.Conforms e) {i : Nat}
    {es : List Data} (hes : u.events[i]? = some es) :
    (st.apply u).queues[i]? = (st.queues[i]?).map fun q => q.receiveAll es := by
  rw [hst.queues_apply hu, List.getElem?_zipWith, hes]
  cases st.queues[i]? <;> rfl

/-- Changes reach the data of their own component and no other: components of a schema that differ
have different numbers. -/
theorem AnyState.apply_eq {s : Linked} {a : AnyState} {c : AnyUpdate}
    (ha : s.entry? a.entry.component.id = some a.entry)
    (hc : s.entry? c.entry.component.id = some c.entry) :
    a.apply c = if c.entry = a.entry then ⟨a.entry, a.state.apply c.update⟩ else a := by
  have hsame : a.entry.component.id = c.entry.component.id ↔ c.entry = a.entry := by
    constructor
    · intro hid
      rw [hid] at ha
      exact Option.some.inj (hc.symm.trans ha)
    · intro hentry
      rw [hentry]
  simp only [AnyState.apply, hsame]

end Merging

end EntitySchema.Replica

namespace EntitySchema.Sample

open Schema Replica

/-- Updates of a ship or of the weather act on its data by merging: applied one after the other they
are applied as one, and the default update changes nothing. An update makes the members that it sets
clean and leaves the others with their dirty bits, puts its events behind the received ones, and
touches neither the staged events nor the flag. An update of the other component does nothing. -/
theorem apply_acts_by_merging {e : Entry} (he : e = shipEntry ∨ e = weatherEntry) {st : State}
    (hst : st.Conforms e) :
    (∀ u v : Update, u.Conforms e → v.Conforms e →
      (u.merge v).Conforms e ∧ (st.apply u).apply v = st.apply (u.merge v)) ∧
    (∀ us : List Update, (∀ u ∈ us, u.Conforms e) →
      us.foldl State.apply st = st.apply (us.foldl Update.merge (.none e))) ∧
    st.apply (.none e) = st ∧
    (∀ u : Update, u.Conforms e →
      (∀ (i : Nat) (d : Data), u.members[i]? = some (some d) →
        (st.apply u).members[i]? = some ⟨d, false⟩) ∧
      (∀ i : Nat, u.members[i]? = some none → (st.apply u).members[i]? = st.members[i]?) ∧
      (∀ (i : Nat) (q : EventQueue Data) (es : List Data), st.queues[i]? = some q →
        u.events[i]? = some es →
        (st.apply u).queues[i]? = some ⟨q.received ++ es, q.staged⟩) ∧
      (st.apply u).isDirty = st.isDirty) ∧
    ∀ (e' : Entry) (u : Update), e' = shipEntry ∨ e' = weatherEntry →
      AnyState.apply ⟨e, st⟩ ⟨e', u⟩ = ⟨e, if e' = e then st.apply u else st⟩ := by
  refine ⟨?_, ?_, State.apply_none e st, ?_, ?_⟩
  · exact fun u v hu hv => ⟨hu.merge hv, hst.apply_apply hu hv⟩
  · intro us hus
    have hall := hst.foldl_apply (Update.conforms_none e) hus
    rwa [State.apply_none] at hall
  · intro u hu
    refine ⟨?_, ?_, ?_, rfl⟩
    · intro i d hd
      have hi : i < st.members.length := by
        rw [hst.members, ← hu.members]
        exact (List.getElem?_eq_some_iff.mp hd).1
      rw [hst.getElem?_members_apply hu hd, List.getElem?_eq_getElem hi]
      rfl
    · intro i hnone
      rw [hst.getElem?_members_apply hu hnone]
      exact Option.map_id'
    · intro i q es hq hes
      rw [hst.getElem?_queues_apply hu hes, hq]
      rfl
  · intro e' u he'
    rw [AnyState.apply_eq (entry?_schema he) (entry?_schema he')]
    split_ifs <;> rfl

/-- An update that renames the ship, gives it a target again and carries one more hit. -/
def christening : Update where
  members := [some (.scalar (.string "Argo II")), none, some (.present (.scalar (.entityId ⟨8⟩))),
    none, none, none, none, none, none]
  events := [[struck 3]]

/-- The refit and the christening act on a laden ship as one update: the target that the first one
clears and the second one sets is set, and the hits of both are received behind the old one, while
an update of the weather does nothing. -/
theorem apply_acts_by_merging_renamed :
    (ladenShip.apply (refit [("tar", 2)])).apply christening =
        ladenShip.apply {
          members := [some (.scalar (.string "Argo II")), some origin,
            some (.present (.scalar (.entityId ⟨8⟩))), some (.list []), some (cargo [("tar", 2)]),
            none, none, some (.present origin), some (.list [])]
          events := [[struck 1, struck 2, struck 3]] } ∧
      AnyState.apply ⟨shipEntry, ladenShip⟩ ⟨weatherEntry, ⟨[none, some (.list [])], []⟩⟩ =
        ⟨shipEntry, ladenShip⟩ := by
  have hship : ladenShip.Conforms shipEntry := ⟨rfl, rfl⟩
  obtain ⟨hmerge, -, -, -, hother⟩ := apply_acts_by_merging (.inl rfl) hship
  exact ⟨(hmerge (refit [("tar", 2)]) christening ⟨rfl, rfl⟩ ⟨rfl, rfl⟩).2,
    hother weatherEntry ⟨[none, some (.list [])], []⟩ (.inr rfl)⟩

end EntitySchema.Sample
