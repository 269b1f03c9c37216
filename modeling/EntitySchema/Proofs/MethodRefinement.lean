import EntitySchema.Proofs.Convergence
import EntitySchema.Proofs.Flushing
import EntitySchema.Proofs.Visits

/-!
# Generated methods do what states and updates do

Where the data of a component holds a state and a structure holds an update, every generated method
leads to what the same operation on the state or the update gives: applying an update, flushing,
storing an update, dropping received events, and the questions of whether something is pending and
whether there are events.

## Implementation notes

Code that stores a map visits its entries in the order in which it holds them. So the payload that a
method fills is that of the state or the update with its maps in some order, as everywhere else.
-/

namespace EntitySchema.Replica

open Code (Instance Visit)
open Filter (atTop)
open Schema
open Wire (Delta)

/-! ### Lists side by side -/

theorem mem_zip_zip {α β γ : Type} {as : List α} {bs : List β} {cs : List γ} {x : α × β × γ}
    (h : x ∈ as.zip (bs.zip cs)) : (x.1, x.2.1) ∈ as.zip bs ∧ (x.1, x.2.2) ∈ as.zip cs := by
  induction as generalizing bs cs with
  | nil => cases h
  | cons a as ih =>
      cases bs with
      | nil => cases h
      | cons b bs =>
          cases cs with
          | nil => cases h
          | cons c cs =>
              rcases List.mem_cons.mp h with rfl | h
              · exact ⟨List.mem_cons_self, List.mem_cons_self⟩
              · obtain ⟨hb, hc⟩ := ih h
                exact ⟨List.mem_cons_of_mem _ hb, List.mem_cons_of_mem _ hc⟩

theorem map_zip_snd {α β γ : Type} {as : List α} {bs : List β} (h : bs.length = as.length)
    (g : β → γ) : ((as.zip bs).map fun p => g p.2) = bs.map g := by
  have hsnd : (as.zip bs).map Prod.snd = bs := List.map_snd_zip h.le
  calc ((as.zip bs).map fun p => g p.2) = ((as.zip bs).map Prod.snd).map g := by
        simp [Function.comp_def]
    _ = bs.map g := by rw [hsnd]

theorem map_zip_zip {α β γ δ : Type} {as : List α} {bs : List β} {cs : List γ}
    (hb : bs.length = as.length) (hc : cs.length = bs.length) (g : β → γ → δ) :
    ((as.zip (bs.zip cs)).map fun p => g p.2.1 p.2.2) = List.zipWith g bs cs := by
  have hzip : (bs.zip cs).length = as.length := by
    rw [List.length_zip, hc, min_self, hb]
  calc ((as.zip (bs.zip cs)).map fun p => g p.2.1 p.2.2)
      = (bs.zip cs).map fun p => g p.1 p.2 := map_zip_snd hzip fun p => g p.1 p.2
    _ = List.zipWith g bs cs := List.map_zip_eq_zipWith

/-- What is made from the items of a zip is related to the second list if the items are. -/
theorem forall₂_map_zip {α β γ : Type} {R : β → γ → Prop} {as : List α} {bs : List β}
    {g : α × β → γ} (hlength : bs.length = as.length) (h : ∀ x ∈ as.zip bs, R x.2 (g x)) :
    List.Forall₂ R bs ((as.zip bs).map g) := by
  have hzip : List.Forall₂ R ((as.zip bs).map Prod.snd) ((as.zip bs).map g) := by
    rw [List.forall₂_map_left_iff, List.forall₂_map_right_iff]
    exact List.forall₂_same.mpr h
  rwa [List.map_snd_zip hlength.le] at hzip

/-! ### Lists that are held -/

/-- Items that are held one behind the other. -/
theorem Data.HeldAs.append {s : Linked} {inner : Shape} {as bs : List Data} {vs ws : List Instance}
    (ha : (Data.list as).HeldAs s (.list inner) (.list vs))
    (hb : (Data.list bs).HeldAs s (.list inner) (.list ws)) :
    (Data.list (as ++ bs)).HeldAs s (.list inner) (.list (vs ++ ws)) := by
  cases ha with
  | @list _ xs hxs =>
  cases hb with
  | @list _ ys hys =>
      have happend := Data.HeldAs.list (List.forall_mem_append.mpr ⟨hxs, hys⟩)
      rwa [List.map_append, List.map_append] at happend

/-- A list is held as a list. -/
theorem Data.HeldAs.exists_list {s : Linked} {inner : Shape} {d : Data} {v : Instance}
    (h : d.HeldAs s (.list inner) v) : ∃ items, v = .list items := by
  cases h with
  | list => exact ⟨_, rfl⟩

theorem isEmpty_of_heldAs {s : Linked} {inner : Shape} {ds : List Data} {vs : List Instance}
    (h : (Data.list ds).HeldAs s (.list inner) (.list vs)) : vs.isEmpty = ds.isEmpty := by
  cases h with
  | @list _ items _ => simp

/-! ### Applying an update -/

/-- Taking a member of an update over. -/
def takeOver (f : Field) (before m : Instance) : Visit where
  name := f.name
  steps := [f.applying]
  before := before
  after := match m with
    | .present w => some (.cell w false)
    | _ => none
  pay := id

/-- Receiving the events of an update. -/
def receiveEach (ev : Event) (received staged events : List Instance) : Visit where
  name := ev.name
  steps := [ev.applying]
  before := .queue received staged
  after := some (.queue (received ++ events) staged)
  pay := id

section Apply

variable {s : Linked} {depth : Nat} {update m v : Instance} {f : Field} {ev : Event}
  {t : Tracked Data} {d : Option Data}

theorem runs_takeOver (hm : update.member? f.name = some m)
    (h : (optional d).HeldAs s (.option f.shape) m) (before : Instance) :
    (takeOver f before m).Runs s depth update := by
  intro self p _
  cases d with
  | none =>
      cases h with
      | absent => simp [Linked.runSteps, takeOver, Field.applying, Code.Step.run, hm, Visit.change]
  | some d =>
      cases h with
      | present hd =>
          simp [Linked.runSteps, takeOver, Field.applying, Code.Step.run, hm, Visit.change]

theorem result_takeOver (hv : t.value.HeldAs s f.shape v)
    (h : (optional d).HeldAs s (.option f.shape) m) :
    ∃ w, (takeOver f (.cell v t.isDirty) m).result = .cell w (d.elim t Tracked.clean).isDirty ∧
      (d.elim t Tracked.clean).value.HeldAs s f.shape w := by
  cases d with
  | none =>
      cases h with
      | absent => exact ⟨v, rfl, hv⟩
  | some d =>
      cases h with
      | @present _ _ w hd => exact ⟨w, rfl, hd⟩

theorem runs_receiveEach {events : List Instance} (h : update.member? ev.name = some (.list events))
    (received staged : List Instance) :
    (receiveEach ev received staged events).Runs s depth update := by
  intro self p hself
  have hqueue : self.member? ev.name = some (.queue received staged) := hself
  simp [Linked.runSteps, receiveEach, Event.applying, Code.Step.run, h, hqueue, Visit.change]

variable {e : Entry} {st : State} {u : Update} {self : Instance}

/-- The visits that apply an update, given what the members hold. -/
def State.HeldAs.applyTour (h : st.HeldAs s e self) (hu : u.HeldAs s e update)
    (v : Field × Tracked Data → Instance) (m : Field × Option Data → Instance)
    (received staged : Event × EventQueue Data → List Instance)
    (items : Event × List Data → List Instance) :
    Tour e (Tracked Data × Option Data) (EventQueue Data × List Data) where
  fields := e.data.fields.zip (st.members.zip u.members)
  events := e.component.events.zip (st.queues.zip u.events)
  onField x := takeOver x.1 (.cell (v (x.1, x.2.1)) x.2.1.isDirty) (m (x.1, x.2.2))
  onEvent x :=
    receiveEach x.1 (received (x.1, x.2.1)) (staged (x.1, x.2.1)) (items (x.1, x.2.2))
  fields_eq := List.map_fst_zip (by simp [h.membersLength, hu.membersLength])
  events_eq := List.map_fst_zip (by simp [h.queuesLength, hu.eventsLength])
  name_onField _ := rfl
  name_onEvent _ := rfl

/-- Applying an update that holds changes to data that holds a state leads to data that holds the
state with the changes applied. -/
theorem State.HeldAs.applyUpdate (sound : s.Sound) (promoted : e.Promoted s)
    (h : st.HeldAs s e self) (hu : u.HeldAs s e update) :
    ∃ self', (∀ depth, s.applyUpdate depth e self update = some self') ∧
      (st.apply u).HeldAs s e self' := by
  have hmembers : u.members.length = st.members.length := hu.membersLength.trans h.membersLength.symm
  have hevents : u.events.length = st.queues.length := hu.eventsLength.trans h.queuesLength.symm
  choose! v hv hvheld using h.members
  choose! m hm hmheld using hu.members
  choose! received staged hqueue hreceived hstaged using h.queues
  choose! items hitems hitemsHeld using hu.events
  set t := h.applyTour hu v m received staged items
  have hstarts : t.Starts self :=
    ⟨fun x hx => hv _ (mem_zip_zip hx).1, fun x hx => hqueue _ (mem_zip_zip hx).1⟩
  have hruns (depth : Nat) : ∀ w ∈ t.visits, w.Runs s depth update := by
    refine List.forall_mem_append.mpr ⟨List.forall_mem_map.mpr fun x hx => ?_,
      List.forall_mem_map.mpr fun x hx => ?_⟩
    · exact runs_takeOver (hm _ (mem_zip_zip hx).2) (hmheld _ (mem_zip_zip hx).2) _
    · exact runs_receiveEach (hitems _ (mem_zip_zip hx).2) _ _
  have hsteps : t.visits.flatMap Visit.steps = e.component.applying e.data := by
    rw [Component.applying, List.map_eq_flatMap, List.map_eq_flatMap]
    exact Tour.steps_visits (fun _ => rfl) fun _ => rfl
  have hmembersAfter : (st.apply u).members =
      t.fields.map fun x => x.2.2.elim x.2.1 Tracked.clean :=
    (overlay_eq_zipWith _ hmembers).trans (map_zip_zip h.membersLength hmembers _).symm
  have hqueuesAfter : (st.apply u).queues = t.events.map fun x => x.2.1.receiveAll x.2.2 :=
    (receiveEvents_eq_zipWith hevents).trans (map_zip_zip h.queuesLength hevents _).symm
  refine ⟨t.finish self, fun depth => ?_,
    t.heldAs_finish sound promoted hstarts hmembersAfter hqueuesAfter h.isDirty ?_ ?_⟩
  · rw [Linked.applyUpdate, ← hsteps, t.run_eq sound promoted hstarts (hruns depth)]
    rfl
  · exact fun x hx =>
      result_takeOver (hvheld _ (mem_zip_zip hx).1) (hmheld _ (mem_zip_zip hx).2)
  · intro x hx
    obtain ⟨hq, hi⟩ := mem_zip_zip hx
    exact ⟨_, _, rfl, (hreceived _ hq).append (hitemsHeld _ hi), hstaged _ hq⟩

end Apply

/-! ### Storing changes -/

theorem writeEvents_eq_foldl (s : Linked) (events : List Event) (batches : List (List Data))
    (p : Delta) :
    Update.writeEvents s events batches p =
      (events.zip batches).foldl (fun p batch =>
        { p with events := storeItems s batch.2 batch.1.shape batch.1.index p.events }) p := by
  induction events generalizing batches p with
  | nil => cases batches <;> rfl
  | cons ev rest ih =>
      cases batches with
      | nil => rfl
      | cons es batches => exact ih batches _

theorem eventually_change {s : Linked} {f : Field} {v : Instance} {d : Data}
    (h : StoredLike s f.shape v d) :
    ∀ᶠ depth in atTop, ∀ self p,
      f.change.run (s.serialize depth) ⟨self, [("value", v)]⟩ p =
        some (Update.writeChange s f d p) := by
  filter_upwards [h] with depth hdepth self p
  have hwrite := hdepth ⟨self, [("value", v)]⟩ Code.changedFields f.id (.variable "value") p.fields
    rfl
  rw [Code.Change.run, Update.writeChange, Field.change, hwrite]
  cases hcontainer : f.shape.isContainer with
  | false => simp
  | true => cases hhas : (store s d f.shape f.id p.fields).has f.id <;> simp [hhas]

/-- A list that generated code holds is stored as it is visited. -/
theorem exists_storedLike_list {s : Linked} {inner : Shape} {ds : List Data} {v : Instance}
    (h : (Data.list ds).HeldAs s (.list inner) v) :
    ∃ es, List.Forall₂ Data.VisitedAs ds es ∧ StoredLike s (.list inner) v (.list es) := by
  obtain ⟨visited, hvisited, hstored⟩ := h.exists_storedLike
  cases hvisited with
  | @list items hitems =>
      refine ⟨items.map Prod.snd, ?_, hstored⟩
      rw [List.forall₂_map_left_iff, List.forall₂_map_right_iff]
      exact List.forall₂_same.mpr hitems

/-- The payload of an update whose members and events are made from lists of fields and events. -/
theorem write_map {s : Linked} {e : Entry} {α β : Type} {fields : List (Field × α)}
    {events : List (Event × β)} (hfields : fields.map Prod.fst = e.data.fields)
    (hevents : events.map Prod.fst = e.component.events) (member : Field × α → Option Data)
    (batch : Event × β → List Data) :
    Update.write s e ⟨fields.map member, events.map batch⟩ =
      events.foldl (fun p x =>
        { p with events := storeItems s (batch x) x.1.shape x.1.index p.events })
        (fields.foldl (fun p x => writeSlot s p (x.1, member x))
          { componentId := e.component.id }) := by
  rw [Update.write, writeMembers_eq_foldl, writeEvents_eq_foldl, ← hfields, ← hevents,
    List.zip_map', List.zip_map', List.foldl_map, List.foldl_map]

/-! ### Flushing -/

/-- Flushing a member. -/
def flushMember (s : Linked) (f : Field) (v : Instance) (isDirty : Bool) (d : Data) : Visit where
  name := f.name
  steps := [f.flushing]
  before := .cell v isDirty
  after := some (.cell v false)
  pay := fun p => if isDirty then Update.writeChange s f d p else p

/-- Flushing a queue. -/
def flushQueue (s : Linked) (ev : Event) (received staged : List Instance) (es : List Data) :
    Visit where
  name := ev.name
  steps := ev.flushing
  before := .queue received staged
  after := some (.queue received [])
  pay := fun p => { p with events := storeItems s es ev.shape ev.index p.events }

section Flush

variable {s : Linked} {update : Instance} {f : Field} {ev : Event}

theorem runs_flushMember {v : Instance} {d : Data} (h : StoredLike s f.shape v d) (isDirty : Bool) :
    ∀ᶠ depth in atTop, (flushMember s f v isDirty d).Runs s depth update := by
  filter_upwards [eventually_change h] with depth hchange self p hself
  have hcell : self.member? f.name = some (.cell v isDirty) := hself
  cases isDirty with
  | false =>
      simp [Linked.runSteps, flushMember, Field.flushing, Code.Step.run, hcell, Visit.change]
  | true =>
      simp [Linked.runSteps, flushMember, Field.flushing, Code.Step.run, hcell, Visit.change,
        hchange]

theorem runs_flushQueue {received staged : List Instance} {es : List Data}
    (h : StoredLike s ev.batch (.list staged) (.list es)) :
    ∀ᶠ depth in atTop, (flushQueue s ev received staged es).Runs s depth update := by
  filter_upwards [h] with depth hdepth self p hself
  have hqueue : self.member? ev.name = some (.queue received staged) := hself
  have hwrite := hdepth ⟨self, []⟩ Code.sentEvents ev.index (.staged ev.name) p.events
    (by simp [Code.Operand.eval, hqueue])
  rw [Event.batch, store] at hwrite
  simp [Linked.runSteps, flushQueue, Event.flushing, Event.batch, Code.Step.run, hqueue, hwrite,
    Visit.change]

variable {e : Entry} {st : State} {self : Instance}

/-- The visits that flush the data of a component, given what the members hold and how the entries
of their maps are visited. -/
def State.HeldAs.flushTour (h : st.HeldAs s e self) (v : Field × Tracked Data → Instance)
    (received staged : Event × EventQueue Data → List Instance)
    (d : Field × Tracked Data → Data) (es : Event × EventQueue Data → List Data) :
    Tour e (Tracked Data) (EventQueue Data) where
  fields := e.data.fields.zip st.members
  events := e.component.events.zip st.queues
  onField x := flushMember s x.1 (v x) x.2.isDirty (d x)
  onEvent x := flushQueue s x.1 (received x) (staged x) (es x)
  fields_eq := List.map_fst_zip h.membersLength.ge
  events_eq := List.map_fst_zip h.queuesLength.ge
  name_onField _ := rfl
  name_onEvent _ := rfl

/-- The state with other members and other staged events. -/
def State.visit (e : Entry) (st : State) (d : Field × Tracked Data → Data)
    (es : Event × EventQueue Data → List Data) : State where
  members := (e.data.fields.zip st.members).map fun x => ⟨d x, x.2.isDirty⟩
  isDirty := st.isDirty
  queues := (e.component.events.zip st.queues).map fun x => ⟨x.2.received, es x⟩

variable {d : Field × Tracked Data → Data} {es : Event × EventQueue Data → List Data}

theorem State.HeldAs.visitedAs_visit (h : st.HeldAs s e self)
    (hd : ∀ x ∈ e.data.fields.zip st.members, x.2.value.VisitedAs (d x))
    (hes : ∀ x ∈ e.component.events.zip st.queues,
      List.Forall₂ Data.VisitedAs x.2.staged (es x)) : st.VisitedAs (st.visit e d es) where
  members := forall₂_map_zip h.membersLength fun x hx => ⟨hd x hx, rfl⟩
  isDirty := rfl
  queues := forall₂_map_zip h.queuesLength fun x hx =>
    ⟨List.forall₂_same.mpr fun d _ => d.visitedAs_self, hes x hx⟩

/-- The visits of a flush fill the payload of what is pending. -/
theorem payAll_flushTour (h : st.HeldAs s e self) (v : Field × Tracked Data → Instance)
    (received staged : Event × EventQueue Data → List Instance) :
    Visit.payAll (h.flushTour v received staged d es).visits { componentId := e.component.id } =
      ((st.visit e d es).flush s e).1 := by
  set t := h.flushTour v received staged d es
  have hpending : (st.visit e d es).pending =
      ⟨t.fields.map fun x => if x.2.isDirty then some (d x) else none, t.events.map es⟩ := by
    simp [State.visit, State.pending, Function.comp_def, t, State.HeldAs.flushTour]
  have hslot (p : Delta) (x : Field × Tracked Data) : (t.onField x).pay p =
      writeSlot s p (x.1, if x.2.isDirty then some (d x) else none) := by
    cases hdirty : x.2.isDirty <;>
      simp [t, State.HeldAs.flushTour, flushMember, writeSlot, hdirty]
  rw [State.flush, hpending, write_map t.fields_eq t.events_eq, Visit.payAll, Tour.visits,
    List.foldl_append, List.foldl_map, List.foldl_map]
  simp only [hslot]
  rfl

/-- Flushing data that holds a state gives the payload of what is pending, in the order in which the
code visits the entries of its maps, and leads to data that holds the flushed state. -/
theorem State.HeldAs.flushUpdate (sound : s.Sound) (promoted : e.Promoted s)
    (h : st.HeldAs s e self) :
    ∃ visited self', st.VisitedAs visited ∧
      (∀ᶠ depth in atTop, s.flushUpdate depth e self = some ((visited.flush s e).1, self')) ∧
      (st.flush s e).2.HeldAs s e self' := by
  choose! v hv hvheld using h.members
  choose! received staged hqueue hreceived hstaged using h.queues
  choose! d hd hdstored using fun slot hslot => (hvheld slot hslot).exists_storedLike
  choose! es hes hesstored using fun slot hslot => exists_storedLike_list (hstaged slot hslot)
  set t := h.flushTour v received staged d es
  have hstarts : t.Starts self := ⟨hv, hqueue⟩
  have hruns : ∀ᶠ depth in atTop, ∀ w ∈ t.visits, w.Runs s depth (.record []) :=
    Code.eventually_forall_mem (List.forall_mem_append.mpr
      ⟨List.forall_mem_map.mpr fun x hx => runs_flushMember (hdstored x hx) x.2.isDirty,
        List.forall_mem_map.mpr fun x hx => runs_flushQueue (hesstored x hx)⟩)
  have hsteps : t.visits.flatMap Visit.steps = e.component.flushing e.data := by
    rw [Component.flushing, List.map_eq_flatMap]
    exact Tour.steps_visits (fun _ => rfl) fun _ => rfl
  refine ⟨st.visit e d es, t.finish self, h.visitedAs_visit hd hes, ?_,
    t.heldAs_finish sound promoted hstarts (map_zip_snd h.membersLength _).symm
      (map_zip_snd h.queuesLength _).symm h.isDirty ?_ ?_⟩
  · filter_upwards [hruns] with depth hdepth
    rw [Linked.flushUpdate, ← hsteps, t.run_eq sound promoted hstarts hdepth,
      payAll_flushTour h v received staged]
    rfl
  · exact fun x hx => ⟨v x, rfl, hvheld x hx⟩
  · exact fun x hx => ⟨received x, [], rfl, hreceived x hx, heldAs_nil⟩

end Flush

/-! ### Storing an update -/

/-- Storing a member of an update. -/
def sendMember (s : Linked) (f : Field) (m : Instance) (d : Option Data) : Visit where
  name := f.name
  steps := [f.sending]
  before := m
  after := none
  pay := fun p => writeSlot s p (f, d)

/-- Storing the events of an update. -/
def sendEvents (s : Linked) (ev : Event) (events : List Instance) (es : List Data) : Visit where
  name := ev.name
  steps := [ev.sending]
  before := .list events
  after := none
  pay := fun p => { p with events := storeItems s es ev.shape ev.index p.events }

section Send

variable {s : Linked} {update : Instance} {f : Field} {ev : Event}

theorem runs_sendEvents {events : List Instance} {es : List Data}
    (h : StoredLike s ev.batch (.list events) (.list es)) :
    ∀ᶠ depth in atTop, (sendEvents s ev events es).Runs s depth update := by
  filter_upwards [h] with depth hdepth self p hself
  have hlist : self.member? ev.name = some (.list events) := hself
  have hwrite := hdepth ⟨self, []⟩ Code.sentEvents ev.index (.member ev.name) p.events hlist
  rw [Event.batch, store] at hwrite
  simp [Linked.runSteps, sendEvents, Event.sending, Event.batch, Code.Step.run, hwrite,
    Visit.change]

/-- A member of an update is stored as it is visited, if it is set. -/
theorem exists_runs_sendMember {m : Instance} {d : Option Data}
    (h : (optional d).HeldAs s (.option f.shape) m) :
    ∃ visited, Option.Rel Data.VisitedAs d visited ∧
      ∀ update, ∀ᶠ depth in atTop, (sendMember s f m visited).Runs s depth update := by
  cases d with
  | none =>
      cases h with
      | absent =>
          refine ⟨none, .none, fun update => .of_forall fun depth self p hself => ?_⟩
          have habsent : self.member? f.name = some .absent := hself
          simp [Linked.runSteps, sendMember, Field.sending, Code.Step.run, habsent, Visit.change,
            writeSlot]
  | some d =>
      cases h with
      | @present _ _ v hd =>
          obtain ⟨visited, hvisited, hstored⟩ := hd.exists_storedLike
          refine ⟨some visited, .some hvisited, fun update => ?_⟩
          filter_upwards [eventually_change hstored] with depth hchange self p hself
          have hpresent : self.member? f.name = some (.present v) := hself
          simp [Linked.runSteps, sendMember, Field.sending, Code.Step.run, hpresent, Visit.change,
            writeSlot, hchange]

variable {e : Entry} {u : Update} {self : Instance}

/-- The visits that store an update, given what the members hold and how the entries of their maps
are visited. -/
def Update.HeldAs.sendTour (h : u.HeldAs s e self) (m : Field × Option Data → Instance)
    (items : Event × List Data → List Instance) (d : Field × Option Data → Option Data)
    (es : Event × List Data → List Data) : Tour e (Option Data) (List Data) where
  fields := e.data.fields.zip u.members
  events := e.component.events.zip u.events
  onField x := sendMember s x.1 (m x) (d x)
  onEvent x := sendEvents s x.1 (items x) (es x)
  fields_eq := List.map_fst_zip h.membersLength.ge
  events_eq := List.map_fst_zip h.eventsLength.ge
  name_onField _ := rfl
  name_onEvent _ := rfl

/-- Storing an update that holds changes gives their payload, in the order in which the code visits
the entries of its maps. -/
theorem Update.HeldAs.writeUpdate (sound : s.Sound) (promoted : e.Promoted s)
    (h : u.HeldAs s e self) :
    ∃ visited, u.VisitedAs visited ∧ ∀ᶠ depth in atTop,
      s.writeUpdate depth e self { componentId := e.component.id } = some (visited.write s e) := by
  choose! m hm hmheld using h.members
  choose! items hitems hitemsHeld using h.events
  choose! d hd hdruns using fun slot hslot => exists_runs_sendMember (hmheld slot hslot)
  choose! es hes hesstored using fun slot hslot => exists_storedLike_list (hitemsHeld slot hslot)
  set t := h.sendTour m items d es
  have hstarts : t.Starts self := ⟨hm, hitems⟩
  have hruns : ∀ᶠ depth in atTop, ∀ w ∈ t.visits, w.Runs s depth (.record []) :=
    Code.eventually_forall_mem (List.forall_mem_append.mpr
      ⟨List.forall_mem_map.mpr fun x hx => hdruns x hx _,
        List.forall_mem_map.mpr fun x hx => runs_sendEvents (hesstored x hx)⟩)
  have hsteps : t.visits.flatMap Visit.steps = e.component.sending e.data := by
    rw [Component.sending, List.map_eq_flatMap, List.map_eq_flatMap]
    exact Tour.steps_visits (fun _ => rfl) fun _ => rfl
  have hpayload : Visit.payAll t.visits { componentId := e.component.id } =
      Update.write s e ⟨t.fields.map d, t.events.map es⟩ := by
    rw [write_map t.fields_eq t.events_eq, Visit.payAll, Tour.visits, List.foldl_append,
      List.foldl_map, List.foldl_map]
    rfl
  refine ⟨⟨t.fields.map d, t.events.map es⟩, ⟨forall₂_map_zip h.membersLength hd,
    forall₂_map_zip h.eventsLength hes⟩, ?_⟩
  filter_upwards [hruns] with depth hdepth
  rw [Linked.writeUpdate, ← hsteps, t.run_eq sound promoted hstarts hdepth, ← hpayload]
  rfl

end Send

/-! ### Cleaning up -/

/-- Passing a member over. -/
def passOver (f : Field) (before : Instance) : Visit where
  name := f.name
  steps := []
  before := before
  after := none
  pay := id

/-- Dropping the received events of a queue. -/
def cleanUp (ev : Event) (received staged : List Instance) : Visit where
  name := ev.name
  steps := [ev.cleaning]
  before := .queue received staged
  after := some (.queue [] staged)
  pay := id

section Clean

variable {s : Linked} {depth : Nat} {update : Instance} {f : Field} {ev : Event}

theorem runs_passOver {before : Instance} :
    (passOver f before).Runs s depth update := fun _ _ _ => rfl

theorem runs_cleanUp {received staged : List Instance} :
    (cleanUp ev received staged).Runs s depth update := by
  intro self p hself
  have hqueue : self.member? ev.name = some (.queue received staged) := hself
  simp [Linked.runSteps, cleanUp, Event.cleaning, Code.Step.run, hqueue, Visit.change]

variable {e : Entry} {st : State} {self : Instance}

/-- The visits that clean up the data of a component, given what the members hold. -/
def State.HeldAs.cleanTour (h : st.HeldAs s e self) (v : Field × Tracked Data → Instance)
    (received staged : Event × EventQueue Data → List Instance) :
    Tour e (Tracked Data) (EventQueue Data) where
  fields := e.data.fields.zip st.members
  events := e.component.events.zip st.queues
  onField x := passOver x.1 (.cell (v x) x.2.isDirty)
  onEvent x := cleanUp x.1 (received x) (staged x)
  fields_eq := List.map_fst_zip h.membersLength.ge
  events_eq := List.map_fst_zip h.queuesLength.ge
  name_onField _ := rfl
  name_onEvent _ := rfl

/-- Cleaning up data that holds a state leads to data that holds the state without its received
events. -/
theorem State.HeldAs.cleanupAfterFrame (sound : s.Sound) (promoted : e.Promoted s)
    (h : st.HeldAs s e self) :
    ∃ self', (∀ depth, s.cleanupAfterFrame depth e self = some self') ∧
      st.cleanup.HeldAs s e self' := by
  choose! v hv hvheld using h.members
  choose! received staged hqueue hreceived hstaged using h.queues
  set t := h.cleanTour v received staged
  have hstarts : t.Starts self := ⟨hv, hqueue⟩
  have hruns (depth : Nat) : ∀ w ∈ t.visits, w.Runs s depth (.record []) :=
    List.forall_mem_append.mpr ⟨List.forall_mem_map.mpr fun x _ => runs_passOver,
      List.forall_mem_map.mpr fun x _ => runs_cleanUp⟩
  have hsteps : t.visits.flatMap Visit.steps = e.component.events.map Event.cleaning := by
    have htour : t.visits.flatMap Visit.steps = e.data.fields.flatMap (fun _ => []) ++
        e.component.events.flatMap fun ev => [ev.cleaning] :=
      Tour.steps_visits (fun _ => rfl) fun _ => rfl
    have hnone : e.data.fields.flatMap (fun _ => ([] : List Code.Step)) = [] :=
      List.flatMap_eq_nil_iff.mpr fun _ _ => rfl
    rw [htour, hnone, List.nil_append, List.map_eq_flatMap]
  have hmembers : st.cleanup.members = t.fields.map Prod.snd :=
    (List.map_snd_zip h.membersLength.le).symm
  refine ⟨t.finish self, fun depth => ?_,
    t.heldAs_finish sound promoted hstarts hmembers (map_zip_snd h.queuesLength _).symm
      h.isDirty ?_ ?_⟩
  · rw [Linked.cleanupAfterFrame, ← hsteps, t.run_eq sound promoted hstarts (hruns depth)]
    rfl
  · exact fun x hx => ⟨v x, rfl, hvheld x hx⟩
  · exact fun x hx => ⟨[], staged x, rfl, heldAs_nil, hstaged x hx⟩

end Clean

/-! ### Questions -/

/-- Questions about the members beside the items of a list are answered one after the other. -/
theorem mapM_eval {α β : Type} {as : List α} {bs : List β} {test : α → Code.Test}
    {answer : β → Bool} {self : Instance} (hlength : bs.length = as.length)
    (h : ∀ x ∈ as.zip bs, (test x.1).eval self = some (answer x.2)) :
    (as.map test).mapM (Code.Test.eval self) = some (bs.map answer) := by
  have hzip : (((as.zip bs).map Prod.fst).map test).mapM (Code.Test.eval self) =
      some (((as.zip bs).map Prod.snd).map answer) := by
    rw [List.map_map, List.map_map, List.mapM_map]
    exact Code.mapM_eq_some h
  rwa [List.map_fst_zip hlength.ge, List.map_snd_zip hlength.le] at hzip

section Questions

variable {s : Linked} {e : Entry} {st : State} {u : Update} {self : Instance}

/-- Data that holds a state says whether anything is pending. -/
theorem State.HeldAs.hasPendingChanges (h : st.HeldAs s e self) :
    e.hasPendingChanges self = some st.hasPending := by
  have hmembers : (e.data.fields.map Field.dirtiness).mapM (Code.Test.eval self) =
      some (st.members.map Tracked.isDirty) := by
    refine mapM_eval h.membersLength fun x hx => ?_
    obtain ⟨v, hv, -⟩ := h.members x hx
    simp [Field.dirtiness, Code.Test.eval, hv]
  have hqueues : (e.component.events.map Event.pendency).mapM (Code.Test.eval self) =
      some (st.queues.map EventQueue.hasStaged) := by
    refine mapM_eval h.queuesLength fun x hx => ?_
    obtain ⟨received, staged, hqueue, -, hstaged⟩ := h.queues x hx
    simp [Event.pendency, Code.Test.eval, hqueue, EventQueue.hasStaged, isEmpty_of_heldAs hstaged]
  simp [Entry.hasPendingChanges, Code.Test.any, Component.pendency, List.mapM_append, hmembers,
    hqueues, State.hasPending, List.any_map]

/-- An update that holds changes says whether there are events among them. -/
theorem Update.HeldAs.containsEvents (h : u.HeldAs s e self) :
    e.containsEvents self = some u.hasEvents := by
  have hevents : (e.component.events.map Event.occurrence).mapM (Code.Test.eval self) =
      some (u.events.map fun es => !es.isEmpty) := by
    refine mapM_eval h.eventsLength fun x hx => ?_
    obtain ⟨items, hlist, hitems⟩ := h.events x hx
    simp [Event.occurrence, Code.Test.eval, hlist, isEmpty_of_heldAs hitems]
  simp [Entry.containsEvents, Code.Test.any, hevents, Update.hasEvents, List.any_map]

end Questions

end EntitySchema.Replica
