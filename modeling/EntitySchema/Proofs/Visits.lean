import EntitySchema.Proofs.EmittedNames
import EntitySchema.Proofs.MethodExecution
import EntitySchema.Proofs.Representation

/-!
# Methods visit one member after the other

A generated method goes through the fields of a component and then through its events, and what it
does about one of them looks at no other member. A `Visit` says what that is: the member that is
found, what is put in its place, and what is added to the payload. The members have different names,
so visits to all of them run one after the other, each finds its member as it was before the method,
and each leaves it as it says.

## Implementation notes

`State.HeldAs` and `Update.HeldAs` look members up by their names, and so do the steps of methods.
A `Tour` therefore need not say how the structure it goes through is laid out: it starts where every
member is found as its visit expects it, and `Tour.heldAs_finish` reads off its visits which state
the structure holds at the end.
-/

namespace EntitySchema.Code

open Schema
open Wire (Delta)

/-! ### Members -/

namespace Instance

theorem member?_put {self : Instance} {name : String} {u : Instance}
    (h : self.member? name = some u) (v : Instance) : (self.put name v).member? name = some v := by
  cases self with
  | record members =>
      rw [member?] at h
      rw [put, member?]
      induction members with
      | nil => cases h
      | cons m rest ih =>
          obtain ⟨n, w⟩ := m
          by_cases hn : n = name
          · simp [hn]
          · have hne : (name == n) = false := by simpa using Ne.symm hn
            rw [List.lookup_cons, hne] at h
            rw [List.map_cons, if_neg hn, List.lookup_cons, hne]
            exact ih h
  | _ => cases h

theorem member?_put_of_ne {n name : String} (h : n ≠ name) (v self : Instance) :
    (self.put name v).member? n = self.member? n := by
  cases self with
  | record members =>
      rw [put, member?, member?]
      induction members with
      | nil => rfl
      | cons m rest ih =>
          obtain ⟨k, w⟩ := m
          by_cases hk : k = name
          · have hne : (n == name) = false := by simpa using h
            rw [List.map_cons, if_pos hk, List.lookup_cons, List.lookup_cons, hk, hne]
            exact ih
          · rw [List.map_cons, if_neg hk, List.lookup_cons, List.lookup_cons, ih]
  | _ => rfl

end Instance

/-! ### Visits -/

/-- What a method does about one member. -/
structure Visit where
  /-- The name of the member. -/
  name : String
  /-- The steps. -/
  steps : List Step
  /-- The member before. -/
  before : Instance
  /-- What is put in its place, if anything is. -/
  after : Option Instance
  /-- What happens to the payload. -/
  pay : Delta → Delta

namespace Visit

variable {v : Visit} {self : Instance}

/-- The structure after the visit. -/
def change (v : Visit) (self : Instance) : Instance := v.after.elim self fun w => self.put v.name w

/-- The member after the visit. -/
def result (v : Visit) : Instance := v.after.getD v.before

/-- The steps do what the visit says. -/
def Runs (s : Linked) (depth : Nat) (update : Instance) (v : Visit) : Prop :=
  ∀ self p, self.member? v.name = some v.before →
    s.runSteps depth v.steps ⟨self, update, p⟩ = some ⟨v.change self, update, v.pay p⟩

theorem member?_change (h : self.member? v.name = some v.before) :
    (v.change self).member? v.name = some v.result := by
  unfold change result
  cases v.after with
  | none => exact h
  | some w => exact Instance.member?_put h w

theorem member?_change_of_ne {n : String} (h : n ≠ v.name) :
    (v.change self).member? n = self.member? n := by
  unfold change
  cases v.after with
  | none => rfl
  | some w => exact Instance.member?_put_of_ne h w self

/-- The structure after several visits. -/
def changeAll (visits : List Visit) (self : Instance) : Instance :=
  visits.foldl (fun self v => v.change self) self

/-- The payload after several visits. -/
def payAll (visits : List Visit) (p : Delta) : Delta := visits.foldl (fun p v => v.pay p) p

variable {visits : List Visit}

theorem member?_changeAll_of_notMem {n : String} (h : n ∉ visits.map name) :
    (changeAll visits self).member? n = self.member? n := by
  induction visits generalizing self with
  | nil => rfl
  | cons v rest ih =>
      obtain ⟨hne, hrest⟩ := not_or.mp (mt List.mem_cons.mpr h)
      exact (ih hrest).trans (member?_change_of_ne hne)

/-- Members that were visited are as their visits leave them. -/
theorem member?_changeAll (distinct : (visits.map name).Nodup)
    (h : ∀ v ∈ visits, self.member? v.name = some v.before) {v : Visit} (hv : v ∈ visits) :
    (changeAll visits self).member? v.name = some v.result := by
  induction visits generalizing self with
  | nil => cases hv
  | cons w rest ih =>
      obtain ⟨hw, hrest⟩ := List.forall_mem_cons.mp h
      obtain ⟨hfresh, distinct⟩ := List.nodup_cons.mp distinct
      rcases List.mem_cons.mp hv with rfl | hv
      · exact (member?_changeAll_of_notMem hfresh).trans (member?_change hw)
      · refine ih distinct (fun u hu => ?_) hv
        have hne : u.name ≠ w.name := fun heq => hfresh (heq ▸ List.mem_map_of_mem hu)
        exact (member?_change_of_ne hne).trans (hrest u hu)

/-- Visits to different members run one after the other. -/
theorem runSteps_eq {s : Linked} {depth : Nat} {update : Instance}
    (distinct : (visits.map name).Nodup)
    (h : ∀ v ∈ visits, self.member? v.name = some v.before)
    (hruns : ∀ v ∈ visits, v.Runs s depth update) (p : Delta) :
    s.runSteps depth (visits.flatMap steps) ⟨self, update, p⟩ =
      some ⟨changeAll visits self, update, payAll visits p⟩ := by
  induction visits generalizing self p with
  | nil => rfl
  | cons v rest ih =>
      obtain ⟨hv, hrest⟩ := List.forall_mem_cons.mp h
      obtain ⟨hrun, hruns⟩ := List.forall_mem_cons.mp hruns
      obtain ⟨hfresh, distinct⟩ := List.nodup_cons.mp distinct
      have hafter : ∀ u ∈ rest, (v.change self).member? u.name = some u.before := by
        intro u hu
        have hne : u.name ≠ v.name := fun heq => hfresh (heq ▸ List.mem_map_of_mem hu)
        exact (member?_change_of_ne hne).trans (hrest u hu)
      have hfirst := hrun self p hv
      unfold Linked.runSteps at hfirst ih ⊢
      rw [List.flatMap_cons, List.foldlM_append, hfirst, Option.bind_eq_bind, Option.bind_some,
        ih distinct hafter hruns (v.pay p)]
      rfl

end Visit

end EntitySchema.Code

namespace EntitySchema.Replica

open Code (Instance Visit)
open Schema
open Wire (Delta)

/-! ### Structures that hold states and updates -/

/-- The value of a member that may be set. -/
def optional : Option Data → Data
  | none => .absent
  | some d => .present d

/-- The data of a component holds a state. -/
structure State.HeldAs (s : Linked) (e : Entry) (st : State) (v : Instance) : Prop where
  membersLength : st.members.length = e.data.fields.length
  members : ∀ slot ∈ e.data.fields.zip st.members, ∃ w,
    v.member? slot.1.name = some (.cell w slot.2.isDirty) ∧ slot.2.value.HeldAs s slot.1.shape w
  isDirty : v.member? dirtyMember = some (.flag st.isDirty)
  queuesLength : st.queues.length = e.component.events.length
  queues : ∀ slot ∈ e.component.events.zip st.queues, ∃ received staged,
    v.member? slot.1.name = some (.queue received staged) ∧
      (Data.list slot.2.received).HeldAs s slot.1.batch (.list received) ∧
      (Data.list slot.2.staged).HeldAs s slot.1.batch (.list staged)

/-- The update of a component holds changes. -/
structure Update.HeldAs (s : Linked) (e : Entry) (u : Update) (v : Instance) : Prop where
  membersLength : u.members.length = e.data.fields.length
  members : ∀ slot ∈ e.data.fields.zip u.members, ∃ w,
    v.member? slot.1.name = some w ∧ (optional slot.2).HeldAs s (.option slot.1.shape) w
  eventsLength : u.events.length = e.component.events.length
  events : ∀ slot ∈ e.component.events.zip u.events, ∃ items,
    v.member? slot.1.name = some (.list items) ∧
      (Data.list slot.2).HeldAs s slot.1.batch (.list items)

/-! ### Tours of the members -/

/-- The members of the data of a component have different names. -/
theorem nodup_memberNames {s : Linked} (sound : s.Sound) {e : Entry} (promoted : e.Promoted s) :
    (e.data.fields.map Field.name ++ dirtyMember :: e.component.events.map Event.name).Nodup := by
  have hnames := sound.memberNames e.data promoted.mem
  rw [UserType.members, if_pos promoted.isData, promoted.events] at hnames
  simpa [Field.dataMember, Event.dataMember, dirtyFlag, Function.comp_def] using hnames

/-- Visits to the members of the data of a component or of an update of it: one for every field and
one for every event. -/
structure Tour (e : Entry) (α β : Type) where
  /-- The fields, each with what is known about its member. -/
  fields : List (Field × α)
  /-- The events, each with what is known about its member. -/
  events : List (Event × β)
  /-- The visit to the member of a field. -/
  onField : Field × α → Visit
  /-- The visit to the member of an event. -/
  onEvent : Event × β → Visit
  fields_eq : fields.map Prod.fst = e.data.fields
  events_eq : events.map Prod.fst = e.component.events
  name_onField : ∀ x, (onField x).name = x.1.name
  name_onEvent : ∀ x, (onEvent x).name = x.1.name

namespace Tour

variable {e : Entry} {α β : Type} {t : Tour e α β} {self : Instance}

/-- All visits. -/
def visits (t : Tour e α β) : List Visit := t.fields.map t.onField ++ t.events.map t.onEvent

/-- The structure after the tour. -/
def finish (t : Tour e α β) (self : Instance) : Instance := Visit.changeAll t.visits self

/-- The members are as the visits expect them. -/
structure Starts (t : Tour e α β) (v : Instance) : Prop where
  fields : ∀ x ∈ t.fields, v.member? x.1.name = some (t.onField x).before
  events : ∀ x ∈ t.events, v.member? x.1.name = some (t.onEvent x).before

theorem names_visits (t : Tour e α β) :
    t.visits.map Visit.name = e.data.fields.map Field.name ++ e.component.events.map Event.name := by
  have hfields : (t.fields.map t.onField).map Visit.name = e.data.fields.map Field.name := by
    rw [← t.fields_eq, List.map_map, List.map_map]
    exact List.map_congr_left fun x _ => t.name_onField x
  have hevents : (t.events.map t.onEvent).map Visit.name = e.component.events.map Event.name := by
    rw [← t.events_eq, List.map_map, List.map_map]
    exact List.map_congr_left fun x _ => t.name_onEvent x
  rw [visits, List.map_append, hfields, hevents]

/-- The steps of a tour, where those of a visit depend on the field or the event only. -/
theorem steps_visits {fieldSteps : Field → List Code.Step} {eventSteps : Event → List Code.Step}
    (hfields : ∀ x, (t.onField x).steps = fieldSteps x.1)
    (hevents : ∀ x, (t.onEvent x).steps = eventSteps x.1) :
    t.visits.flatMap Visit.steps =
      e.data.fields.flatMap fieldSteps ++ e.component.events.flatMap eventSteps := by
  rw [visits, List.flatMap_append, List.flatMap_map, List.flatMap_map, ← t.fields_eq,
    ← t.events_eq, List.flatMap_map, List.flatMap_map]
  simp only [hfields, hevents]

theorem Starts.before (h : t.Starts self) :
    ∀ v ∈ t.visits, self.member? v.name = some v.before := by
  refine List.forall_mem_append.mpr ⟨List.forall_mem_map.mpr fun x hx => ?_,
    List.forall_mem_map.mpr fun x hx => ?_⟩
  · rw [t.name_onField]
    exact h.fields x hx
  · rw [t.name_onEvent]
    exact h.events x hx

section Names

variable {s : Linked} (sound : s.Sound) (promoted : e.Promoted s)

include sound promoted

theorem nodup_visits (t : Tour e α β) : (t.visits.map Visit.name).Nodup := by
  rw [t.names_visits]
  exact (nodup_memberNames sound promoted).sublist
    ((List.Sublist.refl _).append (List.sublist_cons_self _ _))

/-- The visits of a tour run one after the other. -/
theorem run_eq (h : t.Starts self) {depth : Nat} {update : Instance}
    (hruns : ∀ v ∈ t.visits, v.Runs s depth update) (p : Delta) :
    s.runSteps depth (t.visits.flatMap Visit.steps) ⟨self, update, p⟩ =
      some ⟨t.finish self, update, Visit.payAll t.visits p⟩ :=
  Visit.runSteps_eq (t.nodup_visits sound promoted) h.before hruns p

theorem member?_field (h : t.Starts self) {x : Field × α} (hx : x ∈ t.fields) :
    (t.finish self).member? x.1.name = some (t.onField x).result := by
  rw [← t.name_onField]
  exact Visit.member?_changeAll (t.nodup_visits sound promoted) h.before
    (List.mem_append_left _ (List.mem_map_of_mem hx))

theorem member?_event (h : t.Starts self) {x : Event × β} (hx : x ∈ t.events) :
    (t.finish self).member? x.1.name = some (t.onEvent x).result := by
  rw [← t.name_onEvent]
  exact Visit.member?_changeAll (t.nodup_visits sound promoted) h.before
    (List.mem_append_right _ (List.mem_map_of_mem hx))

/-- A tour leaves the flag alone. -/
theorem member?_flag (t : Tour e α β) (self : Instance) :
    (t.finish self).member? dirtyMember = self.member? dirtyMember := by
  refine Visit.member?_changeAll_of_notMem ?_
  have hnames := nodup_memberNames sound promoted
  rw [List.nodup_middle] at hnames
  rw [t.names_visits]
  exact (List.nodup_cons.mp hnames).1

/-- The data at the end of a tour holds the state whose members and queues the visits leave. -/
theorem heldAs_finish (h : t.Starts self) {after : State} {member : Field × α → Tracked Data}
    {queue : Event × β → EventQueue Data} (hmembers : after.members = t.fields.map member)
    (hqueues : after.queues = t.events.map queue)
    (hflag : self.member? dirtyMember = some (.flag after.isDirty))
    (hfield : ∀ x ∈ t.fields, ∃ w, (t.onField x).result = .cell w (member x).isDirty ∧
      (member x).value.HeldAs s x.1.shape w)
    (hevent : ∀ x ∈ t.events, ∃ received staged, (t.onEvent x).result = .queue received staged ∧
      (Data.list (queue x).received).HeldAs s x.1.batch (.list received) ∧
      (Data.list (queue x).staged).HeldAs s x.1.batch (.list staged)) :
    after.HeldAs s e (t.finish self) where
  membersLength := by rw [hmembers, ← t.fields_eq, List.length_map, List.length_map]
  members := by
    intro slot hslot
    rw [hmembers, ← t.fields_eq, List.zip_map'] at hslot
    obtain ⟨x, hx, rfl⟩ := List.mem_map.mp hslot
    obtain ⟨w, hw, hheld⟩ := hfield x hx
    exact ⟨w, (t.member?_field sound promoted h hx).trans (congrArg some hw), hheld⟩
  isDirty := (t.member?_flag sound promoted self).trans hflag
  queuesLength := by rw [hqueues, ← t.events_eq, List.length_map, List.length_map]
  queues := by
    intro slot hslot
    rw [hqueues, ← t.events_eq, List.zip_map'] at hslot
    obtain ⟨x, hx, rfl⟩ := List.mem_map.mp hslot
    obtain ⟨received, staged, hresult, hheld⟩ := hevent x hx
    exact ⟨received, staged,
      (t.member?_event sound promoted h hx).trans (congrArg some hresult), hheld⟩

end Names

end Tour

end EntitySchema.Replica
