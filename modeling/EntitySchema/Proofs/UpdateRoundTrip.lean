import EntitySchema.Proofs.DataStorage
import EntitySchema.Proofs.PayloadRoundTrip
import EntitySchema.Replica.Routing

/-!
# Updates are read back from their payloads

An update whose members and events have the shapes of their fields and events is written to a
payload that comes through its encoding, and reading the payload gives the update again, in whatever
order the entries of its maps are visited. A member that is set to nothing stores no value; it is
among the cleared fields and so still set on the other side.
-/

namespace EntitySchema.Replica

open Schema
open Wire (Delta FieldId Fields Object Sendable Value)

/-- What a component has to be so that every update of it can be sent. -/
structure Replicable (s : Linked) (e : Entry) : Prop where
  sound : s.Sound
  small : ∀ t ∈ s.types, t.fields.length < UInt32.size
  flat : ∀ f ∈ e.data.fields, f.shape.isFlat
  singleEvents : ∀ ev ∈ e.component.events, ev.shape.isContainer = false
  fieldIds : (e.data.fields.map Field.id).Nodup
  eventIndices : (e.component.events.map Event.index).Nodup
  fewFields : e.data.fields.length < UInt32.size
  fewEvents : e.component.events.length < UInt32.size
  /-- No value nests deeper than the limit allows. -/
  nests : ∃ levels, 2 * levels + 2 ≤ Wire.maxNesting ∧
    (∀ f ∈ e.data.fields, f.shape.nests (s.nests levels)) ∧
    ∀ ev ∈ e.component.events, ev.shape.nests (s.nests levels)

/-- The members that are set and the events have the shapes that the component declares. -/
structure Update.HasShape (s : Linked) (e : Entry) (u : Update) : Prop where
  membersLength : u.members.length = e.data.fields.length
  members : ∀ slot ∈ e.data.fields.zip u.members, ∀ d, slot.2 = some d →
    d.HasShape s slot.1.shape
  eventsLength : u.events.length = e.component.events.length
  events : ∀ batch ∈ e.component.events.zip u.events,
    (Data.list batch.2).HasShape s (.list batch.1.shape)

namespace Update

theorem hasShape_of_forall₂ {s : Linked} {e : Entry} {u : Update}
    (hmembers : List.Forall₂ (fun f m => ∀ d, m = some d → d.HasShape s f.shape) e.data.fields
      u.members)
    (hevents : List.Forall₂ (fun ev batch => (Data.list batch).HasShape s (.list ev.shape))
      e.component.events u.events) : u.HasShape s e := by
  rw [List.forall₂_iff_zip] at hmembers hevents
  exact ⟨hmembers.1.symm, fun _ hslot => hmembers.2 hslot, hevents.1.symm,
    fun _ hbatch => hevents.2 hbatch⟩

/-- The second update is the first one with the entries of every map in some order. -/
structure VisitedAs (u visited : Update) : Prop where
  members : List.Forall₂ (Option.Rel Data.VisitedAs) u.members visited.members
  events : List.Forall₂ (List.Forall₂ Data.VisitedAs) u.events visited.events

/-- The update with the entries of every map in ascending order. -/
def sorted (u : Update) : Update :=
  ⟨u.members.map (Option.map Data.sorted), u.events.map (List.map Data.sorted)⟩

theorem visitedAs_self (u : Update) : u.VisitedAs u where
  members := List.forall₂_same.mpr fun m _ => by
    cases m with
    | none => exact .none
    | some d => exact .some d.visitedAs_self
  events := List.forall₂_same.mpr fun _ _ => List.forall₂_same.mpr fun d _ => d.visitedAs_self

end Update

theorem map_eq_of_forall₂ {α β : Type} {R : α → β → Prop} {as : List α} {bs : List β} {g : β → α}
    (h : List.Forall₂ R as bs) (hg : ∀ a ∈ as, ∀ b, R a b → g b = a) : bs.map g = as := by
  induction h with
  | nil => rfl
  | cons hab _ ih =>
      rw [List.map_cons, hg _ List.mem_cons_self _ hab,
        ih fun a ha => hg a (List.mem_cons_of_mem _ ha)]

/-- What stands beside an item of a list stands beside its counterpart in a related list. -/
theorem exists_mem_zip_of_forall₂ {α β γ : Type} {R : α → β → Prop} {as : List α} {bs : List β}
    {cs : List γ} (h : List.Forall₂ R as bs) {p : γ × β} (hp : p ∈ cs.zip bs) :
    ∃ a, (p.1, a) ∈ cs.zip as ∧ R a p.2 := by
  induction h generalizing cs with
  | nil => simp at hp
  | @cons a b as bs hab _ ih =>
      cases cs with
      | nil => simp at hp
      | cons c cs =>
          rcases List.mem_cons.mp hp with rfl | hp
          · exact ⟨a, List.mem_cons_self, hab⟩
          · obtain ⟨a, ha, hR⟩ := ih hp
            exact ⟨a, List.mem_cons_of_mem _ ha, hR⟩

/-- Whatever the order in which its maps are visited, an update is found again. -/
theorem Update.HasShape.sorted_eq {s : Linked} {e : Entry} {u visited : Update}
    (h : u.HasShape s e) (hvisited : u.VisitedAs visited) : visited.sorted = u := by
  have hmembers : visited.members.map (Option.map Data.sorted) = u.members := by
    refine map_eq_of_forall₂ hvisited.members fun m hm m' hrel => ?_
    obtain ⟨f, hf⟩ := Data.exists_mem_zip h.membersLength hm
    cases hrel with
    | none => rfl
    | some hd => rw [Option.map_some, (h.members _ hf _ rfl).sorted_eq hd]
  have hevents : visited.events.map (List.map Data.sorted) = u.events := by
    refine map_eq_of_forall₂ hvisited.events fun batch hbatch batch' hrel => ?_
    obtain ⟨ev, hev⟩ := Data.exists_mem_zip h.eventsLength hbatch
    have hlist := (h.events _ hev).sorted_eq (Data.VisitedAs.list_of_forall₂ hrel)
    rw [Data.sorted_list] at hlist
    exact Data.list.inj hlist
  rw [Update.sorted, hmembers, hevents]

/-! ### Writing members -/

/-- A field with the new value of its member, if it is set. -/
abbrev Slot := Field × Option Data

/-- Stores the member of a slot in a payload, if it is set. -/
def writeSlot (s : Linked) (p : Delta) (slot : Slot) : Delta :=
  slot.2.elim p fun d => Update.writeChange s slot.1 d p

theorem writeMembers_eq_foldl (s : Linked) (fields : List Field) (members : List (Option Data))
    (p : Delta) :
    Update.writeMembers s fields members p = (fields.zip members).foldl (writeSlot s) p := by
  induction fields generalizing members p with
  | nil => cases members <;> rfl
  | cons f rest ih =>
      cases members with
      | nil => rfl
      | cons m ms => cases m with
        | none => exact ih ms p
        | some d => exact ih ms (Update.writeChange s f d p)

/-- The values of the set members, by the numbers of their fields. -/
def setGroups (values : Field × Data → List Value) (slots : List Slot) :
    List (FieldId × List Value) :=
  slots.filterMap fun slot => slot.2.map fun d => (slot.1.id, values (slot.1, d))

/-- The fields that are set to a value with nothing to write. -/
def clearedIds (groups : List (FieldId × List Value)) : List FieldId :=
  (groups.filter fun g => g.2.isEmpty).map Prod.fst

theorem clearedIds_cons (g : FieldId × List Value) (groups : List (FieldId × List Value)) :
    clearedIds (g :: groups) = (if g.2.isEmpty then [g.1] else []) ++ clearedIds groups := by
  cases hempty : g.2.isEmpty <;> simp [clearedIds, hempty]

theorem mem_setGroups {values : Field × Data → List Value} {slots : List Slot}
    {g : FieldId × List Value} :
    g ∈ setGroups values slots ↔
      ∃ slot ∈ slots, ∃ d, slot.2 = some d ∧ g = (slot.1.id, values (slot.1, d)) := by
  simp only [setGroups, List.mem_filterMap, Option.map_eq_some_iff]
  constructor
  · rintro ⟨slot, hslot, d, hd, rfl⟩
    exact ⟨slot, hslot, d, hd, rfl⟩
  · rintro ⟨slot, hslot, d, hd, rfl⟩
    exact ⟨slot, hslot, d, hd, rfl⟩

theorem sublist_setGroups (values : Field × Data → List Value) (slots : List Slot) :
    ((setGroups values slots).map Prod.fst).Sublist (slots.map fun slot => slot.1.id) := by
  induction slots with
  | nil => exact .slnil
  | cons slot rest ih =>
      obtain ⟨f, m⟩ := slot
      cases m with
      | none => exact ih.cons _
      | some d => exact ih.cons_cons _

/-- A member is written as its values, or recorded as cleared if there are none. -/
theorem writeChange_eq {s : Linked} {f : Field} {d : Data} {values : List Value}
    (h : Placed s f.shape d values) {p : Delta} (ascending : p.fields.Ascending)
    (hfresh : p.fields.values f.id = []) (hcleared : f.id ∉ p.cleared) :
    Update.writeChange s f d p =
      { p with
        fields := p.fields.pushAll f.id values
        cleared := p.cleared ++ if values.isEmpty then [f.id] else [] } := by
  have hvalues : (p.fields.pushAll f.id values).values f.id = values := by
    rw [ascending.values_pushAll, hfresh, if_pos rfl, List.nil_append]
  have hhas : (p.fields.pushAll f.id values).has f.id = !values.isEmpty := by
    rw [Fields.has, hvalues]
  simp only [Update.writeChange, h.stored, hhas, Bool.not_not]
  cases hempty : values.isEmpty with
  | false => simp
  | true =>
      have hcontainer : f.shape.isContainer = true := by
        by_contra hsingle
        obtain ⟨x, rfl⟩ := h.single (by simpa using hsingle)
        cases hempty
      simp [hcontainer, Delta.addCleared, hcleared]

theorem foldl_writeSlot {s : Linked} {values : Field × Data → List Value} {slots : List Slot}
    (h : ∀ slot ∈ slots, ∀ d, slot.2 = some d → Placed s slot.1.shape d (values (slot.1, d)))
    (distinct : (slots.map fun slot => slot.1.id).Nodup) {p : Delta}
    (ascending : p.fields.Ascending)
    (hfresh : ∀ slot ∈ slots, p.fields.values slot.1.id = [] ∧ slot.1.id ∉ p.cleared) :
    slots.foldl (writeSlot s) p =
      { p with
        fields := (setGroups values slots).foldl (fun o g => o.pushAll g.1 g.2) p.fields
        cleared := p.cleared ++ clearedIds (setGroups values slots) } := by
  induction slots generalizing p with
  | nil => simp [setGroups, clearedIds]
  | cons slot rest ih =>
      obtain ⟨f, m⟩ := slot
      obtain ⟨hother, hdistinct⟩ := List.nodup_cons.mp distinct
      have hrest : ∀ slot ∈ rest, ∀ d, slot.2 = some d →
          Placed s slot.1.shape d (values (slot.1, d)) := fun slot hslot =>
        h slot (List.mem_cons_of_mem _ hslot)
      cases m with
      | none =>
          exact ih hrest hdistinct ascending fun slot hslot =>
            hfresh slot (List.mem_cons_of_mem _ hslot)
      | some d =>
          obtain ⟨hnone, hcleared⟩ := hfresh (f, some d) List.mem_cons_self
          have hd : Placed s f.shape d (values (f, d)) := h (f, some d) List.mem_cons_self d rfl
          have hwrite : writeSlot s p (f, some d) = _ := writeChange_eq hd ascending hnone hcleared
          have hgroups : setGroups values ((f, some d) :: rest) =
              (f.id, values (f, d)) :: setGroups values rest := rfl
          rw [List.foldl_cons, hwrite, ih hrest hdistinct (ascending.pushAll f.id _), hgroups,
            clearedIds_cons, List.foldl_cons, List.append_assoc]
          · intro slot hslot
            have hne : slot.1.id ≠ f.id := fun heq => hother (List.mem_map.mpr ⟨slot, hslot, heq⟩)
            obtain ⟨hvalues, hnot⟩ := hfresh slot (List.mem_cons_of_mem _ hslot)
            constructor
            · rw [ascending.values_pushAll, hvalues, if_neg hne, List.append_nil]
            · split_ifs <;> simp [hnot, hne]

/-! ### Writing events -/

/-- The values of the events, by their numbers. -/
def batchGroups (values : Event × List Data → List Value) (batches : List (Event × List Data)) :
    List (FieldId × List Value) :=
  batches.map fun batch => (batch.1.index, values batch)

theorem writeEvents_eq {s : Linked} {values : Event × List Data → List Value}
    {events : List Event} {batches : List (List Data)}
    (h : ∀ batch ∈ events.zip batches,
      Placed s (.list batch.1.shape) (.list batch.2) (values batch)) (p : Delta) :
    Update.writeEvents s events batches p =
      { p with
        events := (batchGroups values (events.zip batches)).foldl
          (fun o g => o.pushAll g.1 g.2) p.events } := by
  induction events generalizing batches p with
  | nil => cases batches <;> rfl
  | cons ev rest ih =>
      cases batches with
      | nil => rfl
      | cons es ess =>
          have hstore : storeItems s es ev.shape ev.index p.events =
              p.events.pushAll ev.index (values (ev, es)) := by
            have hplaced := (h (ev, es) List.mem_cons_self).stored ev.index p.events
            rwa [store] at hplaced
          have hrest : ∀ batch ∈ rest.zip ess,
              Placed s (.list batch.1.shape) (.list batch.2) (values batch) := fun batch hbatch =>
            h batch (List.mem_cons_of_mem _ hbatch)
          rw [Update.writeEvents, hstore, ih hrest]
          rfl

/-! ### The payload -/

/-- The values that the members and the events of an update are written as. -/
structure WrittenAs (s : Linked) (e : Entry) (u : Update) (members : Field × Data → List Value)
    (events : Event × List Data → List Value) : Prop where
  members : ∀ slot ∈ e.data.fields.zip u.members, ∀ d, slot.2 = some d →
    Placed s slot.1.shape d (members (slot.1, d))
  events : ∀ batch ∈ e.component.events.zip u.events,
    Placed s (.list batch.1.shape) (.list batch.2) (events batch)

theorem Update.HasShape.exists_writtenAs {s : Linked} {e : Entry} {u visited : Update}
    (h : u.HasShape s e) (hvisited : u.VisitedAs visited) (replicable : Replicable s e) :
    ∃ members events, WrittenAs s e visited members events := by
  have hmember : ∀ p : Field × Data, (p.1, some p.2) ∈ e.data.fields.zip visited.members →
      ∃ values, Placed s p.1.shape p.2 values := fun p hp => by
    obtain ⟨m, hm, hrel⟩ := exists_mem_zip_of_forall₂ hvisited.members hp
    cases hrel with
    | some hd =>
        exact exists_placed replicable.sound replicable.small (h.members _ hm _ rfl) hd
          (replicable.flat p.1 (List.of_mem_zip hp).1)
  have hbatch : ∀ batch ∈ e.component.events.zip visited.events,
      ∃ values, Placed s (.list batch.1.shape) (.list batch.2) values := fun batch hbatch => by
    have hflat : (Shape.list batch.1.shape).isFlat := by
      simp [Shape.isFlat, replicable.singleEvents batch.1 (List.of_mem_zip hbatch).1]
    obtain ⟨items, hitems, hrel⟩ := exists_mem_zip_of_forall₂ hvisited.events hbatch
    have hshape := h.events (batch.1, items) hitems
    exact exists_placed replicable.sound replicable.small hshape
      (Data.VisitedAs.list_of_forall₂ hrel) hflat
  choose! members hmembers using hmember
  choose! events hevents using hbatch
  refine ⟨members, events, ?_, hevents⟩
  rintro ⟨f, m⟩ hslot d rfl
  exact hmembers (f, d) hslot

/-- The payload of an update holds the values of its set members and of its events under their
numbers. -/
theorem write_eq {s : Linked} {e : Entry} {u : Update} {members : Field × Data → List Value}
    {events : Event × List Data → List Value} (h : WrittenAs s e u members events)
    (distinct : ((e.data.fields.zip u.members).map fun slot => slot.1.id).Nodup) :
    u.write s e =
      { componentId := e.component.id
        fields := .ofGroups (setGroups members (e.data.fields.zip u.members))
        events := .ofGroups (batchGroups events (e.component.events.zip u.events))
        cleared := clearedIds (setGroups members (e.data.fields.zip u.members)) } := by
  have hmembers := foldl_writeSlot h.members distinct
    (p := { componentId := e.component.id }) Wire.Fields.ascending_empty (by simp)
  rw [Update.write, writeMembers_eq_foldl, hmembers, writeEvents_eq h.events]
  simp [Wire.Fields.ofGroups]

theorem Replicable.distinct_slots {s : Linked} {e : Entry} (replicable : Replicable s e)
    {members : List (Option Data)} (hlength : members.length = e.data.fields.length) :
    ((e.data.fields.zip members).map fun slot => slot.1.id).Nodup :=
  map_zip_fst hlength Field.id ▸ replicable.fieldIds

theorem Replicable.distinct_batches {s : Linked} {e : Entry} (replicable : Replicable s e)
    {batches : List (List Data)} (hlength : batches.length = e.component.events.length)
    (values : Event × List Data → List Value) :
    ((batchGroups values (e.component.events.zip batches)).map Prod.fst).Nodup := by
  rw [batchGroups, List.map_map]
  exact map_zip_fst hlength Event.index ▸ replicable.eventIndices

/-- Groups of placed values make an object that comes through its encoding. -/
theorem transportable_ofGroups {groups : List (FieldId × List Value)} {levels : Nat}
    (distinct : (groups.map Prod.fst).Nodup) (hlength : groups.length < UInt32.size)
    (hlevels : 2 * levels + 2 ≤ Wire.maxNesting)
    (h : ∀ g ∈ groups, ∃ s shape d, Placed s shape d g.2 ∧ shape.nests (s.nests levels)) :
    (Fields.ofGroups groups).Transportable := by
  have hsendable : ∀ g ∈ groups, Sendable g.2 := by
    intro g hg
    obtain ⟨s, shape, d, hplaced, _⟩ := h g hg
    exact hplaced.sendable
  have hcounts : ∀ g ∈ groups, g.2.length < UInt32.size := by
    intro g hg
    obtain ⟨s, shape, d, hplaced, _⟩ := h g hg
    exact hplaced.length_lt
  have hdepth : ∀ g ∈ groups, ∀ v ∈ g.2, v.depth ≤ 2 * levels + 1 := by
    intro g hg v hv
    obtain ⟨s, shape, d, hplaced, hnests⟩ := h g hg
    exact (hplaced.depth_le levels hnests v hv).trans (shape.greatestDepth_le levels)
  exact ⟨Fields.built_ofGroups fun g hg => (hsendable g hg).built,
    Fields.fits_ofGroups distinct hlength hcounts hsendable,
    (Fields.depth_ofGroups_le distinct hdepth).trans hlevels⟩

section Payload

variable {s : Linked} {e : Entry} {u : Update} {members : Field × Data → List Value}
variable {events : Event × List Data → List Value}

theorem transportable_fields (h : WrittenAs s e u members events) (replicable : Replicable s e)
    (hlength : u.members.length = e.data.fields.length) :
    (Fields.ofGroups (setGroups members (e.data.fields.zip u.members))).Transportable := by
  obtain ⟨levels, hlevels, hfields, _⟩ := replicable.nests
  have hfew : (setGroups members (e.data.fields.zip u.members)).length < UInt32.size := by
    refine Nat.lt_of_le_of_lt (List.length_filterMap_le _ _) ?_
    simpa [hlength] using replicable.fewFields
  have distinct := (sublist_setGroups members _).nodup (replicable.distinct_slots hlength)
  refine transportable_ofGroups distinct hfew hlevels ?_
  intro g hg
  obtain ⟨slot, hslot, d, hd, rfl⟩ := mem_setGroups.mp hg
  exact ⟨s, slot.1.shape, d, h.members slot hslot d hd,
    hfields slot.1 (List.of_mem_zip hslot).1⟩

theorem transportable_events (h : WrittenAs s e u members events) (replicable : Replicable s e)
    (hlength : u.events.length = e.component.events.length) :
    (Fields.ofGroups (batchGroups events (e.component.events.zip u.events))).Transportable := by
  obtain ⟨levels, hlevels, _, hevents⟩ := replicable.nests
  have hfew : (batchGroups events (e.component.events.zip u.events)).length < UInt32.size := by
    simpa [batchGroups, hlength] using replicable.fewEvents
  refine transportable_ofGroups (replicable.distinct_batches hlength events) hfew hlevels ?_
  intro g hg
  obtain ⟨batch, hbatch, rfl⟩ := List.mem_map.mp hg
  exact ⟨s, .list batch.1.shape, .list batch.2, h.events batch hbatch,
    hevents batch.1 (List.of_mem_zip hbatch).1⟩

end Payload

/-- A value is loaded, with its maps in order, from an object that has its values under the field
number. -/
theorem load_of_values {s : Linked} {shape : Shape} {d : Data} {values : List Value}
    (h : Placed s shape d values) {o : Object} {f : FieldId} (hvalues : o.values f = values) :
    s.load shape o f = d.sorted := by
  refine h.loaded (s.levels o) o f 0 ?_ (Shape.view_eq_values hvalues h.kinds h.single)
  intro x hx
  have hlt : x.depth < o.depth := Fields.depth_lt_of_mem_values (hvalues ▸ hx)
  exact hlt.le.trans (Nat.le_add_right _ _)

/-- Where nothing is written for a field, it is not set. -/
theorem sets_eq_false {groups : List (FieldId × List Value)} {p : Delta}
    (hfields : p.fields = .ofGroups groups) (hcleared : p.cleared = clearedIds groups) {f : Field}
    (h : f.id ∉ groups.map Prod.fst) : Update.sets p f = false := by
  have hvalues : p.fields.values f.id = [] := hfields ▸ Fields.values_ofGroups_of_notMem h
  have hcount : ¬ 0 < p.fields.count f.shape.kind f.id := by
    simp [count_pos_iff (ofKind_of_values hvalues (by simp))]
  have hclear : f.id ∉ p.cleared := by
    rw [hcleared]
    exact fun hmem => h ((List.filter_sublist.map Prod.fst).subset hmem)
  simp [Update.sets, hcount, Delta.isCleared, hclear]

/-- A field that is written is set: by its values, or as cleared if it has none. -/
theorem sets_eq_true {groups : List (FieldId × List Value)} {p : Delta}
    (distinct : (groups.map Prod.fst).Nodup) (hfields : p.fields = .ofGroups groups)
    (hcleared : p.cleared = clearedIds groups) {f : Field} {values : List Value}
    (h : (f.id, values) ∈ groups) (hkinds : ∀ x ∈ values, x.kind = f.shape.kind)
    (hlength : values.length < UInt32.size) : Update.sets p f = true := by
  have hvalues : p.fields.values f.id = values := hfields ▸ Fields.values_ofGroups distinct h
  by_cases hempty : values = []
  · have hclear : f.id ∈ p.cleared := by
      rw [hcleared]
      exact List.mem_map.mpr ⟨_, List.mem_filter.mpr ⟨h, by simp [hempty]⟩, rfl⟩
    simp [Update.sets, Delta.isCleared, hclear]
  · have hcount := (count_pos_iff (ofKind_of_values hvalues hkinds) hlength).mpr hempty
    simp [Update.sets, hcount]

/-- A member is read as it was written: not set, or set to its value with the maps in order. -/
theorem read_member {s : Linked} {slots : List Slot} {values : Field × Data → List Value}
    (h : ∀ slot ∈ slots, ∀ d, slot.2 = some d → Placed s slot.1.shape d (values (slot.1, d)))
    (distinct : (slots.map fun slot => slot.1.id).Nodup) {p : Delta}
    (hfields : p.fields = .ofGroups (setGroups values slots))
    (hcleared : p.cleared = clearedIds (setGroups values slots)) {slot : Slot}
    (hslot : slot ∈ slots) :
    (if Update.sets p slot.1 then some (s.load slot.1.shape p.fields slot.1.id) else none) =
      slot.2.map Data.sorted := by
  have hgroups : ((setGroups values slots).map Prod.fst).Nodup :=
    (sublist_setGroups values slots).nodup distinct
  cases hcase : slot.2 with
  | none =>
      have hnot : slot.1.id ∉ (setGroups values slots).map Prod.fst := by
        intro hmem
        obtain ⟨g, hg, hid⟩ := List.mem_map.mp hmem
        obtain ⟨other, hother, d, hd, rfl⟩ := mem_setGroups.mp hg
        obtain rfl : other = slot := List.inj_on_of_nodup_map distinct hother hslot hid
        rw [hcase] at hd
        cases hd
      rw [sets_eq_false hfields hcleared hnot]
      rfl
  | some d =>
      have hplaced := h slot hslot d hcase
      have hgroup : (slot.1.id, values (slot.1, d)) ∈ setGroups values slots :=
        mem_setGroups.mpr ⟨slot, hslot, d, hcase, rfl⟩
      have hvalues : p.fields.values slot.1.id = values (slot.1, d) :=
        hfields ▸ Fields.values_ofGroups hgroups hgroup
      rw [sets_eq_true hgroups hfields hcleared hgroup hplaced.kinds hplaced.length_lt,
        load_of_values hplaced hvalues]
      rfl

/-- What is written for an update is read as the update with its maps in order. -/
theorem read_write {s : Linked} {e : Entry} {u : Update} {members : Field × Data → List Value}
    {events : Event × List Data → List Value} (h : WrittenAs s e u members events)
    (hmembers : u.members.length = e.data.fields.length)
    (hevents : u.events.length = e.component.events.length) (replicable : Replicable s e) :
    Update.read s e (u.write s e) = u.sorted := by
  have distinct := replicable.distinct_slots hmembers
  have hwrite := write_eq h distinct
  have hreadMembers : (Update.read s e (u.write s e)).members =
      u.members.map (Option.map Data.sorted) :=
    map_eq_of_zip hmembers fun slot hslot =>
      read_member h.members distinct (by rw [hwrite]) (by rw [hwrite]) hslot
  have hreadEvents : (Update.read s e (u.write s e)).events =
      u.events.map (List.map Data.sorted) := by
    refine map_eq_of_zip hevents fun batch hbatch => ?_
    have hvalues : (u.write s e).events.values batch.1.index = events batch := by
      rw [hwrite]
      exact Fields.values_ofGroups (replicable.distinct_batches hevents events)
        (List.mem_map_of_mem (f := fun batch => (batch.1.index, events batch)) hbatch)
    rw [load_of_values (h.events batch hbatch) hvalues, Data.sorted_list]
    rfl
  calc Update.read s e (u.write s e)
      = ⟨(Update.read s e (u.write s e)).members, (Update.read s e (u.write s e)).events⟩ := rfl
    _ = u.sorted := by rw [hreadMembers, hreadEvents, Update.sorted]

/-- The payload of an update, written in whatever order its maps are visited, comes through its
encoding, and the update is read from it. -/
theorem Update.HasShape.receive_decode_encode_visited {s : Linked} {e : Entry} {u visited : Update}
    (h : u.HasShape s e) (hvisited : u.VisitedAs visited) (replicable : Replicable s e)
    (addressable : (visited.write s e).encode.length ≤ Wire.maxPosition) :
    ∃ p, Delta.decode (visited.write s e).encode = .ok p ∧ Update.receive s e p = .ok u := by
  obtain ⟨members, events, hwritten⟩ := h.exists_writtenAs hvisited replicable
  have hmembers : visited.members.length = e.data.fields.length :=
    hvisited.members.length_eq.symm.trans h.membersLength
  have hevents : visited.events.length = e.component.events.length :=
    hvisited.events.length_eq.symm.trans h.eventsLength
  have distinct := replicable.distinct_slots hmembers
  have hwrite := write_eq hwritten distinct
  have hgroups : ((setGroups members (e.data.fields.zip visited.members)).map Prod.fst).Nodup :=
    (sublist_setGroups _ _).nodup distinct
  have hcleared : (clearedIds (setGroups members (e.data.fields.zip visited.members))).Nodup :=
    (List.filter_sublist.map Prod.fst).nodup hgroups
  have hfew : (clearedIds (setGroups members (e.data.fields.zip visited.members))).length <
      UInt32.size := by
    refine Nat.lt_of_le_of_lt ?_ replicable.fewFields
    rw [clearedIds, List.length_map]
    refine (List.length_filter_le _ _).trans ((List.length_filterMap_le _ _).trans ?_)
    simp [hmembers]
  refine ⟨visited.write s e, ?_, ?_⟩
  · rw [hwrite] at addressable ⊢
    exact Delta.decode_encode_of_transportable (transportable_fields hwritten replicable hmembers)
      (transportable_events hwritten replicable hevents) hcleared hfew addressable
  · have hid : (visited.write s e).componentId = e.component.id := by rw [hwrite]
    rw [Update.receive, if_pos hid, read_write hwritten hmembers hevents replicable,
      h.sorted_eq hvisited]

end EntitySchema.Replica
