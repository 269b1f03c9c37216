import EntitySchema.Proofs.UpdateRoundTrip

/-!
# A producer, a replica and the payloads between them

A producer changes its state and flushes it from time to time; every flush sends the bytes of a
payload. A delivery takes the oldest payload that is under way, decodes it, reads the update in it
and applies it to the replica. `run_eq` says where any schedule of such actions leads: the replica
has applied the updates that were delivered, in the order in which they were flushed.

## Implementation notes

A map has no order of its own, and the code that writes it visits its entries in whatever order it
meets them. A flush therefore carries what it writes: the pending update with the entries of its maps
in some order. `State.Sendable` asks for no more than that, so the statements hold for every order.
-/

namespace EntitySchema.Replica

open Schema
open Wire (Bytes Delta)

/-- What a producer does to its state. -/
inductive Operation where
  /-- Sets the member at a position. -/
  | set (position : Nat) (d : Data)
  /-- Changes the member at a position in place. -/
  | modify (position : Nat) (change : Data → Data)
  /-- Declares the member at a position changed. -/
  | mark (position : Nat)
  /-- Stages an event in the queue at a position. -/
  | trigger (position : Nat) (d : Data)
  /-- Raises the dirty flag of the component. -/
  | makeDirty
  /-- Takes the dirty flag of the component. -/
  | takeDirty
  /-- Drops the received events. -/
  | cleanup

/-- Carries out an operation. -/
def Operation.run : Operation → State → State
  | .set i d, st => st.modify i fun t => t.set d
  | .modify i change, st => st.modify i fun t => t.modify change
  | .mark i, st => st.modify i Tracked.mark
  | .trigger i d, st => st.trigger i d
  | .makeDirty, st => st.makeDirty
  | .takeDirty, st => st.takeDirty.2
  | .cleanup, st => st.cleanup

/-- What happens in a schedule. -/
inductive Action where
  /-- The producer carries out an operation. -/
  | operate (op : Operation)
  /-- The producer flushes its state and sends the payload, written in the order in which the entries
  of its maps are visited. -/
  | flush (visited : Update)
  /-- The oldest payload that is under way is applied to the replica. -/
  | deliver

/-- A producer and a replica. -/
structure System where
  /-- The state of the producer. -/
  producer : State
  /-- The payloads that are under way, oldest first. -/
  channel : List Bytes := []
  /-- The state of the replica. -/
  replica : State

/-- Carries out an action. A delivery needs a payload that can be decoded and read. -/
def System.step (s : Linked) (e : Entry) (system : System) : Action → Option System
  | .operate op => some { system with producer := op.run system.producer }
  | .flush visited =>
    some { system with
      producer := (system.producer.flush s e).2
      channel := system.channel ++ [(visited.write s e).encode] }
  | .deliver =>
    match system.channel with
    | [] => none
    | bytes :: rest =>
      match Delta.decode bytes with
      | .error _ => none
      | .ok payload =>
        match Update.receive s e payload with
        | .error _ => none
        | .ok u => some { system with channel := rest, replica := system.replica.apply u }

/-- Carries out a schedule. -/
def System.run (s : Linked) (e : Entry) (system : System) (actions : List Action) :
    Option System :=
  actions.foldlM (System.step s e) system

namespace Action

/-- Whether a payload is sent. -/
def isFlush : Action → Bool
  | .flush _ => true
  | _ => false

/-- Whether a payload is delivered. -/
def isDelivery : Action → Bool
  | .deliver => true
  | _ => false

/-- What an action does to the producer. -/
def onProducer (s : Linked) (e : Entry) (st : State) : Action → State
  | .operate op => op.run st
  | .flush _ => (st.flush s e).2
  | .deliver => st

/-- The update that an action sends. -/
def sends (st : State) : Action → List Update
  | .flush _ => [st.pending]
  | _ => []

/-- What an action writes. -/
def writes : Action → List Update
  | .flush visited => [visited]
  | _ => []

end Action

/-- The number of payloads that are sent. -/
def flushes (actions : List Action) : Nat := actions.countP Action.isFlush

/-- The number of payloads that are delivered. -/
def deliveries (actions : List Action) : Nat := actions.countP Action.isDelivery

/-- The state of the producer after a schedule. -/
def producerAfter (s : Linked) (e : Entry) (st : State) (actions : List Action) : State :=
  actions.foldl (Action.onProducer s e) st

/-- The updates that a schedule sends, in order. -/
def sent (s : Linked) (e : Entry) : State → List Action → List Update
  | _, [] => []
  | st, a :: rest => a.sends st ++ sent s e (a.onProducer s e st) rest

/-- What a schedule writes, in order. -/
def written (actions : List Action) : List Update := actions.flatMap Action.writes

/-- No payload is delivered before it is sent. -/
def Deliverable (actions : List Action) : Prop :=
  ∀ before after, actions = before ++ .deliver :: after → deliveries before < flushes before

/-- The members and the staged events have the shapes that the component declares. -/
structure State.HasShape (s : Linked) (e : Entry) (st : State) : Prop where
  membersLength : st.members.length = e.data.fields.length
  members : ∀ (i : Nat) (f : Field) (t : Tracked Data), e.data.fields[i]? = some f →
    st.members[i]? = some t → t.value.HasShape s f.shape
  queuesLength : st.queues.length = e.component.events.length
  staged : ∀ (i : Nat) (ev : Event) (q : EventQueue Data), e.component.events[i]? = some ev →
    st.queues[i]? = some q → ∀ d ∈ q.staged, d.HasShape s ev.shape

/-- In a state, the operation puts values of the right shapes in place. -/
def Operation.HasShape (s : Linked) (e : Entry) (st : State) : Operation → Prop
  | .set i d => ∀ f, e.data.fields[i]? = some f → d.HasShape s f.shape
  | .modify i change => ∀ (f : Field) (t : Tracked Data), e.data.fields[i]? = some f →
      st.members[i]? = some t → (change t.value).HasShape s f.shape
  | .trigger i d => ∀ ev, e.component.events[i]? = some ev → d.HasShape s ev.shape
  | _ => True

/-- What is written is the pending update with its maps in some order, the staged events are counted
exactly, and the payload is a byte string that can be addressed. -/
structure State.Sendable (s : Linked) (e : Entry) (st : State) (visited : Update) : Prop where
  order : st.pending.VisitedAs visited
  batches : ∀ q ∈ st.queues, q.staged.length < UInt32.size
  addressable : (visited.write s e).encode.length ≤ Wire.maxPosition

/-- Every operation of the schedule has the right shapes and every flush can be sent. -/
structure Schedulable (s : Linked) (e : Entry) (st : State) (actions : List Action) : Prop where
  shapes : ∀ before op after, actions = before ++ .operate op :: after →
    op.HasShape s e (producerAfter s e st before)
  sendable : ∀ before visited after, actions = before ++ .flush visited :: after →
    (producerAfter s e st before).Sendable s e visited

/-! ### Shapes along a schedule -/

theorem getElem?_modify_eq_some {α : Type} {as : List α} {g : α → α} {i j : Nat} {b : α} :
    (as.modify i g)[j]? = some b ↔ ∃ a, as[j]? = some a ∧ (if i = j then g a else a) = b := by
  rw [List.getElem?_modify, Option.map_eq_map, Option.map_eq_some_iff]

section Shapes

variable {s : Linked} {e : Entry} {st : State}

theorem State.hasShape_of_forall₂
    (hmembers : List.Forall₂ (fun f t => t.value.HasShape s f.shape) e.data.fields st.members)
    (hqueues : List.Forall₂ (fun ev q => ∀ d ∈ q.staged, d.HasShape s ev.shape)
      e.component.events st.queues) : st.HasShape s e := by
  rw [List.forall₂_iff_zip] at hmembers hqueues
  refine ⟨hmembers.1.symm, ?_, hqueues.1.symm, ?_⟩
  · intro i f t hf ht
    exact hmembers.2 (List.mem_of_getElem? (List.getElem?_zip_eq_some.mpr ⟨hf, ht⟩))
  · intro i ev q hev hq
    exact hqueues.2 (List.mem_of_getElem? (List.getElem?_zip_eq_some.mpr ⟨hev, hq⟩))

theorem State.HasShape.forall₂_members (h : st.HasShape s e) :
    List.Forall₂ (fun f t => t.value.HasShape s f.shape) e.data.fields st.members := by
  refine List.forall₂_iff_zip.mpr ⟨h.membersLength.symm, fun {f t} hslot => ?_⟩
  obtain ⟨i, hi⟩ := List.mem_iff_getElem?.mp hslot
  obtain ⟨hf, ht⟩ := List.getElem?_zip_eq_some.mp hi
  exact h.members i f t hf ht

theorem State.HasShape.modify (h : st.HasShape s e) {i : Nat}
    {change : Tracked Data → Tracked Data}
    (hchange : ∀ (f : Field) (t : Tracked Data), e.data.fields[i]? = some f →
      st.members[i]? = some t → (change t).value.HasShape s f.shape) :
    (st.modify i change).HasShape s e := by
  refine ⟨by simpa [State.modify] using h.membersLength, ?_, h.queuesLength, h.staged⟩
  intro j f t hf ht
  obtain ⟨u, hu, rfl⟩ := getElem?_modify_eq_some.mp ht
  split_ifs with hij
  · subst hij
    exact hchange f u hf hu
  · exact h.members j f u hf hu

theorem State.HasShape.trigger (h : st.HasShape s e) {i : Nat} {d : Data}
    (hd : ∀ ev, e.component.events[i]? = some ev → d.HasShape s ev.shape) :
    (st.trigger i d).HasShape s e := by
  refine ⟨h.membersLength, h.members, by simpa [State.trigger] using h.queuesLength, ?_⟩
  intro j ev q hev hq c hc
  obtain ⟨p, hp, rfl⟩ := getElem?_modify_eq_some.mp hq
  split_ifs at hc with hij
  · rcases List.mem_append.mp hc with hc | hc
    · exact h.staged j ev p hev hp c hc
    · rw [List.mem_singleton.mp hc]
      exact hd ev (hij ▸ hev)
  · exact h.staged j ev p hev hp c hc

theorem State.HasShape.cleanup (h : st.HasShape s e) : st.cleanup.HasShape s e := by
  refine ⟨h.membersLength, h.members, by simpa [State.cleanup] using h.queuesLength, ?_⟩
  intro j ev q hev hq
  simp only [State.cleanup, List.getElem?_map, Option.map_eq_some_iff] at hq
  obtain ⟨p, hp, rfl⟩ := hq
  exact h.staged j ev p hev hp

theorem State.HasShape.flush (h : st.HasShape s e) : (st.flush s e).2.HasShape s e := by
  refine ⟨by simpa [State.flush] using h.membersLength, ?_,
    by simpa [State.flush] using h.queuesLength, ?_⟩
  · intro i f t hf ht
    simp only [State.flush, List.getElem?_map, Option.map_eq_some_iff] at ht
    obtain ⟨u, hu, rfl⟩ := ht
    exact h.members i f u hf hu
  · intro i ev q hev hq
    simp only [State.flush, List.getElem?_map, Option.map_eq_some_iff] at hq
    obtain ⟨p, hp, rfl⟩ := hq
    exact fun d hd => absurd hd List.not_mem_nil

theorem Operation.HasShape.run {op : Operation} (hop : op.HasShape s e st) (h : st.HasShape s e) :
    (op.run st).HasShape s e := by
  cases op with
  | set i d => exact h.modify fun f _ hf _ => hop f hf
  | modify i change => exact h.modify hop
  | mark i => exact h.modify (h.members i)
  | trigger i d => exact h.trigger hop
  | makeDirty => exact ⟨h.membersLength, h.members, h.queuesLength, h.staged⟩
  | takeDirty => exact ⟨h.membersLength, h.members, h.queuesLength, h.staged⟩
  | cleanup => exact h.cleanup

/-- What waits to be sent has the right shapes if it is counted exactly. -/
theorem State.HasShape.pending (h : st.HasShape s e)
    (hbatches : ∀ q ∈ st.queues, q.staged.length < UInt32.size) : st.pending.HasShape s e := by
  refine ⟨by simpa [State.pending] using h.membersLength, ?_,
    by simpa [State.pending] using h.queuesLength, ?_⟩
  · intro slot hslot d hd
    obtain ⟨i, hi⟩ := List.mem_iff_getElem?.mp hslot
    obtain ⟨hf, hm⟩ := List.getElem?_zip_eq_some.mp hi
    simp only [State.pending, List.getElem?_map, Option.map_eq_some_iff] at hm
    obtain ⟨t, ht, hm⟩ := hm
    rw [hd] at hm
    split_ifs at hm with hdirty
    obtain rfl := Option.some.inj hm
    exact h.members i slot.1 t hf ht
  · intro batch hbatch
    obtain ⟨i, hi⟩ := List.mem_iff_getElem?.mp hbatch
    obtain ⟨hev, hes⟩ := List.getElem?_zip_eq_some.mp hi
    simp only [State.pending, List.getElem?_map, Option.map_eq_some_iff] at hes
    obtain ⟨q, hq, hes⟩ := hes
    rw [← hes]
    exact .list (hbatches q (List.mem_of_getElem? hq)) (h.staged i batch.1 q hev hq)

end Shapes

/-! ### What is sent and what arrives -/

section Runs

variable {s : Linked} {e : Entry} {st : State}

theorem producerAfter_append (st : State) (before after : List Action) :
    producerAfter s e st (before ++ after) =
      producerAfter s e (producerAfter s e st before) after :=
  List.foldl_append

theorem sent_append (st : State) (before after : List Action) :
    sent s e st (before ++ after) =
      sent s e st before ++ sent s e (producerAfter s e st before) after := by
  induction before generalizing st with
  | nil => rfl
  | cons a rest ih =>
      rw [List.cons_append, sent, sent, ih, List.append_assoc]
      rfl

theorem length_sent (st : State) (actions : List Action) :
    (sent s e st actions).length = flushes actions := by
  induction actions generalizing st with
  | nil => rfl
  | cons a rest ih =>
      rw [sent, List.length_append, ih, flushes, flushes, List.countP_cons, Nat.add_comm]
      cases a <;> rfl

theorem written_append (before after : List Action) :
    written (before ++ after) = written before ++ written after :=
  List.flatMap_append

theorem Deliverable.of_append {before after : List Action} (h : Deliverable (before ++ after)) :
    Deliverable before := by
  rintro first last rfl
  exact h first (last ++ after) (by simp)

theorem deliveries_append (before after : List Action) :
    deliveries (before ++ after) = deliveries before + deliveries after :=
  List.countP_append

theorem flushes_append (before after : List Action) :
    flushes (before ++ after) = flushes before + flushes after :=
  List.countP_append

/-- At most as many payloads are delivered as are sent. -/
theorem Deliverable.deliveries_le {actions : List Action} (h : Deliverable actions) :
    deliveries actions ≤ flushes actions := by
  induction actions using List.reverseRecOn with
  | nil => exact le_rfl
  | append_singleton before a ih =>
      have hbefore := ih h.of_append
      rw [deliveries_append, flushes_append]
      cases a with
      | operate op => exact hbefore
      | flush visited => exact hbefore.trans (Nat.le_succ _)
      | deliver => exact h before [] rfl

/-- Deliverability can be checked position by position. -/
theorem deliverable_iff {actions : List Action} :
    Deliverable actions ↔ ∀ n < actions.length, (actions[n]?).any Action.isDelivery = true →
      deliveries (actions.take n) < flushes (actions.take n) := by
  constructor
  · intro h n hn hdelivery
    rw [List.getElem?_eq_getElem hn, Option.any_some] at hdelivery
    have hsplit : actions = actions.take n ++ .deliver :: actions.drop (n + 1) := by
      cases hat : actions[n] with
      | deliver => rw [← hat, List.getElem_cons_drop, List.take_append_drop]
      | operate op => simp [hat, Action.isDelivery] at hdelivery
      | flush visited => simp [hat, Action.isDelivery] at hdelivery
    exact h _ _ hsplit
  · rintro h before after rfl
    simpa [Action.isDelivery] using h before.length (by simp)

instance (actions : List Action) : Decidable (Deliverable actions) :=
  decidable_of_iff _ deliverable_iff.symm

theorem Schedulable.nil : Schedulable s e st [] :=
  ⟨fun _ _ _ h => by simp at h, fun _ _ _ h => by simp at h⟩

theorem Schedulable.cons {a : Action} {rest : List Action}
    (hshape : ∀ op, a = .operate op → op.HasShape s e st)
    (hsendable : ∀ visited, a = .flush visited → st.Sendable s e visited)
    (hrest : Schedulable s e (a.onProducer s e st) rest) : Schedulable s e st (a :: rest) := by
  refine ⟨?_, ?_⟩
  · intro before op after h
    cases before with
    | nil => exact hshape op (List.cons.inj h).1
    | cons b before =>
        obtain ⟨rfl, htail⟩ := List.cons.inj h
        exact hrest.shapes before op after htail
  · intro before visited after h
    cases before with
    | nil => exact hsendable visited (List.cons.inj h).1
    | cons b before =>
        obtain ⟨rfl, htail⟩ := List.cons.inj h
        exact hrest.sendable before visited after htail

theorem Schedulable.operate {op : Operation} {rest : List Action} (hop : op.HasShape s e st)
    (hrest : Schedulable s e (op.run st) rest) : Schedulable s e st (.operate op :: rest) :=
  .cons (fun _ h => Action.operate.inj h ▸ hop) (fun _ h => by cases h) hrest

theorem Schedulable.flush {visited : Update} {rest : List Action} (hst : st.Sendable s e visited)
    (hrest : Schedulable s e (st.flush s e).2 rest) : Schedulable s e st (.flush visited :: rest) :=
  .cons (fun _ h => by cases h) (fun _ h => Action.flush.inj h ▸ hst) hrest

theorem Schedulable.deliver {rest : List Action} (hrest : Schedulable s e st rest) :
    Schedulable s e st (.deliver :: rest) :=
  .cons (fun _ h => by cases h) (fun _ h => by cases h) hrest

theorem Schedulable.of_append {before after : List Action}
    (h : Schedulable s e st (before ++ after)) : Schedulable s e st before := by
  refine ⟨?_, ?_⟩
  · rintro first op last rfl
    exact h.shapes first op (last ++ after) (by simp)
  · rintro first visited last rfl
    exact h.sendable first visited (last ++ after) (by simp)

theorem Schedulable.tail {a : Action} {rest : List Action} (h : Schedulable s e st (a :: rest)) :
    Schedulable s e (a.onProducer s e st) rest := by
  refine ⟨?_, ?_⟩
  · rintro before op after rfl
    exact h.shapes (a :: before) op after rfl
  · rintro before visited after rfl
    exact h.sendable (a :: before) visited after rfl

theorem Schedulable.hasShape_onProducer {a : Action} {rest : List Action}
    (h : Schedulable s e st (a :: rest)) (hst : st.HasShape s e) :
    (a.onProducer s e st).HasShape s e := by
  cases a with
  | operate op => exact (h.shapes [] op rest rfl).run hst
  | flush visited => exact hst.flush
  | deliver => exact hst

theorem Schedulable.hasShape_producerAfter {actions : List Action}
    (h : Schedulable s e st actions) (hst : st.HasShape s e) :
    (producerAfter s e st actions).HasShape s e := by
  induction actions generalizing st with
  | nil => exact hst
  | cons a rest ih => exact ih h.tail (h.hasShape_onProducer hst)

/-- An update arrives as it was sent: it has the right shapes, it is written with its maps in some
order, and its payload can be addressed. -/
structure Arrives (s : Linked) (e : Entry) (u visited : Update) : Prop where
  shape : u.HasShape s e
  order : u.VisitedAs visited
  addressable : (visited.write s e).encode.length ≤ Wire.maxPosition

/-- Every update that is sent arrives, as it is written. -/
theorem Schedulable.arrives {actions : List Action} (h : Schedulable s e st actions)
    (hst : st.HasShape s e) :
    List.Forall₂ (Arrives s e) (sent s e st actions) (written actions) := by
  induction actions generalizing st with
  | nil => exact .nil
  | cons a rest ih =>
      have hrest := ih h.tail (h.hasShape_onProducer hst)
      cases a with
      | operate op => exact hrest
      | flush visited =>
          have hsendable := h.sendable [] visited rest rfl
          exact .cons ⟨hst.pending hsendable.batches, hsendable.order, hsendable.addressable⟩ hrest
      | deliver => exact hrest

/-- The bytes that an update is sent as. -/
def payloadBytes (s : Linked) (e : Entry) (visited : Update) : Bytes := (visited.write s e).encode

/-- Delivering the payload of an update applies the update. -/
theorem step_deliver (replicable : Replicable s e) {u visited : Update}
    (harrives : Arrives s e u visited) {system : System} {rest : List Bytes}
    (hchannel : system.channel = payloadBytes s e visited :: rest) :
    system.step s e .deliver =
      some { system with channel := rest, replica := system.replica.apply u } := by
  obtain ⟨p, hdecode, hreceive⟩ := harrives.shape.receive_decode_encode_visited harrives.order
    replicable harrives.addressable
  simp only [System.step, hchannel, payloadBytes, hdecode, hreceive]

/-- A schedule leaves the producer as its own actions do, and the replica with the delivered updates
applied in the order in which they were sent; the others are still under way, as they were written. -/
theorem run_eq (replicable : Replicable s e) {producer replica : State}
    (hproducer : producer.HasShape s e) {actions : List Action}
    (schedulable : Schedulable s e producer actions) (deliverable : Deliverable actions) :
    System.run s e { producer, replica } actions =
      some
        { producer := producerAfter s e producer actions
          channel := ((written actions).drop (deliveries actions)).map (payloadBytes s e)
          replica := ((sent s e producer actions).take (deliveries actions)).foldl State.apply
            replica } := by
  induction actions using List.reverseRecOn with
  | nil => rfl
  | append_singleton before a ih =>
      have hbefore := ih schedulable.of_append deliverable.of_append
      have harrives := schedulable.of_append.arrives hproducer
      have hsent := length_sent (s := s) (e := e) producer before
      have hwritten : (written before).length = flushes before :=
        harrives.length_eq.symm.trans hsent
      rw [System.run] at hbefore ⊢
      rw [List.foldlM_append, hbefore, Option.bind_eq_bind, Option.bind_some, List.foldlM_cons,
        producerAfter_append, sent_append, written_append, deliveries_append]
      cases a with
      | operate op => simp [System.step, sent, Action.sends, written, Action.writes, producerAfter,
          Action.onProducer, deliveries, Action.isDelivery]
      | flush visited =>
          have hdelivered : deliveries before ≤ flushes before :=
            deliverable.of_append.deliveries_le
          have hnone : deliveries [Action.flush visited] = 0 := rfl
          have hwrites : written [Action.flush visited] = [visited] := rfl
          rw [hnone, hwrites, Nat.add_zero, List.drop_append_of_le_length (hwritten ▸ hdelivered),
            List.take_append_of_le_length (hsent ▸ hdelivered)]
          simp [System.step, producerAfter, Action.onProducer, payloadBytes]
      | deliver =>
          have hnext : deliveries before < flushes before := deliverable before [] rfl
          have hnextSent : deliveries before < (sent s e producer before).length := hsent ▸ hnext
          have hnextWritten : deliveries before < (written before).length := hwritten ▸ hnext
          have hone : deliveries [Action.deliver] = 1 := rfl
          have hnothing : sent s e (producerAfter s e producer before) [Action.deliver] = [] := rfl
          have hunwritten : written [Action.deliver] = [] := rfl
          rw [step_deliver replicable (harrives.get hnextSent hnextWritten)
              (by rw [List.drop_eq_getElem_cons hnextWritten, List.map_cons]; rfl),
            hnothing, hunwritten, List.append_nil, List.append_nil, hone,
            List.take_succ_eq_append_getElem hnextSent, List.foldl_append]
          rfl

end Runs

end EntitySchema.Replica
