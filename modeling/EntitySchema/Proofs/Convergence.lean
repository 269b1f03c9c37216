import EntitySchema.Proofs.Schedule
import EntitySchema.Sample

/-!
# Replicas converge

A replica follows a producer when it has the same value in every member that the producer does not
hold as dirty. Operations of the producer keep this, because a member that changes becomes dirty. A
flush that is applied makes all members equal, because every dirty member is in the update. So,
right after the update of a flush is applied, the replica has the members that the producer had at
that flush, and it has received every event that was triggered before the flush, once and in order.

## Implementation notes

The invariant is about the replica with all sent updates applied, whether they have arrived or not:
that replica follows the producer after every action (`Follows.after`), and what it has received
together with what is still staged is all that was triggered (`Follows.receivedAt_after`). The
delivery of a flush then reads the invariant at the schedule before the flush.
-/

namespace EntitySchema.Replica

open Schema

/-- The replica has as many members and queues, and the same values where nothing is dirty. -/
structure Follows (producer replica : State) : Prop where
  membersLength : replica.members.length = producer.members.length
  queuesLength : replica.queues.length = producer.queues.length
  members : ∀ (i : Nat) (t r : Tracked Data), producer.members[i]? = some t →
    replica.members[i]? = some r → t.isDirty = false → r.value = t.value

/-- The events that the queue at a position has received. -/
def State.receivedAt (st : State) (i : Nat) : List Data :=
  (st.queues[i]?).elim [] EventQueue.received

/-- The events that wait in the queue at a position. -/
def State.stagedAt (st : State) (i : Nat) : List Data :=
  (st.queues[i]?).elim [] EventQueue.staged

/-- The events that an action triggers in the queue at a position. -/
def Action.triggers (i : Nat) : Action → List Data
  | .operate (.trigger j d) => if j = i then [d] else []
  | _ => []

/-- The events that a schedule triggers in the queue at a position, in order. -/
def triggered (i : Nat) (actions : List Action) : List Data := actions.flatMap (Action.triggers i)

/-! ### Applying an update -/

theorem overlay_eq_zipWith (put : Data → Tracked Data) {ts : List (Tracked Data)}
    {ds : List (Option Data)} (h : ds.length = ts.length) :
    State.overlay put ts ds = List.zipWith (fun t d => d.elim t put) ts ds := by
  induction ts generalizing ds with
  | nil =>
      rw [List.eq_nil_of_length_eq_zero h]
      rfl
  | cons t ts ih =>
      cases ds with
      | nil => simp at h
      | cons d ds =>
          have hrest := ih (by simpa using h)
          cases d with
          | none => rw [State.overlay, hrest, List.zipWith_cons_cons]; rfl
          | some d => rw [State.overlay, hrest, List.zipWith_cons_cons]; rfl

theorem receiveEvents_eq_zipWith {qs : List (EventQueue Data)} {batches : List (List Data)}
    (h : batches.length = qs.length) :
    State.receiveEvents qs batches = List.zipWith EventQueue.receiveAll qs batches := by
  induction qs generalizing batches with
  | nil =>
      rw [List.eq_nil_of_length_eq_zero h]
      rfl
  | cons q qs ih =>
      cases batches with
      | nil => simp at h
      | cons es batches =>
          rw [State.receiveEvents, ih (by simpa using h), List.zipWith_cons_cons]

section Steps

variable {producer replica : State}

theorem Follows.members_apply (h : Follows producer replica) :
    (replica.apply producer.pending).members =
      List.zipWith (fun r t => if t.isDirty then .clean t.value else r) replica.members
        producer.members := by
  have hlength : producer.pending.members.length = replica.members.length := by
    simpa [State.pending] using h.membersLength.symm
  have hput : (fun (r t : Tracked Data) =>
      (if t.isDirty then some t.value else none).elim r Tracked.clean) =
      fun r t => if t.isDirty then .clean t.value else r := by
    funext r t
    cases t.isDirty <;> rfl
  calc (replica.apply producer.pending).members
      = List.zipWith (fun r d => d.elim r Tracked.clean) replica.members
          producer.pending.members := overlay_eq_zipWith Tracked.clean hlength
    _ = List.zipWith (fun r t => if t.isDirty then .clean t.value else r) replica.members
          producer.members := by rw [State.pending, List.zipWith_map_right, hput]

theorem Follows.queues_apply (h : Follows producer replica) :
    (replica.apply producer.pending).queues =
      List.zipWith (fun r p => r.receiveAll p.staged) replica.queues producer.queues := by
  have hlength : producer.pending.events.length = replica.queues.length := by
    simpa [State.pending] using h.queuesLength.symm
  calc (replica.apply producer.pending).queues
      = List.zipWith EventQueue.receiveAll replica.queues producer.pending.events :=
        receiveEvents_eq_zipWith hlength
    _ = List.zipWith (fun r p => r.receiveAll p.staged) replica.queues producer.queues := by
        rw [State.pending, List.zipWith_map_right]

/-- Applying what waits to be sent makes all members equal to those of the producer. -/
theorem Follows.values_apply (h : Follows producer replica) :
    (replica.apply producer.pending).members.map Tracked.value =
      producer.members.map Tracked.value := by
  rw [h.members_apply]
  apply List.ext_getElem
  · simp [h.membersLength]
  · intro i hi₁ hi₂
    have hp : i < producer.members.length := by simpa using hi₂
    have hr : i < replica.members.length := h.membersLength ▸ hp
    simp only [List.getElem_map, List.getElem_zipWith]
    cases hdirty : producer.members[i].isDirty with
    | false =>
        exact h.members i _ _ (List.getElem?_eq_getElem hp) (List.getElem?_eq_getElem hr) hdirty
    | true => rfl

theorem Follows.modify (h : Follows producer replica) (i : Nat)
    {change : Tracked Data → Tracked Data} (hchange : ∀ t, (change t).isDirty = true) :
    Follows (producer.modify i change) replica := by
  refine ⟨by simpa [State.modify] using h.membersLength, h.queuesLength, ?_⟩
  intro j t r ht hr hclean
  obtain ⟨u, hu, rfl⟩ := getElem?_modify_eq_some.mp ht
  split_ifs at hclean ⊢ with hij
  · rw [hchange u] at hclean
    cases hclean
  · exact h.members j u r hu hr hclean

theorem Follows.run (h : Follows producer replica) (op : Operation) :
    Follows (op.run producer) replica := by
  cases op with
  | set i d => exact h.modify i fun _ => rfl
  | modify i change => exact h.modify i fun _ => rfl
  | mark i => exact h.modify i fun _ => rfl
  | trigger i d =>
      exact ⟨h.membersLength, by simpa [Operation.run, State.trigger] using h.queuesLength,
        h.members⟩
  | makeDirty => exact ⟨h.membersLength, h.queuesLength, h.members⟩
  | takeDirty => exact ⟨h.membersLength, h.queuesLength, h.members⟩
  | cleanup =>
      exact ⟨h.membersLength, by simpa [Operation.run, State.cleanup] using h.queuesLength,
        h.members⟩

theorem Follows.flush (h : Follows producer replica) (s : Linked) (e : Entry) :
    Follows (producer.flush s e).2 (replica.apply producer.pending) := by
  refine ⟨?_, ?_, ?_⟩
  · rw [h.members_apply]
    simp [State.flush, h.membersLength]
  · rw [h.queues_apply]
    simp [State.flush, h.queuesLength]
  · intro i t r ht hr _
    have hvalues := congrArg (fun values => values[i]?) h.values_apply
    simp only [State.flush, List.getElem?_map, Option.map_eq_some_iff] at ht hvalues
    obtain ⟨u, hu, rfl⟩ := ht
    rw [hr, hu] at hvalues
    exact Option.some.inj hvalues

/-- Whatever the producer does, the replica follows it once what was sent is applied. -/
theorem Follows.step (h : Follows producer replica) (s : Linked) (e : Entry) (a : Action) :
    Follows (a.onProducer s e producer) ((a.sends producer).foldl State.apply replica) := by
  cases a with
  | operate op => exact h.run op
  | flush visited => exact h.flush s e
  | deliver => exact h

theorem Follows.after (h : Follows producer replica) (s : Linked) (e : Entry)
    (actions : List Action) :
    Follows (producerAfter s e producer actions)
      ((sent s e producer actions).foldl State.apply replica) := by
  induction actions generalizing producer replica with
  | nil => exact h
  | cons a rest ih =>
      rw [sent, List.foldl_append]
      exact ih (h.step s e a)

/-! ### Events -/

theorem stagedAt_run (op : Operation) {i : Nat} (hi : i < producer.queues.length) :
    (op.run producer).stagedAt i = producer.stagedAt i ++ (Action.operate op).triggers i := by
  cases op with
  | trigger j d =>
      simp only [Operation.run, State.trigger, State.stagedAt, List.getElem?_modify,
        List.getElem?_eq_getElem hi, Action.triggers]
      by_cases hij : j = i
      · simp [hij, EventQueue.trigger]
      · simp [hij]
  | cleanup =>
      simp [Operation.run, State.cleanup, State.stagedAt, Action.triggers,
        List.getElem?_eq_getElem hi, EventQueue.clearReceived]
  | set j d => simp [Operation.run, State.modify, State.stagedAt, Action.triggers]
  | modify j change => simp [Operation.run, State.modify, State.stagedAt, Action.triggers]
  | mark j => simp [Operation.run, State.modify, State.stagedAt, Action.triggers]
  | makeDirty => simp [Operation.run, State.makeDirty, State.stagedAt, Action.triggers]
  | takeDirty => simp [Operation.run, State.takeDirty, State.stagedAt, Action.triggers]

theorem Follows.receivedAt_apply (h : Follows producer replica) {i : Nat}
    (hi : i < producer.queues.length) :
    (replica.apply producer.pending).receivedAt i =
      replica.receivedAt i ++ producer.stagedAt i := by
  have hr : i < replica.queues.length := h.queuesLength ▸ hi
  rw [State.receivedAt, h.queues_apply]
  simp [State.receivedAt, State.stagedAt, List.getElem?_zipWith, List.getElem?_eq_getElem hi,
    List.getElem?_eq_getElem hr, EventQueue.receiveAll]

/-- Events move from the producer to the replica and none is lost or doubled. -/
theorem Follows.receivedAt_step (h : Follows producer replica) (s : Linked) (e : Entry) (a : Action)
    {i : Nat} (hi : i < producer.queues.length) :
    ((a.sends producer).foldl State.apply replica).receivedAt i ++
        (a.onProducer s e producer).stagedAt i =
      replica.receivedAt i ++ producer.stagedAt i ++ a.triggers i := by
  cases a with
  | operate op =>
      have hrun : ((Action.operate op).onProducer s e producer).stagedAt i = _ :=
        stagedAt_run op hi
      rw [hrun, ← List.append_assoc]
      rfl
  | flush visited =>
      have hstaged : (producer.flush s e).2.stagedAt i = [] := by
        simp [State.flush, State.stagedAt, List.getElem?_eq_getElem hi, EventQueue.clearStaged]
      have hsends : ((Action.flush visited).sends producer).foldl State.apply replica =
          replica.apply producer.pending := rfl
      rw [hsends, h.receivedAt_apply hi]
      simp [Action.onProducer, hstaged, Action.triggers]
  | deliver => exact (List.append_nil _).symm

theorem length_queues_onProducer (s : Linked) (e : Entry) (a : Action) :
    (a.onProducer s e producer).queues.length = producer.queues.length := by
  cases a with
  | operate op =>
      cases op <;>
        simp [Action.onProducer, Operation.run, State.modify, State.trigger, State.makeDirty,
          State.takeDirty, State.cleanup]
  | flush visited => simp [Action.onProducer, State.flush]
  | deliver => rfl

theorem Follows.receivedAt_after (h : Follows producer replica) (s : Linked) (e : Entry)
    (actions : List Action) {i : Nat} (hi : i < producer.queues.length) :
    ((sent s e producer actions).foldl State.apply replica).receivedAt i ++
        (producerAfter s e producer actions).stagedAt i =
      replica.receivedAt i ++ producer.stagedAt i ++ triggered i actions := by
  induction actions generalizing producer replica with
  | nil => exact (List.append_nil _).symm
  | cons a rest ih =>
      have hnext : i < (a.onProducer s e producer).queues.length := by
        rwa [length_queues_onProducer]
      have hrest := ih (h.step s e a) hnext
      rw [h.receivedAt_step s e a hi] at hrest
      rw [sent, List.foldl_append, triggered, List.flatMap_cons, ← List.append_assoc]
      exact hrest

end Steps

/-! ### Convergence -/

/-- The updates up to a flush are those that are delivered when as many are delivered as were sent
before it, and one more. -/
theorem take_sent {s : Linked} {e : Entry} {producer : State} {before after : List Action}
    {visited : Update} {n : Nat} (hn : n = flushes before + 1) :
    (sent s e producer (before ++ .flush visited :: after)).take n =
      sent s e producer before ++ [(producerAfter s e producer before).pending] := by
  have hlength : n = (sent s e producer before).length + 1 := by rw [length_sent, hn]
  rw [sent_append, sent, hlength, List.take_length_add_append]
  rfl

/-- Right after the payload of a flush is delivered, the replica has the members that the producer
had at that flush, and it has received all events that were triggered before it. -/
theorem run_delivery {s : Linked} {e : Entry} (replicable : Replicable s e)
    {producer replica : State} (hproducer : producer.HasShape s e)
    (follows : Follows producer replica) {before after : List Action} {visited : Update}
    (schedulable : Schedulable s e producer (before ++ .flush visited :: after ++ [.deliver]))
    (deliverable : Deliverable (before ++ .flush visited :: after ++ [.deliver]))
    (latest : deliveries (before ++ .flush visited :: after) = flushes before) :
    ∃ system,
      System.run s e { producer, replica } (before ++ .flush visited :: after ++ [.deliver]) =
        some system ∧
      system.replica.members.map Tracked.value =
        (producerAfter s e producer before).members.map Tracked.value ∧
      ∀ i < e.component.events.length, system.replica.receivedAt i =
        replica.receivedAt i ++ producer.stagedAt i ++ triggered i before := by
  have hbefore := follows.after s e before
  have hcount : deliveries (before ++ .flush visited :: after ++ [.deliver]) =
      flushes before + 1 := by
    rw [deliveries_append, latest]
    rfl
  have happlied : ((sent s e producer (before ++ .flush visited :: after ++ [.deliver])).take
      (deliveries (before ++ .flush visited :: after ++ [.deliver]))).foldl State.apply replica =
      ((sent s e producer before).foldl State.apply replica).apply
        (producerAfter s e producer before).pending := by
    rw [List.append_assoc, List.cons_append, take_sent, List.foldl_append]
    · rfl
    · rw [← hcount, List.append_assoc, List.cons_append]
  refine ⟨_, run_eq replicable hproducer schedulable deliverable, ?_, ?_⟩
  · simp only [happlied]
    exact hbefore.values_apply
  · intro i hi
    have hflushed : (producerAfter s e producer before).HasShape s e :=
      schedulable.of_append.of_append.hasShape_producerAfter hproducer
    simp only [happlied]
    rw [hbefore.receivedAt_apply (hflushed.queuesLength ▸ hi)]
    exact follows.receivedAt_after s e before (hproducer.queuesLength ▸ hi)

end EntitySchema.Replica

namespace EntitySchema.Sample

open Schema Replica

theorem sound_schema : schema.Sound := by
  refine ⟨?_, ?_, ?_, ?_⟩
  · decide +kernel
  · decide +kernel
  · decide +kernel
  · decide +kernel

theorem replicable_ship : Replicable schema shipEntry where
  sound := sound_schema
  small := by decide +kernel
  flat := by decide +kernel
  singleEvents := by decide +kernel
  fieldIds := by decide +kernel
  eventIndices := by decide +kernel
  fewFields := by decide +kernel
  fewEvents := by decide +kernel
  nests := ⟨1, by decide +kernel, by decide +kernel, by decide +kernel⟩

theorem replicable_weather : Replicable schema weatherEntry where
  sound := sound_schema
  small := by decide +kernel
  flat := by decide +kernel
  singleEvents := by decide +kernel
  fieldIds := by decide +kernel
  eventIndices := by decide +kernel
  fewFields := by decide +kernel
  fewEvents := by decide +kernel
  nests := ⟨1, by decide +kernel, by decide +kernel, by decide +kernel⟩

/-- Ships and weather converge, in whatever order the entries of maps are visited while updates are
written: right after the update of a flush is applied, the replica has the members that the producer
had at that flush, and it has received its initial events, those that were staged at the start and
those that were triggered before the flush. -/
theorem replica_converges {e : Entry} (he : e = shipEntry ∨ e = weatherEntry)
    {producer replica : State} (hproducer : producer.HasShape schema e)
    (follows : Follows producer replica) {before after : List Action} {visited : Update}
    (schedulable : Schedulable schema e producer (before ++ .flush visited :: after ++ [.deliver]))
    (deliverable : Deliverable (before ++ .flush visited :: after ++ [.deliver]))
    (latest : deliveries (before ++ .flush visited :: after) = flushes before) :
    ∃ system,
      System.run schema e { producer, replica }
          (before ++ .flush visited :: after ++ [.deliver]) =
        some system ∧
      system.replica.members.map Tracked.value =
        (producerAfter schema e producer before).members.map Tracked.value ∧
      ∀ i < e.component.events.length, system.replica.receivedAt i =
        replica.receivedAt i ++ producer.stagedAt i ++ triggered i before := by
  have replicable : Replicable schema e := by
    rcases he with rfl | rfl
    · exact replicable_ship
    · exact replicable_weather
  exact run_delivery replicable hproducer follows schedulable deliverable latest

/-- The origin of space. -/
def origin : Data := .record [.scalar (.double 0), .scalar (.double 0), .scalar (.double 0)]

/-- A hit with some damage. -/
def struck (damage : UInt32) : Data := .record [.scalar (.uint32 damage), .scalar (.entityId ⟨9⟩)]

/-- The cargo of a ship, as the entries are listed. -/
def cargo (entries : List (String × UInt32)) : Data :=
  .map (entries.map fun e => (.string e.1, .scalar (.uint32 e.2)))

/-- The members of a ship with a heading, waypoints and cargo. -/
def shipMembers (heading : Int32) (waypoints : List Data) (entries : List (String × UInt32)) :
    List Data :=
  [.scalar (.string "Argo"), origin, .present (.scalar (.entityId ⟨7⟩)), .list waypoints,
    cargo entries, .scalar (.sint32 heading), .scalar (.fixed64 4), .absent, .list []]

/-- A ship with one waypoint, no cargo and no dirty member. -/
def idleShip (heading : Int32) (received staged : List Data) : State where
  members := (shipMembers heading [origin] []).map .clean
  queues := [{ received, staged }]

/-- A ship that has changed its heading and was hit. -/
def movedShip : State :=
  (Operation.set 5 (.scalar (.sint32 1))).run (idleShip 0 [] [struck 2])

/-- A flush, then a hit, an emptied list and some cargo that wait for the next one. -/
def untilFlush : List Action :=
  [.flush movedShip.pending, .operate (.trigger 0 (struck 3)), .operate (.set 3 (.list [])),
    .operate (.set 4 (cargo [("grain", 5), ("tar", 2)]))]

/-- What waits for the next flush, with the cargo as its entries are listed. -/
def reloaded (entries : List (String × UInt32)) : Update where
  members := [none, none, none, some (.list []), some (cargo entries), none, none, none, none]
  events := [[struck 3]]

/-- The heading changes once more and the first payload arrives. -/
def afterFlush : List Action := [.operate (.modify 5 fun _ => .scalar (.sint32 4)), .deliver]

theorem hasShape_origin : origin.HasShape schema vectorShape := by
  have hfields : schema.fieldsOf "fixture.game.Vector3" = vector.fields := rfl
  refine .record rfl ?_
  rw [hfields]
  simp only [vector, gameType, List.zip_cons_cons, List.zip_nil_right, List.forall_mem_cons]
  exact ⟨.scalar rfl (.word rfl), .scalar rfl (.word rfl), .scalar rfl (.word rfl), by simp⟩

theorem hasShape_struck (damage : UInt32) :
    (struck damage).HasShape schema (.reference "fixture.game.Hit") := by
  have hfields : schema.fieldsOf "fixture.game.Hit" = hit.fields := rfl
  refine .record rfl ?_
  rw [hfields]
  simp only [hit, gameType, List.zip_cons_cons, List.zip_nil_right, List.forall_mem_cons]
  exact ⟨.scalar rfl (.word rfl), .scalar rfl (.word rfl), by simp⟩

theorem hasShape_cargo : (cargo [("grain", 5), ("tar", 2)]).HasShape schema
    (.map (.scalar .string) (.scalar .uint32)) := by
  refine .map (by decide) (List.pairwise_pair.mpr (by decide +kernel)) ?_ ?_
  · simp only [List.map_cons, List.map_nil, List.forall_mem_cons]
    exact ⟨⟨rfl, .string (by decide +kernel)⟩, ⟨rfl, .string (by decide +kernel)⟩, by simp⟩
  · simp only [List.map_cons, List.map_nil, List.forall_mem_cons]
    exact ⟨.scalar rfl (.word rfl), .scalar rfl (.word rfl), by simp⟩

theorem visitedAs_cargo :
    (cargo [("grain", 5), ("tar", 2)]).VisitedAs (cargo [("tar", 2), ("grain", 5)]) := by
  have hsame : ∀ e ∈ ([(.string "tar", .scalar (.uint32 2), .scalar (.uint32 2)),
      (.string "grain", .scalar (.uint32 5), .scalar (.uint32 5))] :
        List (Wire.Value × Data × Data)), e.2.1.VisitedAs e.2.2 := by
    simp only [List.forall_mem_cons]
    exact ⟨.scalar _, .scalar _, by simp⟩
  refine .map ?_ hsame
  exact .swap _ _ _

theorem hasShape_movedShip : movedShip.HasShape schema shipEntry := by
  have hcargo : (cargo []).HasShape schema (.map (.scalar .string) (.scalar .uint32)) :=
    .map (by decide) .nil (by simp) (by simp)
  have hroute : (Data.list [origin]).HasShape schema (.list vectorShape) :=
    .list (by decide) (List.forall_mem_singleton.mpr hasShape_origin)
  have hmembers : List.Forall₂ (fun f t => t.value.HasShape schema f.shape) shipEntry.data.fields
      movedShip.members :=
    .cons (.scalar rfl (.string (by decide +kernel))) <| .cons hasShape_origin <|
      .cons (.present (.scalar rfl (.word rfl))) <| .cons hroute <| .cons hcargo <|
      .cons (.scalar rfl (.word rfl)) <| .cons (.scalar rfl (.word rfl)) <| .cons .absent <|
      .cons (.list (by decide) (by simp)) .nil
  exact State.hasShape_of_forall₂ hmembers
    (.cons (List.forall_mem_singleton.mpr (hasShape_struck 2)) .nil)

theorem follows_movedShip : Follows movedShip (idleShip 0 [struck 1] []) := by
  have hidle : Follows (idleShip 0 [] [struck 2]) (idleShip 0 [struck 1] []) :=
    ⟨rfl, rfl, fun _ _ _ ht hr _ => congrArg Tracked.value (Option.some.inj (hr.symm.trans ht))⟩
  exact hidle.run _

theorem visitedAs_reloaded :
    (reloaded [("grain", 5), ("tar", 2)]).VisitedAs (reloaded [("tar", 2), ("grain", 5)]) where
  members := .cons .none <| .cons .none <| .cons .none <| .cons (.some (Data.visitedAs_self _)) <|
    .cons (.some visitedAs_cargo) <| .cons .none <| .cons .none <| .cons .none <| .cons .none .nil
  events := List.forall₂_same.mpr fun _ _ => List.forall₂_same.mpr fun d _ => d.visitedAs_self

theorem schedulable_movedShip :
    Schedulable schema shipEntry movedShip
      (untilFlush ++ .flush (reloaded [("tar", 2), ("grain", 5)]) :: afterFlush ++
        [.deliver]) := by
  refine .flush ⟨Update.visitedAs_self _, by decide +kernel, by decide +kernel⟩ (.operate ?_
    (.operate ?_ (.operate ?_ (.flush ⟨visitedAs_reloaded, by decide +kernel, by decide +kernel⟩
      (.operate ?_ (.deliver (.deliver .nil)))))))
  · intro ev hev
    obtain rfl := Option.some.inj hev
    exact hasShape_struck 3
  · intro f hf
    obtain rfl := Option.some.inj hf
    exact .list (by decide) (by simp)
  · intro f hf
    obtain rfl := Option.some.inj hf
    exact hasShape_cargo
  · intro f _ hf _
    obtain rfl := Option.some.inj hf
    exact .scalar rfl (.word rfl)

theorem replica_converges_ship :
    ∃ system,
      System.run schema shipEntry { producer := movedShip, replica := idleShip 0 [struck 1] [] }
        (untilFlush ++ .flush (reloaded [("tar", 2), ("grain", 5)]) :: afterFlush ++
          [.deliver]) = some system ∧
      system.replica.members.map Tracked.value = shipMembers 1 [] [("grain", 5), ("tar", 2)] ∧
      system.replica.receivedAt 0 = [struck 1, struck 2, struck 3] := by
  obtain ⟨system, hrun, hmembers, hevents⟩ :=
    replica_converges (.inl rfl) hasShape_movedShip follows_movedShip schedulable_movedShip
      (by decide) rfl
  exact ⟨system, hrun, hmembers, hevents 0 (by decide)⟩

end EntitySchema.Sample
