import EntitySchema.Replica.EventQueue
import EntitySchema.Replica.Storage
import EntitySchema.Replica.Tracked
import EntitySchema.Schema.Entry
import EntitySchema.Wire.Payload

/-!
# The state of a component

A producer changes the tracked members of its state and stages events; flushing turns what is dirty
and what is staged into an update. A replica applies the update: set members are taken over as clean
values, and events are received.
-/

namespace EntitySchema.Replica

open Schema
open Wire (Object Snapshot Delta)

/-- The data of a component. -/
structure State where
  /-- The members, in the order of the fields. -/
  members : List (Tracked Data)
  /-- The dirty flag of the component. -/
  isDirty : Bool := false
  /-- The queues, in the order of the events. -/
  queues : List (EventQueue Data)
deriving Inhabited

/-- Changes to a component. -/
structure Update where
  /-- The new values of the members that are set, in the order of the fields. -/
  members : List (Option Data)
  /-- The events that are sent, in the order of their declarations. -/
  events : List (List Data)
deriving Inhabited

namespace Update

/-- The update that changes nothing. -/
def none (e : Entry) : Update :=
  ⟨e.data.fields.map fun _ => Option.none, e.component.events.map fun _ => []⟩

/-- Whether events are sent. -/
def hasEvents (u : Update) : Bool := u.events.any fun es => !es.isEmpty

/-- Whether a payload sets a field: something is stored for it, or it was cleared. -/
def sets (p : Delta) (f : Field) : Bool :=
  decide (0 < p.fields.count f.shape.kind f.id) || p.isCleared f.id

/-- The update that a payload carries. -/
def read (s : Linked) (e : Entry) (p : Delta) : Update where
  members := e.data.fields.map fun f =>
    if sets p f then some (s.load f.shape p.fields f.id) else Option.none
  events := e.component.events.map fun ev => (s.load (.list ev.shape) p.events ev.index).items

/-- Stores a new value in a payload. A container that stores nothing is noted as cleared, so that the
receiver still sees the field as set. -/
def writeChange (s : Linked) (f : Field) (d : Data) (p : Delta) : Delta :=
  let fields := store s d f.shape f.id p.fields
  if f.shape.isContainer && !fields.has f.id then { p with fields }.addCleared f.id
  else { p with fields }

/-- Stores the set members in a payload. -/
def writeMembers (s : Linked) : List Field → List (Option Data) → Delta → Delta
  | f :: fields, some d :: members, p => writeMembers s fields members (writeChange s f d p)
  | _ :: fields, Option.none :: members, p => writeMembers s fields members p
  | _, _, p => p

/-- Stores events in a payload. -/
def writeEvents (s : Linked) : List Event → List (List Data) → Delta → Delta
  | ev :: events, es :: rest, p =>
    writeEvents s events rest { p with events := storeItems s es ev.shape ev.index p.events }
  | _, _, p => p

/-- The payload of an update. -/
def write (s : Linked) (e : Entry) (u : Update) : Delta :=
  writeEvents s e.component.events u.events
    (writeMembers s e.data.fields u.members { componentId := e.component.id })

end Update

namespace State

/-- Queues without events. -/
def emptyQueues (e : Entry) : List (EventQueue Data) := e.component.events.map fun _ => .empty

/-- The state that an object holds: every member is clean. -/
def load (s : Linked) (e : Entry) (o : Object) : State where
  members := e.data.fields.map fun f => .clean (s.load f.shape o f.id)
  queues := emptyQueues e

/-- The state with default members, which are clean. -/
def initial (s : Linked) (e : Entry) : State := load s e .empty

/-- The state with given members, which are dirty. -/
def ofPlain (e : Entry) (values : List Data) : State where
  members := values.map .dirty
  queues := emptyQueues e

/-- The object that holds the members. -/
def object (s : Linked) (e : Entry) (st : State) : Object :=
  storeFields s (st.members.map Tracked.value) e.data.fields .empty

/-- The payload with all members. -/
def save (s : Linked) (e : Entry) (st : State) : Snapshot := ⟨e.component.id, st.object s e⟩

/-- Puts set members in place of the old ones; members beyond the update stay as they are. -/
def overlay (put : Data → Tracked Data) : List (Tracked Data) → List (Option Data) →
    List (Tracked Data)
  | _ :: ts, some d :: ds => put d :: overlay put ts ds
  | t :: ts, none :: ds => t :: overlay put ts ds
  | ts, [] => ts
  | [], _ => []

/-- Receives events; queues beyond the update stay as they are. -/
def receiveEvents : List (EventQueue Data) → List (List Data) → List (EventQueue Data)
  | q :: qs, es :: rest => q.receiveAll es :: receiveEvents qs rest
  | qs, [] => qs
  | [], _ => []

/-- Applies an update: set members become clean. -/
def apply (st : State) (u : Update) : State :=
  { st with
    members := overlay .clean st.members u.members
    queues := receiveEvents st.queues u.events }

/-- Whether anything waits to be sent. -/
def hasPending (st : State) : Bool :=
  st.members.any (fun t => t.isDirty) || st.queues.any fun q => q.hasStaged

/-- What waits to be sent. -/
def pending (st : State) : Update where
  members := st.members.map fun t => if t.isDirty then some t.value else none
  events := st.queues.map fun q => q.staged

/-- Sends what waits: every member is clean afterwards, and nothing is staged. -/
def flush (s : Linked) (e : Entry) (st : State) : Delta × State :=
  (st.pending.write s e,
    { st with
      members := st.members.map fun t => t.take.2
      queues := st.queues.map fun q => q.clearStaged })

/-- Raises the dirty flag of the component. -/
def makeDirty (st : State) : State := { st with isDirty := true }

/-- Reads the dirty flag of the component and clears it. -/
def takeDirty (st : State) : Bool × State := (st.isDirty, { st with isDirty := false })

/-- Drops the received events. -/
def cleanup (st : State) : State := { st with queues := st.queues.map fun q => q.clearReceived }

/-- Changes the member at a position. -/
def modify (st : State) (i : Nat) (change : Tracked Data → Tracked Data) : State :=
  { st with members := st.members.modify i change }

/-- Sets the members that an update sets, as a producer does: set members become dirty. -/
def set (st : State) (u : Update) : State :=
  { st with members := overlay .dirty st.members u.members }

/-- Stages an event in the queue at a position. -/
def trigger (st : State) (i : Nat) (d : Data) : State :=
  { st with queues := st.queues.modify i fun q => q.trigger d }

/-- Whether two states agree, whatever their dirty bits. -/
def agrees (a b : State) : Bool :=
  a.members.isEqv b.members (Tracked.agrees Data.agrees) && a.isDirty == b.isDirty &&
    a.queues.isEqv b.queues (EventQueue.agrees Data.agrees)

end State

end EntitySchema.Replica
