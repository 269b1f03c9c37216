import EntitySchema.Replica.State

/-!
# Routing of payloads

Every payload names its component, and the payload of a command also its command. A payload that is
handed to a component or a command directly has to name it; the schema as a whole finds the component
or the command by the numbers.
-/

namespace EntitySchema.Replica

open Schema
open Wire (ComponentId CommandIndex Snapshot Delta Direction Message)

/-- Why a payload is not taken. -/
inductive RoutingError where
  /-- The payload is for another component. -/
  | componentMismatch (expected actual : ComponentId)
  /-- The payload is for another command. -/
  | commandMismatch (expected actual : ComponentId × CommandIndex)
  /-- No component has the number. -/
  | unknownComponent (id : ComponentId)
  /-- No command has the numbers. -/
  | unknownCommand (id : ComponentId) (index : CommandIndex)
deriving DecidableEq, Repr, Inhabited

/-- The wording of an error. -/
def RoutingError.message : RoutingError → String
  | .componentMismatch expected actual =>
    s!"component mismatch: expected {expected.toNat}, actual {actual.toNat}"
  | .commandMismatch (c, i) (d, j) =>
    s!"command mismatch: expected ({c.toNat}, {i.toNat}), actual ({d.toNat}, {j.toNat})"
  | .unknownComponent id => s!"unknown component id {id.toNat}"
  | .unknownCommand id index => s!"unknown command {index.toNat} on component {id.toNat}"

/-- The state that a payload for the component carries. -/
def State.receive (s : Linked) (e : Entry) (p : Snapshot) : Except RoutingError State :=
  if p.componentId = e.component.id then .ok (load s e p.fields)
  else .error (.componentMismatch e.component.id p.componentId)

/-- The update that a payload for the component carries. -/
def Update.receive (s : Linked) (e : Entry) (p : Delta) : Except RoutingError Update :=
  if p.componentId = e.component.id then .ok (read s e p)
  else .error (.componentMismatch e.component.id p.componentId)

/-- The data of some component. -/
structure AnyState where
  /-- The component. -/
  entry : Entry
  /-- Its data. -/
  state : State
deriving Inhabited

/-- Changes to some component. -/
structure AnyUpdate where
  /-- The component. -/
  entry : Entry
  /-- The changes. -/
  update : Update
deriving Inhabited

/-- The component that a payload is for. -/
def findComponent (s : Linked) (id : ComponentId) : Except RoutingError Entry :=
  match s.entry? id with
  | some e => .ok e
  | none => .error (.unknownComponent id)

/-- The data that a payload carries, of whatever component it is for. -/
def AnyState.receive (s : Linked) (p : Snapshot) : Except RoutingError AnyState := do
  let e ← findComponent s p.componentId
  pure ⟨e, ← State.receive s e p⟩

/-- The payload with the data. -/
def AnyState.save (s : Linked) (a : AnyState) : Snapshot := a.state.save s a.entry

/-- Applies changes to the same component; changes to another component are passed over. -/
def AnyState.apply (a : AnyState) (u : AnyUpdate) : AnyState :=
  if a.entry.component.id = u.entry.component.id then { a with state := a.state.apply u.update }
  else a

/-- The changes that a payload carries, to whatever component it is for. -/
def AnyUpdate.receive (s : Linked) (p : Delta) : Except RoutingError AnyUpdate := do
  let e ← findComponent s p.componentId
  pure ⟨e, ← Update.receive s e p⟩

/-- The payload with the changes. -/
def AnyUpdate.write (s : Linked) (u : AnyUpdate) : Delta := u.update.write s u.entry

/-- A command of a component. -/
structure Address where
  /-- The component. -/
  component : Component
  /-- The command. -/
  command : Command
deriving DecidableEq, Repr, Inhabited

namespace Address

/-- The numbers of the component and the command. -/
def key (a : Address) : ComponentId × CommandIndex := (a.component.id, a.command.index)

/-- What the command carries in a direction. -/
def shape (a : Address) : Direction → Shape
  | .request => a.command.request
  | .response => a.command.response

/-- The user type of what the command carries. -/
def typeName : Shape → String
  | .reference name => name
  | _ => ""

/-- The payload that carries something for the command. -/
def send (s : Linked) (a : Address) (d : Direction) (content : Data) : Message :=
  ⟨a.component.id, a.command.index, s.storeType (typeName (a.shape d)) content⟩

/-- What a payload for the command carries. -/
def receive (s : Linked) (a : Address) (d : Direction) (p : Message) : Except RoutingError Data :=
  if (p.componentId, p.commandIndex) = a.key then
    .ok (s.loadType (typeName (a.shape d)) p.object)
  else .error (.commandMismatch a.key (p.componentId, p.commandIndex))

/-- The commands of a schema. -/
def all (s : Linked) : List Address := s.components.flatMap fun c => c.commands.map fun m => ⟨c, m⟩

/-- What a payload carries, for whatever command it is. -/
def receiveAny (s : Linked) (d : Direction) (p : Message) : Except RoutingError (Address × Data) :=
  match (all s).find? fun a => a.key = (p.componentId, p.commandIndex) with
  | some a => do pure (a, ← a.receive s d p)
  | none => .error (.unknownCommand p.componentId p.commandIndex)

end Address

end EntitySchema.Replica
