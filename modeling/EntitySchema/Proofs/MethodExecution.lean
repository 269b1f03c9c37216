import EntitySchema.Code.Replication
import EntitySchema.Proofs.Execution
import EntitySchema.Schema.Entry
import EntitySchema.Wire.Payload

/-!
# What generated methods do when they run

`Step.run`, `Test.eval` and `Source.eval` give the parts of generated methods their meaning, on top
of that of statements and expressions. The methods of a component then are what the generated code
of its data and of its updates does: applying an update, collecting one, reading and writing the
payload of one, and the questions and the bookkeeping around them.

## Implementation notes

All steps of a method work on one `Activation`: the structure that the method belongs to, the update
that it is given and the payload that it fills. A method that has no update or no payload has no
step that looks at it.
-/

namespace EntitySchema.Code

open Wire (Delta Object)

/-- The structure with a value in the place of the member with a name. -/
def Instance.put : Instance → String → Instance → Instance
  | .record members, name, v => .record (members.map fun m => if m.1 = name then (name, v) else m)
  | self, _, _ => self

/-- What a method works on. -/
structure Activation where
  /-- The structure at hand. -/
  self : Instance
  /-- The update that is applied. -/
  update : Instance := .record []
  /-- The payload that is filled. -/
  payload : Delta := { componentId := 0 }

/-- Stores a new value in a payload, given how user types are stored. -/
def Change.run (call : String → Instance → Object → Option Object) (c : Change) (frame : Frame)
    (p : Delta) : Option Delta := do
  let fields ← c.write.run call frame changedFields p.fields
  match c.cleared with
  | some f => if fields.has f then some { p with fields } else some ({ p with fields }.addCleared f)
  | none => some { p with fields }

/-- Runs a step of a method, given how user types are stored. -/
def Step.run (call : String → Instance → Object → Option Object) :
    Step → Activation → Option Activation
  | .storeSet name change, a =>
    match a.self.member? name with
    | some .absent => some a
    | some (.present v) =>
      (change.run call ⟨a.self, [("value", v)]⟩ a.payload).map fun p => { a with payload := p }
    | _ => none
  | .storeDirty name change, a =>
    match a.self.member? name with
    | some (.cell v isDirty) =>
      let self := a.self.put name (.cell v false)
      if isDirty then
        (change.run call ⟨self, [("value", v)]⟩ a.payload).map fun p =>
          { a with self, payload := p }
      else some { a with self }
    | _ => none
  | .storeEvents write, a =>
    (write.run call ⟨a.self, []⟩ sentEvents a.payload.events).map fun events =>
      { a with payload := { a.payload with events } }
  | .takeOver name, a =>
    match a.update.member? name with
    | some .absent => some a
    | some (.present v) => some { a with self := a.self.put name (.cell v false) }
    | _ => none
  | .receiveEach name, a =>
    match a.update.member? name, a.self.member? name with
    | some (.list events), some (.queue received staged) =>
      some { a with self := a.self.put name (.queue (received ++ events) staged) }
    | _, _ => none
  | .clearStaged name, a =>
    match a.self.member? name with
    | some (.queue received _) => some { a with self := a.self.put name (.queue received []) }
    | _ => none
  | .clearReceived name, a =>
    match a.self.member? name with
    | some (.queue _ staged) => some { a with self := a.self.put name (.queue [] staged) }
    | _ => none

/-- The answer to a question about a structure. -/
def Test.eval (self : Instance) : Test → Option Bool
  | .isDirty name =>
    match self.member? name with
    | some (.cell _ dirty) => some dirty
    | _ => none
  | .hasStaged name =>
    match self.member? name with
    | some (.queue _ staged) => some !staged.isEmpty
    | _ => none
  | .hasItems name =>
    match self.member? name with
    | some (.list items) => some !items.isEmpty
    | _ => none

/-- Whether any of the questions about a structure is answered with yes. -/
def Test.any (tests : List Test) (self : Instance) : Option Bool :=
  (tests.mapM (eval self)).map fun answers => answers.any id

/-- The member of a new structure, given how user types are loaded, the payload that is read and the
structure of plain values. -/
def Source.eval (call : String → Object → Option Instance) (p : Delta) (plain : Instance) :
    Source → Option Instance
  | .loaded value => value.eval call ⟨[(changedFields, p.fields), (sentEvents, p.events)], []⟩
  | .loadedIfSet field kind value =>
    if 0 < p.fields.count kind field ∨ p.isCleared field then
      (value.eval call ⟨[(changedFields, p.fields), (sentEvents, p.events)], []⟩).map .present
    else some .absent
  | .converted name => (plain.member? name).map fun v => .cell v true

end EntitySchema.Code

namespace EntitySchema.Schema

open Code (Instance Test)

/-- Whether anything in the data of a component waits to be sent. -/
def Entry.hasPendingChanges (e : Entry) (self : Instance) : Option Bool :=
  Test.any (e.component.pendency e.data) self

/-- Whether an update of a component has events. -/
def Entry.containsEvents (e : Entry) (self : Instance) : Option Bool :=
  Test.any (e.component.events.map Event.occurrence) self

end EntitySchema.Schema

namespace EntitySchema.Schema.Linked

open Code (Activation Instance Making Step)
open Wire (Delta)

variable (s : Linked) (depth : Nat) (e : Entry)

/-- Runs the steps of a method one after the other. -/
def runSteps (steps : List Step) (a : Activation) : Option Activation :=
  steps.foldlM (fun a step => step.run (s.serialize depth) a) a

/-- Makes the members of a new structure one after the other. -/
def make (makings : List Making) (p : Delta) (plain : Instance) : Option Instance := do
  let members ← makings.mapM fun m =>
    (m.source.eval (s.deserialize depth) p plain).map fun v => (m.name, v)
  some (.record members)

/-- Applies an update to the data of a component. -/
def applyUpdate (self update : Instance) : Option Instance :=
  (s.runSteps depth (e.component.applying e.data) { self, update }).map Activation.self

/-- The payload with what waits to be sent, and the data after that. -/
def flushUpdate (self : Instance) : Option (Delta × Instance) :=
  (s.runSteps depth (e.component.flushing e.data)
    { self, payload := { componentId := e.component.id } }).map fun a => (a.payload, a.self)

/-- Drops the received events from the data of a component. -/
def cleanupAfterFrame (self : Instance) : Option Instance :=
  (s.runSteps depth (e.component.events.map Event.cleaning) { self }).map Activation.self

/-- The data of a component made from plain values. -/
def fromPlain (plain : Instance) : Option Instance :=
  s.make depth (e.component.converting e.data) { componentId := e.component.id } plain

/-- Reads an update of a component from a payload. -/
def readUpdate (p : Delta) : Option Instance :=
  s.make depth (e.component.receiving e.data) p (.record [])

/-- Stores an update of a component in a payload. -/
def writeUpdate (self : Instance) (p : Delta) : Option Delta :=
  (s.runSteps depth (e.component.sending e.data) { self, payload := p }).map Activation.payload

end EntitySchema.Schema.Linked
