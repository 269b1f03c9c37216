import EntitySchema.Code.Method
import EntitySchema.Schema.Registry

/-!
# Code of fields and events

A field contributes a member to each of the structures it appears in (plain values, tracked data,
updates) and the code that reads, writes, applies and flushes it. An event contributes a queue to the
tracked data and a list to the update.
-/

namespace EntitySchema.Schema

open Code (Change Initializer Loading Making Member Statement Step Test changedFields sentEvents)

namespace Field

/-- The documentation of the members of a field. -/
def attributes (f : Field) : Code :=
  Code.doc s!" `{f.shape.text}` (field {f.id.toNat})."

/-- The member of a structure of plain values. -/
def plainMember (f : Field) : Member := ⟨f.attributes, f.name, .plain f.shape⟩

/-- The member of the data of a component. -/
def dataMember (f : Field) : Member := ⟨f.attributes, f.name, .tracked f.shape⟩

/-- The member of an update, which is absent where the field stays as it is. -/
def updateMember (f : Field) : Member := ⟨f.attributes, f.name, .plain (.option f.shape)⟩

/-- How the member is loaded from an object. -/
def loading (f : Field) : Loading :=
  let value := f.shape.reading ["object"] f.id "0"
  ⟨f.name, if f.isTracked then .clean value else value⟩

/-- The member loaded from an object. -/
def readMember (f : Field) : Initializer := f.loading.initializer

/-- Where the value of the member is found. -/
def operand (f : Field) : Code.Operand := if f.isTracked then .held f.name else .member f.name

/-- How the member is stored in an object. -/
def storing (f : Field) : Statement :=
  .scope "value" f.operand (f.shape.writing ["object"] f.id (.variable "value"))

/-- Stores the member in an object. -/
def writeMember (f : Field) : Code := f.storing.code

/-- How the member of an update is read from a payload: it is present where something is stored or
the field was cleared. -/
def receiving (f : Field) : Making :=
  ⟨f.name, .loadedIfSet f.id f.shape.kind (f.shape.reading changedFields f.id "0")⟩

/-- The member of an update read from a payload. -/
def readUpdateMember (f : Field) : Initializer := f.receiving.initializer

/-- How a value is stored in a payload. A container that stores nothing is noted as cleared, so that
the receiver still sees the field as set. -/
def change (f : Field) : Change where
  write := f.shape.writing changedFields f.id (.variable "value")
  cleared := if f.shape.isContainer then some f.id else none

/-- How the member of an update is stored in a payload. -/
def sending (f : Field) : Step := .storeSet f.name f.change

/-- Stores the member of an update, if it is set. -/
def writeUpdateMember (f : Field) : Code := f.sending.code

/-- How the member of an update is taken over. -/
def applying (f : Field) : Step := .takeOver f.name

/-- Takes the member of an update over, if it is set. -/
def applyUpdate (f : Field) : Code := f.applying.code

/-- How the member is flushed. -/
def flushing (f : Field) : Step := .storeDirty f.name f.change

/-- Stores the member in a payload if it is dirty, and makes it clean. -/
def flushDirty (f : Field) : Code := f.flushing.code

/-- The question whether the member is dirty. -/
def dirtiness (f : Field) : Test := .isDirty f.name

/-- Whether the member is dirty. -/
def isDirty (f : Field) : Code := f.dirtiness.code

/-- How the member of the data is made from a structure of plain values. -/
def converting (f : Field) : Making := ⟨f.name, .converted f.name⟩

/-- The member of the data taken from a structure of plain values. -/
def snapshotMember (f : Field) : Initializer := f.converting.initializer

end Field

namespace Event

/-- The documentation of the members of an event. -/
def attributes (e : Event) : Code :=
  Code.doc s!" `{e.shape.text}` events (index {e.index.toNat})."

/-- The shape of a batch of events. -/
def batch (e : Event) : Shape := .list e.shape

/-- The queue in the data of a component. -/
def dataMember (e : Event) : Member := ⟨e.attributes, e.name, .queue e.shape⟩

/-- The list in an update. -/
def updateMember (e : Event) : Member := ⟨e.attributes, e.name, .plain e.batch⟩

/-- How the queue is made: empty. -/
def loading (e : Event) : Loading := ⟨e.name, .emptyQueue⟩

/-- The empty queue. -/
def initialMember (e : Event) : Initializer := e.loading.initializer

/-- How the events of an update are received. -/
def applying (e : Event) : Step := .receiveEach e.name

/-- Receives every event of an update. -/
def applyUpdate (e : Event) : Code := e.applying.code

/-- How the events of an update are read from a payload. -/
def receiving (e : Event) : Making := ⟨e.name, .loaded (e.batch.reading sentEvents e.index "0")⟩

/-- The events of an update read from a payload. -/
def readUpdateMember (e : Event) : Initializer := e.receiving.initializer

/-- How the events of an update are stored in a payload. -/
def sending (e : Event) : Step :=
  .storeEvents (e.batch.writing sentEvents e.index (.member e.name))

/-- Stores the events of an update. -/
def writeUpdateMember (e : Event) : Code := e.sending.code

/-- How the queue is flushed. -/
def flushing (e : Event) : List Step :=
  [.storeEvents (e.batch.writing sentEvents e.index (.staged e.name)), .clearStaged e.name]

/-- Stores the staged events in a payload and drops them. -/
def flushStaged (e : Event) : Code := e.flushing.flatMap Step.code

/-- The question whether events are staged. -/
def pendency (e : Event) : Test := .hasStaged e.name

/-- Whether events are staged. -/
def hasStaged (e : Event) : Code := e.pendency.code

/-- The question whether an update has events. -/
def occurrence (e : Event) : Test := .hasItems e.name

/-- Whether an update has events. -/
def updateHasEvents (e : Event) : Code := e.occurrence.code

/-- How the queue is cleaned up. -/
def cleaning (e : Event) : Step := .clearReceived e.name

/-- Drops the received events. -/
def clearReceived (e : Event) : Code := e.cleaning.code

end Event

end EntitySchema.Schema
