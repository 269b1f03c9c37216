import EntitySchema.Wire.Decoding
import EntitySchema.Wire.Encoding

/-!
# Payloads

A payload is a nine-byte header followed by objects: the full state of a component, a partial update
of it, or the request or response of one of its commands. The header names the kind of payload, the
component and, for commands, the command.
-/

namespace EntitySchema.Wire

/-- The number of a component. -/
abbrev ComponentId := UInt32

/-- The number of a command within its component. -/
abbrev CommandIndex := UInt32

/-- What a payload carries. -/
inductive PayloadKind where
  /-- The full state of a component. -/
  | data
  /-- A partial update of a component. -/
  | update
  /-- A command request. -/
  | request
  /-- A command response. -/
  | response
deriving DecidableEq, Repr, Inhabited

namespace PayloadKind

/-- The first byte of a payload of the kind. -/
def byte : PayloadKind → UInt8
  | .data => 1
  | .update => 2
  | .request => 3
  | .response => 4

/-- The kind that a first byte announces. -/
def ofByte : UInt8 → Except DecodeError PayloadKind
  | 1 => .ok .data
  | 2 => .ok .update
  | 3 => .ok .request
  | 4 => .ok .response
  | kind => .error (.invalidPayloadKind kind)

/-- Whether payloads of the kind address a command. -/
def isCommand : PayloadKind → Bool
  | .request | .response => true
  | .data | .update => false

theorem ofByte_byte (k : PayloadKind) : ofByte k.byte = .ok k := by
  cases k <;> rfl

end PayloadKind

/-- What stands before the objects of a payload. -/
structure Header where
  /-- What the payload carries. -/
  kind : PayloadKind
  /-- The component it belongs to. -/
  componentId : ComponentId
  /-- The command it belongs to, zero for component payloads. -/
  commandIndex : CommandIndex := 0
deriving DecidableEq, Repr, Inhabited

namespace Header

/-- The number of bytes of a header. -/
def size : Nat := 9

/-- The bytes of a header. -/
def encode (h : Header) : Bytes := h.kind.byte :: (word32 h.componentId ++ word32 h.commandIndex)

/-- The header at a position of a byte string. -/
def decode (bytes : Bytes) (offset : Nat) : Except DecodeError Header := do
  bytes.ensure offset size
  let kind ← PayloadKind.ofByte (.ofNat (← bytes.word 1 offset))
  let componentId ← bytes.word 4 (offset + 1)
  let commandIndex ← bytes.word 4 (offset + 5)
  pure { kind, componentId := .ofNat componentId, commandIndex := .ofNat commandIndex }

/-- The header of a payload of the wanted kind, and the position behind it. -/
def expect (kind : PayloadKind) (bytes : Bytes) : Except DecodeError (Header × Cursor) := do
  let header ← decode bytes 0
  if header.kind = kind then
    pure (header, Cursor.seek bytes size)
  else
    .error (.invalidPayloadKind header.kind.byte)

end Header

/-- The full state of a component. -/
structure Snapshot where
  /-- The component. -/
  componentId : ComponentId
  /-- The values of its fields. -/
  fields : Object := .empty
deriving Inhabited

namespace Snapshot

/-- The bytes of the payload. -/
def encode (p : Snapshot) : Bytes :=
  Header.encode { kind := .data, componentId := p.componentId } ++ p.fields.encode

/-- The payload that a byte string encodes. -/
def decode (bytes : Bytes) : Except DecodeError Snapshot := do
  let (header, c) ← Header.expect .data bytes
  let (fields, c) ← c.object maxNesting
  c.finish
  pure { componentId := header.componentId, fields }

end Snapshot

/-- A partial update of a component. -/
structure Delta where
  /-- The component. -/
  componentId : ComponentId
  /-- The values of the fields that changed. -/
  fields : Object := .empty
  /-- Events by their numbers. -/
  events : Object := .empty
  /-- Fields that were set to a value with nothing to write, each once. -/
  cleared : List FieldId := []
deriving Inhabited

namespace Delta

/-- Records that a field was set to a value with nothing to write. -/
def addCleared (p : Delta) (f : FieldId) : Delta :=
  if f ∈ p.cleared then p else { p with cleared := p.cleared ++ [f] }

/-- Whether a field was set to a value with nothing to write. -/
def isCleared (p : Delta) (f : FieldId) : Bool := f ∈ p.cleared

/-- Whether the update carries nothing. -/
def isEmpty (p : Delta) : Bool := p.fields.isEmpty && p.events.isEmpty && p.cleared.isEmpty

/-- The bytes of the payload. -/
def encode (p : Delta) : Bytes :=
  Header.encode { kind := .update, componentId := p.componentId } ++ p.fields.encode ++
    p.events.encode ++ word32 (count32 p.cleared.length) ++ p.cleared.flatMap word32

/-- The payload that a byte string encodes. -/
def decode (bytes : Bytes) : Except DecodeError Delta := do
  let (header, c) ← Header.expect .update bytes
  let (fields, c) ← c.object maxNesting
  let (events, c) ← c.object maxNesting
  let (count, c) ← c.word32
  let (p, c) ← Cursor.fold (fun (p : Delta) c => do
    let (f, c) ← c.word32
    pure (p.addCleared f, c)) count.toNat { componentId := header.componentId, fields, events } c
  c.finish
  pure p

end Delta

/-- The two directions in which a command payload travels. -/
inductive Direction where
  | request
  | response
deriving DecidableEq, Repr, Inhabited

/-- The payload kind of a direction. -/
def Direction.kind : Direction → PayloadKind
  | .request => .request
  | .response => .response

/-- The request or the response of a command. -/
structure Message where
  /-- The component that owns the command. -/
  componentId : ComponentId
  /-- The command. -/
  commandIndex : CommandIndex
  /-- What is sent. -/
  object : Object := .empty
deriving Inhabited

namespace Message

/-- The bytes of the payload sent in a direction. -/
def encode (d : Direction) (p : Message) : Bytes :=
  Header.encode { kind := d.kind, componentId := p.componentId, commandIndex := p.commandIndex } ++
    p.object.encode

/-- The payload that a byte string sent in a direction encodes. -/
def decode (d : Direction) (bytes : Bytes) : Except DecodeError Message := do
  let (header, c) ← Header.expect d.kind bytes
  let (object, c) ← c.object maxNesting
  c.finish
  pure { componentId := header.componentId, commandIndex := header.commandIndex, object }

end Message

end EntitySchema.Wire
