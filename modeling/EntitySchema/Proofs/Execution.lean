import EntitySchema.Code.Data
import EntitySchema.Schema.Linked
import EntitySchema.Wire.Value

/-!
# What generated code does when it runs

`Statement.run` and `Expression.eval` give the statements and expressions of generated code their
meaning. A method of an object does what the operation of `Wire.Fields` with its kind does, and a
function of a user type runs the code that is generated for the type.

## Implementation notes

A map is the list of its entries in the order in which a loop visits them, so that a statement about
every list of entries is one about every order. A child object that is added is built on its own and
stored when its scope ends: until then the object around it is borrowed and no statement can use it.
The number of calls that may be open at once is an argument, and a run that needs more has no result.
-/

namespace EntitySchema.Code

open Schema (Linked)
open Wire (Bytes EntityId FieldId Kind Object Value)

/-- A value of a built-in type. Floating point numbers are their bits. -/
inductive Primitive where
  | bool (b : Bool)
  | u32 (n : UInt32)
  | u64 (n : UInt64)
  | i32 (n : Int32)
  | i64 (n : Int64)
  | f32 (bits : UInt32)
  | f64 (bits : UInt64)
  | string (s : String)
  | bytes (b : Bytes)
  | entityId (id : EntityId)
deriving DecidableEq, Repr, Inhabited

/-- The name of the type of a built-in value. -/
def Primitive.typeName : Primitive → String
  | .bool _ => "bool"
  | .u32 _ => "u32"
  | .u64 _ => "u64"
  | .i32 _ => "i32"
  | .i64 _ => "i64"
  | .f32 _ => "f32"
  | .f64 _ => "f64"
  | .string _ => "String"
  | .bytes _ => "Vec<u8>"
  | .entityId _ => "EntityId"

/-- What the method that adds values of a kind makes of its argument. -/
def Primitive.toValue? : Kind → Primitive → Option Value
  | .bool, .bool b => some (.bool b)
  | .uint32, .u32 n => some (.uint32 n)
  | .uint64, .u64 n => some (.uint64 n)
  | .int32, .i32 n => some (.int32 n)
  | .int64, .i64 n => some (.int64 n)
  | .sint32, .i32 n => some (.sint32 n)
  | .sint64, .i64 n => some (.sint64 n)
  | .fixed32, .u32 n => some (.fixed32 n)
  | .fixed64, .u64 n => some (.fixed64 n)
  | .sfixed32, .i32 n => some (.sfixed32 n)
  | .sfixed64, .i64 n => some (.sfixed64 n)
  | .float, .f32 bits => some (.float bits)
  | .double, .f64 bits => some (.double bits)
  | .string, .string s => some (.string s)
  | .bytes, .bytes b => some (.bytes b)
  | .entityId, .entityId id => some (.entityId id)
  | _, _ => none

/-- What the method that picks a value returns for it. -/
def Primitive.ofValue? : Value → Option Primitive
  | .bool b => some (.bool b)
  | .uint32 n | .fixed32 n => some (.u32 n)
  | .uint64 n | .fixed64 n => some (.u64 n)
  | .int32 n | .sint32 n | .sfixed32 n => some (.i32 n)
  | .int64 n | .sint64 n | .sfixed64 n => some (.i64 n)
  | .float bits => some (.f32 bits)
  | .double bits => some (.f64 bits)
  | .string s => some (.string s)
  | .bytes b => some (.bytes b)
  | .entityId id => some (.entityId id)
  | .object _ => none

/-- A value while generated code runs. -/
inductive Instance where
  /-- A built-in value. -/
  | scalar (p : Primitive)
  /-- A structure with named members. -/
  | record (members : List (String × Instance))
  /-- The option without a content. -/
  | absent
  /-- The option with a content. -/
  | present (content : Instance)
  /-- A list. -/
  | list (items : List Instance)
  /-- A map, with its entries in the order in which they are visited. -/
  | map (entries : List (Primitive × Instance))
  /-- A tracked value. -/
  | cell (content : Instance) (isDirty : Bool)
  /-- A flag. -/
  | flag (isUp : Bool)
  /-- A queue of events. -/
  | queue (received staged : List Instance)
deriving Inhabited

namespace Instance

/-- The member with a name. -/
def member? : Instance → String → Option Instance
  | .record members, name => members.lookup name
  | _, _ => none

/-- Puts a value under a key of a map, in place of the one that was there. -/
def insertEntry (key : Primitive) (v : Instance) (entries : List (Primitive × Instance)) :
    List (Primitive × Instance) :=
  if key ∈ entries.map Prod.fst then entries.map fun e => if e.1 = key then (e.1, v) else e
  else entries ++ [(key, v)]

end Instance

/-- What the names in a statement stand for. -/
structure Frame where
  /-- The structure at hand. -/
  self : Instance
  /-- The variables, innermost first. -/
  bindings : List (String × Instance) := []

/-- The frame with one more variable. -/
def Frame.bind (frame : Frame) (name : String) (v : Instance) : Frame :=
  { frame with bindings := (name, v) :: frame.bindings }

/-- The value of an operand. -/
def Operand.eval (frame : Frame) : Operand → Option Instance
  | .variable name => frame.bindings.lookup name
  | .member name => frame.self.member? name
  | .held name =>
    match frame.self.member? name with
    | some (.cell content _) => some content
    | _ => none
  | .staged name =>
    match frame.self.member? name with
    | some (.queue _ events) => some (.list events)
    | _ => none

/-- Runs a statement on the object that can be used, given what it is called and how user types are
stored. -/
def Statement.run (call : String → Instance → Object → Option Object) :
    Statement → Frame → Holder → Object → Option Object
  | .add holder field s value, frame, current, o =>
    match value.eval frame with
    | some (.scalar p) =>
      if holder = current then (p.toValue? s.kind).map (o.push field) else none
    | _ => none
  | .addRecord holder field type value, frame, current, o => do
    let v ← value.eval frame
    let child ← call type v .empty
    if holder = current then some (o.push field (.object child)) else none
  | .whenSome bound value body, frame, current, o =>
    match value.eval frame with
    | some .absent => some o
    | some (.present content) => body.run call (frame.bind bound content) current o
    | _ => none
  | .forEach bound value body, frame, current, o =>
    match value.eval frame with
    | some (.list items) =>
      items.foldlM (fun o v => body.run call (frame.bind bound v) current o) o
    | _ => none
  | .forEntry key item value entry holder field writeKey writeItem, frame, current, o =>
    match value.eval frame with
    | some (.map entries) =>
      entries.foldlM (fun o e => do
        let frame := (frame.bind key (.scalar e.1)).bind item e.2
        let child ← writeKey.run call frame [entry] .empty
        let child ← writeItem.run call frame [entry] child
        if holder = current then some (o.push field (.object child)) else none) o
    | _ => none
  | .scope bound value body, frame, current, o => do
    let v ← value.eval frame
    body.run call (frame.bind bound v) current o

/-- What the names in an expression stand for. -/
structure Scope where
  /-- The objects, innermost first. -/
  objects : List (Holder × Object)
  /-- The counters of loops, innermost first. -/
  counters : List (String × Nat) := []

/-- The position that is written: the first one, or that of a counter. -/
def Scope.position? (scope : Scope) (position : String) : Option Nat :=
  if position = "0" then some 0 else scope.counters.lookup position

/-- The scope with one more counter. -/
def Scope.count (scope : Scope) (counter : String) (i : Nat) : Scope :=
  { scope with counters := (counter, i) :: scope.counters }

/-- The scope with one more object. -/
def Scope.bind (scope : Scope) (name : String) (o : Object) : Scope :=
  { scope with objects := ([name], o) :: scope.objects }

/-- Evaluates an expression, given how user types are loaded. -/
def Expression.eval (call : String → Object → Option Instance) :
    Expression → Scope → Option Instance
  | .index holder field s position, scope => do
    let o ← scope.objects.lookup holder
    let i ← scope.position? position
    let p ← Primitive.ofValue? (o.index s.kind field i)
    some (.scalar p)
  | .indexRecord holder field type position, scope => do
    let o ← scope.objects.lookup holder
    let i ← scope.position? position
    call type (o.child field i)
  | .whenStored holder field kind value, scope => do
    let o ← scope.objects.lookup holder
    if 0 < o.count kind field then (value.eval call scope).map .present else some .absent
  | .collect holder field kind counter item, scope => do
    let o ← scope.objects.lookup holder
    let items ← (List.range (o.count kind field).toNat).mapM fun i =>
      item.eval call (scope.count counter i)
    some (.list items)
  | .collectEntries holder field counter entry key item, scope => do
    let o ← scope.objects.lookup holder
    let entries ← (List.range (o.count .object field).toNat).foldlM (fun entries i =>
      let scope := (scope.count counter i).bind entry (o.child field i)
      match key.eval call scope, item.eval call scope with
      | some (.scalar p), some v => some (Instance.insertEntry p v entries)
      | _, _ => none) []
    some (.map entries)
  | .clean value, scope => (value.eval call scope).map fun v => .cell v false
  | .lowered, _ => some (.flag false)
  | .emptyQueue, _ => some (.queue [] [])

end EntitySchema.Code

namespace EntitySchema.Schema.Linked

open Code (Instance)
open Wire (Object)

/-- Runs the function that stores a structure in an object. -/
def serialize (s : Linked) : Nat → String → Instance → Object → Option Object
  | 0, _, _, _ => none
  | depth + 1, type, v, o => do
    let t ← s.type? type
    t.storings.foldlM (fun o statement => statement.run (s.serialize depth) ⟨v, []⟩ ["object"] o) o

/-- Runs the function that loads a structure from an object. -/
def deserialize (s : Linked) : Nat → String → Object → Option Instance
  | 0, _, _ => none
  | depth + 1, type, o => do
    let t ← s.type? type
    let members ← t.loadings.mapM fun l =>
      (l.value.eval (s.deserialize depth) ⟨[(["object"], o)], []⟩).map fun v => (l.name, v)
    some (.record members)

end EntitySchema.Schema.Linked
