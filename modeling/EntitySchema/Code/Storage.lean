import EntitySchema.Code.Token
import EntitySchema.Schema.Shape

/-!
# Code that stores and loads values

A value of a shape is stored under one field number of an object: a scalar as one value of its kind,
a user type as a child object, an option as at most one value, a list as one value for each item,
and a map as one child object for each entry. `Shape.writing` is the statement that stores a value so
and `Shape.reading` the expression that loads it again; both are syntax first and tokens second.
Statements and expressions also cover what a structure needs around its values: naming the member
that is stored, and the tracked cells, flags and queues of the data of a component.
-/

namespace EntitySchema.Code

open Schema (Scalar Shape entryKey entryValue)
open Wire (FieldId Kind)

/-- An expression for an object: names joined by points. -/
abbrev Holder := List String

/-- The tokens of a holder. -/
def Holder.code : Holder → Code
  | [] => []
  | [name] => name
  | name :: rest => name ++ "." ++ Holder.code rest

/-- An expression for a value that is stored. -/
inductive Operand where
  /-- A variable that refers to the value. -/
  | variable (name : String)
  /-- A plain member of the structure at hand. -/
  | member (name : String)
  /-- The value of a tracked member of the structure at hand. -/
  | held (name : String)
  /-- The staged events of a queue of the structure at hand. -/
  | staged (name : String)
deriving DecidableEq, Repr, Inhabited

/-- A member of the structure at hand. -/
def self (name : String) : Code := "self ." ++ Token.name name

/-- The tokens of an operand. -/
def Operand.code : Operand → Code
  | .variable name => name
  | .member name => "&" ++ self name
  | .held name => method (self name) "get" []
  | .staged name => method (self name) "staged" []

/-- A statement that stores a value. -/
inductive Statement where
  /-- Adds a scalar to an object. -/
  | add (holder : Holder) (field : FieldId) (s : Scalar) (value : Operand)
  /-- Adds a child object and stores a user type in it. -/
  | addRecord (holder : Holder) (field : FieldId) (type : String) (value : Operand)
  /-- Stores the content of an option, if it has one. -/
  | whenSome (bound : String) (value : Operand) (body : Statement)
  /-- Stores every item of a list. -/
  | forEach (bound : String) (value : Operand) (body : Statement)
  /-- Adds a child object for every entry of a map and stores the key and the value in it. -/
  | forEntry (key item : String) (value : Operand) (entry : String) (holder : Holder)
      (field : FieldId) (writeKey writeItem : Statement)
  /-- Names a value for one statement. -/
  | scope (bound : String) (value : Operand) (body : Statement)
deriving DecidableEq, Repr, Inhabited

/-- An expression that loads a value. -/
inductive Expression where
  /-- The scalar at a position. -/
  | index (holder : Holder) (field : FieldId) (s : Scalar) (position : String)
  /-- The user type in the child object at a position. -/
  | indexRecord (holder : Holder) (field : FieldId) (type : String) (position : String)
  /-- The present option if anything is stored, the absent one otherwise. -/
  | whenStored (holder : Holder) (field : FieldId) (kind : Kind) (value : Expression)
  /-- A list with an item for every stored value. -/
  | collect (holder : Holder) (field : FieldId) (kind : Kind) (counter : String)
      (item : Expression)
  /-- A map with an entry for every child object. -/
  | collectEntries (holder : Holder) (field : FieldId) (counter entry : String)
      (key item : Expression)
  /-- A tracked value that is clean. -/
  | clean (value : Expression)
  /-- A flag that is down. -/
  | lowered
  /-- A queue without events. -/
  | emptyQueue
deriving DecidableEq, Repr, Inhabited

/-- The trait of values that are stored as objects. -/
def storedTrait : Token := .runtime "SchemaData"

/-- The type of tracked values. -/
def trackedCell : Token := .runtime "Property"

/-- The type of event queues. -/
def queue : Token := .runtime "EventQueue"

/-- A tracked value that is clean. -/
def cleanCell (value : Code) : Code := call (trackedCell ++ "::" ++ "new") [value]

/-- The tokens of a statement. -/
def Statement.code : Statement → Code
  | .add holder field s value =>
    method holder.code ("add_" ++ s.kind.group)
      [number field, if s.isCopy then "*" ++ value.code else value.code] ++ ";"
  | .addRecord holder field type value =>
    call (traitFunction (itemOf type) storedTrait "serialize")
      [value.code, method holder.code "add_object" [number field]] ++ ";"
  | .whenSome bound value body => ifSome bound value.code body.code
  | .forEach bound value body => "for" ++ bound ++ "in" ++ value.code ++ braces body.code
  | .forEntry key item value entry holder field writeKey writeItem =>
    "for" ++ parens (key ++ "," ++ item) ++ "in" ++ value.code ++
      braces ("let" ++ entry ++ "=" ++ method holder.code "add_object" [number field] ++ ";" ++
        writeKey.code ++ writeItem.code)
  | .scope bound value body =>
    braces ("let" ++ bound ++ "=" ++ value.code ++ ";" ++ body.code)

/-- The number of values of a kind under a field number. -/
def countOf (holder : Holder) (field : FieldId) (kind : Kind) : Code :=
  method holder.code (kind.group ++ "_count") [number field]

/-- A container that is filled in as many steps as are counted. -/
def filled (name type : String) (count : Code) (counter : String) (step : Code) : Code :=
  braces ("let count =" ++ count ++ "; let mut" ++ name ++ "=" ++
    call (type ++ "::" ++ "with_capacity") ["count as usize"] ++ "; for" ++ counter ++
    "in 0 .. count" ++ braces step ++ name)

/-- The tokens of an expression. -/
def Expression.code : Expression → Code
  | .index holder field s position =>
    method holder.code ("index_" ++ s.kind.group) [number field, position]
  | .indexRecord holder field type position =>
    call (traitFunction (itemOf type) storedTrait "deserialize")
      [method holder.code "index_object" [number field, position]]
  | .whenStored holder field kind value =>
    ifElse (countOf holder field kind ++ "> 0") (someOf value.code) noneOf
  | .collect holder field kind counter item =>
    filled "list" ":: std :: vec :: Vec" (countOf holder field kind) counter
      (method "list" "push" [item.code] ++ ";")
  | .collectEntries holder field counter entry key item =>
    filled "map" ":: std :: collections :: HashMap" (countOf holder field .object) counter
      ("let" ++ entry ++ "=" ++ method holder.code "index_object" [number field, counter] ++ ";" ++
        method "map" "insert" [key.code, item.code] ++ ";")
  | .clean value => cleanCell value.code
  | .lowered => "false"
  | .emptyQueue => call (queue ++ "::" ++ "new") []

/-- The name of a scalar type. -/
def scalarName : Scalar → String
  | .bool => "bool"
  | .uint32 | .fixed32 => "u32"
  | .uint64 | .fixed64 => "u64"
  | .int32 | .sint32 | .sfixed32 => "i32"
  | .int64 | .sint64 | .sfixed64 => "i64"
  | .float => "f32"
  | .double => "f64"
  | .string => "String"
  | .bytes => "Vec<u8>"
  | .entityId => "EntityId"

/-- The full path of a scalar type. -/
def scalarType : Scalar → Code
  | .string => ":: std :: string :: String"
  | .bytes => ":: std :: vec :: Vec < u8 >"
  | .entityId => Token.runtime "EntityId"
  | s => scalarName s

end EntitySchema.Code

namespace EntitySchema.Schema.Shape

open Code (Holder Operand Statement Expression)
open Wire (FieldId)

/-- The type of the values of a shape. -/
def typeCode : Shape → Code
  | .scalar s => Code.scalarType s
  | .reference name => Code.itemOf name
  | .option inner => Code.optionType inner.typeCode
  | .list inner => ":: std :: vec :: Vec" ++ Code.angles inner.typeCode
  | .map key value =>
    ":: std :: collections :: HashMap" ++ Code.angles (key.typeCode ++ "," ++ value.typeCode)

/-- The statement that stores a value under a field number. -/
def writing (holder : Holder) (field : FieldId) (value : Operand) : Shape → Statement
  | .scalar s => .add holder field s value
  | .reference name => .addRecord holder field name value
  | .option inner => .whenSome "item" value (inner.writing holder field (.variable "item"))
  | .list inner => .forEach "item" value (inner.writing holder field (.variable "item"))
  | .map key item =>
    .forEntry "key" "item" value "entry" holder field
      (key.writing ["entry"] entryKey (.variable "key"))
      (item.writing ["entry"] entryValue (.variable "item"))

/-- The expression that loads a value from a field number; the position matters to scalars and user
types only. -/
def reading (holder : Holder) (field : FieldId) (position : String) : Shape → Expression
  | .scalar s => .index holder field s position
  | .reference name => .indexRecord holder field name position
  | .option inner => .whenStored holder field inner.kind (inner.reading holder field "0")
  | .list inner => .collect holder field inner.kind "i" (inner.reading holder field "i")
  | .map key item =>
    .collectEntries holder field "i" "entry" (key.reading ["entry"] entryKey "0")
      (item.reading ["entry"] entryValue "0")

/-- The expression that counts what is stored for a shape. -/
def counting (holder : Holder) (field : FieldId) (shape : Shape) : Code :=
  Code.countOf holder field shape.kind

end EntitySchema.Schema.Shape
