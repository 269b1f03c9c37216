import EntitySchema.Json.Cursor
import EntitySchema.Text.Quoted

/-!
# Faults of a JSON document

A fault says what is wrong, at which position of the text, and on which path of the document. The
path is a list of steps from the outside in; a reader reports the steps below itself and its caller
puts its own step in front.
-/

namespace EntitySchema.Json

/-- One step into a document. -/
inductive Step where
  /-- Into a member of an object. -/
  | key (name : String)
  /-- Into an item of a list. -/
  | index (i : Nat)
  /-- Towards a member whose key is not known yet. -/
  | unknown
deriving DecidableEq, Repr, Inhabited

namespace Step

/-- Renders steps after a first one. -/
def renderRest : List Step → String
  | [] => ""
  | .key name :: rest => "." ++ name ++ renderRest rest
  | .index i :: rest => "[" ++ toString i ++ "]" ++ renderRest rest
  | .unknown :: rest => ".?" ++ renderRest rest

/-- Renders a path: keys are divided by points, indices stand in brackets, and the whole document is
a single point. -/
def render : List Step → String
  | [] => "."
  | .key name :: rest => name ++ renderRest rest
  | .index i :: rest => "[" ++ toString i ++ "]" ++ renderRest rest
  | .unknown :: rest => "?" ++ renderRest rest

end Step

/-- What stands in the text where something else is wanted. -/
inductive Found where
  | null
  | boolean (b : Bool)
  | integer (n : Int)
  /-- A number that is no integer, by its text. -/
  | decimal (text : String)
  | string (s : String)
  | sequence
  | map
deriving DecidableEq, Repr, Inhabited

/-- The description of what stands in the text. -/
def Found.describe : Found → String
  | .null => "null"
  | .boolean b => "boolean `" ++ (if b then "true" else "false") ++ "`"
  | .integer n => "integer `" ++ toString n ++ "`"
  | .decimal text => "floating point `" ++ text ++ "`"
  | .string s => "string " ++ Text.quote s
  | .sequence => "sequence"
  | .map => "map"

/-- What is wrong. -/
inductive Reason where
  | endOfValue
  | endOfObject
  | endOfList
  | endOfString
  | expectedValue
  | expectedIdent
  | expectedColon
  | expectedObjectEnd
  | expectedListEnd
  | keyNotString
  | trailingComma
  | trailingCharacters
  | invalidNumber
  | numberOutOfRange
  | invalidEscape
  | controlCharacter
  | loneSurrogate
  | endOfHexEscape
  /-- Something of another type than the wanted one. -/
  | invalidType (found : Found) (wanted : String)
  /-- Something of the wanted type outside its range. -/
  | invalidValue (found : Found) (wanted : String)
  /-- A required member is absent. -/
  | missingField (key : String)
  /-- A member comes twice. -/
  | duplicateField (key : String)
  /-- A record written as a list ends before its required items. -/
  | invalidLength (length : Nat) (record : String) (members : Nat)
deriving DecidableEq, Repr, Inhabited

/-- The wording of what is wrong. -/
def Reason.message : Reason → String
  | .endOfValue => "EOF while parsing a value"
  | .endOfObject => "EOF while parsing an object"
  | .endOfList => "EOF while parsing a list"
  | .endOfString => "EOF while parsing a string"
  | .expectedValue => "expected value"
  | .expectedIdent => "expected ident"
  | .expectedColon => "expected `:`"
  | .expectedObjectEnd => "expected `,` or `\x7d`"
  | .expectedListEnd => "expected `,` or `]`"
  | .keyNotString => "key must be a string"
  | .trailingComma => "trailing comma"
  | .trailingCharacters => "trailing characters"
  | .invalidNumber => "invalid number"
  | .numberOutOfRange => "number out of range"
  | .invalidEscape => "invalid escape"
  | .controlCharacter => "control character (\\u0000-\\u001F) found while parsing a string"
  | .loneSurrogate => "lone leading surrogate in hex escape"
  | .endOfHexEscape => "unexpected end of hex escape"
  | .invalidType found wanted => "invalid type: " ++ found.describe ++ ", expected " ++ wanted
  | .invalidValue found wanted => "invalid value: " ++ found.describe ++ ", expected " ++ wanted
  | .missingField key => "missing field `" ++ key ++ "`"
  | .duplicateField key => "duplicate field `" ++ key ++ "`"
  | .invalidLength length record members =>
    "invalid length " ++ toString length ++ ", expected struct " ++ record ++ " with " ++
      toString members ++ (if members == 1 then " element" else " elements")

/-- A defect of a text. -/
structure Fault where
  /-- What is wrong. -/
  reason : Reason
  /-- Where reading stood. -/
  position : Position
  /-- On which path of the document. -/
  path : List Step := []
deriving Repr, Inhabited

namespace Fault

/-- The wording of a fault without its path. -/
def message (f : Fault) : String :=
  f.reason.message ++ " at line " ++ toString f.position.line ++ " column " ++
    toString f.position.column

/-- Puts a step in front of the path of a failure. -/
def under {α : Type} (s : Step) (r : Except Fault α) : Except Fault α :=
  r.mapError fun f => { f with path := s :: f.path }

end Fault

/-- Reads a value from the front of a text. -/
abbrev Reader (α : Type) := Cursor → Except Fault (α × Cursor)

/-- A failure where reading stands. -/
def Cursor.fail {α : Type} (c : Cursor) (reason : Reason) : Except Fault α :=
  .error { reason, position := c.position }

/-- A failure that points at the byte that is refused. -/
def Cursor.refuse {α : Type} (c : Cursor) (reason : Reason) : Except Fault α :=
  .error { reason, position := c.peekPosition }

end EntitySchema.Json
