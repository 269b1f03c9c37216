import EntitySchema.Code.Declaration

/-!
# Code of methods

The methods of the data of a component and of its updates go over the members one by one. `Step` is
what a method does about one member, `Test` what it asks about one, and `Making` how it makes one
for a new structure. As with statements and expressions, all of them are syntax first and tokens
second. Values pass between data, updates and payloads; a payload has an object of changed fields,
an object of events and the numbers of the fields that were cleared.
-/

namespace EntitySchema.Code

open Wire (FieldId Kind)

/-- The object of changed fields in a payload. -/
def changedFields : Holder := ["update", "fields"]

/-- The object of events in a payload. -/
def sentEvents : Holder := ["update", "events"]

/-- How a new value is stored in a payload. -/
structure Change where
  /-- The statement that stores it. -/
  write : Statement
  /-- The number that is noted as cleared if nothing is stored under it. -/
  cleared : Option FieldId
deriving DecidableEq, Repr, Inhabited

/-- The tokens of a change. -/
def Change.code (c : Change) : Code :=
  match c.cleared with
  | some field =>
    c.write.code ++ "if !" ++ method changedFields.code "has_field" [number field] ++
      braces (method "update" "add_cleared_field" [number field] ++ ";")
  | none => c.write.code

/-- What a method does about a member. A value that is at hand is called `value`. -/
inductive Step where
  /-- Stores a member of an update in a payload, if it is set. -/
  | storeSet (name : String) (change : Change)
  /-- Stores a tracked member in a payload if it is dirty, and makes it clean. -/
  | storeDirty (name : String) (change : Change)
  /-- Stores events in a payload. -/
  | storeEvents (write : Statement)
  /-- Takes a member of an update over, if it is set. -/
  | takeOver (name : String)
  /-- Receives every event of an update. -/
  | receiveEach (name : String)
  /-- Drops the staged events of a queue. -/
  | clearStaged (name : String)
  /-- Drops the received events of a queue. -/
  | clearReceived (name : String)
deriving DecidableEq, Repr, Inhabited

/-- The tokens of a step. -/
def Step.code : Step → Code
  | .storeSet name change => ifSome "value" ("&" ++ self name) change.code
  | .storeDirty name change =>
    "if" ++ method (self name) "take_dirty" [] ++
      braces ("let value =" ++ method (self name) "get" [] ++ ";" ++ change.code)
  | .storeEvents write => write.code
  | .takeOver name =>
    ifSome "value" ("& update ." ++ Token.name name)
      (self name ++ "=" ++ cleanCell (cloneOf "value") ++ ";")
  | .receiveEach name =>
    "for value in & update ." ++ Token.name name ++
      braces (method (self name) "add_event" [cloneOf "value"] ++ ";")
  | .clearStaged name => method (self name) "clear_staged" [] ++ ";"
  | .clearReceived name => method (self name) "clear" [] ++ ";"

/-- What a method asks about a member. -/
inductive Test where
  /-- Whether a tracked member is dirty. -/
  | isDirty (name : String)
  /-- Whether events of a queue are staged. -/
  | hasStaged (name : String)
  /-- Whether a list has items. -/
  | hasItems (name : String)
deriving DecidableEq, Repr, Inhabited

/-- The tokens of a test. -/
def Test.code : Test → Code
  | .isDirty name => method (self name) "is_dirty" []
  | .hasStaged name => method (self name) "has_staged" []
  | .hasItems name => "!" ++ method (self name) "is_empty" []

/-- Where the member of a new structure comes from. -/
inductive Source where
  /-- It is loaded. -/
  | loaded (value : Expression)
  /-- It is loaded where a payload sets a field, and absent otherwise. A field is set if something
  is stored for it or it was cleared. -/
  | loadedIfSet (field : FieldId) (kind : Kind) (value : Expression)
  /-- It is a member of the plain structure that is called `value`, tracked from now on. -/
  | converted (name : String)
deriving DecidableEq, Repr, Inhabited

/-- The tokens of a source. -/
def Source.code : Source → Code
  | .loaded value => value.code
  | .loadedIfSet field kind value =>
    ifElse
      (countOf changedFields field kind ++ "> 0 ||" ++
        method "update" "is_field_cleared" [number field])
      (someOf value.code) noneOf
  | .converted name => call ":: std :: convert :: Into :: into" ["value ." ++ Token.name name]

/-- How the member of a new structure is made. -/
structure Making where
  /-- The member. -/
  name : String
  /-- Where it comes from. -/
  source : Source
deriving DecidableEq, Repr, Inhabited

/-- The initial value of a member that is made. -/
def Making.initializer (m : Making) : Initializer := ⟨m.name, m.source.code⟩

/-- A member that is loaded is made. -/
def Loading.making (l : Loading) : Making := ⟨l.name, .loaded l.value⟩

end EntitySchema.Code
