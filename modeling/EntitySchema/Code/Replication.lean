import EntitySchema.Code.Data

/-!
# Code of components

A component becomes a structure of plain values, a structure of changes, the functions that apply
changes to the data and collect changes from it, and a marker for each of its commands.
-/

namespace EntitySchema.Schema

open Code (Declaration Fragment Loading Making Member Step Test Token)

/-- The trait of components. -/
def componentTrait : Token := .runtime "Component"

/-- The trait of commands. -/
def commandTrait : Token := .runtime "Command"

/-- The payload of an update. -/
def updatePayload : Token := .runtime "SchemaComponentUpdate"

/-- Any of several conditions. -/
def anyOf (conditions : List Code) : Code := "false" ++ conditions.flatMap fun c => Code.words "||" ++ c

namespace Component

/-- The path of the structure of plain values. -/
def path (c : Component) : Token := Code.itemIn c.package c.name

/-- The path of the structure of changes. -/
def updatePath (c : Component) : Token := Code.itemIn c.package c.updateName

/-- The path of the marker of a command. -/
def markerPath (c : Component) (m : Command) : Token := Code.itemIn c.package (c.markerName m)

/-- The marker of a command and what it stands for. -/
def marker (c : Component) (m : Command) : Fragment :=
  [.marker
      (Code.doc s!" Command `{m.name}` of `{c.qualifiedName}` (index {m.index.toNat}).")
      (c.markerName m),
    .functions (commandTrait ++ "for" ++ Token.name (c.markerName m))
      ("type Component =" ++ Token.name c.name ++ "; type Request =" ++ m.request.typeCode ++
        "; type Response =" ++ m.response.typeCode ++ "; const COMMAND_INDEX :" ++
        Token.runtime "CommandIndex" ++ "=" ++ Code.number m.index ++ ";")]

/-- The function that yields the marker of a command. -/
def getter (c : Component) (m : Command) : Code :=
  "# [ must_use ] pub" ++
    Code.function (Token.name m.name ++ "( ) ->" ++ Token.name (c.markerName m))
      (Token.name (c.markerName m))

/-- The structure of plain values. -/
def plain (c : Component) (data : UserType) : Fragment :=
  .record s!" Component `{c.qualifiedName}` (id {c.id.toNat})." c.name
      (data.fields.map Field.plainMember) ::
    if c.commands.isEmpty then []
    else [.functions (Token.name c.name) (c.commands.flatMap c.getter)]

/-- The members of the structure of changes. -/
def updateMembers (c : Component) (data : UserType) : List Member :=
  data.fields.map Field.updateMember ++ c.events.map Event.updateMember

/-- The structure of changes. -/
def update (c : Component) (data : UserType) : Declaration :=
  .record s!" Changes to component `{c.qualifiedName}`; the default value changes nothing."
    c.updateName (c.updateMembers data)

/-- What belongs to the component. -/
def association (c : Component) (data : UserType) : Declaration :=
  let type := Code.itemOf data.qualifiedName
  .functions (componentTrait ++ "for" ++ Token.name c.name)
    ("const ID :" ++ Token.runtime "ComponentId" ++ "=" ++ Code.number c.id ++ "; type Data =" ++
      type ++ "; type Update =" ++ Token.name c.updateName ++ ";" ++
      Code.function ("into_data ( self ) ->" ++ type) ":: std :: convert :: From :: from ( self )")

/-- How the data is made from plain values. -/
def converting (c : Component) (data : UserType) : List Making :=
  data.fields.map Field.converting ++ (idleLoadings c.events).map Loading.making

/-- The data of plain values. -/
def conversion (c : Component) (data : UserType) : Declaration :=
  .functions (":: std :: convert :: From <" ++ Token.name c.name ++ "> for" ++
      Code.itemOf data.qualifiedName)
    (Code.function ("from" ++ Code.parens ("value :" ++ Token.name c.name) ++ "-> Self")
      (Code.selfValue ((c.converting data).map Making.initializer)))

/-- How an update is applied to the data. -/
def applying (c : Component) (data : UserType) : List Step :=
  data.fields.map Field.applying ++ c.events.map Event.applying

/-- The questions of whether anything waits to be sent. -/
def pendency (c : Component) (data : UserType) : List Test :=
  data.fields.map Field.dirtiness ++ c.events.map Event.pendency

/-- How what waits to be sent is stored in a payload. -/
def flushing (c : Component) (data : UserType) : List Step :=
  data.fields.map Field.flushing ++ c.events.flatMap Event.flushing

/-- The functions of the data: applying an update, collecting one, and the frame bookkeeping. -/
def dataFunctions (c : Component) (data : UserType) : Declaration :=
  let name : Token := .name c.name
  .functions (Token.runtime "ComponentData" ++ "for" ++ Code.itemOf data.qualifiedName)
    ("type Component =" ++ name ++ ";" ++
      Code.function
        ("apply_update" ++ Code.parens ("& mut self , update : &" ++ Token.name c.updateName))
        ((c.applying data).flatMap Step.code) ++
      Code.function "has_pending_changes ( & self ) -> bool"
        (anyOf ((c.pendency data).map Test.code)) ++
      Code.function ("flush_update ( & mut self ) ->" ++ updatePayload)
        ("let mut update =" ++
          Code.call (updatePayload ++ ":: new") [Code.traitFunction name componentTrait "ID"] ++
          ";" ++ (c.flushing data).flatMap Step.code ++ "update") ++
      Code.function "make_dirty ( & mut self )" "self . is_dirty = true ;" ++
      Code.function "take_dirty ( & mut self ) -> bool"
        ":: std :: mem :: take ( & mut self . is_dirty )" ++
      Code.function "cleanup_after_frame ( & mut self )"
        ((c.events.map Event.cleaning).flatMap Step.code))

/-- How an update is read from a payload. -/
def receiving (c : Component) (data : UserType) : List Making :=
  data.fields.map Field.receiving ++ c.events.map Event.receiving

/-- How an update is stored in a payload. -/
def sending (c : Component) (data : UserType) : List Step :=
  data.fields.map Field.sending ++ c.events.map Event.sending

/-- The functions of an update: reading and writing its payload. -/
def updateFunctions (c : Component) (data : UserType) : Declaration :=
  .functions (Token.runtime "ComponentUpdate" ++ "for" ++ Token.name c.updateName)
    ("type Component =" ++ Token.name c.name ++ ";" ++
      Code.function ("read_update" ++ Code.parens ("update : &" ++ updatePayload) ++ "-> Self")
        (Code.selfValue ((c.receiving data).map Making.initializer)) ++
      Code.function
        ("write_update" ++ Code.parens ("& self , update : & mut" ++ updatePayload))
        ((c.sending data).flatMap Step.code) ++
      Code.function "contains_events ( & self ) -> bool"
        (anyOf ((c.events.map Event.occurrence).map Test.code)))

/-- The declarations of a component with its data type. -/
def fragment (c : Component) (data : UserType) : Fragment :=
  c.plain data ++
    [c.update data, c.association data, c.conversion data, c.dataFunctions data,
      c.updateFunctions data] ++
    c.commands.flatMap c.marker

end Component

end EntitySchema.Schema
