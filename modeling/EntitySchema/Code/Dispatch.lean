import EntitySchema.Code.Replication
import EntitySchema.Schema.Entry

/-!
# Code of the root module

The root module finds components by their numbers: it numbers them in the order they were met, has a
sum of their data and a sum of their updates, and dispatches commands. All of it is printed from one
table of entries, one for each component.
-/

namespace EntitySchema.Schema

open Code (Token Declaration Fragment)
open Wire (ComponentId CommandIndex)

namespace Entry

/-- The variant of a component number in the sums. -/
def variantOf (id : ComponentId) : String := s!"Component{id.toNat}"

/-- The variant of the component in the sums. -/
def variant (e : Entry) : String := variantOf e.component.id

/-- The path of the data type. -/
def dataPath (e : Entry) : Token := Code.itemOf e.data.qualifiedName

/-- The expression for the number of the component. -/
def number (e : Entry) : Code := Code.traitFunction e.component.path componentTrait "ID"

end Entry

/-- A command as the root module dispatches it. -/
structure Route where
  /-- The component number. -/
  componentId : ComponentId
  /-- The command number. -/
  commandIndex : CommandIndex
  /-- The path of the marker. -/
  marker : Token
deriving DecidableEq, Repr, Inhabited

/-- The route of a command. -/
def Component.route (c : Component) (m : Command) : Route := ⟨c.id, m.index, c.markerPath m⟩

/-- An arm of a match. -/
def arm (pattern result : Code) : Code := pattern ++ "=>" ++ result ++ ","

/-- The match arm that decodes the payload of a command. -/
def Route.arm (r : Route) (decode payload : String) : Code :=
  Schema.arm (Code.parens (Code.number r.componentId ++ "," ++ Code.number r.commandIndex))
    (Code.okOf
      (Code.call ":: std :: boxed :: Box :: new"
          [Code.call (Code.traitFunction r.marker commandTrait decode) [payload] ++ "?"] ++
        "as :: std :: boxed :: Box < dyn :: std :: any :: Any >"))

/-- The match arm that decodes a request. -/
def Route.requestArm (r : Route) : Code := r.arm "deserialize_request" "request"

/-- The match arm that decodes a response. -/
def Route.responseArm (r : Route) : Code := r.arm "deserialize_response" "response"

/-- The table that the root module is printed from. -/
structure Dispatch where
  /-- The components in the order they were met. -/
  entries : List Entry
deriving DecidableEq, Repr, Inhabited

namespace Dispatch

/-- The component numbers with their positions. -/
def positions (d : Dispatch) : List (ComponentId × Nat) :=
  d.entries.zipIdx.map fun (e, i) => (e.component.id, i)

/-- The commands of all components. -/
def routes (d : Dispatch) : List Route :=
  d.entries.flatMap fun e => e.component.commands.map e.component.route

/-- The name of the number of components. -/
def countName : String := "GENERATED_NUMBER_OF_COMPONENTS"

/-- The name of the function that gives positions. -/
def positionName : String := "component_unique_index"

/-- The name of the marker of the whole schema. -/
def schemaName : String := "Schema"

/-- The number of components. -/
def count (d : Dispatch) : Declaration :=
  .other (Code.fixedDoc "Number of generated components." ++ "pub const") countName
    (": usize =" ++ Code.sizeNumber d.entries.length ++ ";")

/-- The function from component numbers to positions. -/
def position (d : Dispatch) : Declaration :=
  .other
    (Code.fixedDoc "Dense 0-based index of a component id, in schema encounter order." ++
      "# [ must_use ] pub const fn") positionName
    (Code.parens ("component_id :" ++ Token.runtime "ComponentId") ++ "->" ++
      Code.optionType "usize" ++
      Code.braces ("match component_id" ++
        Code.braces
          (d.positions.flatMap (fun (id, i) =>
            arm (Code.number id) (Code.someOf (Code.sizeNumber i))) ++
          arm "_" Code.noneOf)))

end Dispatch

/-- A sum over all components. -/
structure Sum where
  /-- The name, which is also the name of the trait that its contents have. -/
  name : String
  /-- The documentation. -/
  summary : String
  /-- The variable for a content or for its payload. -/
  bound : String
  /-- The path of the content. -/
  content : Entry → Token

/-- The sum of the data of all components. -/
def Sum.data : Sum := ⟨"ComponentData", "Data of any generated component.", "data", Entry.dataPath⟩

/-- The sum of the updates of all components. -/
def Sum.updates : Sum :=
  ⟨"ComponentUpdate", "Update of any generated component.", "update", fun e =>
    e.component.updatePath⟩

namespace Sum

/-- The variants. -/
def variants (sum : Sum) (d : Dispatch) : List (String × Token) :=
  d.entries.map fun e => (e.variant, sum.content e)

/-- The component numbers with the variants they are decoded to. -/
def decoded (sum : Sum) (d : Dispatch) : List (ComponentId × String × Token) :=
  d.entries.map fun e => (e.component.id, e.variant, sum.content e)

/-- The sum itself. -/
def declaration (sum : Sum) (d : Dispatch) : Declaration :=
  .variants (Code.fixedDoc sum.summary) sum.name
    ((sum.variants d).map fun (variant, content) => (variant, [content]))

/-- A variant with something in it. -/
def variant (sum variant : String) (content : Code) : Code :=
  sum ++ "::" ++ variant ++ Code.parens content

/-- The payload of a content. -/
def payload (sum : Sum) : Token := .runtime ("Schema" ++ sum.name)

/-- A function of the trait of the contents. -/
def contentFunction (sum : Sum) (content : Token) (function : String) : Code :=
  Code.traitFunction content (Token.runtime sum.name) function

/-- The function that gives the component number. -/
def numbering (d : Dispatch) : Code :=
  Code.function ("component_id ( & self ) ->" ++ Token.runtime "ComponentId")
    ("match * self" ++
      Code.braces (d.entries.flatMap fun e => arm (variant "Self" e.variant "_") e.number))

/-- The function that decodes a payload by its component number. -/
def decoding (sum : Sum) (d : Dispatch) : Code :=
  Code.function
    ("deserialize" ++ Code.parens (sum.bound ++ ": &" ++ sum.payload) ++ "->" ++
      Token.runtime "Result" ++ Code.angles "Self")
    ("match" ++ sum.bound ++ ". component_id" ++
      Code.braces
        ((sum.decoded d).flatMap (fun (id, name, content) =>
          arm (Code.number id)
            (Code.okOf
              (variant "Self" name
                (Code.call (sum.contentFunction content ("deserialize_" ++ sum.bound))
                  [sum.bound] ++ "?")))) ++
        arm "id"
          (Code.errOf (Token.runtime "Error" ++ ":: UnknownComponent" ++ Code.braces "id"))))

/-- The function that encodes a content. -/
def encoding (sum : Sum) (d : Dispatch) : Code :=
  Code.function ("serialize ( & self ) ->" ++ sum.payload)
    ("match * self" ++
      Code.braces
        ((sum.variants d).flatMap fun (name, content) =>
          arm (variant "Self" name ("ref" ++ sum.bound))
            (Code.call (sum.contentFunction content ("serialize_" ++ sum.bound)) [sum.bound])))

/-- The match arm that applies an update to data of its component. -/
def applyArm (e : Entry) : Code :=
  Code.parens
      (variant "Self" e.variant "data" ++ "," ++ variant updates.name e.variant "update") ++
    "=>" ++
    Code.braces
      (Code.call (data.contentFunction e.dataPath "apply_update") ["data", "update"] ++ ";")

/-- The function that applies an update to data of the same component. -/
def applying (d : Dispatch) : Code :=
  "# [ allow ( unreachable_patterns ) ]" ++
    Code.function ("apply_update" ++ Code.parens ("& mut self , update : &" ++ updates.name))
      ("match ( self , update )" ++
        Code.braces (d.entries.flatMap applyArm ++ "_ =>" ++ Code.braces []))

/-- The functions of a sum. -/
def functions (sum : Sum) (body : Code) : Declaration :=
  .functions (Token.runtime ("Any" ++ sum.name) ++ "for" ++ sum.name) body

end Sum

namespace Dispatch

/-- The function that dispatches the payload of a command. -/
def dispatching (function payload type : String) (arms : Code) : Code :=
  Code.function
    (function ++ Code.parens (payload ++ ": &" ++ Token.runtime type ++ ",") ++ "->" ++
      Token.runtime "Result" ++
      "< :: std :: boxed :: Box < dyn :: std :: any :: Any >>")
    ("match" ++ Code.parens (payload ++ ". component_id ," ++ payload ++ ". command_index") ++
      Code.braces
        (arms ++
          arm "( component_id , command_index )"
            (Code.errOf
              (Token.runtime "Error" ++ ":: UnknownCommand" ++
                Code.braces "component_id , command_index" ++ ","))))

/-- The functions of the whole schema. -/
def schemaFunctions (d : Dispatch) : Code :=
  "const NUMBER_OF_COMPONENTS : usize =" ++ countName ++ "; type ComponentData =" ++
    Sum.data.name ++ "; type ComponentUpdate =" ++ Sum.updates.name ++ ";" ++
    Code.function
      ("unique_index" ++ Code.parens ("component_id :" ++ Token.runtime "ComponentId") ++ "->" ++
        Code.optionType "usize")
      (Code.call positionName ["component_id"]) ++
    dispatching "deserialize_command_request" "request" "SchemaCommandRequest"
      (d.routes.flatMap Route.requestArm) ++
    dispatching "deserialize_command_response" "response" "SchemaCommandResponse"
      (d.routes.flatMap Route.responseArm) ++
    Code.function
      ("register_components < R :" ++ Token.runtime "ComponentRegistrar" ++
        "> ( registrar : & mut R )")
      (d.entries.flatMap fun e =>
        Code.words "registrar . register_component :: <" ++ e.component.path ++ "> ( ) ;")

/-- The declarations of the root module. -/
def fragment (d : Dispatch) : Fragment :=
  [d.count, d.position,
    Sum.data.declaration d,
    Sum.data.functions
      ("type Update =" ++ Sum.updates.name ++ ";" ++ Sum.numbering d ++ Sum.data.decoding d ++
        Sum.data.encoding d ++ Sum.applying d),
    Sum.updates.declaration d,
    Sum.updates.functions
      (Sum.numbering d ++ Sum.updates.decoding d ++ Sum.updates.encoding d),
    .marker (Code.fixedDoc "Root of the generated schema.") schemaName,
    .functions (Token.runtime "GeneratedSchema" ++ "for" ++ schemaName) d.schemaFunctions]

end Dispatch

end EntitySchema.Schema
