import EntitySchema.Replica.Routing

/-!
# A sample schema

Ships that sail, are hit and fire, and the weather around them. The schema has every form of field, a
component with an event and a command, and one that refers to a type of another package.
-/

namespace EntitySchema.Sample

open Schema Replica

/-- A field of the declared form. -/
def field (name : String) (id : UInt32) (shape : Shape) : Field := { name, id, shape }

/-- A type of the package of ships. -/
def gameType (name : String) (fields : List Field) : UserType :=
  { package := "fixture.game", name, qualifiedName := "fixture.game." ++ name, fields }

/-- A point in space. -/
def vector : UserType :=
  gameType "Vector3"
    [field "x" 1 (.scalar .double), field "y" 2 (.scalar .double), field "z" 3 (.scalar .double)]

/-- A reference to a point in space. -/
def vectorShape : Shape := .reference "fixture.game.Vector3"

/-- A hit that a ship takes. -/
def hit : UserType :=
  gameType "Hit" [field "damage" 1 (.scalar .uint32), field "attacker" 2 (.scalar .entityId)]

/-- What a ship is asked to fire with. -/
def fireRequest : UserType := gameType "FireRequest" [field "power" 1 (.scalar .uint32)]

/-- What came of it. -/
def fireResponse : UserType := gameType "FireResponse" [field "hit" 1 (.scalar .bool)]

/-- The data of a ship. -/
def shipState : UserType :=
  gameType "ShipState"
    [field "name" 1 (.scalar .string), field "position" 2 vectorShape,
      field "target" 3 (.option (.scalar .entityId)), field "waypoints" 4 (.list vectorShape),
      field "cargo" 5 (.map (.scalar .string) (.scalar .uint32)),
      field "heading" 6 (.scalar .sint32), field "serial" 7 (.scalar .fixed64),
      field "escort" 8 (.option vectorShape), field "offsets" 9 (.list (.scalar .sfixed32))]

/-- A ship. -/
def ship : Component where
  package := "fixture.game"
  name := "Ship"
  qualifiedName := "fixture.game.Ship"
  id := 1001
  dataType := "fixture.game.ShipState"
  events := [⟨"hit", 1, .reference "fixture.game.Hit"⟩]
  commands :=
    [⟨"fire", 1, .reference "fixture.game.FireRequest", .reference "fixture.game.FireResponse"⟩]

/-- The data of the weather. -/
def weatherData : UserType where
  package := "fixture.world"
  name := "WeatherData"
  qualifiedName := "fixture.world.WeatherData"
  fields := [field "wind" 1 (.scalar .float), field "fronts" 2 (.list vectorShape)]

/-- The weather. -/
def weather : Component where
  package := "fixture.world"
  name := "Weather"
  qualifiedName := "fixture.world.Weather"
  id := 2002
  dataType := "fixture.world.WeatherData"

/-- What is registered before linking. -/
def registry : Registry where
  types := [vector, hit, fireRequest, fireResponse, shipState, weatherData]
  components := [ship, weather]

/-- The linked schema. -/
def schema : Linked where
  types :=
    [vector, hit, fireRequest, fireResponse, shipState.promote ship, weatherData.promote weather]
  components := [ship, weather]

/-- Ships with their data type. -/
def shipEntry : Entry := ⟨ship, shipState.promote ship⟩

/-- The weather with its data type. -/
def weatherEntry : Entry := ⟨weather, weatherData.promote weather⟩

/-- The command to fire. -/
def fire : Address :=
  ⟨ship,
    ⟨"fire", 1, .reference "fixture.game.FireRequest", .reference "fixture.game.FireResponse"⟩⟩

end EntitySchema.Sample
