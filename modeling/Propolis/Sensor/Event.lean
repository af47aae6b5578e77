import Propolis.Scoring.Domain

/-!
# The events of a sensor

`SensorEvent` and `SampleRef` (`sensor-wire/lib.rs`), the listener an event arrived on
(`sensor-framework/arrival.rs`), and the object updates of `serde_json` that the sensor
makes on the metadata of an event.
-/

namespace Propolis

namespace Json

/-- `Map::insert`: the fields of an object stay in key order. -/
def insertField (key : String) (value : Json) : List (String × Json) → List (String × Json)
  | [] => [(key, value)]
  | field :: rest =>
      if key = field.1 then (key, value) :: rest
      else if key < field.1 then (key, value) :: field :: rest
      else field :: insertField key value rest

/-- An insert through `as_object_mut`: only an object is changed. -/
def insert (key : String) (value : Json) : Json → Json
  | .object fields => .object (insertField key value fields)
  | other => other

/-- `entry(key).or_insert(value)`: a field that is there is kept. -/
def insertIfAbsent (key : String) (value : Json) (json : Json) : Json :=
  if (json.get key).isSome then json else json.insert key value

end Json

namespace Sensor

/-- A `uuid::Uuid`. -/
abbrev Uuid := BitVec 128

structure SampleRef where
  sha256 : String
  size : ℕ
  origName : String
  captureId : Option Uuid
  deriving DecidableEq

/-- The answer of a fake shell to a command. -/
structure ReplyRef where
  sha256 : String
  len : ℕ
  truncated : Bool
  text : String
  deriving DecidableEq

structure SensorEvent where
  v : ℕ
  sourceIp : IpAddr
  wanIp : Option IpAddr
  sensor : String
  signalType : String
  protocol : String
  authenticated : Bool
  observedAt : ℤ
  metadata : Json
  sample : Option SampleRef
  sessionId : Option Uuid
  occurrenceId : Option Uuid
  reply : Option ReplyRef

/-- The listener a connection arrived on. -/
structure Arrival where
  localPort : UInt16
  deriving DecidableEq

def localPortKey : String := "local_port"

/-- `arrival::stamp`. -/
def Arrival.stamp (arrival : Arrival) (event : SensorEvent) : SensorEvent :=
  let port := .number (.posInt arrival.localPort.toUInt64)
  { event with metadata := event.metadata.insert localPortKey port }

end Sensor

end Propolis
