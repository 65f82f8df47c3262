import MinorityViewport.Data.Heap
import MinorityViewport.Json.Machine
import Mathlib.Data.List.Lex
import Mathlib.Data.Char

/-!
# Sensors and clients

`Data/Sensor.cpp` and `Data/Client.cpp`.  A sensor owns one scene on the
heap, and a client keeps its sensors in a `map` by their ids.
-/

namespace MinorityViewport

open Exec Json

variable {K : Type}

structure Sensor where
  id : Str
  scene : Addr
  deriving DecidableEq

structure Client where
  id : Nat
  location : Str
  ipAddr : Str
  sensors : OrdMap Str Sensor

namespace Client

/-- `Client::Client`. -/
def new (id : Nat) (location ipAddr : Str) : Client := ⟨id, location, ipAddr, .empty⟩

/-- The addresses of the scenes of a client. -/
def scenes (client : Client) : List Addr := client.sensors.values.map Sensor.scene

/-- `new Sensor` and the `insert` after it.  A sensor whose id is present
stays, and the scene of the new one is never reached again. -/
def addSensor (alloc : Allocator) (id : Str) (s : Heap K × Client) : Heap K × Client :=
  let addr := alloc.pick s.1.keys
  (s.1.assign addr (Scene.ofSensor id),
    { s.2 with sensors := s.2.sensors.insert id ⟨id, addr⟩ })

/-- `Client::InitialSensorsList`. -/
def initialSensorsList [Machine] (alloc : Allocator) (rawSensorsJson : Str) :
    EStateM Fault (Heap K × Client) PUnit := do
  let root ← ofExcept (Reader.read rawSensorsJson)
  match root with
  | none => pure ⟨⟩
  | some root => do
    let sensorsJson ← ofExcept (root.get "Sensors" .zero)
    forElements sensorsJson (fun _ sensorJson _ => do
      let id ← ofExcept (sensorJson.get "id" .zero)
      let id ← ofExcept id.asString
      modify (addSensor alloc id)) ⟨⟩

/-- A sensor that is added has a scene of its own, or is not kept. -/
theorem scenes_addSensor (alloc : Allocator) (id : Str) (s : Heap K × Client) :
    (addSensor alloc id s).2.scenes.Perm (alloc.pick s.1.keys :: s.2.scenes) ∨
      (addSensor alloc id s).2.scenes = s.2.scenes := by
  cases h : s.2.sensors.find? id with
  | none => exact Or.inl ((OrdMap.perm_values_insert h _).map Sensor.scene)
  | some sensor =>
    refine Or.inr ?_
    rw [scenes, addSensor, OrdMap.insert_of_some h]
    rfl

theorem find?_addSensor (alloc : Allocator) (id : Str) (s : Heap K × Client) (a : Addr) :
    (addSensor alloc id s).1.find? a =
      if a = alloc.pick s.1.keys then some (Scene.ofSensor id) else s.1.find? a :=
  OrdMap.find?_assign _ _ _ _

theorem find?_pick (alloc : Allocator) (scenes : Heap K) :
    scenes.find? (alloc.pick scenes.keys) = none :=
  OrdMap.find?_eq_none_iff.mpr (alloc.fresh _)

/-- The scenes that are there stay as they are. -/
theorem find?_addSensor_of_isSome (alloc : Allocator) (id : Str) {s : Heap K × Client} {a : Addr}
    (h : (s.1.find? a).isSome) : (addSensor alloc id s).1.find? a = s.1.find? a :=
  OrdMap.find?_assign_of_isSome (find?_pick alloc s.1) _ h

/-- `Client::ExtractSensor`: `NULL` for a client without sensors, and
`map::at` otherwise. -/
def extractSensor (client : Client) (sensorId : Str) : Except Fault (Option Sensor) :=
  if client.sensors.size ≠ 0 then
    match client.sensors.find? sensorId with
    | some sensor => .ok (some sensor)
    | none => .error .outOfRange
  else .ok none

/-! ## Encoding -/

/-- One round of the sensor loop of `Client::ToJSON`. -/
def sensorToJSON (scenes : Heap K) (sensor : Sensor) : Except Fault Str := do
  let scene ← scenes.deref sensor.scene
  pure ("\x7b".toList ++
    "\"id\":".toList ++ "\"".toList ++ escapeSensorId sensor.id ++ "\"".toList ++
      ",".toList ++
    "\"calibrated\":".toList ++
      (if scene.calibrated then "\"true\"".toList else "\"false\"".toList) ++
      ",".toList ++
    "\"ordering\":".toList ++ "\"".toList ++ toStringNat scene.ordering ++
      "\"".toList ++
    "\x7d".toList)

/-- `Client::ToJSON`.  It moves an iterator from the end of the sensors one
back before it looks at any sensor. -/
def toJSON (scenes : Heap K) (client : Client) : Except Fault Str :=
  if client.sensors.size = 0 then .error .invalidIterator
  else do
    let sensors ← client.sensors.values.mapM (sensorToJSON scenes)
    pure ("\x7b".toList ++
      "\"id\":".toList ++ toStringNat client.id ++ ",".toList ++
      "\"location\":".toList ++ "\"".toList ++ client.location ++ "\"".toList ++
        ",".toList ++
      "\"address\":".toList ++ "\"".toList ++ client.ipAddr ++ "\"".toList ++
        ",".toList ++
      "\"sensors\":".toList ++ "[".toList ++ List.intercalate ",".toList sensors ++
        "]".toList ++
      "\x7d".toList)

end Client

end MinorityViewport
