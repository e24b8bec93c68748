import Handoff.Binary.Decimal
import Handoff.Config.Basic
import Handoff.Toml.Document

namespace Handoff

open Toml

/-- The values that were given for the fields of a record. A record is written as a table by the
names of its fields, or as an array in their order. -/
structure Fields where
  byName : Bool
  values : List (Option Value)

namespace Fields

def of? (names : List String) : Value → Option Fields
  | .table _ entries => some ⟨true, names.map fun name => entries.lookup name⟩
  | .date => some ⟨true, names.map fun _ => none⟩
  | .array items => some ⟨false, (List.range names.length).map (items[·]?)⟩
  | .tables items => some ⟨false, (List.range names.length).map fun i =>
      items[i]?.map (.table .header)⟩
  | _ => none

def get (f : Fields) (i : Nat) : Option Value := (f.values[i]?).getD none

def read {α : Type} (f : Fields) (i : Nat) (decode : Value → Option α) (shipped : α) : Option α :=
  match f.get i with
  | some v => decode v
  | none => some shipped

end Fields

namespace Decode

def bool : Value → Option Bool
  | .boolean b => some b
  | _ => none

def string : Value → Option String
  | .string s => some s
  | _ => none

def natBelow (bound : Nat) : Value → Option Nat
  | .integer n => if 0 ≤ n ∧ n < bound then some n.toNat else none
  | _ => none

def word (v : Value) : Option UInt32 := (natBelow UInt32.size v).map UInt32.ofNat

def doubleWord (v : Value) : Option UInt64 := (natBelow UInt64.size v).map UInt64.ofNat

/-- Integers are accepted for numbers; every number is rounded once from how it was read. -/
def number : Value → Option Binary32
  | .float x => some x.convert
  | .integer n => some (Binary.ofInt n)
  | _ => none

def list {α : Type} (item : Value → Option α) : Value → Option (List α)
  | .array items => items.mapM item
  | .tables items => items.mapM fun t => item (.table .header t)
  | _ => none

def isNothing : Value → Bool
  | .table _ [] => true
  | .array [] => true
  | _ => false

/-- A choice is written as its name, or as a table of its name and nothing else. -/
def choice {α : Type} (ofName? : String → Option α) : Value → Option α
  | .string s => ofName? s
  | .table _ [(name, v)] => if isNothing v then ofName? name else none
  | _ => none

def camera (v : Value) : Option CameraSettings := do
  let f ← Fields.of? ["rotation_step", "movement_step", "orbit_radius", "look_distance",
    "initial_angle"] v
  let d := CameraSettings.shipped
  return ⟨← f.read 0 number d.rotationStep, ← f.read 1 number d.movementStep,
    ← f.read 2 number d.orbitRadius, ← f.read 3 number d.lookDistance,
    ← f.read 4 number d.initialAngle⟩

def controller (v : Value) : Option ControllerSettings := do
  let f ← Fields.of? ["tick_ms", "latency_sample_ticks", "rotate_source"] v
  let d := ControllerSettings.shipped
  return ⟨← f.read 0 word d.tickMs, ← f.read 1 word d.latencySampleTicks,
    ← f.read 2 (choice RotateSource.ofName?) d.rotateSource⟩

def viewer (v : Value) : Option ViewerSettings := do
  let f ← Fields.of? ["camera", "controller"] v
  return ⟨← f.read 0 camera .shipped, ← f.read 1 controller .shipped⟩

def run (v : Value) : Option RunSettings := do
  let f ← Fields.of? ["frame_ms", "frames", "timeout_ms", "program_size"] v
  let d := RunSettings.shipped
  return ⟨← f.read 0 doubleWord d.frameMs, ← f.read 1 word d.frames,
    ← f.read 2 doubleWord d.timeoutMs, ← f.read 3 word d.programSize⟩

def scene (v : Value) : Option SceneShape := do
  let f ← Fields.of? ["textures", "meshes"] v
  return ⟨← f.read 0 word SceneShape.shipped.textures, ← f.read 1 word SceneShape.shipped.meshes⟩

/-- The time is always needed. The switch may be left out by name, but keeps its place in an
array. -/
def scriptStep (v : Value) : Option ScriptStep := do
  let f ← Fields.of? ["at_ms", "press", "hold_ms", "switch"] v
  let switch ← match f.get 3 with
    | some v => (bool v).map some
    | none => if f.byName then some none else none
  return ⟨← doubleWord (← f.get 0), ← f.read 1 (list string) [],
    ← f.read 2 doubleWord ScriptStep.defaultHoldMs, switch⟩

def config (v : Value) : Option Config := do
  let f ← Fields.of? ["viewer", "sim", "workload", "script"] v
  return ⟨← f.read 0 viewer .shipped, ← f.read 1 run .shipped, ← f.read 2 scene .shipped,
    ← f.read 3 (list scriptStep) []⟩

end Decode

namespace Config

def parse (text : String) : Except ConfigError Config :=
  match parse? text with
  | some entries => (Decode.config (.table .header entries)).elim (.error .malformed) .ok
  | none => .error .malformed

abbrev Files := String → Except ReadFailure (List UInt8)

def readText (files : Files) (path : String) : Except ReadFailure String := do
  if path.contains '\x00' then throw .nulInName
  let bytes ← files path
  match String.fromUTF8? ⟨bytes.toArray⟩ with
  | some text => return text
  | none => throw .notUtf8

def load (files : Files) (path : String) : Except ConfigError Config :=
  match readText files path with
  | .ok text => parse text
  | .error failure => .error (.read path failure)

end Config

end Handoff
