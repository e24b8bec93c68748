import Handoff.Action
import Handoff.Camera.Pose

namespace Handoff

inductive CameraMode
  | movement
  | rotation
deriving DecidableEq, Repr

inductive CameraEvent
  | rotateSet
  | rotateClear
deriving DecidableEq, Repr

def CameraEvent.ofRotate (rotate : Bool) : CameraEvent := if rotate then rotateSet else rotateClear

namespace CameraMode

def transition : CameraMode → CameraEvent → CameraMode
  | movement, .rotateSet => rotation
  | rotation, .rotateClear => movement
  | mode, _ => mode

def next (mode : CameraMode) (rotate : Bool) : CameraMode := mode.transition (.ofRotate rotate)

theorem next_eq (mode : CameraMode) (rotate : Bool) :
    mode.next rotate = if rotate then rotation else movement := by
  cases mode <;> cases rotate <;> rfl

def resetsPose (before after : CameraMode) : Bool := before == rotation && after == movement

end CameraMode

structure Rig where
  settings : CameraSettings
  mode : CameraMode
  pose : Pose
  /-- Whether a turn has set the heading since the rig was made or last reset. -/
  headed : Bool
deriving DecidableEq

structure RigStep where
  mode : CameraMode
  reset : Bool
deriving DecidableEq, Repr

namespace Rig

def new (s : CameraSettings) : Rig := ⟨s, .movement, .canonical s, false⟩

def toCanonical (r : Rig) : Rig := { r with pose := .canonical r.settings, headed := false }

def turn (r : Rig) (angle : Binary32) : Rig :=
  let pose := { r.pose with azimuth := wrapAngle (r.pose.azimuth + angle) }
  let target := pose.headingTarget r.settings.orbitRadius r.settings.lookDistance
  { r with pose := { pose with target }, headed := true }

def walk (r : Rig) (direction : Binary32) : Rig :=
  let r := if r.headed then r else r.turn 0
  let forward := r.pose.target.normalized
  let eye := r.pose.eye + forward.scale (direction * r.settings.movementStep)
  { r with pose := { r.pose with eye } }

def fly (r : Rig) (a : Actions) : Rig :=
  let r := match a.horizontal with
    | .left => r.turn r.settings.rotationStep
    | .right => r.turn (-r.settings.rotationStep)
    | .none => r
  match a.vertical with
  | .up => r.walk 1
  | .down => r.walk (-1)
  | .none => r

/-- The eye is placed on the orbit in every frame, also in one without a direction. -/
def orbit (r : Rig) (a : Actions) : Rig :=
  let step := r.settings.rotationStep
  let dAzimuth := match a.horizontal with
    | .right => step
    | .left => -step
    | .none => 0
  let dElevation := match a.vertical with
    | .up => step
    | .down => -step
    | .none => 0
  let pose := { r.pose with
    azimuth := wrapAngle (r.pose.azimuth + dAzimuth)
    elevation := wrapAngle (r.pose.elevation + dElevation) }
  let pose := { pose with eye := pose.orbitEye r.settings.orbitRadius, target := .zero }
  { r with pose := { pose with up := pose.orbitUp } }

/-- One frame's actions: a reset comes first, then the rules of the new mode. -/
def update (r : Rig) (a : Actions) : RigStep × Rig :=
  let mode := r.mode.next a.rotateMode
  let reset := r.mode.resetsPose mode
  let r := { (if reset then r.toCanonical else r) with mode }
  let r := match mode with
    | .rotation => r.orbit a
    | .movement => r.fly a
  (⟨mode, reset⟩, r)

end Rig

end Handoff
