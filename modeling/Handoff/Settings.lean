import Handoff.Binary.Arith
import Handoff.Binary.Decimal

namespace Handoff

structure CameraSettings where
  /-- The angle that a held direction adds per frame, in radians. -/
  rotationStep : Binary32
  movementStep : Binary32
  /-- Also the height of the default eye. -/
  orbitRadius : Binary32
  lookDistance : Binary32
  /-- Azimuth and elevation of the default pose. -/
  initialAngle : Binary32
deriving DecidableEq

namespace CameraSettings

def shipped : CameraSettings where
  rotationStep := Binary32.ofBits 0x3E490FDB
  movementStep := 1
  orbitRadius := 6
  lookDistance := 1000
  initialAngle := 0.1

end CameraSettings

/-- What the rotate bit follows: a slide switch, which may be active low, or the mode button. -/
inductive RotateSource
  | switch
  | switchActiveLow
  | modeButton
deriving DecidableEq, Repr

namespace RotateSource

def all : List RotateSource := [switch, switchActiveLow, modeButton]

def name : RotateSource → String
  | switch => "switch"
  | switchActiveLow => "switch_active_low"
  | modeButton => "mode_button"

def ofName? (s : String) : Option RotateSource := all.find? (·.name == s)

end RotateSource

structure ControllerSettings where
  tickMs : UInt32
  /-- The latency is sampled on every tick of a session whose number is a multiple of this; zero
  means never. -/
  latencySampleTicks : UInt32
  rotateSource : RotateSource
deriving DecidableEq, Repr

def ControllerSettings.shipped : ControllerSettings := ⟨10, 100, .switchActiveLow⟩

structure ViewerSettings where
  camera : CameraSettings
  controller : ControllerSettings
deriving DecidableEq

def ViewerSettings.shipped : ViewerSettings := ⟨.shipped, .shipped⟩

end Handoff
