import Handoff.Binary.Trig
import Handoff.Camera.Vec3
import Handoff.Settings

namespace Handoff

def halfPi : Binary32 := Binary32.ofBits 0x3FC90FDB

def pi : Binary32 := Binary32.ofBits 0x40490FDB

def tau : Binary32 := Binary32.ofBits 0x40C90FDB

/-- An angle without its whole turns, from zero up to but not including a full turn. A negative
rest that is too small to show beside a full turn becomes zero. -/
def wrapAngle (angle : Binary32) : Binary32 :=
  let rest := angle.remainder tau
  let rest := if rest < 0 then rest + tau else rest
  if tau ≤ rest then 0 else rest

/-- Where a camera stands. Two poses are equal up to the payloads of values that are no number. -/
@[ext]
structure Pose where
  /-- The horizontal angle, which is also the heading in free flight. -/
  azimuth : Binary32
  elevation : Binary32
  eye : Vec3
  target : Vec3
  up : Vec3
deriving DecidableEq

namespace Pose

def canonical (s : CameraSettings) : Pose where
  azimuth := s.initialAngle
  elevation := s.initialAngle
  eye := ⟨s.orbitRadius, s.orbitRadius, 0⟩
  target := .zero
  up := .up

/-- The point of a sphere around the origin that the angles name. -/
def orbitEye (p : Pose) (radius : Binary32) : Vec3 :=
  let (sinAzimuth, cosAzimuth) := p.azimuth.sinCos
  let (sinElevation, cosElevation) := p.elevation.sinCos
  ⟨cosElevation * sinAzimuth * radius, sinElevation * radius, cosElevation * cosAzimuth * radius⟩

/-- Up points down while the eye is past a pole. -/
def orbitUp (p : Pose) : Vec3 :=
  if p.elevation < halfPi ∨ 3 * pi / 2 ≤ p.elevation then .up else .down

def headingTarget (p : Pose) (height distance : Binary32) : Vec3 :=
  let (sinAzimuth, cosAzimuth) := p.azimuth.sinCos
  ⟨sinAzimuth * distance, height, cosAzimuth * distance⟩

end Pose

end Handoff
