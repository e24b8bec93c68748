import Handoff.Binary.Arith

namespace Handoff

@[ext]
structure Vec3 where
  x : Binary32
  y : Binary32
  z : Binary32
deriving DecidableEq

namespace Vec3

def zero : Vec3 := ⟨0, 0, 0⟩

def up : Vec3 := ⟨0, 1, 0⟩

def down : Vec3 := ⟨0, -1, 0⟩

instance : Add Vec3 := ⟨fun a b => ⟨a.x + b.x, a.y + b.y, a.z + b.z⟩⟩
instance : Sub Vec3 := ⟨fun a b => ⟨a.x - b.x, a.y - b.y, a.z - b.z⟩⟩
instance : Neg Vec3 := ⟨fun a => ⟨-a.x, -a.y, -a.z⟩⟩

def scale (a : Vec3) (s : Binary32) : Vec3 := ⟨a.x * s, a.y * s, a.z * s⟩

def dot (a b : Vec3) : Binary32 := a.x * b.x + a.y * b.y + a.z * b.z

def length (a : Vec3) : Binary32 := (a.dot a).sqrt

/-- The unit vector in the same direction; a vector of length zero becomes the zero vector. -/
def normalized (a : Vec3) : Vec3 := if a.length.isZero then zero else a.scale (1 / a.length)

def maxDistance (a b : Vec3) : Binary32 :=
  let d := a - b
  (d.x.abs.larger d.y.abs).larger d.z.abs

end Vec3

end Handoff
