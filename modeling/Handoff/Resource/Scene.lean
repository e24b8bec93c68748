import Handoff.Binary.Arith
import Handoff.Resource.Directory

namespace Handoff

structure SceneShape where
  textures : UInt32
  meshes : UInt32
deriving DecidableEq, Repr

namespace Scene

def textureSide : Nat := 16

def checkerSide : Nat := 4

def lightTexel : UInt32 := 0xFFE0E0E0

def shadeStep : UInt32 := 0x00100000

/-- The dark squares of every texture have a shade of their own. -/
def darkTexel (index : Nat) : UInt32 := 0xFF202020 + UInt32.ofNat index * shadeStep

def shadesFit (textures : Nat) : Bool := (textures - 1) * shadeStep.toNat < UInt32.size

def texel (index x y : Nat) : UInt32 :=
  if (x / checkerSide + y / checkerSide) % 2 = 0 then lightTexel else darkTexel index

def wordBytes (w : UInt32) : List UInt8 := ByteOrder.little.bytes w

def checkerboard (index : Nat) : List UInt8 :=
  (List.range textureSide).flatMap fun y =>
    (List.range textureSide).flatMap fun x => wordBytes (texel index x y)

def corners : List (Binary32 × Binary32 × Binary32) :=
  [(-1, -1, -1), (1, -1, -1), (1, 1, -1), (-1, 1, -1),
   (-1, -1, 1), (1, -1, 1), (1, 1, 1), (-1, 1, 1)]

/-- Two triangles for each face: back, front, bottom, top, left, right. -/
def indices : List UInt32 :=
  [0, 1, 2, 0, 2, 3,
   4, 6, 5, 4, 7, 6,
   0, 4, 5, 0, 5, 1,
   3, 2, 6, 3, 6, 7,
   0, 3, 7, 0, 7, 4,
   1, 5, 6, 1, 6, 2]

def vertex (shift : Binary32) : Binary32 × Binary32 × Binary32 → List Binary32
  | (x, y, z) =>
    let length := (3 : Binary32).sqrt
    [x + shift, y, z, x / length, y / length, z / length, (x + 1) / 2, (y + 1) / 2]

/-- The cubes stand three units apart. -/
def cube (index : Nat) : List UInt8 :=
  let shift := Binary.ofInt index * 3
  (corners.flatMap fun c => (vertex shift c).flatMap fun v => wordBytes v.toBits) ++
    indices.flatMap wordBytes

def headerSize : Nat := 12

def textureEntrySize : Nat := 12

def meshEntrySize : Nat := 16

def tablesSize (s : SceneShape) : Nat :=
  headerSize + s.textures.toNat * textureEntrySize + s.meshes.toNat * meshEntrySize

def textureEntry (offset : UInt32) : List UInt8 :=
  wordBytes offset ++ (wordBytes 1 ++
    (halfBytes (UInt16.ofNat textureSide) ++ halfBytes (UInt16.ofNat textureSide)))

def meshEntry (offset textureId : UInt32) : List UInt8 :=
  wordBytes offset ++ (wordBytes textureId ++
    (wordBytes (UInt32.ofNat corners.length) ++ wordBytes (UInt32.ofNat indices.length)))

/-- The meshes take the textures in turn. -/
def meshTexture (s : SceneShape) (index : Nat) : UInt32 :=
  if s.textures = 0 then noTexture else UInt32.ofNat (index % s.textures.toNat)

structure Draft where
  textures : Array UInt8
  meshes : Array UInt8
  data : Array UInt8

namespace Draft

def empty : Draft := ⟨#[], #[], #[]⟩

/-- How long a file with this data is, which is where the next data goes. -/
def fileSize (d : Draft) (s : SceneShape) : UInt32 := UInt32.ofNat (tablesSize s + d.data.size)

def addTexture (s : SceneShape) (d : Draft) (index : Nat) : Draft :=
  { d with
    textures := d.textures ++ textureEntry (d.fileSize s)
    data := d.data ++ checkerboard index }

def addMesh (s : SceneShape) (d : Draft) (index : Nat) : Draft :=
  { d with
    meshes := d.meshes ++ meshEntry (d.fileSize s) (meshTexture s index)
    data := d.data ++ cube index }

def bytes (d : Draft) (s : SceneShape) : List UInt8 :=
  wordBytes (d.fileSize s) ++ (wordBytes s.textures ++ (wordBytes s.meshes ++
    (d.textures.toList ++ (d.meshes.toList ++ d.data.toList))))

end Draft

def draft (s : SceneShape) : Draft :=
  (List.range s.meshes.toNat).foldl (Draft.addMesh s)
    ((List.range s.textures.toNat).foldl (Draft.addTexture s) .empty)

def file (s : SceneShape) : List UInt8 := (draft s).bytes s

/-- The file of a scene, if it has not too many textures to be shaded. -/
def file? (s : SceneShape) : Option (List UInt8) :=
  if shadesFit s.textures.toNat then some (file s) else none

end Scene

end Handoff
