import Handoff.Resource.Scene

/-!
The builder of a scene with its arithmetic as a machine has it: positions are numbers of 64 bits,
shades of 32, and the squares of a board are counted in 16. A number that comes out too large is a
fault, except where a shade is meant to wrap around.
-/

namespace Handoff.Scene.Builder

inductive Excess
  | tables
  | position
  | room
  | square
  | shade (index : Nat)
deriving DecidableEq, Repr

def below (limit n : Nat) (e : Excess) : Except Excess Nat := if n < limit then .ok n else .error e

/-- Room for so many bytes. No more can be asked for than a signed number can count. -/
def room (n : Nat) : Except Excess Nat := do
  below (UInt64.size / 2) (← below UInt64.size n .room) .room

def tables (s : SceneShape) : Except Excess Nat := do
  let textures ← below UInt64.size (s.textures.toNat * textureEntrySize) .tables
  let front ← below UInt64.size (headerSize + textures) .tables
  let meshes ← below UInt64.size (s.meshes.toNat * meshEntrySize) .tables
  below UInt64.size (front + meshes) .tables

def textureBytes : Except Excess Nat := do
  let texels ← below UInt64.size (textureSide * textureSide) .room
  below UInt64.size (texels * 4) .room

def meshBytes : Except Excess Nat := do
  let numbers ← below UInt64.size (corners.length * 8) .room
  let vertices ← below UInt64.size (numbers * 4) .room
  let indices ← below UInt64.size (indices.length * 4) .room
  below UInt64.size (vertices + indices) .room

/-- The step from the first shade has to fit; what it is added to wraps around. -/
def darkTexel (index : Nat) : Except Excess UInt32 := do
  let step ← below UInt32.size ((UInt32.ofNat index).toNat * shadeStep.toNat) (.shade index)
  return 0xFF202020 + UInt32.ofNat step

def texel (dark : UInt32) (x y : Nat) : Except Excess UInt32 := do
  let squares ← below UInt16.size (x / checkerSide + y / checkerSide) .square
  return if squares % 2 = 0 then lightTexel else dark

def checkerboard (index : Nat) : Except Excess (List UInt8) := do
  let dark ← darkTexel index
  let rows ← (List.range textureSide).mapM fun y =>
    (List.range textureSide).mapM fun x => texel dark x y
  return rows.flatMap fun row => row.flatMap wordBytes

def addTexture (tables bytes : Nat) (d : Draft) (index : Nat) : Except Excess Draft := do
  let offset ← below UInt64.size (tables + d.data.size) .position
  let _ ← room (d.data.size + bytes)
  let board ← checkerboard index
  return { d with
    textures := d.textures ++ textureEntry (.ofNat offset)
    data := d.data ++ board }

def addMesh (s : SceneShape) (tables bytes : Nat) (d : Draft) (index : Nat) :
    Except Excess Draft := do
  let offset ← below UInt64.size (tables + d.data.size) .position
  let _ ← room (d.data.size + bytes)
  return { d with
    meshes := d.meshes ++ meshEntry (.ofNat offset) (meshTexture s index)
    data := d.data ++ cube index }

def build (s : SceneShape) : Except Excess (List UInt8) := do
  let tables ← tables s
  let textureBytes ← textureBytes
  let meshBytes ← meshBytes
  let _ ← room (s.textures.toNat * textureEntrySize)
  let _ ← room (s.meshes.toNat * meshEntrySize)
  let d ← (List.range s.textures.toNat).foldlM (addTexture tables textureBytes) .empty
  let d ← (List.range s.meshes.toNat).foldlM (addMesh s tables meshBytes) d
  let size ← below UInt64.size (tables + d.data.size) .position
  let _ ← room size
  return wordBytes (.ofNat size) ++ (wordBytes s.textures ++ (wordBytes s.meshes ++
    (d.textures.toList ++ (d.meshes.toList ++ d.data.toList))))

end Handoff.Scene.Builder
