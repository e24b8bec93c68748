import Handoff.Bytes

namespace Handoff

structure Mip where
  level : Nat
  width : UInt32
  height : UInt32
  offset : UInt32
deriving DecidableEq, Repr

structure Texture where
  offset : UInt32
  mipLevels : UInt32
  width : UInt16
  height : UInt16
deriving DecidableEq, Repr

namespace Texture

/-- The next levels of the mip chain; each begins where the one before it ends. -/
def mipsFrom (t : Texture) (level : Nat) (offset : UInt32) : Nat → List Mip
  | 0 => []
  | count + 1 =>
    let width := t.width.toUInt32 >>> UInt32.ofNat level
    let height := t.height.toUInt32 >>> UInt32.ofNat level
    ⟨level, width, height, offset⟩ :: t.mipsFrom (level + 1) (offset + width * height * 4) count

/-- The mip chain from full size down. After 16 halvings nothing is left of a dimension. -/
def mips (t : Texture) : List Mip := t.mipsFrom 0 t.offset (min t.mipLevels.toNat 16)

end Texture

structure Mesh where
  offset : UInt32
  textureId : UInt32
  numVertices : UInt32
  numIndices : UInt32
deriving DecidableEq, Repr

def noTexture : UInt32 := 0xFFFFFFFF

def vertexSize : UInt32 := 32

namespace Mesh

def texture? (m : Mesh) : Option UInt32 :=
  if m.textureId = noTexture then none else some m.textureId

/-- The indices follow the vertices. -/
def indexOffset (m : Mesh) : UInt32 := m.offset + m.numVertices * vertexSize

end Mesh

inductive ResourceError
  | truncatedHeader
  | truncatedTable
  | textureOutOfRange (mesh : Nat) (textureId : UInt32)
deriving DecidableEq, Repr

def ResourceError.message : ResourceError → String
  | truncatedHeader => "TruncatedHeader"
  | truncatedTable => "TruncatedTable"
  | textureOutOfRange mesh id =>
    s!"TextureOutOfRange \x7b mesh: {mesh}, texture_id: {id} \x7d"

structure ResourceHeader where
  fileSize : UInt32
  numTextures : UInt32
  numMeshes : UInt32
deriving DecidableEq, Repr

structure Directory where
  fileSize : UInt32
  textures : List Texture
  meshes : List Mesh
deriving DecidableEq, Repr

/-- Takes a value off the front of a byte string. -/
abbrev ByteReader (α : Type) := List UInt8 → Option (α × List UInt8)

namespace ByteReader

def word : ByteReader UInt32
  | a :: b :: c :: d :: rest => some (ByteOrder.little.word a b c d, rest)
  | _ => none

def half : ByteReader UInt16
  | a :: b :: rest => some (halfWord a b, rest)
  | _ => none

def header : ByteReader ResourceHeader := fun bytes => do
  let (fileSize, bytes) ← word bytes
  let (numTextures, bytes) ← word bytes
  let (numMeshes, bytes) ← word bytes
  return (⟨fileSize, numTextures, numMeshes⟩, bytes)

def texture : ByteReader Texture := fun bytes => do
  let (offset, bytes) ← word bytes
  let (mipLevels, bytes) ← word bytes
  let (width, bytes) ← half bytes
  let (height, bytes) ← half bytes
  return (⟨offset, mipLevels, width, height⟩, bytes)

def mesh : ByteReader Mesh := fun bytes => do
  let (offset, bytes) ← word bytes
  let (textureId, bytes) ← word bytes
  let (numVertices, bytes) ← word bytes
  let (numIndices, bytes) ← word bytes
  return (⟨offset, textureId, numVertices, numIndices⟩, bytes)

def many {α : Type} (read : ByteReader α) : Nat → ByteReader (List α)
  | 0, bytes => some ([], bytes)
  | count + 1, bytes => do
    let (x, bytes) ← read bytes
    let (xs, bytes) ← many read count bytes
    return (x :: xs, bytes)

def tables (h : ResourceHeader) : ByteReader (List Texture × List Mesh) := fun bytes => do
  let (textures, bytes) ← many texture h.numTextures.toNat bytes
  let (meshes, bytes) ← many mesh h.numMeshes.toNat bytes
  return ((textures, meshes), bytes)

end ByteReader

namespace Directory

/-- The first mesh that names a texture the file does not have. -/
def strayTexture? (textures : Nat) (meshes : List Mesh) : Option (Nat × UInt32) :=
  meshes.zipIdx.findSome? fun (m, j) =>
    m.texture?.bind fun id => if id.toNat < textures then none else some (j, id)

def parse (bytes : List UInt8) : Except ResourceError Directory :=
  match ByteReader.header bytes with
  | none => .error .truncatedHeader
  | some (h, rest) =>
    match ByteReader.tables h rest with
    | none => .error .truncatedTable
    | some ((textures, meshes), _) =>
      match strayTexture? textures.length meshes with
      | some (mesh, id) => .error (.textureOutOfRange mesh id)
      | none => .ok ⟨h.fileSize, textures, meshes⟩

end Directory

end Handoff
