import Handoff.Resource.Directory

namespace Handoff.Lookup

section Reads

variable (file : List UInt8) (p : Nat)

def word? : Option UInt32 := do
  return ByteOrder.little.word (← file[p]?) (← file[p + 1]?) (← file[p + 2]?) (← file[p + 3]?)

def half? : Option UInt16 := do
  return halfWord (← file[p]?) (← file[p + 1]?)

def headerAt? : Option ResourceHeader := do
  return ⟨← word? file p, ← word? file (p + 4), ← word? file (p + 8)⟩

def textureAt? : Option Texture := do
  return ⟨← word? file p, ← word? file (p + 4), ← half? file (p + 8), ← half? file (p + 10)⟩

def meshAt? : Option Mesh := do
  return ⟨← word? file p, ← word? file (p + 4), ← word? file (p + 8), ← word? file (p + 12)⟩

end Reads

/-- Where something begins, if 64 bits can hold where it ends. -/
def position? (start size : Nat) : Option Nat :=
  if start + size < UInt64.size then some start else none

structure Table (α : Type) where
  start : Nat
  size : Nat
  count : UInt32
  read? : List UInt8 → Nat → Option α

namespace Table

variable {α : Type} (t : Table α)

def position (index : Nat) : Nat := t.start + index * t.size

def get? (file : List UInt8) (index : UInt32) : Option (Option α) :=
  if t.count ≤ index then some none
  else do
    let p ← position? (t.position index.toNat) t.size
    return some (← t.read? file p)

def all? (file : List UInt8) : Option (List α) := do
  let entries ← (List.range t.count.toNat).mapM fun i => t.get? file (.ofNat i)
  return entries.filterMap id

end Table

def textureTable (h : ResourceHeader) : Table Texture := ⟨12, 12, h.numTextures, textureAt?⟩

def meshTable (h : ResourceHeader) : Table Mesh :=
  ⟨12 + h.numTextures.toNat * 12, 16, h.numMeshes, meshAt?⟩

/-- How long a file with these tables is at the least. -/
def tablesEnd (h : ResourceHeader) : Nat :=
  12 + h.numTextures.toNat * 12 + h.numMeshes.toNat * 16

/-- Checks the header and both tables. Tables whose end 64 bits cannot hold are longer than any
file. -/
def parse? (file : List UInt8) : Option (Except ResourceError ResourceHeader) :=
  if file.length < 12 then some (.error .truncatedHeader)
  else do
    let h ← headerAt? file 0
    if tablesEnd h < UInt64.size ∧ tablesEnd h ≤ file.length then
      match Directory.strayTexture? h.numTextures.toNat (← (meshTable h).all? file) with
      | some (mesh, id) => return .error (.textureOutOfRange mesh id)
      | none => return .ok h
    else return .error .truncatedTable

end Handoff.Lookup
