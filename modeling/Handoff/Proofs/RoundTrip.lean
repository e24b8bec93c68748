import Handoff.Resource.Directory

namespace Handoff

theorem ByteOrder.word_bytes (w : UInt32) :
    ByteOrder.little.word w.toUInt8 (w / 256).toUInt8 (w / 65536).toUInt8 (w / 16777216).toUInt8 =
      w := by
  have h := w.toNat_lt
  apply UInt32.toNat.inj
  simp only [ByteOrder.word, UInt32.toNat_add, UInt32.toNat_mul, UInt8.toNat_toUInt32,
    UInt32.toNat_toUInt8, UInt32.toNat_div, UInt32.reduceToNat]
  omega

theorem halfWord_bytes (w : UInt16) : halfWord w.toUInt8 (w / 256).toUInt8 = w := by
  have h := w.toNat_lt
  apply UInt16.toNat.inj
  simp only [halfWord, UInt16.toNat_add, UInt16.toNat_mul, UInt8.toNat_toUInt16,
    UInt16.toNat_toUInt8, UInt16.toNat_div, UInt16.reduceToNat]
  omega

theorem length_flatMap_of_const {α β : Type} {f : α → List β} {size : Nat}
    (h : ∀ x, (f x).length = size) (xs : List α) : (xs.flatMap f).length = xs.length * size := by
  induction xs with
  | nil => exact (Nat.zero_mul size).symm
  | cons x xs ih =>
    rw [List.flatMap_cons, List.length_append, h, ih, List.length_cons, Nat.succ_mul, Nat.add_comm]

namespace ByteReader

/-- A reader takes these bytes for this value, whatever follows them. -/
def Takes {α : Type} (read : ByteReader α) (bytes : List UInt8) (x : α) : Prop :=
  ∀ rest, read (bytes ++ rest) = some (x, rest)

@[simp] theorem word_append (w : UInt32) (rest : List UInt8) :
    word (ByteOrder.little.bytes w ++ rest) = some (w, rest) :=
  congrArg (fun w => some (w, rest)) (ByteOrder.word_bytes w)

@[simp] theorem half_append (w : UInt16) (rest : List UInt8) :
    half (halfBytes w ++ rest) = some (w, rest) :=
  congrArg (fun w => some (w, rest)) (halfWord_bytes w)

theorem takes_header (h : ResourceHeader) :
    Takes header (ByteOrder.little.bytes h.fileSize ++
      (ByteOrder.little.bytes h.numTextures ++ ByteOrder.little.bytes h.numMeshes)) h := by
  intro rest
  simp [header]

theorem takes_texture (t : Texture) :
    Takes texture (ByteOrder.little.bytes t.offset ++ (ByteOrder.little.bytes t.mipLevels ++
      (halfBytes t.width ++ halfBytes t.height))) t := by
  intro rest
  simp [texture]

theorem takes_mesh (m : Mesh) :
    Takes mesh (ByteOrder.little.bytes m.offset ++ (ByteOrder.little.bytes m.textureId ++
      (ByteOrder.little.bytes m.numVertices ++ ByteOrder.little.bytes m.numIndices))) m := by
  intro rest
  simp [mesh]

namespace Takes

variable {α β : Type} {read : ByteReader α}

theorem many {write : β → List UInt8} {f : β → α} (h : ∀ x, Takes read (write x) (f x))
    (xs : List β) : Takes (ByteReader.many read xs.length) (xs.flatMap write) (xs.map f) := by
  intro rest
  induction xs with
  | nil => rfl
  | cons x xs ih =>
    rw [List.flatMap_cons, List.append_assoc, List.length_cons, ByteReader.many, h x]
    change (ByteReader.many read xs.length (xs.flatMap write ++ rest) >>= _) = _
    rw [ih]
    rfl

theorem many_range {write : Nat → List UInt8} {f : Nat → α} (h : ∀ i, Takes read (write i) (f i))
    (n : Nat) :
    Takes (ByteReader.many read n) ((List.range n).flatMap write) ((List.range n).map f) := by
  have taken := many h (List.range n)
  rw [List.length_range] at taken
  exact taken

end Takes

end ByteReader

end Handoff
