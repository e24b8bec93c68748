import Handoff.Proofs.ResourceFormat
import Handoff.Proofs.RoundTrip
import Handoff.Resource.Scene

/-!
A scene that is built is a resource file. The builder lets its tables and its data grow side by
side and takes each offset from how far the data has come; written out part by part, the file is
one that the parser takes, and it finds the textures and meshes that were written.
-/

namespace Handoff

namespace Scene

def textureSize : Nat := textureSide * textureSide * 4

def meshSize : Nat := corners.length * vertexSize.toNat + indices.length * 4

@[simp] theorem length_wordBytes (w : UInt32) : (wordBytes w).length = 4 :=
  ByteOrder.length_bytes .little w

@[simp] theorem length_textureEntry (offset : UInt32) :
    (textureEntry offset).length = textureEntrySize := rfl

@[simp] theorem length_meshEntry (offset id : UInt32) :
    (meshEntry offset id).length = meshEntrySize := rfl

@[simp] theorem length_checkerboard (i : Nat) : (checkerboard i).length = textureSize := by
  have row (y : Nat) := length_flatMap_of_const
    (fun x => length_wordBytes (texel i x y)) (List.range textureSide)
  rw [checkerboard, length_flatMap_of_const row]
  rfl

def vertexBytes (i : Nat) : List UInt8 :=
  corners.flatMap fun c => (vertex (Binary.ofInt i * 3) c).flatMap fun v => wordBytes v.toBits

theorem cube_eq (i : Nat) : cube i = vertexBytes i ++ indices.flatMap wordBytes := rfl

theorem length_vertex (shift : Binary32) (c : Binary32 × Binary32 × Binary32) :
    (vertex shift c).length = 8 := rfl

theorem length_vertexBytes (i : Nat) :
    (vertexBytes i).length = corners.length * vertexSize.toNat := by
  have corner (c : Binary32 × Binary32 × Binary32) :
      ((vertex (Binary.ofInt i * 3) c).flatMap fun v => wordBytes v.toBits).length =
        vertexSize.toNat := by
    rw [length_flatMap_of_const fun v : Binary32 => length_wordBytes v.toBits, length_vertex]
    rfl
  exact length_flatMap_of_const corner corners

@[simp] theorem length_cube (i : Nat) : (cube i).length = meshSize := by
  rw [cube_eq, List.length_append, length_vertexBytes, length_flatMap_of_const length_wordBytes]
  rfl

variable (s : SceneShape)

def textureOffset (i : Nat) : Nat := tablesSize s + i * textureSize

def meshOffset (j : Nat) : Nat := tablesSize s + s.textures.toNat * textureSize + j * meshSize

def textureOf (i : Nat) : Texture := ⟨.ofNat (textureOffset s i), 1, 16, 16⟩

def meshOf (j : Nat) : Mesh := ⟨.ofNat (meshOffset s j), meshTexture s j, 8, 36⟩

def textureTable (n : Nat) : List UInt8 :=
  (List.range n).flatMap fun i => textureEntry (textureOf s i).offset

def meshTable (n : Nat) : List UInt8 :=
  (List.range n).flatMap fun j => meshEntry (meshOf s j).offset (meshTexture s j)

def textureData (n : Nat) : List UInt8 := (List.range n).flatMap checkerboard

def meshData (n : Nat) : List UInt8 := (List.range n).flatMap cube

theorem meshData_zero : meshData 0 = [] := rfl

theorem length_textureData (n : Nat) : (textureData n).length = n * textureSize := by
  rw [textureData, length_flatMap_of_const length_checkerboard, List.length_range]

theorem length_meshData (n : Nat) : (meshData n).length = n * meshSize := by
  rw [meshData, length_flatMap_of_const length_cube, List.length_range]

theorem flatMap_range_succ {α : Type} (f : Nat → List α) (n : Nat) :
    (List.range (n + 1)).flatMap f = (List.range n).flatMap f ++ f n := by
  rw [List.range_succ, List.flatMap_append, List.flatMap_singleton]

/-- A draft with the first `n` textures and the first `m` meshes. -/
structure Draft.Holds (n m : Nat) (d : Draft) : Prop where
  textures : d.textures.toList = textureTable s n
  meshes : d.meshes.toList = meshTable s m
  data : d.data.toList = textureData n ++ meshData m

namespace Draft.Holds

variable {s} {n m : Nat} {d : Draft}

theorem size_data (h : d.Holds s n m) : d.data.size = n * textureSize + m * meshSize := by
  rw [← Array.length_toList, h.data, List.length_append, length_textureData, length_meshData]

theorem empty : Draft.empty.Holds s 0 0 := ⟨rfl, rfl, rfl⟩

theorem addTexture (h : d.Holds s n 0) : (d.addTexture s n).Holds s (n + 1) 0 where
  textures := by
    -- the texture begins where the data so far ends
    have offset : d.fileSize s = (textureOf s n).offset := by
      rw [fileSize, h.size_data, Nat.zero_mul, Nat.add_zero]
      rfl
    rw [Draft.addTexture, Array.toList_appendList, h.textures, offset, textureTable, textureTable,
      flatMap_range_succ]
  meshes := h.meshes
  data := by
    rw [Draft.addTexture, Array.toList_appendList, h.data, meshData_zero, List.append_nil,
      List.append_nil, textureData, textureData, flatMap_range_succ]

theorem addMesh (h : d.Holds s s.textures.toNat m) :
    (d.addMesh s m).Holds s s.textures.toNat (m + 1) where
  textures := h.textures
  meshes := by
    have offset : d.fileSize s = (meshOf s m).offset := by
      rw [fileSize, h.size_data, ← Nat.add_assoc]
      rfl
    rw [Draft.addMesh, Array.toList_appendList, h.meshes, offset, meshTable, meshTable,
      flatMap_range_succ]
  data := by
    rw [Draft.addMesh, Array.toList_appendList, h.data, meshData, meshData, flatMap_range_succ,
      List.append_assoc]

theorem addTextures (n : Nat) :
    ((List.range n).foldl (Draft.addTexture s) .empty).Holds s n 0 := by
  induction n with
  | zero => exact empty
  | succ n ih =>
    rw [List.range_succ, List.foldl_append]
    exact ih.addTexture

theorem addMeshes (h : d.Holds s s.textures.toNat 0) (m : Nat) :
    ((List.range m).foldl (Draft.addMesh s) d).Holds s s.textures.toNat m := by
  induction m with
  | zero => exact h
  | succ m ih =>
    rw [List.range_succ, List.foldl_append]
    exact ih.addMesh

end Draft.Holds

theorem draft_holds : (draft s).Holds s s.textures.toNat s.meshes.toNat :=
  (Draft.Holds.addTextures _).addMeshes _

def fileSize : Nat := tablesSize s + s.textures.toNat * textureSize + s.meshes.toNat * meshSize

def header : ResourceHeader := ⟨.ofNat (fileSize s), s.textures, s.meshes⟩

def front : List UInt8 :=
  wordBytes (header s).fileSize ++ (wordBytes s.textures ++ wordBytes s.meshes) ++
    (textureTable s s.textures.toNat ++ meshTable s s.meshes.toNat)

theorem length_front : (front s).length = tablesSize s := by
  simp only [front, textureTable, meshTable, List.length_append, length_wordBytes,
    length_flatMap_of_const fun i => length_textureEntry (textureOf s i).offset,
    length_flatMap_of_const fun j => length_meshEntry (meshOf s j).offset (meshTexture s j),
    List.length_range, tablesSize, headerSize]
  omega

theorem file_eq : file s =
    front s ++ (textureData s.textures.toNat ++ meshData s.meshes.toNat) := by
  have h := draft_holds s
  have size : (draft s).fileSize s = (header s).fileSize := by
    rw [Draft.fileSize, h.size_data, ← Nat.add_assoc]
    rfl
  rw [file, Draft.bytes, h.textures, h.meshes, h.data, size, front]
  simp only [List.append_assoc]

theorem length_file : (file s).length = fileSize s := by
  rw [file_eq, List.length_append, length_front, List.length_append, length_textureData,
    length_meshData, ← Nat.add_assoc]
  rfl

def textures : List Texture := (List.range s.textures.toNat).map (textureOf s)

def meshes : List Mesh := (List.range s.meshes.toNat).map (meshOf s)

theorem length_textures : (textures s).length = s.textures.toNat := by
  rw [textures, List.length_map, List.length_range]

theorem length_meshes : (meshes s).length = s.meshes.toNat := by
  rw [meshes, List.length_map, List.length_range]

def directory : Directory := ⟨.ofNat (fileSize s), textures s, meshes s⟩

theorem takes_textureTable (n : Nat) :
    ByteReader.Takes (.many .texture n) (textureTable s n) ((List.range n).map (textureOf s)) :=
  .many_range (fun i => ByteReader.takes_texture (textureOf s i)) n

theorem takes_meshTable (n : Nat) :
    ByteReader.Takes (.many .mesh n) (meshTable s n) ((List.range n).map (meshOf s)) :=
  .many_range (fun j => ByteReader.takes_mesh (meshOf s j)) n

theorem takes_tables :
    ByteReader.Takes (.tables (header s))
      (textureTable s s.textures.toNat ++ meshTable s s.meshes.toNat) (textures s, meshes s) := by
  intro rest
  rw [ByteReader.tables, List.append_assoc]
  change (ByteReader.many .texture s.textures.toNat _ >>= _) = _
  rw [takes_textureTable]
  change (ByteReader.many .mesh s.meshes.toNat _ >>= _) = _
  rw [takes_meshTable]
  rfl

variable {s}

theorem mod_textures_lt (h : s.textures ≠ 0) (j : Nat) :
    j % s.textures.toNat < s.textures.toNat :=
  Nat.mod_lt j (Nat.pos_of_ne_zero fun h' => h (UInt32.toNat.inj h'))

theorem toNat_meshTexture (h : s.textures ≠ 0) (j : Nat) :
    (meshTexture s j).toNat = j % s.textures.toNat := by
  have lt := mod_textures_lt h j
  have bound := s.textures.toNat_lt
  rw [meshTexture, if_neg h]
  exact UInt32.toNat_ofNat_of_lt' (by unfold UInt32.size; omega)

theorem meshTexture_ne (h : s.textures ≠ 0) (j : Nat) : meshTexture s j ≠ noTexture := by
  intro same
  have value := toNat_meshTexture h j
  have lt := mod_textures_lt h j
  have bound := s.textures.toNat_lt
  rw [same] at value
  have : noTexture.toNat = 4294967295 := rfl
  omega

theorem not_isStray (j : Nat) : ¬ IsStray s.textures.toNat (meshTexture s j) := by
  rintro ⟨named, beyond⟩
  by_cases h : s.textures = 0
  · exact named (if_pos h)
  · have lt := mod_textures_lt h j
    rw [toNat_meshTexture h] at beyond
    omega

variable (s)

theorem strayTexture?_meshes :
    Directory.strayTexture? (textures s).length (meshes s) = none := by
  rw [length_textures, Directory.strayTexture?_eq_none_iff]
  rintro j id ⟨⟨m, hm, rfl⟩, stray⟩
  rw [meshes, List.getElem?_map] at hm
  obtain ⟨i, _, rfl⟩ := Option.map_eq_some_iff.1 hm
  exact not_isStray i stray

theorem header_file : ByteReader.header (file s) = some (header s,
    (textureTable s s.textures.toNat ++ meshTable s s.meshes.toNat) ++
      (textureData s.textures.toNat ++ meshData s.meshes.toNat)) := by
  rw [file_eq, front, List.append_assoc]
  exact ByteReader.takes_header (header s) _

theorem parse_file : Directory.parse (file s) = .ok (directory s) := by
  have tables := takes_tables s (textureData s.textures.toNat ++ meshData s.meshes.toNat)
  rw [parse_of_read (header_file s) tables (length_textures s), checked, header,
    ← length_textures, strayTexture?_meshes]
  rfl

end Scene

end Handoff
