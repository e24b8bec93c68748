import Handoff.Proofs.SceneFile
import Handoff.Sim.Run

namespace Handoff

open Lookup

def Texture.spans (t : Texture) : List (Nat × Nat) :=
  t.mips.map fun m => (m.offset.toNat, m.offset.toNat + 4 * (m.width.toNat * m.height.toNat))

def Mesh.spans (m : Mesh) : List (Nat × Nat) :=
  [(m.offset.toNat, m.indexOffset.toNat),
    (m.indexOffset.toNat, m.indexOffset.toNat + 4 * m.numIndices.toNat)]

namespace Scene

/-- The stretches of a file lie end to end, from a start to a stop. -/
def Tiles : Nat → Nat → List (Nat × Nat) → Prop
  | start, stop, [] => start = stop
  | start, stop, (first, last) :: spans => first = start ∧ first ≤ last ∧ Tiles last stop spans

theorem Tiles.append {a b c : Nat} {xs ys : List (Nat × Nat)} (h : Tiles a b xs)
    (h' : Tiles b c ys) : Tiles a c (xs ++ ys) := by
  induction xs generalizing a with
  | nil =>
    cases h
    exact h'
  | cons x xs ih => exact ⟨h.1, h.2.1, ih h.2.2⟩

theorem Tiles.flatMap_range {a size n : Nat} {f : Nat → List (Nat × Nat)}
    (h : ∀ i < n, Tiles (a + i * size) (a + i * size + size) (f i)) :
    Tiles a (a + n * size) ((List.range n).flatMap f) := by
  induction n with
  | zero => simp [Tiles]
  | succ n ih =>
    rw [flatMap_range_succ, Nat.succ_mul, ← Nat.add_assoc]
    exact (ih fun i hi => h i (Nat.lt_succ_of_lt hi)).append (h n (Nat.lt_succ_self n))

variable {s : SceneShape}

theorem mips_textureOf (i : Nat) :
    (textureOf s i).mips = [⟨0, 16, 16, (textureOf s i).offset⟩] := rfl

theorem tiles_texture {i : Nat} (hi : textureOffset s i < UInt32.size) :
    Tiles (textureOffset s i) (textureOffset s i + textureSize) (textureOf s i).spans := by
  have offset : (textureOf s i).offset.toNat = textureOffset s i := UInt32.toNat_ofNat_of_lt' hi
  have size : 4 * ((16 : UInt32).toNat * (16 : UInt32).toNat) = textureSize := by decide
  rw [Texture.spans, mips_textureOf, List.map_singleton, offset, size]
  exact ⟨rfl, Nat.le_add_right _ _, rfl⟩

theorem toNat_offset_meshOf {j : Nat} (hj : meshOffset s j + 256 < UInt32.size) :
    (meshOf s j).offset.toNat = meshOffset s j :=
  UInt32.toNat_ofNat_of_lt' (Nat.lt_of_le_of_lt (Nat.le_add_right _ _) hj)

theorem toNat_indexOffset {j : Nat} (hj : meshOffset s j + 256 < UInt32.size) :
    (meshOf s j).indexOffset.toNat = meshOffset s j + 256 := by
  have vertices : (meshOf s j).numVertices * vertexSize = 256 := rfl
  rw [Mesh.indexOffset, vertices, UInt32.toNat_add, toNat_offset_meshOf hj]
  exact Nat.mod_eq_of_lt hj

theorem tiles_mesh {j : Nat} (hj : meshOffset s j + 256 < UInt32.size) :
    Tiles (meshOffset s j) (meshOffset s j + meshSize) (meshOf s j).spans := by
  have stop : meshOffset s j + 256 + 4 * (meshOf s j).numIndices.toNat =
    meshOffset s j + meshSize := rfl
  rw [Mesh.spans, toNat_indexOffset hj, toNat_offset_meshOf hj]
  exact ⟨rfl, Nat.le_add_right _ _, rfl, Nat.le_add_right _ _, stop⟩

theorem textureOffset_add_le {i : Nat} (hi : i < s.textures.toNat) :
    textureOffset s i + textureSize ≤ fileSize s := by
  have h : (i + 1) * textureSize ≤ s.textures.toNat * textureSize := Nat.mul_le_mul_right _ hi
  rw [Nat.succ_mul] at h
  unfold textureOffset fileSize
  omega

theorem meshOffset_add_le {j : Nat} (hj : j < s.meshes.toNat) :
    meshOffset s j + meshSize ≤ fileSize s := by
  have h : (j + 1) * meshSize ≤ s.meshes.toNat * meshSize := Nat.mul_le_mul_right _ hj
  rw [Nat.succ_mul] at h
  unfold meshOffset fileSize
  omega

theorem tiles_directory (h : fileSize s < UInt32.size) :
    Tiles (tablesSize s) (fileSize s)
      ((textures s).flatMap Texture.spans ++ (meshes s).flatMap Mesh.spans) := by
  rw [textures, meshes, List.flatMap_map, List.flatMap_map]
  apply Tiles.append
  · apply Tiles.flatMap_range
    intro i hi
    have := textureOffset_add_le hi
    exact tiles_texture (by omega)
  · apply Tiles.flatMap_range
    intro j hj
    have := meshOffset_add_le hj
    have : meshSize = 400 := rfl
    exact tiles_mesh (by omega)

theorem exists_flatMap_range {α : Type} (f : Nat → List α) {j n : Nat} (hj : j < n) :
    ∃ rest, (List.range n).flatMap f = (List.range j).flatMap f ++ (f j ++ rest) := by
  induction n with
  | zero => cases hj
  | succ n ih =>
    rw [flatMap_range_succ]
    rcases Nat.lt_succ_iff_lt_or_eq.1 hj with hlt | rfl
    · obtain ⟨rest, split⟩ := ih hlt
      exact ⟨rest ++ f n, by rw [split]; simp only [List.append_assoc]⟩
    · exact ⟨[], by rw [List.append_nil]⟩

theorem word?_flatMap (before after : List UInt8) {ws : List UInt32} {k : Nat}
    (hk : k < ws.length) :
    word? (before ++ (ws.flatMap wordBytes ++ after)) (before.length + k * 4) = ws[k]? := by
  have bound : before.length + ws.length * 4 ≤
      (before ++ (ws.flatMap wordBytes ++ after)).length := by
    rw [List.length_append, List.length_append, length_flatMap_of_const length_wordBytes]
    omega
  -- reading them all from there gives the entries by position, and they are the words written
  obtain ⟨vs, run, _, entry⟩ := ByteReader.word_readsAt.many _ bound
  have taken : ByteReader.many .word ws.length (ws.flatMap wordBytes ++ after) =
      some (ws.map id, after) := ByteReader.Takes.many ByteReader.word_append ws after
  rw [List.drop_left, taken, List.map_id, Option.some.injEq, Prod.mk.injEq] at run
  rw [← entry k hk, run.1]

theorem exists_indices {j : Nat} (hj : j < s.meshes.toNat) :
    ∃ before after, before.length = meshOffset s j + 256 ∧
      file s = before ++ (indices.flatMap wordBytes ++ after) := by
  obtain ⟨after, split⟩ := exists_flatMap_range cube hj
  refine ⟨front s ++ textureData s.textures.toNat ++ meshData j ++ vertexBytes j, after, ?_, ?_⟩
  · rw [List.length_append, List.length_append, List.length_append, length_front,
      length_textureData, length_meshData, length_vertexBytes]
    rfl
  · rw [file_eq, meshData, split, cube_eq, meshData]
    simp only [List.append_assoc]

theorem index_lt {v : UInt32} (hv : v ∈ indices) : v < 8 := by
  have all : indices.all (· < 8) = true := by decide
  exact of_decide_eq_true (List.all_eq_true.1 all v hv)

theorem exists_index {j k : Nat} (hj : j < s.meshes.toNat) (hk : k < indices.length) :
    ∃ v, word? (file s) (meshOffset s j + 256 + k * 4) = some v ∧ v < 8 := by
  obtain ⟨before, after, length, split⟩ := exists_indices hj
  have entry := List.getElem?_eq_getElem hk
  exact ⟨indices[k], by rw [split, ← length, word?_flatMap before after hk, entry],
    index_lt (List.getElem_mem hk)⟩

/-- What the parser finds in the file of a scene, and what a run makes of it. -/
structure ReadBack (s : SceneShape) (d : Directory) : Prop where
  parsed : Directory.parse (file s) = .ok d
  header : d.header = ⟨.ofNat (file s).length, s.textures, s.meshes⟩
  length : d.fileSize.toNat = (file s).length
  counts : d.textures.length = s.textures.toNat ∧ d.meshes.length = s.meshes.toNat
  mips : ∀ t ∈ d.textures, t.mips.length = 1
  tiles : Tiles (12 + s.textures.toNat * 12 + s.meshes.toNat * 16) (file s).length
    (d.textures.flatMap Texture.spans ++ d.meshes.flatMap Mesh.spans)
  indices : ∀ m ∈ d.meshes, ∀ k < m.numIndices.toNat,
    ∃ v, word? (file s) (m.indexOffset.toNat + k * 4) = some v ∧ v < m.numVertices
  texture : ∀ (j : Nat) (m : Mesh), d.meshes[j]? = some m →
    m.texture? = if s.textures = 0 then none else some (.ofNat (j % s.textures.toNat))
  seen : ∀ (c : Config) (script : List InputEvent), let w := c.world script (file s)
    ∃ r, w.controller.workload.resource = some r ∧
      w.renderer.resource.take r.size.toNat = file s ∧
      World.resourceNotice w.renderer.resource r = .sceneRead s.textures.toNat s.meshes.toNat

theorem texture?_meshOf (j : Nat) : (meshOf s j).texture? =
    if s.textures = 0 then none else some (.ofNat (j % s.textures.toNat)) := by
  by_cases h : s.textures = 0
  · rw [if_pos h]
    exact if_pos (if_pos h)
  · rw [if_neg h, Mesh.texture?]
    change (if meshTexture s j = noTexture then none else some (meshTexture s j)) = _
    rw [if_neg (meshTexture_ne h j), meshTexture, if_neg h]

theorem mem_meshes {m : Mesh} (hm : m ∈ meshes s) : ∃ j < s.meshes.toNat, m = meshOf s j := by
  obtain ⟨j, hj, rfl⟩ := List.mem_map.1 hm
  exact ⟨j, List.mem_range.1 hj, rfl⟩

theorem directory_readBack (h : (file s).length < UInt32.size) : ReadBack s (directory s) where
  parsed := parse_file s
  header := by
    rw [Directory.header, directory, length_textures, length_meshes, UInt32.ofNat_toNat,
      UInt32.ofNat_toNat, length_file]
  length := by
    rw [length_file] at h ⊢
    exact UInt32.toNat_ofNat_of_lt' h
  counts := ⟨length_textures s, length_meshes s⟩
  mips t ht := by
    obtain ⟨i, _, rfl⟩ := List.mem_map.1 ht
    rfl
  tiles := by
    rw [length_file] at h ⊢
    exact tiles_directory h
  indices m hm k hk := by
    obtain ⟨j, hj, rfl⟩ := mem_meshes hm
    have := meshOffset_add_le hj
    have : meshSize = 400 := rfl
    rw [length_file] at h
    rw [toNat_indexOffset (by omega)]
    exact exists_index hj hk
  texture j m hm := by
    rw [directory, meshes, List.getElem?_map] at hm
    obtain ⟨i, hi, rfl⟩ := Option.map_eq_some_iff.1 hm
    obtain ⟨_, rfl⟩ := List.getElem?_eq_some_iff.1 hi
    rw [List.getElem_range]
    exact texture?_meshOf j
  seen c script := by
    have size : (UInt32.ofNat (file s).length).toNat = (file s).length :=
      UInt32.toNat_ofNat_of_lt' h
    have whole : (file s).take (UInt32.ofNat (file s).length).toNat = file s := by
      rw [size, List.take_length]
    refine ⟨_, rfl, whole, ?_⟩
    change World.resourceNotice (file s) ⟨_, .ofNat (file s).length⟩ = _
    rw [World.resourceNotice, whole, parse_file, ← length_textures s, ← length_meshes s]
    rfl

/-- A scene whose file is not too long for 32 bits is read back as it was built. -/
theorem built_scene_reads_back (s : SceneShape) (h : (file s).length < UInt32.size) :
    ∃ d, ReadBack s d := ⟨directory s, directory_readBack h⟩

/-- Two textures and three meshes. -/
theorem built_scene_reads_back_two_three :
    (file ⟨2, 3⟩).length < UInt32.size ∧ ∃ d, ReadBack ⟨2, 3⟩ d := by
  have h : (file ⟨2, 3⟩).length < UInt32.size := by
    rw [length_file]
    decide
  exact ⟨h, built_scene_reads_back ⟨2, 3⟩ h⟩

end Scene

end Handoff
