import Handoff.Resource.Builder
import Handoff.Proofs.SceneFile

namespace Handoff.Scene

def shadeCount : Nat := 4096

theorem mapM_eq_ok {ε α β : Type} {f : α → Except ε β} {g : α → β} {l : List α}
    (h : ∀ x ∈ l, f x = .ok (g x)) : l.mapM f = .ok (l.map g) := by
  induction l with
  | nil => rfl
  | cons x l ih =>
    have hx := h x List.mem_cons_self
    have hl := ih fun y hy => h y (List.mem_cons_of_mem x hy)
    rw [List.mapM_cons, hx, hl]
    rfl

theorem foldlM_range_succ {ε α : Type} (f : α → Nat → Except ε α) (a : α) (n : Nat) :
    (List.range (n + 1)).foldlM f a = (List.range n).foldlM f a >>= (f · n) := by
  rw [List.range_succ, List.foldlM_append]
  apply bind_congr
  intro b
  rw [List.foldlM_cons]
  exact bind_pure (f b n)

theorem ok_bind {ε α β : Type} (x : α) (f : α → Except ε β) : (Except.ok x >>= f) = f x := rfl

theorem error_bind {ε α β : Type} (e : ε) (f : α → Except ε β) :
    ((Except.error e : Except ε α) >>= f) = .error e := rfl

namespace Builder

variable {s : SceneShape}

theorem below_of_lt {limit n : Nat} (e : Excess) (h : n < limit) : below limit n e = .ok n :=
  if_pos h

theorem room_of_lt {n : Nat} (h : n < UInt64.size / 2) : room n = .ok n := by
  have hn : n < UInt64.size := Nat.lt_of_lt_of_le h (Nat.div_le_self _ _)
  rw [room, below_of_lt .room hn]
  exact below_of_lt .room h

theorem tables_eq (s : SceneShape) : tables s = .ok (tablesSize s) := by
  have ht := s.textures.toNat_lt
  have hm := s.meshes.toNat_lt
  have hsize : UInt64.size = 18446744073709551616 := rfl
  have htextures : s.textures.toNat * textureEntrySize < UInt64.size := by
    unfold textureEntrySize
    omega
  have hfront : headerSize + s.textures.toNat * textureEntrySize < UInt64.size := by
    unfold headerSize textureEntrySize
    omega
  have hmeshes : s.meshes.toNat * meshEntrySize < UInt64.size := by
    unfold meshEntrySize
    omega
  have hall : headerSize + s.textures.toNat * textureEntrySize + s.meshes.toNat * meshEntrySize <
      UInt64.size := by
    unfold headerSize textureEntrySize meshEntrySize
    omega
  rw [tables, below_of_lt .tables htextures]
  rw [ok_bind, below_of_lt .tables hfront]
  rw [ok_bind, below_of_lt .tables hmeshes]
  exact below_of_lt .tables hall

theorem textureBytes_eq : textureBytes = .ok textureSize := rfl

theorem meshBytes_eq : meshBytes = .ok meshSize := rfl

theorem toNat_step {index : Nat} (h : index < UInt32.size) :
    (UInt32.ofNat index).toNat * shadeStep.toNat = index * 1048576 := by
  rw [UInt32.toNat_ofNat_of_lt' h]
  rfl

theorem darkTexel_of_lt {index : Nat} (h : index < shadeCount) :
    darkTexel index = .ok (Scene.darkTexel index) := by
  unfold shadeCount at h
  have hsize : UInt32.size = 4294967296 := rfl
  have hword : index < UInt32.size := by omega
  have hstep := toNat_step hword
  have hfits : (UInt32.ofNat index).toNat * shadeStep.toNat < UInt32.size := by omega
  rw [darkTexel, below_of_lt (.shade index) hfits, Scene.darkTexel]
  change Except.ok (0xFF202020 + UInt32.ofNat _) = _
  rw [UInt32.ofNat_mul, UInt32.ofNat_toNat, UInt32.ofNat_toNat]

theorem darkTexel_of_le {index : Nat} (h : shadeCount ≤ index) (hi : index < UInt32.size) :
    darkTexel index = .error (.shade index) := by
  unfold shadeCount at h
  have hsize : UInt32.size = 4294967296 := rfl
  have hstep := toNat_step hi
  have hlarge : ¬ (UInt32.ofNat index).toNat * shadeStep.toNat < UInt32.size := by omega
  rw [darkTexel, below, if_neg hlarge]
  rfl

theorem texel_eq (dark : UInt32) {x y : Nat} (hx : x < textureSide) (hy : y < textureSide) :
    texel dark x y =
      .ok (if (x / checkerSide + y / checkerSide) % 2 = 0 then lightTexel else dark) := by
  have hfits : x / checkerSide + y / checkerSide < UInt16.size := by
    have hsize : UInt16.size = 65536 := rfl
    unfold textureSide checkerSide at *
    omega
  rw [texel, below_of_lt .square hfits]
  rfl

theorem checkerboard_of_lt {index : Nat} (h : index < shadeCount) :
    checkerboard index = .ok (Scene.checkerboard index) := by
  have hrow (y : Nat) (hy : y ∈ List.range textureSide) :
      ((List.range textureSide).mapM fun x => texel (Scene.darkTexel index) x y) =
        .ok ((List.range textureSide).map fun x => Scene.texel index x y) :=
    mapM_eq_ok fun x hx => texel_eq _ (List.mem_range.1 hx) (List.mem_range.1 hy)
  rw [checkerboard, darkTexel_of_lt h]
  rw [ok_bind, mapM_eq_ok hrow]
  change Except.ok (List.flatMap _ _) = _
  rw [List.flatMap_map, Scene.checkerboard]
  simp only [List.flatMap_map]

theorem checkerboard_of_le {index : Nat} (h : shadeCount ≤ index) (hi : index < UInt32.size) :
    checkerboard index = .error (.shade index) := by
  rw [checkerboard, darkTexel_of_le h hi]
  rfl

/-- Where the data of a draft ends, which leaves room for the next texture or mesh. -/
theorem position_lt (s : SceneShape) {n m : Nat} {d : Draft} (h : d.Holds s n m)
    (hn : n < UInt32.size) (hm : m < UInt32.size) :
    tablesSize s + d.data.size + textureSize + meshSize < UInt64.size / 2 := by
  have ht := s.textures.toNat_lt
  have hms := s.meshes.toNat_lt
  have hsize : UInt64.size = 18446744073709551616 := rfl
  have hword : UInt32.size = 4294967296 := rfl
  have htexture : textureSize = 1024 := rfl
  have hmesh : meshSize = 400 := rfl
  rw [h.size_data, htexture, hmesh, tablesSize, headerSize, textureEntrySize, meshEntrySize]
  omega

theorem addTexture_of_lt {n : Nat} {d : Draft} (h : d.Holds s n 0) (hn : n < shadeCount) :
    addTexture (tablesSize s) textureSize d n = .ok (d.addTexture s n) := by
  have hword : shadeCount < UInt32.size := by decide
  have hlt := position_lt s h (Nat.lt_trans hn hword) (by decide)
  have hposition : tablesSize s + d.data.size < UInt64.size := by omega
  have hroom : d.data.size + textureSize < UInt64.size / 2 := by omega
  rw [addTexture, below_of_lt .position hposition]
  rw [ok_bind, room_of_lt hroom]
  rw [ok_bind, checkerboard_of_lt hn]
  rfl

theorem addTexture_of_le {n : Nat} {d : Draft} (h : d.Holds s n 0) (hn : shadeCount ≤ n)
    (hi : n < UInt32.size) :
    addTexture (tablesSize s) textureSize d n = .error (.shade n) := by
  have hlt := position_lt s h hi (by decide)
  have hposition : tablesSize s + d.data.size < UInt64.size := by omega
  have hroom : d.data.size + textureSize < UInt64.size / 2 := by omega
  rw [addTexture, below_of_lt .position hposition]
  rw [ok_bind, room_of_lt hroom]
  rw [ok_bind, checkerboard_of_le hn hi]
  rfl

theorem addMesh_eq {m : Nat} {d : Draft} (h : d.Holds s s.textures.toNat m)
    (hm : m < UInt32.size) :
    addMesh s (tablesSize s) meshSize d m = .ok (d.addMesh s m) := by
  have hlt := position_lt s h s.textures.toNat_lt hm
  have hposition : tablesSize s + d.data.size < UInt64.size := by omega
  have hroom : d.data.size + meshSize < UInt64.size / 2 := by omega
  rw [addMesh, below_of_lt .position hposition]
  rw [ok_bind, room_of_lt hroom]
  rfl

theorem addTextures_of_le {n : Nat} (hn : n ≤ shadeCount) :
    (List.range n).foldlM (addTexture (tablesSize s) textureSize) .empty =
      .ok ((List.range n).foldl (Draft.addTexture s) .empty) := by
  induction n with
  | zero => rfl
  | succ n ih =>
    rw [foldlM_range_succ, ih (Nat.le_of_succ_le hn), List.range_succ, List.foldl_append]
    exact addTexture_of_lt (Draft.Holds.addTextures n) hn

theorem addTextures_of_lt {n : Nat} (hn : shadeCount < n) :
    (List.range n).foldlM (addTexture (tablesSize s) textureSize) .empty =
      .error (.shade shadeCount) := by
  induction hn with
  | refl =>
    rw [foldlM_range_succ, addTextures_of_le (Nat.le_refl _), ok_bind]
    exact addTexture_of_le (Draft.Holds.addTextures _) (Nat.le_refl _) (by decide)
  | step _ ih => rw [foldlM_range_succ, ih, error_bind]

theorem addMeshes_eq {d : Draft} (h : d.Holds s s.textures.toNat 0) {m : Nat}
    (hm : m ≤ UInt32.size) :
    (List.range m).foldlM (addMesh s (tablesSize s) meshSize) d =
      .ok ((List.range m).foldl (Draft.addMesh s) d) := by
  induction m with
  | zero => rfl
  | succ m ih =>
    rw [foldlM_range_succ, ih (Nat.le_of_succ_le hm), List.range_succ, List.foldl_append]
    exact addMesh_eq (h.addMeshes m) hm

theorem build_eq (s : SceneShape) :
    build s =
      (List.range s.textures.toNat).foldlM (addTexture (tablesSize s) textureSize) .empty >>=
      fun d => (List.range s.meshes.toNat).foldlM (addMesh s (tablesSize s) meshSize) d >>=
      fun d => below UInt64.size (tablesSize s + d.data.size) .position >>=
      fun size => room size >>=
      fun _ => .ok (wordBytes (.ofNat size) ++ (wordBytes s.textures ++ (wordBytes s.meshes ++
        (d.textures.toList ++ (d.meshes.toList ++ d.data.toList))))) := by
  have ht := s.textures.toNat_lt
  have hm := s.meshes.toNat_lt
  have hsize : UInt64.size = 18446744073709551616 := rfl
  have htextures : s.textures.toNat * textureEntrySize < UInt64.size / 2 := by
    unfold textureEntrySize
    omega
  have hmeshes : s.meshes.toNat * meshEntrySize < UInt64.size / 2 := by
    unfold meshEntrySize
    omega
  rw [build, tables_eq, textureBytes_eq, meshBytes_eq]
  rw [ok_bind, room_of_lt htextures]
  rw [ok_bind, room_of_lt hmeshes]
  rfl

theorem build_of_le (h : s.textures.toNat ≤ shadeCount) : build s = .ok (file s) := by
  have hlt := position_lt s (draft_holds s) s.textures.toNat_lt s.meshes.toNat_lt
  have hposition : tablesSize s + (draft s).data.size < UInt64.size := by omega
  have hroom : tablesSize s + (draft s).data.size < UInt64.size / 2 := by omega
  have hmeshes : _ = Except.ok (draft s) :=
    addMeshes_eq (Draft.Holds.addTextures s.textures.toNat) (Nat.le_of_lt s.meshes.toNat_lt)
  rw [build_eq, addTextures_of_le h]
  rw [ok_bind, hmeshes]
  rw [ok_bind, below_of_lt .position hposition]
  rw [ok_bind, room_of_lt hroom]
  rfl

theorem build_of_lt (h : shadeCount < s.textures.toNat) :
    build s = .error (.shade shadeCount) := by
  rw [build_eq, addTextures_of_lt h]
  rfl

end Builder

theorem shadesFit_iff (n : Nat) : shadesFit n = true ↔ n ≤ shadeCount := by
  have hstep : shadeStep.toNat = 1048576 := rfl
  have hsize : UInt32.size = 4294967296 := rfl
  rw [shadesFit, decide_eq_true_eq, hstep, shadeCount]
  omega

/-- A run builds its scene just where no number comes out too large. -/
theorem file?_eq (s : SceneShape) : file? s = (Builder.build s).toOption := by
  unfold file?
  split
  · next h =>
    rw [Builder.build_of_le ((shadesFit_iff _).1 h)]
    rfl
  · next h =>
    rw [Builder.build_of_lt (Nat.lt_of_not_le fun hle => h ((shadesFit_iff _).2 hle))]
    rfl

/-- While a scene is built, the only number that can come out too large is the shade of a texture,
and it does so from texture 4096 on. -/
theorem numbers_fit (s : SceneShape) :
    Builder.build s =
      if s.textures.toNat ≤ 4096 then .ok (file s) else .error (.shade 4096) := by
  split
  · next h => exact Builder.build_of_le h
  · next h => exact Builder.build_of_lt (Nat.lt_of_not_le h)

/-- Four megabytes of textures are too many. -/
theorem shade_too_large :
    (file ⟨4097, 0⟩).length < UInt32.size ∧ Builder.build ⟨4097, 0⟩ = .error (.shade 4096) := by
  refine ⟨?_, Builder.build_of_lt (by decide)⟩
  rw [length_file]
  decide

end Handoff.Scene
