import Mathlib.Algebra.BigOperators.Intervals
import Handoff.Resource.Directory

namespace Handoff

namespace Texture

variable (t : Texture)

/-- How many texels a level has, however deep it is. -/
def texels (level : Nat) : Nat := (t.width.toNat >>> level) * (t.height.toNat >>> level)

def mip (level : Nat) : Mip where
  level := level
  width := .ofNat (t.width.toNat >>> level)
  height := .ofNat (t.height.toNat >>> level)
  offset := t.offset + .ofNat (4 * ∑ j ∈ Finset.range level, t.texels j)

theorem shift_lt (w : UInt16) (level : Nat) : w.toNat >>> level < UInt32.size := by
  have hle : w.toNat >>> level ≤ w.toNat := Nat.shiftRight_le w.toNat level
  have hlt : w.toNat < UInt16.size := w.toNat_lt
  exact Nat.lt_trans (Nat.lt_of_le_of_lt hle hlt) (by decide)

/-- A shift by fewer than 32 places is the one that was meant. -/
theorem shift_eq (w : UInt16) {level : Nat} (h : level < 32) :
    w.toUInt32 >>> UInt32.ofNat level = UInt32.ofNat (w.toNat >>> level) := by
  apply UInt32.toNat_inj.1
  have hlevel : (UInt32.ofNat level).toNat = level := by
    apply UInt32.toNat_ofNat_of_lt'
    exact Nat.lt_trans h (by decide)
  rw [UInt32.toNat_shiftRight, UInt16.toNat_toUInt32, hlevel, Nat.mod_eq_of_lt h,
    UInt32.toNat_ofNat_of_lt' (shift_lt w level)]

theorem offset_mip_succ (level : Nat) :
    (t.mip (level + 1)).offset =
      (t.mip level).offset + (t.mip level).width * (t.mip level).height * 4 := by
  have htexels : UInt32.ofNat (4 * t.texels level) =
      (t.mip level).width * (t.mip level).height * 4 := by
    rw [Nat.mul_comm, UInt32.ofNat_mul, texels, UInt32.ofNat_mul]
    rfl
  rw [← htexels, mip, mip, Finset.sum_range_succ, Nat.mul_add, UInt32.ofNat_add, UInt32.add_assoc]

theorem mipsFrom_eq (level count : Nat) (h : level + count ≤ 32) :
    t.mipsFrom level (t.mip level).offset count = (List.range' level count).map t.mip := by
  induction count generalizing level with
  | zero => rfl
  | succ count ih =>
    have hlevel : level < 32 := by omega
    have hnext := ih (level + 1) (by omega)
    rw [offset_mip_succ] at hnext
    rw [mipsFrom, shift_eq t.width hlevel, shift_eq t.height hlevel, List.range'_succ,
      List.map_cons]
    exact congrArg (t.mip level :: ·) hnext

theorem mips_eq : t.mips = (List.range (min t.mipLevels.toNat 16)).map t.mip := by
  have hcount : 0 + min t.mipLevels.toNat 16 ≤ 32 := by omega
  have hstart : (t.mip 0).offset = t.offset := UInt32.add_zero t.offset
  rw [mips, List.range_eq_range', ← t.mipsFrom_eq 0 _ hcount, hstart]

theorem shift_eq_zero (w : UInt16) {level : Nat} (h : 16 ≤ level) : w.toNat >>> level = 0 := by
  apply Nat.shiftRight_eq_zero
  have hlt : w.toNat < 2 ^ 16 := w.toNat_lt
  exact Nat.lt_of_lt_of_le hlt (Nat.pow_le_pow_right Nat.two_pos h)

theorem sum_texels :
    ∑ k ∈ Finset.range (min t.mipLevels.toNat 16), t.texels k =
      ∑ k ∈ Finset.range t.mipLevels.toNat, t.texels k := by
  rcases Nat.le_total t.mipLevels.toNat 16 with h | h
  · rw [Nat.min_eq_left h]
  · rw [Nat.min_eq_right h]
    symm
    apply Finset.eventually_constant_sum _ h
    intro k hk
    rw [texels, shift_eq_zero t.width hk, Nat.zero_mul]

end Texture

/-- The mip chain of a texture. Its levels are numbered from zero and lie back to back, and those
that it leaves out are empty. -/
structure IsMipChain (t : Texture) (ms : List Mip) : Prop where
  length : ms.length = min t.mipLevels.toNat 16
  level : ∀ k m, ms[k]? = some m →
    m.level = k ∧ m.width.toNat = t.width.toNat >>> k ∧ m.height.toNat = t.height.toNat >>> k ∧
      m.offset.toNat = (t.offset.toNat + 4 * ∑ j ∈ Finset.range k,
        (t.width.toNat >>> j) * (t.height.toNat >>> j)) % UInt32.size
  adjacent : ∀ k m m', ms[k]? = some m → ms[k + 1]? = some m' →
    m'.offset.toNat = (m.offset.toNat + 4 * (m.width.toNat * m.height.toNat)) % UInt32.size
  beyond : ∀ k, 16 ≤ k → t.width.toNat >>> k = 0 ∧ t.height.toNat >>> k = 0
  complete : (ms.map fun m => m.width.toNat * m.height.toNat).sum =
    ∑ k ∈ Finset.range t.mipLevels.toNat, (t.width.toNat >>> k) * (t.height.toNat >>> k)

namespace Texture

variable {t : Texture}

theorem toNat_width_mip (level : Nat) : (t.mip level).width.toNat = t.width.toNat >>> level :=
  UInt32.toNat_ofNat_of_lt' (shift_lt t.width level)

theorem toNat_height_mip (level : Nat) : (t.mip level).height.toNat = t.height.toNat >>> level :=
  UInt32.toNat_ofNat_of_lt' (shift_lt t.height level)

theorem toNat_offset_mip (level : Nat) :
    (t.mip level).offset.toNat =
      (t.offset.toNat + 4 * ∑ j ∈ Finset.range level, t.texels j) % UInt32.size := by
  rw [mip, UInt32.toNat_add, UInt32.toNat_ofNat', Nat.add_mod_mod]

theorem eq_mip_of_getElem? {k : Nat} {m : Mip} (h : t.mips[k]? = some m) : m = t.mip k := by
  rw [mips_eq, List.getElem?_map] at h
  obtain ⟨i, hi, rfl⟩ := Option.map_eq_some_iff.1 h
  obtain ⟨_, rfl⟩ := List.getElem?_eq_some_iff.1 hi
  rw [List.getElem_range]

/-- The levels that a texture yields are those of its mip chain, and the ones that it leaves out
have no texels. -/
theorem mips_isMipChain (t : Texture) : IsMipChain t t.mips where
  length := by rw [mips_eq, List.length_map, List.length_range]
  level k m h := by
    cases eq_mip_of_getElem? h
    exact ⟨rfl, toNat_width_mip k, toNat_height_mip k, toNat_offset_mip k⟩
  adjacent k m m' h h' := by
    cases eq_mip_of_getElem? h
    cases eq_mip_of_getElem? h'
    rw [toNat_offset_mip, toNat_offset_mip, toNat_width_mip, toNat_height_mip,
      Finset.sum_range_succ, Nat.mul_add, Nat.mod_add_mod, Nat.add_assoc, texels]
  beyond k hk := ⟨shift_eq_zero t.width hk, shift_eq_zero t.height hk⟩
  complete := by
    have hsize (k : Nat) : (t.mip k).width.toNat * (t.mip k).height.toNat = t.texels k := by
      rw [toNat_width_mip, toNat_height_mip, texels]
    rw [mips_eq, List.map_map]
    calc ((List.range (min t.mipLevels.toNat 16)).map
          ((fun m : Mip => m.width.toNat * m.height.toNat) ∘ t.mip)).sum
      _ = ((List.range (min t.mipLevels.toNat 16)).map t.texels).sum :=
        congrArg List.sum (List.map_congr_left fun k _ => hsize k)
      _ = ∑ k ∈ Finset.range (min t.mipLevels.toNat 16), t.texels k := rfl
      _ = ∑ k ∈ Finset.range t.mipLevels.toNat, t.texels k := t.sum_texels

end Texture

/-- Two of these four levels are empty. -/
example : (Texture.mk 100 4 3 2).mips =
    [⟨0, 3, 2, 100⟩, ⟨1, 1, 1, 124⟩, ⟨2, 0, 0, 128⟩, ⟨3, 0, 0, 128⟩] := rfl

end Handoff
