import Handoff.CacheLine

namespace Handoff

/-- The lines that overlap a byte range, each once and in ascending order. -/
structure IsLineWalk (address len : UInt64) (lines : List UInt64) : Prop where
  ascending : lines.Pairwise (· < ·)
  mem_iff : ∀ line, line ∈ lines ↔
    64 ∣ line.toNat ∧ line.toNat < min (address.toNat + max len.toNat 1) UInt64.size ∧
      address.toNat < line.toNat + 64

theorem toNat_cacheLineSize : cacheLineSize.toNat = 64 := rfl

/-- Masking the low six bits clears them. -/
theorem toBitVec_lineOf (address : UInt64) :
    (lineOf address).toBitVec = address.toBitVec >>> 6 <<< 6 := by
  have hmask : ∀ i < 64, (~~~(cacheLineSize - 1)).toBitVec.getLsbD i = decide (6 ≤ i) := by decide
  rw [lineOf, UInt64.toBitVec_and]
  apply BitVec.eq_of_getLsbD_eq
  intro i hi
  rw [BitVec.getLsbD_and, hmask i hi, BitVec.getLsbD_shiftLeft, BitVec.getLsbD_ushiftRight]
  by_cases h : 6 ≤ i
  · simp [h, hi, Nat.not_lt.2 h]
  · simp [h, Nat.lt_of_not_le h]

theorem toNat_lineOf (address : UInt64) :
    (lineOf address).toNat = 64 * (address.toNat / 64) := by
  have hlt : address.toNat < 18446744073709551616 := address.toNat_lt
  rw [← UInt64.toNat_toBitVec, toBitVec_lineOf, BitVec.toNat_shiftLeft, BitVec.toNat_ushiftRight,
    UInt64.toNat_toBitVec, Nat.shiftRight_eq_div_pow, Nat.shiftLeft_eq]
  omega

theorem addChecked?_of_lt {a b : UInt64} (h : a.toNat + b.toNat < UInt64.size) :
    addChecked? a b = some (a + b) := if_pos h

theorem toNat_walkEnd (address len : UInt64) :
    (walkEnd address len).toNat = min (address.toNat + max len.toNat 1) (UInt64.size - 1) := by
  have hlen : (if len = 0 then 1 else len : UInt64).toNat = max len.toNat 1 := by
    split
    · next h =>
      subst len
      rfl
    · next h =>
      have hpos : len.toNat ≠ 0 := fun hz => h (UInt64.toNat_inj.1 hz)
      omega
  rw [walkEnd, addChecked?, hlen]
  split
  · next h =>
    rw [Option.getD_some, UInt64.toNat_add, hlen, Nat.mod_eq_of_lt h]
    omega
  · next h =>
    rw [Option.getD_none, topAddress]
    change UInt64.size - 1 = _
    omega

def lineAt (start : UInt64) (k : Nat) : UInt64 := .ofNat (start.toNat + 64 * k)

theorem lineAt_zero (start : UInt64) : lineAt start 0 = start := UInt64.ofNat_toNat

theorem lineAt_succ {start next : UInt64} (h : next.toNat = start.toNat + 64) (k : Nat) :
    lineAt next k = lineAt start (k + 1) := by
  have hsum : next.toNat + 64 * k = start.toNat + 64 * (k + 1) := by omega
  rw [lineAt, hsum, lineAt]

/-- As long as the lines lie within the address space, a walk computes one address after the other
and does not fail. -/
theorem linesFrom?_eq {start : UInt64} {count : Nat}
    (h : start.toNat + 64 * count ≤ UInt64.size) :
    linesFrom? start count = some ((List.range count).map (lineAt start)) := by
  induction count generalizing start with
  | zero => rfl
  | succ count ih =>
    -- the last line has no next one, whose address might not fit
    cases count with
    | zero =>
      rw [linesFrom?, List.range_one, List.map_singleton, lineAt_zero]
    | succ count =>
      have hfits : start.toNat + cacheLineSize.toNat < UInt64.size := by
        rw [toNat_cacheLineSize]
        omega
      have hnext : (start + cacheLineSize).toNat = start.toNat + 64 := by
        rw [UInt64.toNat_add]
        exact Nat.mod_eq_of_lt hfits
      have hrest : linesFrom? (start + cacheLineSize) (count + 1) =
          some ((List.range (count + 1)).map (lineAt (start + cacheLineSize))) := by
        apply ih
        omega
      have hmap : (List.range (count + 1)).map (lineAt (start + cacheLineSize)) =
          (List.range (count + 1)).map (lineAt start ∘ Nat.succ) :=
        List.map_congr_left fun k _ => lineAt_succ hnext k
      rw [linesFrom?, addChecked?_of_lt hfits, Option.bind_eq_bind, Option.bind_some, hrest, hmap,
        List.range_succ_eq_map (n := count + 1), List.map_cons, List.map_map, lineAt_zero]
      rfl

section Walk

variable (address len : UInt64)

def walkLength : Nat := linesBetween (lineOf address) (walkEnd address len)

theorem walkLength_eq :
    walkLength address len =
      (min (address.toNat + max len.toNat 1) (UInt64.size - 1) - 64 * (address.toNat / 64) + 63)
        / 64 := by
  rw [walkLength, linesBetween, toNat_walkEnd, toNat_lineOf, toNat_cacheLineSize]

/-- The last line of a walk is a whole one. -/
theorem walk_fits : (lineOf address).toNat + 64 * walkLength address len ≤ UInt64.size := by
  have hlt := address.toNat_lt
  have hsize : UInt64.size = 18446744073709551616 := rfl
  rw [toNat_lineOf, walkLength_eq]
  omega

theorem linesOf?_eq :
    linesOf? address len =
      some ((List.range (walkLength address len)).map (lineAt (lineOf address))) :=
  linesFrom?_eq (walk_fits address len)

theorem toNat_lineAt {k : Nat} (h : k < walkLength address len) :
    (lineAt (lineOf address) k).toNat = 64 * (address.toNat / 64 + k) := by
  have hfits := walk_fits address len
  rw [toNat_lineOf] at hfits
  rw [lineAt, toNat_lineOf, UInt64.toNat_ofNat_of_lt']
  · omega
  · omega

theorem isLineWalk_lines :
    IsLineWalk address len
      ((List.range (walkLength address len)).map (lineAt (lineOf address))) where
  ascending := by
    rw [List.pairwise_map]
    apply List.pairwise_lt_range.imp_of_mem
    intro j k hj hk hjk
    rw [UInt64.lt_iff_toNat_lt, toNat_lineAt address len (List.mem_range.1 hj),
      toNat_lineAt address len (List.mem_range.1 hk)]
    omega
  mem_iff line := by
    have hlen := walkLength_eq address len
    have hlt := line.toNat_lt
    have hsize : UInt64.size = 18446744073709551616 := rfl
    constructor
    · intro h
      obtain ⟨k, hk, rfl⟩ := List.mem_map.1 h
      have hk := List.mem_range.1 hk
      rw [toNat_lineAt address len hk]
      omega
    · rintro ⟨hline, hend, hstart⟩
      have hk : line.toNat / 64 - address.toNat / 64 < walkLength address len := by omega
      refine List.mem_map.2 ⟨line.toNat / 64 - address.toNat / 64, List.mem_range.2 hk, ?_⟩
      apply UInt64.toNat_inj.1
      rw [toNat_lineAt address len hk]
      omega

/-- Maintenance of a byte range visits the lines that overlap it, each once and in ascending order,
and ends with a barrier. No address on the way is too large. -/
theorem maintenance_visits_overlapping_lines :
    ∃ lines, IsLineWalk address len lines ∧
      cleanRange? address len = some (lines.map .clean ++ [.barrier]) ∧
      invalidateRange? address len = some (lines.map .cleanInvalidate ++ [.barrier]) := by
  refine ⟨_, isLineWalk_lines address len, ?_, ?_⟩
  · rw [cleanRange?, maintainRange?, linesOf?_eq]
    rfl
  · rw [invalidateRange?, maintainRange?, linesOf?_eq]
    rfl

end Walk

/-- A range that runs past the top of the address space ends with its last line. -/
example : linesOf? 0xFFFFFFFFFFFFFFBF 300 = some [0xFFFFFFFFFFFFFF80, 0xFFFFFFFFFFFFFFC0] := by
  decide

end Handoff
