import Mathlib.Algebra.Order.Field.Power
import Mathlib.Algebra.Order.Ring.Rat
import Mathlib.Order.Compare
import Mathlib.Tactic.Linarith
import Mathlib.Tactic.Ring
import Mathlib.Tactic.Positivity
import Handoff.Binary.Arith

namespace Handoff

structure Format.Proper (f : Format) : Prop where
  precision : 0 < f.precision
  exponents : f.minExponent ≤ f.maxExponent

theorem Format.proper_single : Format.single.Proper := ⟨by decide, by decide⟩

/-- Half a unit of the last place above the largest number. -/
def Format.limit (f : Format) : ℚ := (2 ^ f.precision - 1 / 2) * 2 ^ f.maxExponent

theorem two_zpow_add_one (e : Int) : (2 : ℚ) ^ (e + 1) = 2 * 2 ^ e := by
  rw [zpow_add_one₀ two_ne_zero, mul_comm]

theorem two_zpow_pos (e : Int) : (0 : ℚ) < 2 ^ e := zpow_pos two_pos e

theorem cast_shiftLeft (n : Nat) {e low : Int} (h : low ≤ e) :
    ((n <<< (e - low).toNat : Nat) : ℚ) * 2 ^ low = n * 2 ^ e := by
  have he : (((e - low).toNat : Nat) : Int) = e - low := Int.toNat_of_nonneg (Int.sub_nonneg.2 h)
  rw [Nat.shiftLeft_eq, Nat.cast_mul, Nat.cast_pow, Nat.cast_ofNat, ← zpow_natCast, he, mul_assoc,
    ← zpow_add₀ two_ne_zero, sub_add_cancel]

section Significand

theorem roundDiv_one (a : Nat) : roundDiv a 1 = a := by
  simp [roundDiv, Nat.mod_one]

/-- Rounding moves a quotient by half a unit at most. -/
theorem roundDiv_near (a : Nat) {b : Nat} (hb : 0 < b) :
    2 * a ≤ 2 * (roundDiv a b * b) + b ∧ 2 * (roundDiv a b * b) ≤ 2 * a + b := by
  have hd : b * (a / b) + a % b = a := Nat.div_add_mod a b
  have hr : a % b < b := Nat.mod_lt a hb
  rw [mul_comm] at hd
  unfold roundDiv
  dsimp only
  split
  · next h =>
    rw [Nat.add_mul, Nat.one_mul]
    simp only [Bool.or_eq_true, decide_eq_true_eq, Bool.and_eq_true, beq_iff_eq] at h
    omega
  · next h =>
    simp only [Bool.or_eq_true, decide_eq_true_eq, Bool.and_eq_true, beq_iff_eq] at h
    omega

theorem scale_of_le (n d : Nat) {s : Int} (h : 0 ≤ s) : scale n d s = (n <<< s.toNat, d) := if_pos h

theorem scale_of_lt (n d : Nat) {s : Int} (h : s < 0) : scale n d s = (n, d <<< (-s).toNat) :=
  if_neg (not_le.2 h)

theorem leadingExponent_one {n : Nat} (h : n ≠ 0) : leadingExponent n 1 = n.log2 := by
  have hlog : 1 <<< n.log2 ≤ n := by
    rw [Nat.one_shiftLeft]
    exact Nat.log2_self_le h
  have hone : (1 : Nat).log2 = 0 := by decide
  rw [leadingExponent, hone]
  dsimp only
  rw [Nat.cast_zero, sub_zero]
  rcases Nat.eq_zero_or_pos n.log2 with h₀ | h₀
  · rw [h₀, scale_of_le _ _ (by simp)]
    simp [Nat.one_le_iff_ne_zero, h]
  · rw [scale_of_lt _ _ (by omega)]
    simp [hlog]

variable (f : Format) (n : Nat) (e : Int)

/-- The weight of the last place that the format keeps of `n * 2 ^ e`. -/
def lastPlace : Int := max (n.log2 + e - (f.precision - 1)) f.minExponent

def kept : Nat :=
  let (a, b) := scale n 1 (e - lastPlace f n e)
  roundDiv a b

theorem kept_exact (h : lastPlace f n e ≤ e) :
    (kept f n e : ℚ) * 2 ^ lastPlace f n e = n * 2 ^ e := by
  rw [kept, scale_of_le _ _ (Int.sub_nonneg.2 h)]
  dsimp only
  rw [roundDiv_one]
  exact cast_shiftLeft n h

theorem kept_near :
    |(kept f n e : ℚ) * 2 ^ lastPlace f n e - n * 2 ^ e| ≤ 2 ^ lastPlace f n e / 2 := by
  rcases le_or_gt (lastPlace f n e) e with h | h
  · rw [kept_exact f n e h, sub_self, abs_zero]
    exact (half_pos (two_zpow_pos _)).le
  · rw [kept, scale_of_lt _ _ (sub_neg.2 h), neg_sub]
    dsimp only
    generalize hb : 1 <<< (lastPlace f n e - e).toNat = b
    have hq : (b : ℚ) * 2 ^ e = 2 ^ lastPlace f n e := by
      rw [← hb, cast_shiftLeft 1 h.le, Nat.cast_one, one_mul]
    have hpos : 0 < b := by
      rw [← hb, Nat.one_shiftLeft]
      exact Nat.two_pow_pos _
    obtain ⟨hlow, hhigh⟩ := roundDiv_near n hpos
    have hlow' : (2 * n : ℚ) ≤ 2 * (roundDiv n b * b) + b := mod_cast hlow
    have hhigh' : (2 * (roundDiv n b * b) : ℚ) ≤ 2 * n + b := mod_cast hhigh
    rw [← hq, abs_le]
    constructor
    · nlinarith [two_zpow_pos e]
    · nlinarith [two_zpow_pos e]

variable {f n}

theorem lt_kept_unit : (n : ℚ) * 2 ^ e < 2 ^ f.precision * 2 ^ lastPlace f n e := by
  have hlog : (n : ℚ) < 2 ^ (n.log2 + 1) := mod_cast Nat.lt_log2_self
  calc (n : ℚ) * 2 ^ e < 2 ^ (n.log2 + 1) * 2 ^ e := mul_lt_mul_of_pos_right hlog (two_zpow_pos e)
    _ = 2 ^ ((n.log2 + 1 : Int) + e) := by rw [zpow_add₀ two_ne_zero]; rfl
    _ ≤ 2 ^ ((f.precision : Int) + lastPlace f n e) := by
      refine zpow_le_zpow_right₀ one_le_two ?_
      have := le_max_left (n.log2 + e - (f.precision - 1)) f.minExponent
      rw [← lastPlace] at this
      omega
    _ = 2 ^ f.precision * 2 ^ lastPlace f n e := by rw [zpow_add₀ two_ne_zero]; rfl

/-- The significand is too long by at most the carry of the rounding. -/
theorem kept_le : kept f n e ≤ 2 ^ f.precision := by
  have hn := (abs_le.1 (kept_near f n e)).2
  have hlt := lt_kept_unit (f := f) (n := n) e
  have hu := two_zpow_pos (lastPlace f n e)
  by_contra hk
  have hk' : (2 : ℚ) ^ f.precision + 1 ≤ kept f n e := mod_cast Nat.lt_of_not_ge hk
  nlinarith

theorem kept_unit_le (hf : f.Proper) (hn : n ≠ 0) (h : lastPlace f n e ≠ f.minExponent) :
    (2 : ℚ) ^ (f.precision - 1) * 2 ^ lastPlace f n e ≤ n * 2 ^ e := by
  have hq : (f.precision - 1 : Nat) + lastPlace f n e = n.log2 + e := by
    have hp := hf.precision
    unfold lastPlace at h ⊢
    omega
  have hlog : (2 : ℚ) ^ n.log2 ≤ n := mod_cast Nat.log2_self_le hn
  calc (2 : ℚ) ^ (f.precision - 1) * 2 ^ lastPlace f n e
      = 2 ^ ((f.precision - 1 : Nat) + lastPlace f n e) := by rw [zpow_add₀ two_ne_zero]; rfl
    _ = 2 ^ n.log2 * 2 ^ e := by rw [hq, zpow_add₀ two_ne_zero]; rfl
    _ ≤ n * 2 ^ e := mul_le_mul_of_nonneg_right hlog (two_zpow_pos e).le

/-- A significand is short only at the least exponent. -/
theorem le_kept (hf : f.Proper) (hn : n ≠ 0) (h : lastPlace f n e ≠ f.minExponent) :
    2 ^ (f.precision - 1) ≤ kept f n e := by
  have hv := kept_unit_le e hf hn h
  have hnear := (abs_le.1 (kept_near f n e)).1
  have hu := two_zpow_pos (lastPlace f n e)
  by_contra hk
  have hk' : (kept f n e : ℚ) + 1 ≤ 2 ^ (f.precision - 1) := mod_cast Nat.lt_of_not_ge hk
  nlinarith

theorem two_pow_precision (hf : f.Proper) : 2 ^ f.precision = 2 * 2 ^ (f.precision - 1) := by
  rw [← pow_succ', Nat.sub_add_cancel hf.precision]

theorem lastPlace_le (hf : f.Proper) (hn : n ≠ 0) (h : (n : ℚ) * 2 ^ e < f.limit) :
    lastPlace f n e ≤ f.maxExponent := by
  by_contra hq
  have hne : lastPlace f n e ≠ f.minExponent := by
    have := hf.exponents
    omega
  have hv := kept_unit_le e hf hn hne
  have hp : (2 : ℚ) ^ f.precision = 2 * 2 ^ (f.precision - 1) := mod_cast two_pow_precision hf
  have hone : (1 : ℚ) ≤ 2 ^ (f.precision - 1) := one_le_pow₀ one_le_two
  have hstep : (2 : ℚ) * 2 ^ f.maxExponent ≤ 2 ^ lastPlace f n e := by
    rw [← two_zpow_add_one]
    exact zpow_le_zpow_right₀ one_le_two (by omega)
  have hu := two_zpow_pos f.maxExponent
  rw [Format.limit, hp] at h
  nlinarith

theorem lastPlace_lt (hf : f.Proper) (hn : n ≠ 0) (h : (n : ℚ) * 2 ^ e < f.limit)
    (hk : kept f n e = 2 ^ f.precision) : lastPlace f n e < f.maxExponent := by
  refine lt_of_le_of_ne (lastPlace_le e hf hn h) fun hq => ?_
  have hnear := (abs_le.1 (kept_near f n e)).2
  rw [hk, hq] at hnear
  push_cast at hnear
  rw [Format.limit] at h
  linarith

end Significand

namespace Binary

variable {f : Format}

def withSign (negative : Bool) (q : ℚ) : ℚ := if negative then -q else q

@[simp] theorem withSign_zero (s : Bool) : withSign s 0 = 0 := by cases s <;> simp [withSign]

@[simp] theorem abs_withSign (s : Bool) (q : ℚ) : |withSign s q| = |q| := by
  cases s <;> simp [withSign]

def value : Binary f → ℚ
  | finite s m e _ => withSign s (m * 2 ^ e)
  | _ => 0

theorem value_finite (s : Bool) {m : Nat} {e : Int} (h : f.Fits m e) :
    (finite s m e h).value = withSign s (m * 2 ^ e) := rfl

theorem cast_multiple (s : Bool) (m : Nat) {e low : Int} (h : low ≤ e) :
    (multiple s m e low : ℚ) * 2 ^ low = withSign s (m * 2 ^ e) := by
  have hm := cast_shiftLeft m h
  cases s with
  | false => exact hm
  | true =>
    have hn : (multiple true m e low : ℚ) = -((m <<< (e - low).toNat : Nat) : ℚ) :=
      (Int.cast_neg _).trans (congrArg Neg.neg (Int.cast_natCast _))
    rw [hn, neg_mul, hm]
    rfl

theorem compare?_eq {x y : Binary f} (hx : x.isFinite) (hy : y.isFinite) :
    x.compare? y = some (compare x.value y.value) := by
  cases x with
  | nan => cases hx
  | infinity => cases hx
  | finite s m e =>
    cases y with
    | nan => cases hy
    | infinity => cases hy
    | finite t n d =>
      have hmono : StrictMono fun z : Int => (z : ℚ) * 2 ^ min e d :=
        fun a b h => mul_lt_mul_of_pos_right (Int.cast_lt.2 h) (two_zpow_pos _)
      have hc := hmono.cmp_map_eq (multiple s m e (min e d)) (multiple t n d (min e d))
      rw [cast_multiple s m (min_le_left e d), cast_multiple t n (min_le_right e d),
        cmp_eq_compare, cmp_eq_compare] at hc
      exact congrArg some hc.symm

theorem lt_iff {x y : Binary f} (hx : x.isFinite) (hy : y.isFinite) :
    x < y ↔ x.value < y.value := by
  rw [← compare_lt_iff_lt]
  change (x.compare? y == some .lt) = true ↔ _
  rw [compare?_eq hx hy]
  simp

theorem le_iff {x y : Binary f} (hx : x.isFinite) (hy : y.isFinite) :
    x ≤ y ↔ x.value ≤ y.value := by
  rw [le_iff_lt_or_eq, ← lt_iff hx hy, ← compare_eq_iff_eq]
  change (x.less y || x.compare? y == some .eq) = true ↔ x.less y = true ∨ _
  rw [compare?_eq hx hy]
  simp

theorem isFinite_neg {x : Binary f} (h : x.isFinite) : (-x).isFinite := by
  cases x with
  | nan => cases h
  | infinity => cases h
  | finite => rfl

/-- Any two values are in order, unless one is no number. -/
theorem lt_or_le {x y : Binary f} (hx : x.isNan = false) (hy : y.isNan = false) :
    x < y ∨ y ≤ x := by
  cases x with
  | nan => cases hx
  | infinity s =>
    cases y with
    | nan => cases hy
    | infinity t => cases s <;> cases t <;> first | exact .inl rfl | exact .inr rfl
    | finite t n d => cases s <;> first | exact .inl rfl | exact .inr rfl
  | finite s m e =>
    cases y with
    | nan => cases hy
    | infinity t => cases t <;> first | exact .inl rfl | exact .inr rfl
    | finite t n d =>
      rw [lt_iff rfl rfl, le_iff rfl rfl]
      exact lt_or_ge _ _

theorem abs_value (s : Bool) {m : Nat} {e : Int} (h : f.Fits m e) :
    |(finite s m e h).value| = m * 2 ^ e := by
  rw [value, abs_withSign, abs_of_nonneg]
  exact mul_nonneg (Nat.cast_nonneg m) (two_zpow_pos e).le

/-- The largest number is half a unit of its last place below the limit. -/
theorem abs_value_le {x : Binary f} (hx : x.isFinite) :
    |x.value| + 2 ^ f.maxExponent / 2 ≤ f.limit := by
  cases x with
  | nan => cases hx
  | infinity => cases hx
  | finite s m e h =>
    have hm : (m : ℚ) + 1 ≤ 2 ^ f.precision := mod_cast Nat.one_shiftLeft _ ▸ h.1
    have he : (2 : ℚ) ^ e ≤ 2 ^ f.maxExponent := zpow_le_zpow_right₀ one_le_two h.2.2.1
    have hv : (m : ℚ) * 2 ^ e ≤ m * 2 ^ f.maxExponent :=
      mul_le_mul_of_nonneg_left he (Nat.cast_nonneg m)
    have hu := two_zpow_pos f.maxExponent
    rw [abs_value, Format.limit]
    nlinarith

theorem ofParts_of_fits (s : Bool) {m : Nat} {e : Int} (h : f.Fits m e) :
    (ofParts s m e : Binary f) = finite s m e h := dif_pos h

/-- A number up to the limit rounds to a finite one: what is kept fits, if need be after the carry
of the rounding. -/
theorem exists_round (hf : f.Proper) (s : Bool) {n : Nat} {e : Int} (hn : n ≠ 0)
    (h : (n : ℚ) * 2 ^ e < f.limit) :
    (round s n 1 e : Binary f).isFinite ∧
      (round s n 1 e : Binary f).value = withSign s (kept f n e * 2 ^ lastPlace f n e) := by
  have hr : (round s n 1 e : Binary f) =
      if kept f n e = 1 <<< f.precision then
        ofParts s (1 <<< (f.precision - 1)) (lastPlace f n e + 1)
      else ofParts s (kept f n e) (lastPlace f n e) := by
    rw [round, if_neg hn, leadingExponent_one hn]
    rfl
  have hlow : f.minExponent ≤ lastPlace f n e := le_max_right _ _
  have hpow := two_pow_precision hf
  rw [hr, Nat.one_shiftLeft, Nat.one_shiftLeft]
  split
  · next hk =>
    have hfits : f.Fits (2 ^ (f.precision - 1)) (lastPlace f n e + 1) := by
      refine ⟨?_, by omega, lastPlace_lt e hf hn h hk, .inl ?_⟩
      · rw [Nat.one_shiftLeft, hpow]
        have := Nat.two_pow_pos (f.precision - 1)
        omega
      · rw [Nat.one_shiftLeft]
    rw [ofParts_of_fits s hfits]
    refine ⟨rfl, ?_⟩
    rw [value, hk, hpow, two_zpow_add_one]
    push_cast
    ring_nf
  · next hk =>
    have hfits : f.Fits (kept f n e) (lastPlace f n e) := by
      refine ⟨?_, hlow, lastPlace_le e hf hn h, ?_⟩
      · rw [Nat.one_shiftLeft]
        exact lt_of_le_of_ne (kept_le e) hk
      · rw [Nat.one_shiftLeft]
        by_cases hq : lastPlace f n e = f.minExponent
        · exact .inr hq
        · exact .inl (le_kept e hf hn hq)
    rw [ofParts_of_fits s hfits]
    exact ⟨rfl, rfl⟩

theorem zero_eq (hf : f.Proper) (s : Bool) :
    ∃ h, (zero s : Binary f) = finite s 0 f.minExponent h := by
  have h : f.Fits 0 f.minExponent := by
    refine ⟨?_, le_rfl, hf.exponents, .inr rfl⟩
    rw [Nat.one_shiftLeft]
    exact Nat.two_pow_pos _
  exact ⟨h, ofParts_of_fits s h⟩

theorem ofNat_zero : (0 : Binary f) = zero false := rfl

theorem isFinite_zero (hf : f.Proper) (s : Bool) : (zero s : Binary f).isFinite := by
  obtain ⟨_, hz⟩ := zero_eq hf s
  rw [hz]
  rfl

theorem value_zero (hf : f.Proper) (s : Bool) : (zero s : Binary f).value = 0 := by
  obtain ⟨_, hz⟩ := zero_eq hf s
  rw [hz]
  simp [value]

theorem isFinite_ofNat_zero (hf : f.Proper) : (0 : Binary f).isFinite := isFinite_zero hf false

theorem value_ofNat_zero (hf : f.Proper) : (0 : Binary f).value = 0 := value_zero hf false

theorem isFinite_round (hf : f.Proper) (s : Bool) {n : Nat} {e : Int}
    (h : (n : ℚ) * 2 ^ e < f.limit) : (round s n 1 e : Binary f).isFinite := by
  by_cases hn : n = 0
  · rw [round, if_pos hn]
    exact isFinite_zero hf s
  · exact (exists_round hf s hn h).1

theorem round_exact (hf : f.Proper) (s : Bool) {n : Nat} {e : Int} (hn : n < 2 ^ f.precision)
    (hlow : f.minExponent ≤ e) (hhigh : e ≤ f.maxExponent) :
    (round s n 1 e : Binary f).isFinite ∧
      (round s n 1 e : Binary f).value = withSign s (n * 2 ^ e) := by
  by_cases h₀ : n = 0
  · rw [round, if_pos h₀, h₀, Nat.cast_zero, zero_mul, withSign_zero]
    exact ⟨isFinite_zero hf s, value_zero hf s⟩
  · have hlimit : (n : ℚ) * 2 ^ e < f.limit := by
      have hn' : (n : ℚ) + 1 ≤ 2 ^ f.precision := mod_cast hn
      have he : (2 : ℚ) ^ e ≤ 2 ^ f.maxExponent := zpow_le_zpow_right₀ one_le_two hhigh
      have hv : (n : ℚ) * 2 ^ e ≤ n * 2 ^ f.maxExponent :=
        mul_le_mul_of_nonneg_left he (Nat.cast_nonneg n)
      have hu := two_zpow_pos f.maxExponent
      rw [Format.limit]
      nlinarith
    have hlog : n.log2 < f.precision := (Nat.log2_lt h₀).2 hn
    have hlast : lastPlace f n e ≤ e := by
      unfold lastPlace
      omega
    rw [← kept_exact f n e hlast]
    exact exists_round hf s h₀ hlimit

theorem zero_le_ofParts (hf : f.Proper) (m : Nat) (e : Int) :
    (0 : Binary f) ≤ ofParts false m e := by
  obtain ⟨h₀, hz⟩ := zero_eq hf false
  rw [ofNat_zero, hz, ofParts]
  split
  · rw [le_iff rfl rfl]
    rw [value_finite, value_finite, Nat.cast_zero, zero_mul, withSign_zero]
    exact mul_nonneg (Nat.cast_nonneg m) (two_zpow_pos e).le
  · rfl

theorem zero_le_round (hf : f.Proper) (n d : Nat) (e : Int) :
    (0 : Binary f) ≤ round false n d e := by
  unfold round
  split
  · exact zero_le_ofParts hf 0 _
  · dsimp only
    split
    · exact zero_le_ofParts hf _ _
    · exact zero_le_ofParts hf _ _

theorem add_eq (s t : Bool) {m n : Nat} {e d : Int} (h : f.Fits m e) (h' : f.Fits n d) :
    ∃ k : Int, (k : ℚ) * 2 ^ min e d = (finite s m e h).value + (finite t n d h').value ∧
      finite s m e h + finite t n d h' = if k = 0 then zero (s && t) else ofScaled k (min e d) := by
  refine ⟨multiple s m e (min e d) + multiple t n d (min e d), ?_, rfl⟩
  rw [Int.cast_add, add_mul, cast_multiple s m (min_le_left e d),
    cast_multiple t n (min_le_right e d)]
  rfl

theorem isFinite_add (hf : f.Proper) {x y : Binary f} (hx : x.isFinite) (hy : y.isFinite)
    (h : |x.value + y.value| < f.limit) : (x + y).isFinite := by
  cases x with
  | nan => cases hx
  | infinity => cases hx
  | finite s m e hm =>
    cases y with
    | nan => cases hy
    | infinity => cases hy
    | finite t n d hn =>
      obtain ⟨k, hk, ha⟩ := add_eq s t hm hn
      rw [← hk, abs_mul, abs_of_pos (two_zpow_pos _), ← Int.cast_abs,
        ← Int.natCast_natAbs, Int.cast_natCast] at h
      rw [ha]
      split
      · exact isFinite_zero hf _
      · exact isFinite_round hf _ h

theorem zero_le_add (hf : f.Proper) {x y : Binary f} (hx : x.isFinite) (hy : y.isFinite)
    (h : 0 ≤ x.value + y.value) : 0 ≤ x + y := by
  cases x with
  | nan => cases hx
  | infinity => cases hx
  | finite s m e hm =>
    cases y with
    | nan => cases hy
    | infinity => cases hy
    | finite t n d hn =>
      obtain ⟨k, hk, ha⟩ := add_eq s t hm hn
      have hk₀ : 0 ≤ k := by
        rw [← hk] at h
        exact Int.cast_nonneg_iff.1 (nonneg_of_mul_nonneg_left h (two_zpow_pos _))
      rw [ha]
      split
      · rw [ofNat_zero, le_iff (isFinite_zero hf _) (isFinite_zero hf _), value_zero hf,
          value_zero hf]
      · rw [ofScaled, decide_eq_false (not_lt.2 hk₀)]
        exact zero_le_round hf _ _ _

/-- What is left of a number is exact, and smaller than what was taken away. -/
theorem remainder_spec (hf : f.Proper) {x y : Binary f} (hx : x.isFinite) (hy : y.isFinite)
    (h₀ : y.value ≠ 0) : (x.remainder y).isFinite ∧ |(x.remainder y).value| < |y.value| := by
  cases x with
  | nan => cases hx
  | infinity => cases hx
  | finite s m e hm =>
    cases y with
    | nan => cases hy
    | infinity => cases hy
    | finite t n d hn =>
      have hn₀ : n ≠ 0 := by
        rintro rfl
        simp [value] at h₀
      generalize hlow : min e d = low
      have hle : low ≤ e := hlow ▸ min_le_left e d
      have hld : low ≤ d := hlow ▸ min_le_right e d
      generalize hl : (m <<< (e - low).toNat) % (n <<< (d - low).toNat) = left
      have hr : (finite s m e hm).remainder (finite t n d hn) = round s left 1 low := by
        subst hl hlow
        exact if_neg hn₀
      have hpos : 0 < n <<< (d - low).toNat := by
        rw [Nat.shiftLeft_eq]
        exact Nat.mul_pos (Nat.pos_of_ne_zero hn₀) (Nat.two_pow_pos _)
      have hlt : left < n <<< (d - low).toNat := hl ▸ Nat.mod_lt _ hpos
      -- One of the two exponents is the lower one, so the rest is no longer than that significand.
      have hfit : left < 2 ^ f.precision := by
        rw [← Nat.one_shiftLeft]
        rcases le_total e d with h | h
        · have hz : low = e := hlow ▸ min_eq_left h
          rw [hz, sub_self] at hl
          exact (hl ▸ Nat.mod_le m _).trans_lt hm.1
        · have hz : low = d := hlow ▸ min_eq_right h
          rw [hz, sub_self] at hlt
          exact hlt.trans hn.1
      have hmin : f.minExponent ≤ low := hlow ▸ le_min hm.2.1 hn.2.1
      obtain ⟨hfin, hv⟩ := round_exact hf s hfit hmin (hle.trans hm.2.2.1)
      rw [hr, hv, abs_withSign, abs_value, ← cast_shiftLeft n hld,
        abs_of_nonneg (mul_nonneg (Nat.cast_nonneg left) (two_zpow_pos low).le)]
      exact ⟨hfin, mul_lt_mul_of_pos_right (Nat.cast_lt.2 hlt) (two_zpow_pos low)⟩

end Binary

end Handoff
