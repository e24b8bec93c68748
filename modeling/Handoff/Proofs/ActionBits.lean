import Handoff.Action
import Handoff.Button

namespace Handoff

theorem and_twoPow_ne_zero {w i : Nat} (x : BitVec w) (h : i < w) :
    (x &&& BitVec.twoPow w i ≠ 0) ↔ x.getLsbD i := by
  rw [BitVec.and_twoPow]
  have hn : BitVec.twoPow w i ≠ 0 := by
    intro he
    have hi := congrArg (fun y => BitVec.getLsbD y i) he
    simp [h] at hi
  split
  · next hi => exact iff_of_true hn hi
  · next hi => exact iff_of_false (fun hz => hz rfl) hi

namespace ActionBit

def index : ActionBit → Nat
  | rotateMode => 0
  | left => 1
  | right => 2
  | up => 3
  | down => 4

theorem index_lt (b : ActionBit) : b.index < 5 := by cases b <;> decide

theorem exists_index {i : Nat} (h : i < 5) : ∃ b : ActionBit, b.index = i := by
  match i, h with
  | 0, _ => exact ⟨rotateMode, rfl⟩
  | 1, _ => exact ⟨left, rfl⟩
  | 2, _ => exact ⟨right, rfl⟩
  | 3, _ => exact ⟨up, rfl⟩
  | 4, _ => exact ⟨down, rfl⟩

theorem opposite_ne {b c : ActionBit} (h : b.opposite = some c) : c ≠ b := by
  rintro rfl
  cases c <;> cases h

theorem toBitVec_mask (b : ActionBit) : b.mask.toBitVec = BitVec.twoPow 32 b.index := by
  cases b <;> rfl

end ActionBit

namespace ActionWord

variable (w : ActionWord) (b c : ActionBit)

theorem isSet_eq : w.isSet b = w.bits.toBitVec.getLsbD b.index := by
  have hb : b.index < 32 := Nat.lt_trans b.index_lt (by decide)
  rw [Bool.eq_iff_iff, ← and_twoPow_ne_zero _ hb, isSet, bne_iff_ne, Ne, ← UInt32.toBitVec_inj,
    UInt32.toBitVec_and, b.toBitVec_mask]
  rfl

theorem getLsbD_mask : b.mask.toBitVec.getLsbD c.index = decide (c = b) := by
  rw [b.toBitVec_mask]
  cases b <;> cases c <;> decide

@[simp] theorem isSet_empty : empty.isSet b = false := by cases b <;> decide

@[simp] theorem isSet_set : (w.set b).isSet c = (w.isSet c || decide (c = b)) := by
  rw [isSet_eq, isSet_eq, set, UInt32.toBitVec_or, BitVec.getLsbD_or, getLsbD_mask]

@[simp] theorem isSet_clear : (w.clear b).isSet c = (w.isSet c && !decide (c = b)) := by
  have hc : c.index < 32 := Nat.lt_trans c.index_lt (by decide)
  rw [isSet_eq, isSet_eq, clear, UInt32.toBitVec_and, UInt32.toBitVec_not, BitVec.getLsbD_and,
    BitVec.getLsbD_not, getLsbD_mask, decide_eq_true hc, Bool.true_and]

theorem isSet_put (v : Bool) : (w.put b v).isSet c = if c = b then v else w.isSet c := by
  cases v <;> by_cases h : c = b <;> simp [put, h]

/-- A press turns its own bit over. The opposite bit stays only where the press cleared. -/
theorem isSet_toggle :
    (w.toggle b).isSet c =
      if c = b then !w.isSet b
      else if b.opposite = some c then w.isSet c && w.isSet b
      else w.isSet c := by
  unfold toggle
  by_cases hs : w.isSet b
  · by_cases hc : c = b <;> simp [hs, hc]
  · cases ho : b.opposite with
    | none => by_cases hc : c = b <;> simp [hs, hc]
    | some o =>
      have hne : o ≠ b := ActionBit.opposite_ne ho
      by_cases hc : c = b
      · simp [hs, hc, hne.symm]
      · by_cases hco : c = o
        · simp [hs, hco, hne]
        · simp [hs, hc, hco, Ne.symm hco]

theorem getLsbD_reserved {i : Nat} (h : i < 32) :
    w.reserved.toBitVec.getLsbD i = (w.bits.toBitVec.getLsbD i && decide (5 ≤ i)) := by
  have hm : ∀ i < 32, (~~~definedMask).toBitVec.getLsbD i = decide (5 ≤ i) := by decide
  rw [reserved, UInt32.toBitVec_and, BitVec.getLsbD_and, hm i h]

theorem ext_isSet {w v : ActionWord} (hb : ∀ b, w.isSet b = v.isSet b)
    (hr : w.reserved = v.reserved) : w = v := by
  suffices h : w.bits.toBitVec = v.bits.toBitVec from
    congrArg ActionWord.mk (UInt32.toBitVec_inj.1 h)
  apply BitVec.eq_of_getLsbD_eq
  intro i hi
  by_cases h : i < 5
  · obtain ⟨b, rfl⟩ := ActionBit.exists_index h
    rw [← isSet_eq, ← isSet_eq, hb]
  · have hi' := congrArg (fun u : UInt32 => u.toBitVec.getLsbD i) hr
    rw [getLsbD_reserved w hi, getLsbD_reserved v hi, decide_eq_true (Nat.le_of_not_lt h),
      Bool.and_true, Bool.and_true] at hi'
    exact hi'

@[simp] theorem reserved_set : (w.set b).reserved = w.reserved := by
  have hb : b.mask.toBitVec &&& (~~~definedMask).toBitVec = 0 := by cases b <;> decide
  apply UInt32.toBitVec_inj.1
  rw [reserved, set, UInt32.toBitVec_and, UInt32.toBitVec_or, BitVec.and_or_distrib_right, hb]
  exact BitVec.or_zero

@[simp] theorem reserved_clear : (w.clear b).reserved = w.reserved := by
  have hb : ~~~b.mask &&& ~~~definedMask = ~~~definedMask := by cases b <;> decide
  rw [reserved, clear, UInt32.and_assoc, hb]
  rfl

@[simp] theorem reserved_put (v : Bool) : (w.put b v).reserved = w.reserved := by
  cases v with
  | false => exact w.reserved_clear b
  | true => exact w.reserved_set b

@[simp] theorem reserved_toggle : (w.toggle b).reserved = w.reserved := by
  unfold toggle
  split
  · exact w.reserved_clear b
  · split
    · rw [reserved_clear, reserved_set]
    · exact w.reserved_set b

end ActionWord

namespace Button

def index : Button → Nat
  | center => 0
  | down => 1
  | right => 2
  | up => 3
  | left => 4
  | mode => 5

theorem toBitVec_mask (b : Button) : b.mask.toBitVec = BitVec.twoPow 8 b.index := by
  cases b <;> rfl

end Button

namespace Buttons

theorem isPressed_eq (s : Buttons) (b : Button) :
    s.isPressed b = s.bits.toBitVec.getLsbD b.index := by
  have hb : b.index < 8 := by cases b <;> decide
  rw [Bool.eq_iff_iff, ← and_twoPow_ne_zero _ hb, isPressed, bne_iff_ne, Ne,
    ← UInt8.toBitVec_inj, UInt8.toBitVec_and, b.toBitVec_mask]
  rfl

theorem isPressed_risingEdges (now before : Buttons) (b : Button) :
    (now.risingEdges before).isPressed b = (now.isPressed b && !before.isPressed b) := by
  have hb : b.index < 8 := by cases b <;> decide
  rw [isPressed_eq, isPressed_eq, isPressed_eq, risingEdges, UInt8.toBitVec_and,
    UInt8.toBitVec_not, BitVec.getLsbD_and, BitVec.getLsbD_not, decide_eq_true hb, Bool.true_and]

@[simp] theorem isPressed_released (b : Button) : released.isPressed b = false := by
  cases b <;> decide

@[simp] theorem isPressed_press (s : Buttons) (b c : Button) :
    (s.press b).isPressed c = (s.isPressed c || decide (c = b)) := by
  have hm : b.mask.toBitVec.getLsbD c.index = decide (c = b) := by
    rw [b.toBitVec_mask]
    cases b <;> cases c <;> decide
  rw [isPressed_eq, isPressed_eq, press, UInt8.toBitVec_or, BitVec.getLsbD_or, hm]

@[simp] theorem risingEdges_self (s : Buttons) : s.risingEdges s = released := by
  rw [risingEdges, UInt8.and_not_self]
  rfl

end Buttons

end Handoff
