import Handoff.Proofs.Shadow

namespace Handoff

namespace ActionBit

def axis : ActionBit → List ActionBit
  | left | right => [left, right]
  | up | down => [up, down]
  | rotateMode => [rotateMode]

theorem mem_axis_self (b : ActionBit) : b ∈ b.axis := by
  cases b <;> decide

theorem axis_eq_of_mem {b c : ActionBit} (h : c ∈ b.axis) : c.axis = b.axis := by
  cases b <;> cases c <;> first | rfl | exact absurd h (by decide)

theorem mem_axis_of_opposite {b o : ActionBit} (h : b.opposite = some o) : b ∈ o.axis := by
  cases b <;> cases h <;> decide

/-- Right comes before left, and down before up. -/
def MayPrecede (b c : ActionBit) : Prop := ¬ (b = left ∧ c = right) ∧ ¬ (b = up ∧ c = down)

theorem MayPrecede.antisymm {b c : ActionBit} (h : c ∈ b.axis) (hbc : b.MayPrecede c)
    (hcb : c.MayPrecede b) : b = c := by
  cases b <;> cases c <;> simp_all [MayPrecede, axis]

end ActionBit

/-- The presses of each axis come in the same order. -/
structure SameByAxis (bs cs : List ActionBit) : Prop where
  horizontal : bs.filter (· ∈ [.left, .right]) = cs.filter (· ∈ [.left, .right])
  vertical : bs.filter (· ∈ [.up, .down]) = cs.filter (· ∈ [.up, .down])
  rotations : bs.count .rotateMode = cs.count .rotateMode

namespace SameByAxis

variable {bs cs : List ActionBit}

theorem filter_rotateMode (bs : List ActionBit) :
    bs.filter (· ∈ [.rotateMode]) = .replicate (bs.count .rotateMode) .rotateMode := by
  rw [← List.filter_eq]
  apply List.filter_congr
  intro b _
  simp

theorem axis (h : SameByAxis bs cs) (b : ActionBit) :
    bs.filter (· ∈ b.axis) = cs.filter (· ∈ b.axis) := by
  cases b with
  | rotateMode =>
    have hcount := filter_rotateMode bs
    rw [h.rotations, ← filter_rotateMode] at hcount
    exact hcount
  | left => exact h.horizontal
  | right => exact h.horizontal
  | up => exact h.vertical
  | down => exact h.vertical

theorem of_perm (h : bs.Perm cs) (hb : bs.Pairwise ActionBit.MayPrecede)
    (hc : cs.Pairwise ActionBit.MayPrecede) : SameByAxis bs cs := by
  have haxis (x : ActionBit) : bs.filter (· ∈ x.axis) = cs.filter (· ∈ x.axis) := by
    apply (h.filter _).eq_of_pairwise _ (hb.filter _) (hc.filter _)
    intro b c hbx hcx hbc hcb
    have hbx := of_decide_eq_true (List.mem_filter.1 hbx).2
    have hcx := of_decide_eq_true (List.mem_filter.1 hcx).2
    rw [← ActionBit.axis_eq_of_mem hbx] at hcx
    exact hbc.antisymm hcx hcb
  exact ⟨haxis .left, haxis .up, h.count_eq .rotateMode⟩

end SameByAxis

namespace ActionWord

def toggleAll (w : ActionWord) (bs : List ActionBit) : ActionWord := bs.foldl toggle w

def AgreeOn (b : ActionBit) (w v : ActionWord) : Prop := ∀ c ∈ b.axis, w.isSet c = v.isSet c

variable {b c : ActionBit} {w v : ActionWord}

/-- A press on another axis goes unnoticed. -/
theorem AgreeOn.aside (h : AgreeOn b w v) (hc : c ∉ b.axis) : AgreeOn b (w.toggle c) v := by
  intro d hd
  have hdc : d ≠ c := by
    rintro rfl
    exact hc hd
  have ho : c.opposite ≠ some d := by
    intro ho
    have hcd := ActionBit.mem_axis_of_opposite ho
    rw [ActionBit.axis_eq_of_mem hd] at hcd
    exact hc hcd
  rw [isSet_toggle, if_neg hdc, if_neg ho]
  exact h d hd

theorem AgreeOn.toggle (h : AgreeOn b w v) (hc : c ∈ b.axis) :
    AgreeOn b (w.toggle c) (v.toggle c) := by
  intro d hd
  rw [isSet_toggle, isSet_toggle, h c hc, h d hd]

theorem AgreeOn.toggleAll (h : AgreeOn b w v) (bs : List ActionBit) :
    AgreeOn b (w.toggleAll bs) (v.toggleAll (bs.filter (· ∈ b.axis))) := by
  induction bs generalizing w v with
  | nil => exact h
  | cons c bs ih =>
    by_cases hc : c ∈ b.axis
    · rw [List.filter_cons, if_pos (decide_eq_true hc)]
      exact ih (h.toggle hc)
    · rw [List.filter_cons, if_neg (mt of_decide_eq_true hc)]
      exact ih (h.aside hc)

theorem reserved_toggleAll (w : ActionWord) (bs : List ActionBit) :
    (w.toggleAll bs).reserved = w.reserved := by
  induction bs generalizing w with
  | nil => rfl
  | cons b bs ih => exact (ih (w.toggle b)).trans (w.reserved_toggle b)

theorem toggleAll_eq {bs cs : List ActionBit} (h : SameByAxis bs cs) (w : ActionWord) :
    w.toggleAll bs = w.toggleAll cs := by
  apply ext_isSet
  · intro b
    have hw : AgreeOn b w w := fun _ _ => rfl
    have hbs := hw.toggleAll bs b b.mem_axis_self
    have hcs := hw.toggleAll cs b b.mem_axis_self
    rw [hbs, hcs, h.axis b]
  · rw [reserved_toggleAll, reserved_toggleAll]

end ActionWord

def Button.MayPrecede (b c : Button) : Prop := ¬ (b = left ∧ c = right) ∧ ¬ (b = up ∧ c = down)

namespace Encoder

/-- Gives the edges one at a time, each as a sample of its own. -/
def applyEach (e : Encoder) (bs : List Button) : Encoder :=
  bs.foldl (fun e b => e.applyEdges (Buttons.released.press b)) e

variable (e : Encoder)

theorem applyEdges_single (b : Button) : e.applyEdges (Buttons.released.press b) = e.press b := by
  have hb : (Buttons.released.press b).pressed = [b] := by cases b <;> decide
  rw [applyEdges, hb]
  rfl

theorem applyEach_eq (bs : List Button) : e.applyEach bs = bs.foldl press e := by
  have hstep : (fun (e : Encoder) b => e.applyEdges (Buttons.released.press b)) = press :=
    funext fun e => funext fun b => e.applyEdges_single b
  rw [applyEach, hstep]

theorem foldl_press_eq (bs : List Button) :
    bs.foldl press e = { e with actions := e.actions.toggleAll (bs.filterMap e.bitFor?) } := by
  induction bs generalizing e with
  | nil => rfl
  | cons b bs ih =>
    rw [List.foldl_cons, ih]
    have hsource : (e.press b).bitFor? = e.bitFor? := by
      funext c
      unfold bitFor?
      rw [source_press]
    rw [hsource, source_press, List.filterMap_cons]
    cases hb : e.bitFor? b with
    | none => rw [press_of_none hb]
    | some x =>
      rw [press_of_some hb]
      rfl

theorem mayPrecede_bits {b c : Button} {x z : ActionBit} (h : b.MayPrecede c)
    (hb : e.bitFor? b = some x) (hc : e.bitFor? c = some z) : x.MayPrecede z := by
  have hx := eq_button hb
  have hz := eq_button hc
  subst b c
  constructor
  · rintro ⟨rfl, rfl⟩
    exact h.1 ⟨rfl, rfl⟩
  · rintro ⟨rfl, rfl⟩
    exact h.2 ⟨rfl, rfl⟩

theorem pairwise_pressed (edges : Buttons) : edges.pressed.Pairwise Button.MayPrecede := by
  have hall : Button.all.Pairwise Button.MayPrecede := by
    simp [Button.all, Button.MayPrecede]
  exact hall.filter _

theorem applyEach_of_perm {edges : Buttons} {bs : List Button} (h : bs.Perm edges.pressed)
    (ho : bs.Pairwise Button.MayPrecede) : e.applyEach bs = e.applyEdges edges := by
  have hbits {bs : List Button} (ho : bs.Pairwise Button.MayPrecede) :
      (bs.filterMap e.bitFor?).Pairwise ActionBit.MayPrecede := by
    apply ho.filterMap e.bitFor?
    intro b c hbc x hx z hz
    exact e.mayPrecede_bits hbc hx hz
  have hsame := SameByAxis.of_perm (h.filterMap e.bitFor?) (hbits ho)
    (hbits (pairwise_pressed edges))
  rw [applyEach_eq, applyEdges, foldl_press_eq, foldl_press_eq, ActionWord.toggleAll_eq hsame]

end Encoder

/-- What a word comes to depends on the presses of each axis alone and not on how they interleave,
and its reserved bits stay. So the edges of one sample may be given one at a time, in any order that
keeps right before left and down before up. -/
theorem axes_independent :
    (∀ (w : ActionWord) (bs cs : List ActionBit), SameByAxis bs cs →
      w.toggleAll bs = w.toggleAll cs ∧ (w.toggleAll bs).reserved = w.reserved) ∧
    ∀ (e : Encoder) (edges : Buttons) (bs : List Button), bs.Perm edges.pressed →
      bs.Pairwise Button.MayPrecede → e.applyEach bs = e.applyEdges edges := by
  constructor
  · intro w bs cs h
    exact ⟨ActionWord.toggleAll_eq h w, w.reserved_toggleAll bs⟩
  · intro e edges bs h ho
    exact e.applyEach_of_perm h ho

/-- The word has both bits of each pair set, and all that are reserved. -/
theorem axes_independent_interleaved :
    let w : ActionWord := ⟨0xFFFFFFFF⟩
    let bs : List ActionBit := [.left, .up, .left, .rotateMode, .down, .right, .rotateMode]
    let cs : List ActionBit := [.rotateMode, .up, .rotateMode, .down, .left, .left, .right]
    let edges : Buttons := ⟨0xFF⟩
    let order : List Button := [.mode, .right, .down, .left, .center, .up]
    SameByAxis bs cs ∧ w.toggleAll bs = w.toggleAll cs ∧
      (w.toggleAll bs).reserved = w.reserved ∧
      order.Perm edges.pressed ∧ order.Pairwise Button.MayPrecede ∧
      (Encoder.mk w .modeButton).applyEach order =
        (Encoder.mk w .modeButton).applyEdges edges := by
  intro w bs cs edges order
  have hsame : SameByAxis bs cs := ⟨by decide, by decide, by decide⟩
  have hperm : order.Perm edges.pressed := by decide
  have horder : order.Pairwise Button.MayPrecede := by simp [order, Button.MayPrecede]
  obtain ⟨hword, hreserved⟩ := axes_independent.1 w bs cs hsame
  exact ⟨hsame, hword, hreserved, hperm, horder, axes_independent.2 _ edges order hperm horder⟩

end Handoff
