import Mathlib.Data.List.DropRight
import Handoff.Proofs.ActionBits
import Handoff.Proofs.History
import Handoff.Proofs.Release

namespace Handoff

namespace Button

def axis : Button → List Button
  | left | right => [left, right]
  | up | down => [up, down]
  | b => [b]

theorem mem_axis_self (b : Button) : b ∈ b.axis := by cases b <;> decide

theorem axis_eq_of_mem {b c : Button} (h : c ∈ b.axis) : c.axis = b.axis := by
  cases b <;> cases c <;> first | rfl | exact absurd h (by decide)

end Button

/-- How many presses of `b` in a row end the presses of the given buttons. -/
def trailingRun (among : List Button) (b : Button) (ps : List Button) : Nat :=
  ((ps.filter (· ∈ among)).rtakeWhile (· = b)).length

section TrailingRun

variable {among : List Button} {b c : Button} (ps : List Button)

@[simp] theorem trailingRun_nil : trailingRun among b [] = 0 := rfl

theorem trailingRun_snoc_self (h : b ∈ among) :
    trailingRun among b (ps ++ [b]) = trailingRun among b ps + 1 := by
  rw [trailingRun, List.filter_append, List.filter_singleton, decide_eq_true h]
  exact (congrArg List.length (List.rtakeWhile_concat_pos _ _ _ (by simp))).trans
    List.length_append

theorem trailingRun_snoc_of_ne (h : c ∈ among) (hne : c ≠ b) :
    trailingRun among b (ps ++ [c]) = 0 := by
  rw [trailingRun, List.filter_append, List.filter_singleton, decide_eq_true h]
  exact congrArg List.length (List.rtakeWhile_concat_neg _ _ _ (by simp [hne]))

theorem trailingRun_snoc_of_not_mem (h : c ∉ among) :
    trailingRun among b (ps ++ [c]) = trailingRun among b ps := by
  rw [trailingRun, List.filter_append, List.filter_singleton, decide_eq_false h]
  exact congrArg (fun l => (List.rtakeWhile _ l).length) (List.append_nil _)

theorem trailingRun_eq_zero (hne : c ≠ b) (h : 0 < trailingRun among b ps) :
    trailingRun among c ps = 0 := by
  induction ps using List.reverseRecOn with
  | nil => rfl
  | append_singleton ps x ih =>
    by_cases hx : x ∈ among
    · by_cases hxc : x = c
      · subst hxc
        rw [trailingRun_snoc_of_ne ps hx hne] at h
        exact absurd h (Nat.lt_irrefl 0)
      · exact trailingRun_snoc_of_ne ps hx hxc
    · rw [trailingRun_snoc_of_not_mem ps hx] at h ⊢
      exact ih h

theorem trailingRun_singleton : trailingRun [b] b ps = ps.count b := by
  induction ps using List.reverseRecOn with
  | nil => rfl
  | append_singleton ps x ih =>
    rw [List.count_append]
    by_cases hx : x = b
    · subst hx
      rw [trailingRun_snoc_self ps (List.mem_singleton_self x), ih, List.count_singleton_self]
    · rw [trailingRun_snoc_of_not_mem ps (by simpa using hx), ih]
      simp [hx]

end TrailingRun

/-- What one tick was given, and whether a session started with it. -/
structure Input where
  buttons : Buttons
  switch : Option Bool
  starts : Bool
deriving DecidableEq, Repr

def Entry.input? (e : Entry) : Option Input :=
  match e.op with
  | .tick buttons switch => some ⟨buttons, switch, e.reply.starts⟩
  | _ => none

def inputs (es : List Entry) : List Input := es.filterMap Entry.input?

/-- The sample of the last tick, given the one before them all. -/
def lastSample (before : Buttons) (is : List Input) : Buttons :=
  is.foldl (fun _ i => i.buttons) before

def rising (before now : Buttons) : List Button :=
  [.center, .down, .right, .up, .left, .mode].filter fun b =>
    now.isPressed b && !before.isPressed b

/-- The presses over some ticks, each sample taken against the one just before it. -/
def presses (before : Buttons) : List Input → List Button
  | [] => []
  | i :: is => rising before i.buttons ++ presses i.buttons is

def levels (is : List Input) : List Bool := is.filterMap (·.switch)

theorem inputs_snoc (es : List Entry) (e : Entry) :
    inputs (es ++ [e]) = inputs es ++ e.input?.toList :=
  filterMap_snoc Entry.input? es e

theorem presses_append (before : Buttons) (is js : List Input) :
    presses before (is ++ js) = presses before is ++ presses (lastSample before is) js := by
  induction is generalizing before with
  | nil => rfl
  | cons i is ih =>
    rw [List.cons_append, presses, presses, ih, List.append_assoc]
    rfl

theorem lastSample_append (before : Buttons) (is js : List Input) :
    lastSample before (is ++ js) = lastSample (lastSample before is) js :=
  List.foldl_append

theorem presses_snoc (before : Buttons) (is : List Input) (i : Input) :
    presses before (is ++ [i]) =
      presses before is ++ rising (lastSample before is) i.buttons := by
  rw [presses_append, presses, presses, List.append_nil]

theorem levels_snoc (is : List Input) (i : Input) :
    levels (is ++ [i]) = levels is ++ i.switch.toList :=
  filterMap_snoc Input.switch is i

theorem pressed_risingEdges (now before : Buttons) :
    (now.risingEdges before).pressed = rising before now := by
  have hp : (now.risingEdges before).isPressed =
      fun b => now.isPressed b && !before.isPressed b :=
    funext fun b => now.isPressed_risingEdges before b
  rw [Buttons.pressed, hp]
  rfl

theorem count_rising (before now : Buttons) (b : Button) :
    (rising before now).count b = (now.isPressed b && !before.isPressed b).toNat := by
  rw [rising]
  cases h : now.isPressed b && !before.isPressed b with
  | false =>
    refine List.count_eq_zero.2 fun hm => ?_
    rw [(List.mem_filter.1 hm).2] at h
    cases h
  | true =>
    rw [List.count_filter (p := fun b => now.isPressed b && !before.isPressed b) h]
    cases b <;> rfl

/-- A button that stays held is pressed at most once, and not at all if it was held before. -/
theorem count_presses_of_held {b : Button} {is : List Input}
    (h : ∀ i ∈ is, i.buttons.isPressed b) (before : Buttons) :
    (presses before is).count b ≤ if before.isPressed b then 0 else 1 := by
  induction is generalizing before with
  | nil => exact Nat.zero_le _
  | cons i is ih =>
    have hi : i.buttons.isPressed b = true := h i List.mem_cons_self
    have his := ih (fun j hj => h j (List.mem_cons_of_mem i hj)) i.buttons
    rw [if_pos hi] at his
    rw [presses, List.count_append, count_rising, hi, Nat.le_zero.1 his]
    cases before.isPressed b <;> decide

/-- The ticks from the one that started the last session on. -/
structure LastSession (earlier session : List Input) (is : List Input) : Prop where
  split : is = earlier ++ session
  first : ∃ i later, session = i :: later ∧ i.starts ∧ ∀ j ∈ later, j.starts = false

namespace LastSession

variable {earlier session is : List Input} {i : Input}

theorem started (is : List Input) (h : i.starts) : LastSession is [i] (is ++ [i]) :=
  ⟨rfl, i, [], rfl, h, by simp⟩

theorem snoc (h : LastSession earlier session is) (hi : i.starts = false) :
    LastSession earlier (session ++ [i]) (is ++ [i]) := by
  obtain ⟨hsplit, j, later, hs, hj, hlater⟩ := h
  exact ⟨by rw [hsplit, List.append_assoc], j, later ++ [i], by rw [hs]; rfl, hj,
    forall_mem_snoc.2 ⟨hlater, hi⟩⟩

end LastSession

end Handoff
