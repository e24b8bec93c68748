import Handoff.Sim.Run

/-!
Turns. Between two moves of the clock the tasks that are ready are polled one at a time, in any
order. The clock goes on only when none is ready, and never past a time that a task waits for.
-/

namespace Handoff

def TaskName.all : List TaskName := [.main, .renderer, .controller, .input]

theorem TaskName.mem_all (t : TaskName) : t ∈ all := by cases t <;> decide

inductive Turn
  | poll (t : TaskName)
  | clock (time : Nat)
deriving DecidableEq, Repr

namespace World

def deadline? (w : World) : TaskName → Option Nat
  | .main =>
    match w.main.phase with
    | .fresh => none
    | .waiting deadline => some deadline
  | .renderer =>
    match w.renderer.phase with
    | .drawing run => some run.due
    | _ => none
  | .controller =>
    match w.controller.phase with
    | .fresh => none
    | .ticking _ _ due => some due
  | .input =>
    match w.input.phase with
    | .waiting due _ _ => some due
    | .holding due _ => some due
    | _ => none

def Allows (w : World) : Turn → Prop
  | .poll t => w.ready t = true
  | .clock time =>
    w.ending = none ∧ w.now < time ∧
      ∀ t ∈ TaskName.all, w.ready t = false ∧ ∀ due ∈ w.deadline? t, time ≤ due

instance (w : World) : (t : Turn) → Decidable (w.Allows t)
  | .poll t => inferInstanceAs (Decidable (w.ready t = true))
  | .clock time => inferInstanceAs (Decidable (_ ∧ _ ∧
      ∀ t ∈ TaskName.all, w.ready t = false ∧ ∀ due ∈ w.deadline? t, time ≤ due))

def take (w : World) : Turn → World
  | .poll t => w.poll t
  | .clock time => w.advanceTo time

theorem Allows.not_ready {w : World} {time : Nat} (h : w.Allows (.clock time)) (t : TaskName) :
    w.ready t = false := (h.2.2 t t.mem_all).1

theorem Allows.le_deadline {w : World} {time due : Nat} (h : w.Allows (.clock time)) {t : TaskName}
    (hd : w.deadline? t = some due) : time ≤ due := (h.2.2 t t.mem_all).2 due hd

theorem Allows.running {w : World} {t : Turn} (h : w.Allows t) : w.ending = none := by
  cases t with
  | poll t => exact Option.isNone_iff_eq_none.1 (Bool.and_eq_true_iff.1 h).1
  | clock time => exact h.1

theorem Allows.take_clock {w : World} {time : Nat} (h : w.Allows (.clock time)) :
    w.take (.clock time) = { w with now := time } := by
  have ht : max w.now time = time := Nat.max_eq_right (Nat.le_of_lt h.2.1)
  exact congrArg (fun now => { w with now }) ht

/-- The clock goes on only when the renderer has seen the level of the reset line. -/
theorem Allows.seen {w : World} {time : Nat} (h : w.Allows (.clock time)) : w.reset = none := by
  have hr := h.not_ready .renderer
  unfold ready at hr
  rw [h.running] at hr
  cases hreset : w.reset with
  | none => rfl
  | some high =>
    rw [hreset] at hr
    cases hp : w.renderer.phase with
    | fresh =>
      rw [hp] at hr
      cases hr
    | held =>
      rw [hp] at hr
      cases hr
    | drawing run =>
      rw [hp] at hr
      simp at hr

end World

/-- A turn, and the world as it is taken. -/
structure Moment where
  turn : Turn
  before : World
deriving DecidableEq

def Moment.after (m : Moment) : World := m.before.take m.turn

/-- What can become of a world in so many turns. -/
inductive Unfolds (w₀ : World) : List Moment → World → Prop
  | start : Unfolds w₀ [] w₀
  | turn {ms : List Moment} {w : World} {t : Turn} (h : Unfolds w₀ ms w) (ht : w.Allows t) :
      Unfolds w₀ (ms ++ [⟨t, w⟩]) (w.take t)

namespace Unfolds

variable {u v w : World} {ms ns : List Moment} {p : Moment}

theorem trans (h : Unfolds u ms v) (h' : Unfolds v ns w) : Unfolds u (ms ++ ns) w := by
  induction h' with
  | start =>
    rw [List.append_nil]
    exact h
  | turn h' ht ih =>
    rw [← List.append_assoc]
    exact ih.turn ht

theorem cases_nil (h : Unfolds u [] w) : w = u := by
  generalize hms : [] = ms at h
  cases h with
  | start => rfl
  | turn h ht => simp at hms

theorem cases_snoc (h : Unfolds u (ms ++ [p]) w) :
    Unfolds u ms p.before ∧ p.before.Allows p.turn ∧ w = p.after := by
  generalize hms : ms ++ [p] = l at h
  cases h with
  | start => simp at hms
  | turn h ht =>
    obtain ⟨rfl, hp⟩ := List.append_inj' hms rfl
    cases hp
    exact ⟨h, ht, rfl⟩

theorem split (h : Unfolds u (ms ++ ns) w) : ∃ v, Unfolds u ms v ∧ Unfolds v ns w := by
  generalize hl : ms ++ ns = l at h
  induction h generalizing ns with
  | start =>
    obtain ⟨rfl, rfl⟩ := List.append_eq_nil_iff.1 hl
    exact ⟨u, .start, .start⟩
  | @turn l w t h ht ih =>
    rcases List.eq_nil_or_concat ns with rfl | ⟨ns', p, rfl⟩
    · rw [List.append_nil] at hl
      subst hl
      exact ⟨_, h.turn ht, .start⟩
    · rw [List.concat_eq_append, ← List.append_assoc] at hl
      obtain ⟨hms, hp⟩ := List.append_inj' hl rfl
      cases hp
      obtain ⟨v, hv, hw⟩ := ih hms
      rw [List.concat_eq_append]
      exact ⟨v, hv, hw.turn ht⟩

theorem cases_cons (h : Unfolds u (p :: ms) w) :
    p.before = u ∧ u.Allows p.turn ∧ Unfolds p.after ms w := by
  have h' : Unfolds u ([p] ++ ms) w := h
  obtain ⟨v, hv, hw⟩ := h'.split
  have hv' : Unfolds u ([] ++ [p]) v := hv
  obtain ⟨hu, ha, rfl⟩ := hv'.cases_snoc
  have hp := hu.cases_nil
  rw [hp] at ha
  exact ⟨hp, ha, hw⟩

theorem at_moment (h : Unfolds u (ms ++ p :: ns) w) :
    Unfolds u ms p.before ∧ p.before.Allows p.turn ∧ Unfolds p.after ns w := by
  obtain ⟨v, hv, hw⟩ := h.split
  obtain ⟨rfl, ha, hn⟩ := hw.cases_cons
  exact ⟨hv, ha, hn⟩

theorem running (h : Unfolds u ms w) (hw : w.ending = none) : u.ending = none := by
  induction h with
  | start => exact hw
  | turn h ht ih => exact ih ht.running

theorem invariant {P : World → Prop} (h : Unfolds u ms w) (hu : P u)
    (hstep : ∀ v t, v.Allows t → P v → P (v.take t)) : P w := by
  induction h with
  | start => exact hu
  | turn h ht ih => exact hstep _ _ ht ih

end Unfolds

namespace World

def moments (w : World) : List Turn → List Moment
  | [] => []
  | t :: ts => ⟨t, w⟩ :: (w.take t).moments ts

def takeAll (w : World) : List Turn → World
  | [] => w
  | t :: ts => (w.take t).takeAll ts

theorem moments_append (w : World) (ts us : List Turn) :
    w.moments (ts ++ us) = w.moments ts ++ (w.takeAll ts).moments us := by
  induction ts generalizing w with
  | nil => rfl
  | cons t ts ih => exact congrArg (⟨t, w⟩ :: ·) (ih (w.take t))

def AllowsAll (w : World) : List Turn → Prop
  | [] => True
  | t :: ts => w.Allows t ∧ (w.take t).AllowsAll ts

instance decidableAllowsAll (w : World) : (ts : List Turn) → Decidable (w.AllowsAll ts)
  | [] => inferInstanceAs (Decidable True)
  | t :: ts =>
    have := decidableAllowsAll (w.take t) ts
    inferInstanceAs (Decidable (w.Allows t ∧ (w.take t).AllowsAll ts))

theorem AllowsAll.unfolds {w : World} {ts : List Turn} (h : w.AllowsAll ts) :
    Unfolds w (w.moments ts) (w.takeAll ts) := by
  induction ts generalizing w with
  | nil => exact .start
  | cons t ts ih =>
    obtain ⟨ht, hts⟩ := h
    exact Unfolds.trans (Unfolds.start.turn ht) (ih hts)

theorem AllowsAll.unfolds_between {w : World} {ts us : List Turn} {t t' : Turn}
    (h : w.AllowsAll (ts ++ t :: (us ++ [t']))) :
    let v := (w.takeAll ts).take t
    Unfolds w (w.moments ts ++ ⟨t, w.takeAll ts⟩ :: (v.moments us ++ [⟨t', v.takeAll us⟩]))
      (w.takeAll (ts ++ t :: (us ++ [t']))) := by
  have hu := h.unfolds
  rw [moments_append, moments, moments_append] at hu
  exact hu

end World

end Handoff
