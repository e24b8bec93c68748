import Mathlib.Data.List.Induction
import Handoff.Camera.Rig
import Handoff.Proofs.History

namespace Handoff

/-- Outside of the orbit any direction turns the camera: the first step of a walk turns it as well,
by nothing. -/
def Actions.Turns (a : Actions) : Prop :=
  a.rotateMode = false ∧ (a.horizontal ≠ .none ∨ a.vertical ≠ .none)

def rotating (as : List Actions) : Bool := as.getLast?.any (·.rotateMode)

def Resets (as : List Actions) (a : Actions) : Prop := rotating as = true ∧ a.rotateMode = false

/-- A turn has happened since the camera was made or last reset. -/
def Turned (as : List Actions) : Prop := Since (fun _ a => a.Turns) Resets as

@[simp] theorem rotating_snoc (as : List Actions) (a : Actions) :
    rotating (as ++ [a]) = a.rotateMode := by
  simp only [rotating, List.getLast?_concat, Option.any_some]

def Vertical.sign? : Vertical → Option Binary32
  | up => some 1
  | down => some (-1)
  | none => Option.none

namespace Rig

def play (r : Rig) (as : List Actions) : Rig := as.foldl (fun r a => (r.update a).2) r

@[simp] theorem play_snoc (r : Rig) (as : List Actions) (a : Actions) :
    r.play (as ++ [a]) = ((r.play as).update a).2 := by
  simp only [play, List.foldl_append, List.foldl_cons, List.foldl_nil]

def Heads (r : Rig) : Prop :=
  r.pose.target = r.pose.headingTarget r.settings.orbitRadius r.settings.lookDistance

structure Flying (r : Rig) : Prop where
  elevation : r.pose.elevation = r.settings.initialAngle
  up : r.pose.up = .up
  heads : r.headed = true → r.Heads
  canonical : r.headed = false → r.pose = .canonical r.settings

/-- In the orbit the angles tell the rest of the pose. -/
structure Orbiting (r : Rig) : Prop where
  eye : r.pose.eye = r.pose.orbitEye r.settings.orbitRadius
  target : r.pose.target = .zero
  up : r.pose.up = r.pose.orbitUp

section Flight

variable {r : Rig} (a : Actions) (x : Binary32)

theorem Flying.new (s : CameraSettings) : (new s).Flying :=
  ⟨rfl, rfl, nofun, fun _ => rfl⟩

theorem Flying.toCanonical (r : Rig) : r.toCanonical.Flying :=
  ⟨rfl, rfl, nofun, fun _ => rfl⟩

theorem heads_turn (r : Rig) : (r.turn x).Heads := by
  unfold Heads turn
  rfl

theorem Flying.turn (h : r.Flying) : (r.turn x).Flying :=
  ⟨h.elevation, h.up, fun _ => heads_turn x r, nofun⟩

/-- A rig about to walk: it has a heading, if need be the one that its azimuth names. -/
def faced (r : Rig) : Rig := if r.headed then r else r.turn 0

theorem headed_faced (r : Rig) : r.faced.headed = true := by
  unfold faced
  split
  · assumption
  · rfl

theorem Flying.faced (h : r.Flying) : r.faced.Flying := by
  unfold Rig.faced
  split
  · exact h
  · exact h.turn 0

theorem frame_faced (r : Rig) : r.faced.settings = r.settings ∧ r.faced.mode = r.mode := by
  unfold faced
  split <;> exact ⟨rfl, rfl⟩

theorem eye_faced (r : Rig) : r.faced.pose.eye = r.pose.eye := by
  unfold faced
  split <;> rfl

theorem headed_walk (r : Rig) : (r.walk x).headed = true := headed_faced r

theorem frame_walk (r : Rig) :
    (r.walk x).settings = r.settings ∧ (r.walk x).mode = r.mode := frame_faced r

theorem Flying.walk (h : r.Flying) : (r.walk x).Flying := by
  have hf := h.faced
  refine ⟨hf.elevation, hf.up, fun _ => hf.heads (headed_faced r), ?_⟩
  intro hc
  rw [headed_walk] at hc
  cases hc

/-- A walk goes straight ahead or back. It never takes its direction from the target of the default
pose, which is the origin. -/
theorem Flying.eye_walk (h : r.Flying) :
    (r.walk x).pose.eye = r.pose.eye +
      ((r.walk x).pose.headingTarget r.settings.orbitRadius r.settings.lookDistance).normalized.scale
        (x * r.settings.movementStep) := by
  have hh : r.faced.Heads := h.faced.heads (headed_faced r)
  have hw : (r.walk x).pose.eye = r.faced.pose.eye +
      r.faced.pose.target.normalized.scale (x * r.faced.settings.movementStep) := rfl
  rw [hw, hh, (frame_faced r).1, eye_faced]
  rfl

/-- A rig with its horizontal direction applied in flight. -/
def steered (r : Rig) : Horizontal → Rig
  | .left => r.turn r.settings.rotationStep
  | .right => r.turn (-r.settings.rotationStep)
  | .none => r

theorem Flying.steered (h : r.Flying) (d : Horizontal) : (r.steered d).Flying := by
  cases d with
  | none => exact h
  | left => exact h.turn _
  | right => exact h.turn _

theorem frame_steered (r : Rig) (d : Horizontal) :
    (r.steered d).settings = r.settings ∧ (r.steered d).mode = r.mode := by
  cases d <;> exact ⟨rfl, rfl⟩

theorem eye_steered (r : Rig) (d : Horizontal) : (r.steered d).pose.eye = r.pose.eye := by
  cases d <;> rfl

theorem headed_steered (r : Rig) (d : Horizontal) :
    (r.steered d).headed = true ↔ r.headed = true ∨ d ≠ .none := by
  cases d <;> simp [steered, turn]

theorem fly_of_sign (r : Rig) {a : Actions} {x : Binary32} (h : a.vertical.sign? = some x) :
    r.fly a = (r.steered a.horizontal).walk x := by
  obtain ⟨rotate, d, v⟩ := a
  cases v with
  | none => cases h
  | up =>
    cases h
    cases d <;> rfl
  | down =>
    cases h
    cases d <;> rfl

theorem fly_of_none (r : Rig) {a : Actions} (h : a.vertical = .none) :
    r.fly a = r.steered a.horizontal := by
  obtain ⟨rotate, d, v⟩ := a
  cases h
  cases d <;> rfl

theorem exists_sign {v : Vertical} (h : v ≠ .none) : ∃ x, v.sign? = some x := by
  cases v with
  | none => exact absurd rfl h
  | up => exact ⟨_, rfl⟩
  | down => exact ⟨_, rfl⟩

theorem Flying.fly (h : r.Flying) : (r.fly a).Flying := by
  by_cases hv : a.vertical = .none
  · rw [fly_of_none r hv]
    exact h.steered a.horizontal
  · obtain ⟨x, hx⟩ := exists_sign hv
    rw [fly_of_sign r hx]
    exact (h.steered a.horizontal).walk x

theorem frame_fly (r : Rig) : (r.fly a).settings = r.settings ∧ (r.fly a).mode = r.mode := by
  have hs := frame_steered r a.horizontal
  by_cases hv : a.vertical = .none
  · rw [fly_of_none r hv]
    exact hs
  · obtain ⟨x, hx⟩ := exists_sign hv
    rw [fly_of_sign r hx]
    exact ⟨(frame_walk x _).1.trans hs.1, (frame_walk x _).2.trans hs.2⟩

theorem headed_fly (r : Rig) :
    (r.fly a).headed = true ↔ r.headed = true ∨ a.horizontal ≠ .none ∨ a.vertical ≠ .none := by
  by_cases hv : a.vertical = .none
  · rw [fly_of_none r hv, headed_steered]
    simp [hv]
  · obtain ⟨x, hx⟩ := exists_sign hv
    rw [fly_of_sign r hx, headed_walk]
    simp [hv]

theorem Flying.eye_fly {a : Actions} {x : Binary32} (h : r.Flying)
    (hx : a.vertical.sign? = some x) :
    (r.fly a).pose.eye = r.pose.eye +
      ((r.fly a).pose.headingTarget r.settings.orbitRadius r.settings.lookDistance).normalized.scale
        (x * r.settings.movementStep) := by
  have hw := (h.steered a.horizontal).eye_walk x
  rw [(frame_steered r _).1, eye_steered] at hw
  rw [fly_of_sign r hx]
  exact hw

end Flight

theorem orbiting_orbit (r : Rig) (a : Actions) : (r.orbit a).Orbiting := ⟨rfl, rfl, rfl⟩

def released (r : Rig) : Rig :=
  { (if r.mode = .rotation then r.toCanonical else r) with mode := .movement }

theorem update_of_rotate (r : Rig) {a : Actions} (h : a.rotateMode = true) :
    r.update a = (⟨.rotation, false⟩, ({ r with mode := .rotation } : Rig).orbit a) := by
  simp only [update, CameraMode.next_eq, h, CameraMode.resetsPose]
  cases r.mode <;> rfl

theorem update_of_not_rotate (r : Rig) {a : Actions} (h : a.rotateMode = false) :
    r.update a = (⟨.movement, r.mode = .rotation⟩, r.released.fly a) := by
  simp only [update, CameraMode.next_eq, h, CameraMode.resetsPose, released]
  cases r.mode <;> rfl

theorem settings_released (r : Rig) : r.released.settings = r.settings := by
  unfold released
  split <;> rfl

theorem headed_released (r : Rig) :
    r.released.headed = true ↔ r.headed = true ∧ r.mode ≠ .rotation := by
  unfold released
  split
  · simp [toCanonical, *]
  · simp [*]

theorem eye_released (r : Rig) :
    r.released.pose.eye =
      if r.mode = .rotation then (Pose.canonical r.settings).eye else r.pose.eye := by
  unfold released
  split <;> rfl

theorem Flying.released {r : Rig} (h : r.mode = .movement → r.Flying) : r.released.Flying := by
  unfold Rig.released
  split
  · have hc := Flying.toCanonical r
    exact ⟨hc.elevation, hc.up, hc.heads, hc.canonical⟩
  · rename_i hm
    have hf := h (by cases hr : r.mode <;> simp_all)
    exact ⟨hf.elevation, hf.up, hf.heads, hf.canonical⟩

structure Remembers (s : CameraSettings) (as : List Actions) (r : Rig) : Prop where
  settings : r.settings = s
  mode : r.mode = .rotation ↔ rotating as = true
  headed : r.headed = true ↔ Turned as
  flying : r.mode = .movement → r.Flying
  orbiting : r.mode = .rotation → r.Orbiting

namespace Remembers

variable {s : CameraSettings} {as : List Actions} {r : Rig} {a : Actions}

theorem new (s : CameraSettings) : Remembers s [] (.new s) where
  settings := rfl
  mode := by simp [Rig.new, rotating]
  headed := by simp [Rig.new, Turned, Since.not_nil]
  flying _ := .new s
  orbiting := nofun

/-- The heading outlasts the orbit, though nothing there looks at it. -/
theorem rotate (h : r.Remembers s as) (ha : a.rotateMode = true) :
    (r.update a).2.Remembers s (as ++ [a]) := by
  rw [update_of_rotate r ha]
  refine ⟨h.settings, ?_, ?_, nofun, fun _ => orbiting_orbit _ a⟩
  · simp [orbit, ha]
  · have ht : Turned (as ++ [a]) ↔ Turned as := by
      simp [Turned, Since.snoc, Actions.Turns, Resets, ha]
    rw [ht]
    exact h.headed

theorem release (h : r.Remembers s as) (ha : a.rotateMode = false) :
    (r.update a).2.Remembers s (as ++ [a]) := by
  rw [update_of_not_rotate r ha]
  have hs := (frame_fly a r.released).1
  have hm : (r.released.fly a).mode = .movement := (frame_fly a r.released).2
  refine ⟨?_, ?_, ?_, fun _ => (Flying.released h.flying).fly a, ?_⟩
  · rw [hs, settings_released, h.settings]
  · simp [hm, ha]
  · rw [headed_fly, headed_released, h.headed, ne_eq, h.mode]
    simp only [Turned, Since.snoc, Actions.Turns, Resets, ha, true_and, and_true]
    exact or_comm
  · intro hr
    rw [hm] at hr
    cases hr

theorem update (h : r.Remembers s as) (a : Actions) :
    (r.update a).2.Remembers s (as ++ [a]) := by
  cases ha : a.rotateMode with
  | true => exact h.rotate ha
  | false => exact h.release ha

theorem play (s : CameraSettings) (as : List Actions) : ((Rig.new s).play as).Remembers s as := by
  induction as using List.reverseRecOn with
  | nil => exact .new s
  | append_singleton as a ih =>
    rw [play_snoc]
    exact ih.update a

end Remembers

/-- The mode and the pose that a history comes to. -/
structure Shows (s : CameraSettings) (as : List Actions) (r : Rig) : Prop where
  mode : r.mode = .rotation ↔ rotating as = true
  level : r.mode = .movement → r.pose.elevation = s.initialAngle ∧ r.pose.up = .up
  canonical : r.mode = .movement → ¬ Turned as → r.pose = .canonical s
  ahead : r.mode = .movement → Turned as →
    r.pose.target = r.pose.headingTarget s.orbitRadius s.lookDistance
  orbit : r.mode = .rotation →
    r.pose.eye = r.pose.orbitEye s.orbitRadius ∧ r.pose.target = .zero ∧
      r.pose.up = r.pose.orbitUp

/-- What one more update reports and does. The walk of a frame comes after its reset and its turn,
and goes along the heading, not towards the origin that the default pose looks at. -/
structure Answers (s : CameraSettings) (as : List Actions) (r : Rig) (a : Actions)
    (step : RigStep) (r' : Rig) : Prop where
  mode : step.mode = r'.mode
  rotates : r'.mode = .rotation ↔ a.rotateMode = true
  resets : step.reset = true ↔ rotating as = true ∧ a.rotateMode = false
  walks : ∀ x, r'.mode = .movement → a.vertical.sign? = some x →
    let heading := r'.pose.headingTarget s.orbitRadius s.lookDistance
    let start := if step.reset then (Pose.canonical s).eye else r.pose.eye
    r'.pose.target = heading ∧
      r'.pose.eye = start + heading.normalized.scale (x * s.movementStep)

theorem Answers.rotate (s : CameraSettings) (as : List Actions) (r : Rig) {a : Actions}
    (ha : a.rotateMode = true) : Answers s as r a (r.update a).1 (r.update a).2 := by
  rw [update_of_rotate r ha]
  have hm : (({ r with mode := .rotation } : Rig).orbit a).mode = .rotation := rfl
  refine ⟨hm.symm, by simp [hm, ha], by simp [ha], ?_⟩
  intro x hf
  rw [hm] at hf
  cases hf

namespace Remembers

variable {s : CameraSettings} {as : List Actions} {r : Rig}

theorem shows (h : r.Remembers s as) : r.Shows s as where
  mode := h.mode
  level hm := by
    have hf := h.flying hm
    rw [← h.settings]
    exact ⟨hf.elevation, hf.up⟩
  canonical hm ht := by
    rw [← h.settings]
    refine (h.flying hm).canonical ?_
    rw [← Bool.not_eq_true, h.headed]
    exact ht
  ahead hm ht := by
    rw [← h.settings]
    exact (h.flying hm).heads (h.headed.2 ht)
  orbit hm := by
    have ho := h.orbiting hm
    rw [← h.settings]
    exact ⟨ho.eye, ho.target, ho.up⟩

theorem answers (h : r.Remembers s as) {a : Actions} (ha : a.rotateMode = false) :
    Answers s as r a (r.update a).1 (r.update a).2 := by
  have hf : r.released.Flying := .released h.flying
  have hs : r.released.settings = s := r.settings_released.trans h.settings
  rw [update_of_not_rotate r ha]
  have hm : (r.released.fly a).mode = .movement := (frame_fly a r.released).2
  refine ⟨hm.symm, by simp [hm, ha], by simp [h.mode, ha], ?_⟩
  intro x _ hx
  have hv : a.vertical ≠ .none := by
    intro hv
    rw [hv] at hx
    cases hx
  have hheads := (hf.fly a).heads ((headed_fly a _).2 (.inr (.inr hv)))
  rw [Heads, (frame_fly a _).1, hs] at hheads
  have he := hf.eye_fly hx
  rw [hs, eye_released, h.settings] at he
  refine ⟨hheads, ?_⟩
  simpa using he

end Remembers

/-- What a camera shows and does after any updates is told by the updates alone. -/
theorem camera_follows_history (s : CameraSettings) (as : List Actions) :
    let r := (new s).play as
    r.Shows s as ∧ ∀ a, Answers s as r a (r.update a).1 (r.update a).2 := by
  intro r
  have h : r.Remembers s as := .play s as
  refine ⟨h.shows, fun a => ?_⟩
  cases ha : a.rotateMode with
  | true => exact .rotate s as r ha
  | false => exact h.answers ha

section Reset

theorem play_append (r : Rig) (as bs : List Actions) : r.play (as ++ bs) = (r.play as).play bs :=
  List.foldl_append

theorem released_of_rotation {r : Rig} (h : r.mode = .rotation) : r.released = new r.settings := by
  rw [released, if_pos h]
  rfl

/-- A reset leaves nothing but the settings of the rig. -/
theorem update_of_reset {r : Rig} {a : Actions} (h : (r.update a).1.reset = true) :
    (r.update a).2 = ((new r.settings).update a).2 := by
  cases ha : a.rotateMode with
  | true =>
    rw [update_of_rotate r ha] at h
    cases h
  | false =>
    rw [update_of_not_rotate r ha] at h ⊢
    rw [update_of_not_rotate (new r.settings) ha, released_of_rotation (of_decide_eq_true h)]
    rfl

/-- From a reset on, the rig is one that was made just before it: nothing that came earlier shows,
then or ever after. -/
theorem reset_erases_history (s : CameraSettings) {as : List Actions} {a : Actions}
    (h : (((new s).play as).update a).1.reset = true) (bs : List Actions) :
    (new s).play (as ++ a :: bs) = (new s).play (a :: bs) := by
  have hs : ((new s).play as).settings = s := (Remembers.play s as).settings
  have hu : (((new s).play as).update a).2 = ((new s).update a).2 := by
    rw [update_of_reset h, hs]
  calc (new s).play (as ++ a :: bs)
      = (((new s).play as).update a).2.play bs := play_append (new s) as (a :: bs)
    _ = ((new s).update a).2.play bs := by rw [hu]
    _ = (new s).play (a :: bs) := rfl

/-- A turn, a walk and an orbit come before the reset, which then walks in the same frame. -/
theorem reset_erases_history_orbit :
    let s := CameraSettings.shipped
    let as : List Actions := [⟨false, .left, .none⟩, ⟨false, .none, .up⟩, ⟨true, .right, .up⟩]
    let a : Actions := ⟨false, .none, .up⟩
    (((new s).play as).update a).1.reset = true ∧
      ∀ bs, (new s).play (as ++ a :: bs) = (new s).play (a :: bs) :=
  ⟨rfl, reset_erases_history .shipped rfl⟩

end Reset

end Rig

end Handoff
