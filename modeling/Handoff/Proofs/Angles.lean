import Handoff.Proofs.Camera
import Handoff.Proofs.Rounding

namespace Handoff

open Binary

def InTurn (x : Binary32) : Prop := 0 ≤ x ∧ x < tau

instance (x : Binary32) : Decidable (InTurn x) := inferInstanceAs (Decidable (_ ∧ _))

section Tau

theorem isFinite_tau : tau.isFinite := rfl

theorem value_tau : tau.value = 0xC90FDB * 2 ^ (-21 : Int) := by
  have h : tau = finite false 0xC90FDB (-21) (by decide) := by decide
  rw [h, value_finite]
  norm_num [withSign]

theorem tau_pos : 0 < tau.value := by
  rw [value_tau]
  norm_num

/-- A turn is far less than half a unit of the last place of the largest number. -/
theorem tau_small : tau.value < 2 ^ Format.single.maxExponent / 2 := by
  rw [value_tau, Format.single]
  norm_num

end Tau

theorem wrapAngle_inTurn {x : Binary32} (h : x.isFinite) : InTurn (wrapAngle x) := by
  have hf := Format.proper_single
  obtain ⟨hfin, hlt⟩ := remainder_spec hf h isFinite_tau tau_pos.ne'
  rw [abs_of_pos tau_pos] at hlt
  unfold wrapAngle
  dsimp only
  generalize x.remainder tau = rest at hfin hlt ⊢
  -- With a turn added a negative rest is positive, though it may round up to the full turn.
  have hpos : (0 : Binary32) ≤ if rest < 0 then rest + tau else rest := by
    split
    · refine zero_le_add hf hfin isFinite_tau ?_
      linarith [neg_lt_of_abs_lt hlt]
    · next hn =>
      rw [lt_iff hfin (isFinite_ofNat_zero hf), not_lt] at hn
      rwa [le_iff (isFinite_ofNat_zero hf) hfin]
  generalize (if rest < 0 then rest + tau else rest) = r at hpos ⊢
  split
  · decide
  · next hn =>
    have hr : r.isNan = false := by
      cases r with
      | nan => cases hpos
      | infinity => rfl
      | finite => rfl
    exact ⟨hpos, (lt_or_le hr rfl).resolve_right hn⟩

namespace InTurn

variable {x d : Binary32}

theorem isFinite (h : InTurn x) : x.isFinite := by
  cases x with
  | nan => cases h.1
  | infinity s => cases s <;> revert h <;> decide
  | finite => rfl

theorem abs_value_lt (h : InTurn x) : |x.value| < tau.value := by
  have hx := h.isFinite
  have hf := Format.proper_single
  obtain ⟨h₀, h₁⟩ := h
  rw [le_iff (isFinite_ofNat_zero hf) hx, value_ofNat_zero hf] at h₀
  rw [lt_iff hx isFinite_tau] at h₁
  rwa [abs_of_nonneg h₀]

/-- No finite step leads from an angle in range out of the finite numbers. -/
theorem isFinite_add (h : InTurn x) (hd : d.isFinite) : (x + d).isFinite := by
  refine Binary.isFinite_add Format.proper_single h.isFinite hd ?_
  have hx := h.abs_value_lt
  have ht := tau_small
  have hle := abs_value_le hd
  have hadd := abs_add_le x.value d.value
  linarith

end InTurn

namespace CameraSettings

variable {s : CameraSettings} {d x : Binary32}

def steps (s : CameraSettings) : List Binary32 := [s.rotationStep, -s.rotationStep, 0]

theorem isFinite_of_mem_steps (h : s.rotationStep.isFinite) (hd : d ∈ s.steps) : d.isFinite := by
  simp only [steps, List.mem_cons, List.not_mem_nil, or_false] at hd
  rcases hd with rfl | rfl | rfl
  · exact h
  · exact isFinite_neg h
  · exact isFinite_ofNat_zero Format.proper_single

/-- No step leads from the initial angle out of the finite numbers. -/
structure Steady (s : CameraSettings) : Prop where
  step : s.rotationStep.isFinite
  initial : ∀ d ∈ s.steps, (s.initialAngle + d).isFinite

theorem Steady.of_inTurn (hs : s.rotationStep.isFinite) (h : InTurn s.initialAngle) : s.Steady :=
  ⟨hs, fun _ hd => h.isFinite_add (isFinite_of_mem_steps hs hd)⟩

theorem Steady.inTurn_wrapAngle (hs : s.Steady) (hx : InTurn x ∨ x = s.initialAngle)
    (hd : d ∈ s.steps) : InTurn (wrapAngle (x + d)) := by
  apply wrapAngle_inTurn
  rcases hx with hx | rfl
  · exact hx.isFinite_add (isFinite_of_mem_steps hs.step hd)
  · exact hs.initial d hd

end CameraSettings

namespace Rig

def Ranged (r : Rig) : Prop := InTurn r.pose.azimuth ∧ InTurn r.pose.elevation

instance (r : Rig) : Decidable r.Ranged := inferInstanceAs (Decidable (_ ∧ _))

/-- An angle is in range once an update has set it; before that it is the initial one. -/
structure Wrapped (r : Rig) : Prop where
  azimuth : InTurn r.pose.azimuth ∨
    r.mode = .movement ∧ r.headed = false ∧ r.pose.azimuth = r.settings.initialAngle
  elevation : InTurn r.pose.elevation ∨
    r.mode = .movement ∧ r.pose.elevation = r.settings.initialAngle

namespace Wrapped

variable {r : Rig} {d : Binary32} (h : r.Wrapped) (hs : r.settings.Steady)

include h

theorem azimuth_cases : InTurn r.pose.azimuth ∨ r.pose.azimuth = r.settings.initialAngle :=
  h.azimuth.imp_right (·.2.2)

theorem elevation_cases : InTurn r.pose.elevation ∨ r.pose.elevation = r.settings.initialAngle :=
  h.elevation.imp_right (·.2)

theorem released : r.released.Wrapped := by
  unfold Rig.released
  split
  · exact ⟨.inr ⟨rfl, rfl, rfl⟩, .inr ⟨rfl, rfl⟩⟩
  · exact ⟨h.azimuth.imp_right fun e => ⟨rfl, e.2⟩, h.elevation.imp_right fun e => ⟨rfl, e.2⟩⟩

include hs

theorem turn (hd : d ∈ r.settings.steps) : (r.turn d).Wrapped :=
  ⟨.inl (hs.inTurn_wrapAngle h.azimuth_cases hd), h.elevation⟩

theorem faced : r.faced.Wrapped := by
  unfold Rig.faced
  split
  · exact h
  · exact h.turn hs (by simp [CameraSettings.steps])

theorem walk (x : Binary32) : (r.walk x).Wrapped :=
  have hf := h.faced hs
  ⟨hf.azimuth, hf.elevation⟩

theorem steered (d : Horizontal) : (r.steered d).Wrapped := by
  cases d with
  | none => exact h
  | left => exact h.turn hs (by simp [CameraSettings.steps])
  | right => exact h.turn hs (by simp [CameraSettings.steps])

theorem fly (a : Actions) : (r.fly a).Wrapped := by
  have hd := h.steered hs a.horizontal
  by_cases hv : a.vertical = .none
  · rwa [fly_of_none r hv]
  · obtain ⟨x, hx⟩ := exists_sign hv
    rw [fly_of_sign r hx]
    refine hd.walk ?_ x
    rwa [(frame_steered r a.horizontal).1]

theorem orbit (a : Actions) : (({ r with mode := .rotation } : Rig).orbit a).Wrapped := by
  refine ⟨.inl (hs.inTurn_wrapAngle h.azimuth_cases ?_),
    .inl (hs.inTurn_wrapAngle h.elevation_cases ?_)⟩
  · cases a.horizontal <;> simp [CameraSettings.steps]
  · cases a.vertical <;> simp [CameraSettings.steps]

theorem update (a : Actions) : (r.update a).2.Wrapped := by
  cases ha : a.rotateMode with
  | true =>
    rw [update_of_rotate r ha]
    exact h.orbit hs a
  | false =>
    rw [update_of_not_rotate r ha]
    refine h.released.fly ?_ a
    rwa [settings_released]

end Wrapped

theorem Wrapped.play {s : CameraSettings} (hs : s.Steady) (as : List Actions) :
    ((Rig.new s).play as).Wrapped := by
  induction as using List.reverseRecOn with
  | nil => exact ⟨.inr ⟨rfl, rfl, rfl⟩, .inr ⟨rfl, rfl⟩⟩
  | append_singleton as a ih =>
    rw [play_snoc]
    refine ih.update ?_ a
    rwa [(Remembers.play s as).settings]

/-- With a finite step, every angle of every pose is in range just where the initial angle is. Where
that one is not, but a step leads to a finite number, it is the only angle out of range, and only
until an update sets the angle. -/
theorem angles_in_turn (s : CameraSettings) (hs : s.rotationStep.isFinite) :
    ((∀ as, ((new s).play as).Ranged) ↔ InTurn s.initialAngle) ∧
    ((∀ d ∈ s.steps, (s.initialAngle + d).isFinite) → ∀ as,
      let p := ((new s).play as).pose
      (InTurn p.azimuth ∨ rotating as = false ∧ ¬ Turned as ∧ p.azimuth = s.initialAngle) ∧
      (InTurn p.elevation ∨ rotating as = false ∧ p.elevation = s.initialAngle)) := by
  refine ⟨⟨fun h => (h []).1, fun h as => ?_⟩, fun h as => ?_⟩
  · have hw := Wrapped.play (.of_inTurn hs h) as
    rw [← (Remembers.play s as).settings] at h
    exact ⟨hw.azimuth_cases.elim id (· ▸ h), hw.elevation_cases.elim id (· ▸ h)⟩
  · have hr := Remembers.play s as
    have hw := Wrapped.play ⟨hs, h⟩ as
    have hinitial := congrArg CameraSettings.initialAngle hr.settings
    have hrot (hm : ((new s).play as).mode = .movement) : rotating as = false := by
      rw [← Bool.not_eq_true, ← hr.mode, hm]
      decide
    refine ⟨hw.azimuth.imp_right ?_, hw.elevation.imp_right ?_⟩
    · rintro ⟨hm, hh, he⟩
      refine ⟨hrot hm, ?_, he.trans hinitial⟩
      rw [← hr.headed, hh]
      decide
    · rintro ⟨hm, he⟩
      exact ⟨hrot hm, he.trans hinitial⟩

/-- The angles that are shipped are in range whatever happens. Started at half a radian below zero,
they still are in every frame of the orbit. -/
theorem angles_in_turn_shipped :
    let s := CameraSettings.shipped
    let s' : CameraSettings := { s with initialAngle := .ofBits 0xBF000000 }
    (s.rotationStep.isFinite ∧ InTurn s.initialAngle ∧ ∀ as, ((new s).play as).Ranged) ∧
    (∀ d ∈ s'.steps, (s'.initialAngle + d).isFinite) ∧
      ∀ as, rotating as = true → ((new s').play as).Ranged := by
  intro s s'
  have hs : s.rotationStep.isFinite := by decide
  have hi : InTurn s.initialAngle := by decide +kernel
  have hd : ∀ d ∈ s'.steps, (s'.initialAngle + d).isFinite := by decide +kernel
  refine ⟨⟨hs, hi, (angles_in_turn s hs).1.2 hi⟩, hd, fun as ha => ?_⟩
  obtain ⟨hazimuth, helevation⟩ := (angles_in_turn s' hs).2 hd as
  rw [ha] at hazimuth helevation
  exact ⟨hazimuth.resolve_right nofun, helevation.resolve_right nofun⟩

/-- A negative initial angle is copied as it is: a turn brings the azimuth into range, but in free
flight nothing does so for the elevation. -/
theorem angle_out_of_turn :
    let s : CameraSettings := { CameraSettings.shipped with initialAngle := .ofBits 0xBF000000 }
    (s.rotationStep.isFinite ∧ s.movementStep.isFinite ∧ s.orbitRadius.isFinite ∧
      s.lookDistance.isFinite ∧ s.initialAngle.isFinite) ∧
    ¬ InTurn (new s).pose.azimuth ∧ ¬ InTurn (new s).pose.elevation ∧
    ¬ ((new s).play [⟨false, .left, .none⟩]).Ranged := by
  decide +kernel

end Rig

end Handoff
