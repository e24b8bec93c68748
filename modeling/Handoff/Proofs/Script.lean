import Handoff.Proofs.Resolution

namespace Handoff

theorem exists_of_forall₂ {α β : Type} {r : α → β → Prop} {xs : List α} {ys : List β}
    (h : List.Forall₂ r xs ys) : ∀ x ∈ xs, ∃ y ∈ ys, r x y := by
  induction h with
  | nil =>
    intro x hx
    cases hx
  | cons hr h ih =>
    intro x hx
    rcases List.mem_cons.1 hx with rfl | hx
    · exact ⟨_, List.mem_cons_self, hr⟩
    · obtain ⟨y, hy, hxy⟩ := ih x hx
      exact ⟨y, List.mem_cons_of_mem _ hy, hxy⟩

theorem Config.exists_of_inputEvents {c : Config} {script : List InputEvent}
    (h : c.inputEvents = .ok script) {s : ScriptStep} (hs : s ∈ c.script) :
    ∃ e ∈ script, s.resolve c.viewer.controller.tickMs = .ok e := by
  obtain ⟨images, himages, hordered⟩ := resolveScript_eq_ok_iff.1 h
  obtain ⟨e, he, hresolve⟩ := exists_of_forall₂ (mapM_eq_ok_iff.1 himages) s hs
  exact ⟨e, hordered.perm.mem_iff.2 he, hresolve⟩

/-- A script that is written in the order of its times is played as it is written. -/
theorem Config.inputEvents_of_sorted {c : Config} {events : List InputEvent}
    (h : c.script.mapM (ScriptStep.resolve c.viewer.controller.tickMs) = .ok events)
    (hs : events.Pairwise (·.atMs ≤ ·.atMs)) : c.inputEvents = .ok events :=
  resolveScript_eq_ok_iff.2 ⟨events, h, .refl events, hs, fun _ => rfl⟩

namespace ScriptStep

/-- A button is among those of a step, whatever the case of its name. -/
def Names (s : ScriptStep) (b : Button) : Prop :=
  ∃ name ∈ s.press, Button.ofName? (lowercase name) = some b

theorem Image.isPressed_iff {s : ScriptStep} {e : InputEvent} (h : s.Image e) (b : Button) :
    e.press.isPressed b ↔ s.Names b := by
  rw [h.press, Names]
  simp only [Button.ofName?_lowercase_eq_some_iff]

theorem Image.press_ne_released {s : ScriptStep} {e : InputEvent} (h : s.Image e)
    {tickMs : UInt32} (ha : s.Accepted tickMs) (hpress : s.press ≠ []) : e.press ≠ .released := by
  obtain ⟨name, hname⟩ := List.exists_mem_of_ne_nil _ hpress
  obtain ⟨b, hb⟩ := ha.2 name hname
  intro hreleased
  have hheld := (h.press b).2 ⟨name, hname, hb⟩
  rw [hreleased, Buttons.isPressed_released] at hheld
  cases hheld

theorem resolve_ok {tickMs : UInt32} {s : ScriptStep} {e : InputEvent}
    (h : s.resolve tickMs = .ok e) (hpress : s.press ≠ []) :
    tickMs.toNat ≤ s.holdMs.toNat ∧ e.holdMs = s.holdMs ∧ e.press ≠ .released ∧
      ∀ b, s.Names b → e.press.isPressed b := by
  obtain ⟨haccepted, himage⟩ := image_of_resolve h
  exact ⟨haccepted.1.resolve_left hpress, himage.holdMs,
    himage.press_ne_released haccepted hpress, fun b => (himage.isPressed_iff b).2⟩

end ScriptStep

end Handoff
