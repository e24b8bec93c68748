import Handoff.Proofs.Polls

/-!
Punctuality. As the clock never passes a time that a task waits for, each task but the scripted user
is polled at the very time it waited for. Ticks come at the multiples of their period.
-/

namespace Handoff.World

variable {w : World}

/-- Only a scripted event can be late. -/
structure Punctual (w : World) : Prop where
  still : w.drawTime = 0
  tick : ∀ c latch due, w.controller.phase = .ticking c latch due → w.now ≤ due
  frame : ∀ run, w.renderer.phase = .drawing run → w.now ≤ run.due
  release : ∀ due rest, w.input.phase = .holding due rest → w.now ≤ due

theorem ready_controller (h : w.ready .controller = true) :
    w.controller.phase = .fresh ∨
      ∃ c latch due, w.controller.phase = .ticking c latch due ∧ due ≤ w.now := by
  have hr := (Bool.and_eq_true_iff.1 h).2
  dsimp only at hr
  split at hr
  · next hc => exact .inl hc
  · next hc => exact .inr ⟨_, _, _, hc, of_decide_eq_true hr⟩

theorem ready_input (h : w.ready .input = true) :
    w.input.phase = .fresh ∨
      (∃ due e rest, w.input.phase = .waiting due e rest ∧ due ≤ w.now) ∨
      ∃ due rest, w.input.phase = .holding due rest ∧ due ≤ w.now := by
  have hr := (Bool.and_eq_true_iff.1 h).2
  dsimp only at hr
  split at hr
  · next hi => exact .inl hi
  · next hi => exact .inr (.inl ⟨_, _, _, hi, of_decide_eq_true hr⟩)
  · next hi => exact .inr (.inr ⟨_, _, hi, of_decide_eq_true hr⟩)
  · cases hr

inductive ControllerTurn (w : World) : World → Prop
  | unstarted (h : w.controller.phase = .fresh) :
      ControllerTurn w { w.post (.controllerStarted w.controller.settings.tickMs) with
        reset := some true, ending := some .overrun }
  | overrun {c : Controller} {latch : Sample} (h : w.controller.phase = .ticking c latch w.now) :
      ControllerTurn w { w with ending := some .overrun }
  | started (h : w.controller.phase = .fresh) :
      ControllerTurn w ({ w.post (.controllerStarted w.controller.settings.tickMs) with
        reset := some true }.setController (.ticking
          ((Controller.new w.controller.settings (.cached .empty)).select w.controller.workload)
          .untouched (w.now + w.tickPeriod.toNat * 1000)))
  | ticked {c : Controller} {latch : Sample} (h : w.controller.phase = .ticking c latch w.now) :
      ControllerTurn w (w.tickOnce c latch (w.now + w.tickPeriod.toNat * 1000))

theorem Punctual.controllerTurn (h : w.Punctual) (hr : w.ready .controller = true) :
    w.ControllerTurn w.pollController := by
  rcases ready_controller hr with hc | ⟨c, latch, due, hc, hd⟩
  · rw [pollController_fresh hc]
    refine withAfter_cases (.unstarted hc) fun due hdue => ?_
    rw [eq_of_after? hdue]
    exact .started hc
  · cases Nat.le_antisymm hd (h.tick c latch due hc)
    rw [pollController_due hc]
    refine withAfter_cases (.overrun hc) fun due hdue => ?_
    rw [eq_of_after? hdue]
    exact .ticked hc

inductive RendererTurn (w : World) : World → Prop
  | awaited {ns : List Notice} (h : ∀ run, w.renderer.phase ≠ .drawing run)
      (hns : ns = [] ∨ ns = [.rendererStarted]) :
      RendererTurn w ({ w with log := (w.postAll ns).log }.setRenderer .held).awaitRelease
  | overrun {run : RendererRun} (h : w.renderer.phase = .drawing run) :
      RendererTurn w { w with ending := some .overrun }
  | drawn {run : RendererRun} (h : w.renderer.phase = .drawing run) (hd : run.due = w.now) :
      RendererTurn w (w.drawFrame run (w.now + w.framePeriod.toNat * 1000)).heedReset
  | early {run : RendererRun} (h : w.renderer.phase = .drawing run) (hd : w.now < run.due) :
      RendererTurn w w.heedReset

theorem Punctual.rendererTurn (h : w.Punctual) : w.RendererTurn w.pollRenderer := by
  cases hp : w.renderer.phase with
  | fresh =>
    have he : w.pollRenderer =
        ({ w with log := (w.postAll [.rendererStarted]).log }.setRenderer .held).awaitRelease := by
      unfold pollRenderer
      rw [hp]
      rfl
    rw [he]
    exact .awaited (by simp [hp]) (.inr rfl)
  | held =>
    have he : w.pollRenderer =
        ({ w with log := (w.postAll []).log }.setRenderer .held).awaitRelease := by
      have hw : { w with log := (w.postAll []).log }.setRenderer .held = w := by
        unfold setRenderer
        rw [← hp]
        rfl
      unfold pollRenderer
      rw [hp, hw]
    rw [he]
    exact .awaited (by simp [hp]) (.inl rfl)
  | drawing run =>
    rcases Nat.lt_or_eq_of_le (h.frame run hp) with hd | hd
    · rw [pollRenderer_early hp hd]
      exact .early hp hd
    · rw [pollRenderer_due hp hd.symm h.still]
      refine withAfter_cases (.overrun hp) fun next hn => ?_
      rw [eq_of_after? hn]
      exact .drawn hp hd.symm

theorem RendererTurn.frame {v : World} (h : w.RendererTurn v) (hw : w.drawTime = 0) :
    ∃ memory reset done log ending renderer,
      v = { w with memory, reset, done, log, ending, renderer } := by
  cases h with
  | @awaited ns hp =>
    obtain ⟨_, _, _, _, h⟩ :=
      awaitRelease_frame ({ w with log := (w.postAll ns).log }.setRenderer .held)
    rw [h]
    exact ⟨_, _, _, _, _, _, rfl⟩
  | overrun hp => exact ⟨_, _, _, _, _, _, rfl⟩
  | @drawn run hp hd =>
    obtain ⟨_, _, _, h⟩ :=
      heedReset_frame (w.drawFrame run (w.now + w.framePeriod.toNat * 1000))
    obtain ⟨_, _, _, _, h'⟩ := drawFrame_frame run (w.now + w.framePeriod.toNat * 1000) hw
    rw [h, h']
    exact ⟨_, _, _, _, _, _, rfl⟩
  | early hp hd =>
    obtain ⟨_, _, _, h⟩ := heedReset_frame w
    exact ⟨_, _, _, _, _, _, h⟩

theorem ControllerTurn.frame {v : World} (h : w.ControllerTurn v) :
    ∃ inputs memory reset log ending controller,
      v = { w with inputs, memory, reset, log, ending, controller } := by
  cases h with
  | unstarted hc => exact ⟨_, _, _, _, _, _, rfl⟩
  | overrun hc => exact ⟨_, _, _, _, _, _, rfl⟩
  | started hc => exact ⟨_, _, _, _, _, _, rfl⟩
  | ticked hc =>
    rw [tickOnce_eq]
    exact ⟨_, _, _, _, _, _, rfl⟩

theorem heedReset_phase {run : RendererRun} (h : w.heedReset.renderer.phase = .drawing run) :
    w.renderer.phase = .drawing run := by
  unfold heedReset at h
  split at h
  · cases h
  · exact h
  · exact h

theorem releaseRenderer_phase {run : RendererRun}
    (h : w.releaseRenderer.renderer.phase = .drawing run) :
    w.renderer.phase = .drawing run ∨ run.due = w.now + w.framePeriod.toNat * 1000 := by
  rw [releaseRenderer_eq] at h
  revert h
  refine withAfter_cases .inl fun due hdue h => ?_
  cases h
  exact .inr (eq_of_after? hdue)

theorem awaitRelease_due (hp : w.renderer.phase = .held) {run : RendererRun}
    (h : w.awaitRelease.renderer.phase = .drawing run) :
    run.due = w.now + w.framePeriod.toNat * 1000 := by
  cases hs : w.reset with
  | none =>
    rw [awaitRelease_none hs, hp] at h
    cases h
  | some high =>
    cases high with
    | true =>
      rw [awaitRelease_true hs] at h
      cases hp.symm.trans h
    | false =>
      rw [awaitRelease_false hs] at h
      exact (releaseRenderer_phase h).resolve_left fun hr => by cases hp.symm.trans hr

theorem awaitEvent_phase {script : List InputEvent} {due : Nat} {rest : List InputEvent}
    (h : (w.awaitEvent script).input.phase = .holding due rest) :
    w.input.phase = .holding due rest := by
  cases script with
  | nil => cases h
  | cons e rest =>
    unfold awaitEvent at h
    dsimp only at h
    revert h
    refine withAfter_cases id fun _ _ h => ?_
    cases h

theorem pollInput_phase {due : Nat} {rest : List InputEvent}
    (h : w.pollInput.input.phase = .holding due rest) :
    w.input.phase = .holding due rest ∨
      ∃ time e, w.input.phase = .waiting time e rest ∧ e.press ≠ .released ∧
        due = w.now + e.holdMs.toNat * 1000 := by
  unfold pollInput at h
  split at h
  · next hp =>
    have hp' := awaitEvent_phase h
    exact .inl hp'
  · next time e rest' hp =>
    rw [playEvent_eq] at h
    split at h
    · have hs := awaitEvent_phase h
      obtain ⟨_, _, he⟩ := sendSample_frame (w.switched e)
      rw [he] at hs
      exact .inl hs
    · next hpress =>
      obtain ⟨_, _, he⟩ := pressed_frame w e
      rw [he] at h
      revert h
      refine withAfter_cases .inl fun due' hdue h => ?_
      cases h
      exact .inr ⟨time, e, hp, hpress, eq_of_after? hdue⟩
  · next hp =>
    have hs := awaitEvent_phase h
    obtain ⟨_, _, he⟩ :=
      sendSample_frame (w.setSample { w.input.current with buttons := .released })
    rw [he] at hs
    exact .inl hs
  · exact .inl h

namespace Punctual

theorem clock (h : w.Punctual) {time : Nat} (ht : w.Allows (.clock time)) :
    (w.take (.clock time)).Punctual := by
  rw [ht.take_clock]
  refine ⟨h.still, fun c latch due hc => ?_, fun run hr => ?_, fun due rest hi => ?_⟩
  · have hd : w.deadline? .controller = some due := by
      unfold deadline?
      rw [hc]
    exact ht.le_deadline hd
  · have hd : w.deadline? .renderer = some run.due := by
      unfold deadline?
      rw [hr]
    exact ht.le_deadline hd
  · have hd : w.deadline? .input = some due := by
      unfold deadline?
      rw [hi]
    exact ht.le_deadline hd

theorem pollMain (h : w.Punctual) : w.pollMain.Punctual := by
  obtain ⟨_, _, _, _, he⟩ := pollMain_frame w
  rw [he]
  exact ⟨h.still, h.tick, h.frame, h.release⟩

theorem pollInput (h : w.Punctual) : w.pollInput.Punctual := by
  have hd (due : Nat) (rest : List InputEvent)
      (hp : w.pollInput.input.phase = .holding due rest) : w.now ≤ due := by
    rcases pollInput_phase hp with hp | ⟨_, _, _, _, rfl⟩
    · exact h.release due rest hp
    · exact Nat.le_add_right _ _
  obtain ⟨_, _, _, _, he⟩ := pollInput_frame w
  rw [he] at hd ⊢
  exact ⟨h.still, h.tick, h.frame, hd⟩

theorem pollController (h : w.Punctual) (hr : w.ready .controller = true) :
    w.pollController.Punctual := by
  have ht := h.controllerTurn hr
  have hd (c : Controller) (latch : Sample) (due : Nat)
      (hp : w.pollController.controller.phase = .ticking c latch due) : w.now ≤ due := by
    generalize w.pollController = v at ht hp
    cases ht with
    | unstarted => exact h.tick c latch due hp
    | overrun => exact h.tick c latch due hp
    | started => cases hp; exact Nat.le_add_right _ _
    | ticked => cases hp; exact Nat.le_add_right _ _
  obtain ⟨_, _, _, _, _, _, he⟩ := ht.frame
  rw [he] at hd ⊢
  exact ⟨h.still, hd, h.frame, h.release⟩

theorem pollRenderer (h : w.Punctual) : w.pollRenderer.Punctual := by
  have ht := h.rendererTurn
  have hd (run : RendererRun) (hp : w.pollRenderer.renderer.phase = .drawing run) :
      w.now ≤ run.due := by
    generalize w.pollRenderer = v at ht hp
    cases ht with
    | awaited =>
      rw [awaitRelease_due rfl hp]
      exact Nat.le_add_right _ _
    | overrun => exact h.frame run hp
    | @drawn run' hr hd =>
      have hp' := heedReset_phase hp
      rw [drawFrame_eq run' _ h.still] at hp'
      cases hp'
      exact Nat.le_add_right _ _
    | early hr hd => exact h.frame run (heedReset_phase hp)
  obtain ⟨_, _, _, _, _, _, he⟩ := ht.frame h.still
  rw [he] at hd ⊢
  exact ⟨h.still, h.tick, hd, h.release⟩

theorem take (h : w.Punctual) {t : Turn} (ht : w.Allows t) : (w.take t).Punctual := by
  cases t with
  | clock time => exact h.clock ht
  | poll t =>
    cases t with
    | main => exact h.pollMain
    | renderer => exact h.pollRenderer
    | controller => exact h.pollController ht
    | input => exact h.pollInput

end Punctual

def tickSpan (w : World) : Nat := w.tickPeriod.toNat * 1000

theorem tickSpan_pos (w : World) : 0 < w.tickSpan :=
  Nat.mul_pos w.one_le_tickPeriod (by decide)

theorem tickSpan_congr {v : World} (h : v.controller.settings = w.controller.settings) :
    v.tickSpan = w.tickSpan := by
  rw [tickSpan, tickSpan, tickPeriod, tickPeriod, h]

/-- The controller starts before the clock goes on, and ticks at every multiple of its period. -/
structure OnGrid (w : World) : Prop where
  fresh : w.controller.phase = .fresh → w.now = 0
  grid : ∀ c latch due, w.controller.phase = .ticking c latch due → w.tickSpan ∣ due
  near : ∀ c latch due, w.controller.phase = .ticking c latch due → due ≤ w.now + w.tickSpan

namespace OnGrid

theorem clock (h : w.OnGrid) {time : Nat} (ht : w.Allows (.clock time)) :
    (w.take (.clock time)).OnGrid := by
  rw [ht.take_clock]
  refine ⟨fun hc => ?_, h.grid, fun c latch due hc => ?_⟩
  · have hr := ht.not_ready .controller
    unfold ready at hr
    rw [ht.running, show w.controller.phase = .fresh from hc] at hr
    cases hr
  · exact Nat.le_trans (h.near c latch due hc) (Nat.add_le_add_right (Nat.le_of_lt ht.2.1) _)

theorem pollController (h : w.OnGrid) (hw : w.Punctual) (hr : w.ready .controller = true) :
    w.pollController.OnGrid := by
  have ht := hw.controllerTurn hr
  generalize w.pollController = v at ht
  cases ht with
  | unstarted hc => exact ⟨h.fresh, h.grid, h.near⟩
  | overrun hc => exact ⟨h.fresh, h.grid, h.near⟩
  | started hc =>
    refine ⟨fun hc' => ?_, fun c latch due hc' => ?_, fun c latch due hc' => ?_⟩
    · cases hc'
    · cases hc'
      rw [h.fresh hc, Nat.zero_add]
      exact Nat.dvd_refl _
    · cases hc'
      exact Nat.le_refl _
  | @ticked c latch hc =>
    rw [tickOnce_eq]
    refine ⟨fun hc' => ?_, fun c' latch' due hc' => ?_, fun c' latch' due hc' => ?_⟩
    · cases hc'
    · cases hc'
      exact Nat.dvd_add (h.grid c latch _ hc) (Nat.dvd_refl _)
    · cases hc'
      exact Nat.le_refl _

theorem of_same (h : w.OnGrid) {v : World} (hnow : v.now = w.now)
    (hc : v.controller = w.controller) : v.OnGrid := by
  have hs : v.tickSpan = w.tickSpan := tickSpan_congr (by rw [hc])
  refine ⟨?_, ?_, ?_⟩
  · rw [hc, hnow]
    exact h.fresh
  · rw [hc, hs]
    exact h.grid
  · rw [hc, hnow, hs]
    exact h.near

theorem take (h : w.OnGrid) (hw : w.Punctual) {t : Turn} (ht : w.Allows t) : (w.take t).OnGrid := by
  cases t with
  | clock time => exact h.clock ht
  | poll t =>
    cases t with
    | main => exact h.of_same w.pollMain_aside.now w.pollMain_aside.controller
    | input => exact h.of_same w.pollInput_aside.now w.pollInput_aside.controller
    | controller => exact h.pollController hw ht
    | renderer =>
      obtain ⟨_, _, _, _, _, _, heq⟩ := hw.rendererTurn.frame hw.still
      have hnow : w.pollRenderer.now = w.now := by rw [heq]
      have hc : w.pollRenderer.controller = w.controller := by rw [heq]
      exact h.of_same hnow hc

end OnGrid

theorem punctual_new (main : MainTask) {renderer : RendererTask} {controller : ControllerTask}
    {input : InputTask} (hr : renderer.phase = .fresh) (hc : controller.phase = .fresh)
    (hi : input.phase = .fresh) : (World.new main renderer controller input).Punctual where
  still := rfl
  tick c latch due hp := by cases hc.symm.trans hp
  frame run hp := by cases hr.symm.trans hp
  release due rest hp := by cases hi.symm.trans hp

end Handoff.World

namespace Handoff

theorem Config.onGrid_world (c : Config) (script : List InputEvent) (resource : List UInt8) :
    (c.world script resource).OnGrid where
  fresh _ := rfl
  grid _ _ _ hc := by cases hc
  near _ _ _ hc := by cases hc

theorem Config.punctual_world (c : Config) (script : List InputEvent) (resource : List UInt8) :
    (c.world script resource).Punctual :=
  World.punctual_new _ rfl rfl rfl

theorem Unfolds.punctual {u w : World} {ms : List Moment} (h : Unfolds u ms w) (hu : u.Punctual) :
    w.Punctual := h.invariant hu fun _ _ ht hv => hv.take ht

theorem Unfolds.punctual_invariant {P : World → Prop} {u w : World} {ms : List Moment}
    (h : Unfolds u ms w) (hp : u.Punctual) (hu : P u)
    (hstep : ∀ v t, v.Punctual → v.Allows t → P v → P (v.take t)) : P w := by
  induction h with
  | start => exact hu
  | turn h ht ih => exact hstep _ _ (h.punctual hp) ht ih

theorem Unfolds.onGrid {u w : World} {ms : List Moment} (h : Unfolds u ms w) (hp : u.Punctual)
    (hu : u.OnGrid) : w.OnGrid :=
  h.punctual_invariant hp hu fun _ _ hv ht hg => hg.take hv ht

end Handoff
