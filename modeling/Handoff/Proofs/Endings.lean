import Handoff.Proofs.LastFrame
import Handoff.Proofs.ScriptedPresses

/-!
How a run ends. The clock goes no further than the timeout, and between two moves of it the tasks
have only so many polls, so no run goes on forever. None is stuck either: it goes on until it ends,
and if the clock can tell the times that the tasks ask for, it ends with an exit.
-/

namespace Handoff

namespace World

variable {u v w : World} {t : Turn}

def timeout (w : World) : Nat := w.main.timeoutMs.toNat * 1000

inductive MainTurn (w : World) : World → Prop
  | unstarted (hp : w.main.phase = .fresh) (ha : after? w.now w.main.timeoutMs = none) :
      MainTurn w { w.post (.runStarted w.input.script.length) with ending := some .overrun }
  | started (hp : w.main.phase = .fresh) :
      MainTurn w ((w.post (.runStarted w.input.script.length)).setMain
        (.waiting (w.now + w.timeout)))
  | reached {deadline : Nat} {frames : UInt32} (hp : w.main.phase = .waiting deadline)
      (hd : w.done = some frames) :
      MainTurn w (({ w with done := none }.post (.budgetReached frames)).exit 0)
  | timedOut {deadline : Nat} (hp : w.main.phase = .waiting deadline) (hd : w.done = none)
      (hl : deadline ≤ w.now) : MainTurn w ((w.post (.timedOut w.main.frames)).exit 1)

theorem mainTurn (hr : w.ready .main = true) : w.MainTurn w.pollMain := by
  have hready := (Bool.and_eq_true_iff.1 hr).2
  unfold pollMain
  cases hp : w.main.phase with
  | fresh =>
    change w.MainTurn ((w.post (.runStarted w.input.script.length)).withAfter w.now
      w.main.timeoutMs _)
    cases ha : after? w.now w.main.timeoutMs with
    | none =>
      rw [withAfter_of_none ha]
      exact .unstarted hp ha
    | some deadline =>
      rw [withAfter_of_some ha, eq_of_after? ha]
      exact .started hp
  | waiting deadline =>
    rw [hp] at hready
    dsimp only at hready ⊢
    cases hd : w.done with
    | some frames => exact .reached hp hd
    | none =>
      rw [hd] at hready
      exact .timedOut hp hd (of_decide_eq_true hready)

theorem not_ready_main (he : w.ending = none) (hr : w.ready .main = false) :
    ∃ deadline, w.main.phase = .waiting deadline ∧ w.done = none ∧ w.now < deadline := by
  unfold ready at hr
  rw [he] at hr
  cases hp : w.main.phase with
  | fresh =>
    rw [hp] at hr
    cases hr
  | waiting deadline =>
    rw [hp] at hr
    obtain ⟨hd, hl⟩ := Bool.or_eq_false_iff.1 hr
    exact ⟨deadline, rfl, Option.isNone_iff_eq_none.1 (by simpa using hd),
      Nat.not_le.1 (of_decide_eq_false hl)⟩

theorem main_take (hw : w.Punctual) (ht : w.Allows t) (hm : t ≠ .poll .main) :
    (w.take t).main = w.main := by
  cases t with
  | clock time => rfl
  | poll t =>
    cases t with
    | main => exact (hm rfl).elim
    | renderer =>
      obtain ⟨_, _, _, _, _, _, heq⟩ := hw.rendererTurn.frame hw.still
      exact (congrArg World.main heq :)
    | controller =>
      obtain ⟨_, _, _, _, _, _, heq⟩ := (hw.controllerTurn ht).frame
      exact (congrArg World.main heq :)
    | input =>
      obtain ⟨_, _, _, _, heq⟩ := w.pollInput_frame
      exact (congrArg World.main heq :)

theorem now_poll (hw : w.Punctual) {n : TaskName} (hr : w.ready n = true) :
    (w.poll n).now = w.now := by
  cases n with
  | main => exact w.pollMain_aside.now
  | input => exact w.pollInput_aside.now
  | renderer =>
    obtain ⟨_, _, _, _, _, _, heq⟩ := hw.rendererTurn.frame hw.still
    exact (congrArg World.now heq :)
  | controller =>
    obtain ⟨_, _, _, _, _, _, heq⟩ := (hw.controllerTurn hr).frame
    exact (congrArg World.now heq :)

structure InTime (w : World) : Prop where
  fresh : w.main.phase = .fresh → w.now = 0
  waiting : ∀ deadline, w.main.phase = .waiting deadline → deadline = w.timeout
  le : w.now ≤ w.timeout

namespace InTime

theorem clock (h : w.InTime) {time : Nat} (ht : w.Allows (.clock time)) :
    (w.take (.clock time)).InTime := by
  obtain ⟨deadline, hp, -, -⟩ := not_ready_main ht.running (ht.not_ready .main)
  have hd : w.deadline? .main = some deadline := by
    unfold deadline?
    rw [hp]
  have hle := ht.le_deadline hd
  rw [ht.take_clock]
  constructor
  · intro hfresh
    cases hp.symm.trans hfresh
  · exact h.waiting
  · rw [h.waiting deadline hp] at hle
    exact hle

theorem pollMain (h : w.InTime) (hr : w.ready .main = true) : w.pollMain.InTime := by
  have hturn := mainTurn hr
  generalize w.pollMain = v at hturn
  cases hturn with
  | unstarted hp => exact ⟨h.fresh, h.waiting, h.le⟩
  | reached hp hd => exact ⟨h.fresh, h.waiting, h.le⟩
  | timedOut hp hd hl => exact ⟨h.fresh, h.waiting, h.le⟩
  | started hp =>
    constructor
    · intro hfresh
      cases hfresh
    · intro deadline hwaiting
      cases hwaiting
      rw [h.fresh hp, Nat.zero_add]
      rfl
    · exact h.le

theorem take (h : w.InTime) (hw : w.Punctual) (ht : w.Allows t) : (w.take t).InTime := by
  by_cases hm : t = .poll .main
  · subst hm
    exact h.pollMain ht
  cases t with
  | clock time => exact h.clock ht
  | poll n =>
    have hmain := main_take hw ht hm
    have hnow : (w.take (.poll n)).now = w.now := now_poll hw ht
    constructor
    · rw [hmain, hnow]
      exact h.fresh
    · rw [timeout, hmain]
      exact h.waiting
    · rw [timeout, hmain, hnow]
      exact h.le

end InTime

theorem not_ready_controller {c : Controller} {latch : Sample} {due : Nat}
    (hp : w.controller.phase = .ticking c latch due) (hd : w.now < due) :
    w.ready .controller = false := by
  unfold ready
  rw [hp]
  exact (congrArg _ (decide_eq_false (Nat.not_le.2 hd))).trans (Bool.and_false _)

theorem not_ready_renderer (hp : w.renderer.phase ≠ .fresh) (hs : w.reset = none)
    (hd : ∀ run, w.renderer.phase = .drawing run → w.now < run.due) :
    w.ready .renderer = false := by
  unfold ready
  rw [hs]
  cases hphase : w.renderer.phase with
  | fresh => exact (hp hphase).elim
  | held => exact Bool.and_false _
  | drawing run =>
    have hlate : decide (run.due ≤ w.now) = false := decide_eq_false (Nat.not_le.2 (hd run hphase))
    dsimp only
    rw [hlate]
    exact Bool.and_false _

theorem ControllerTurn.rests (h : w.ControllerTurn v) (he : v.ending = none) :
    v.ready .controller = false := by
  have hspan := w.tickSpan_pos
  unfold tickSpan at hspan
  cases h with
  | unstarted hp => cases he
  | overrun hp => cases he
  | started hp =>
    apply not_ready_controller rfl
    exact Nat.lt_add_of_pos_right hspan
  | ticked hp =>
    rw [tickOnce_eq]
    apply not_ready_controller rfl
    exact Nat.lt_add_of_pos_right hspan

theorem awaitRelease_phase (hp : w.renderer.phase = .held) :
    w.awaitRelease.renderer.phase ≠ .fresh := by
  cases hs : w.reset with
  | none =>
    rw [awaitRelease_none hs, hp]
    exact nofun
  | some high =>
    cases high with
    | true =>
      rw [awaitRelease_true hs]
      dsimp only
      rw [hp]
      exact nofun
    | false =>
      rw [awaitRelease_false hs, releaseRenderer_eq]
      refine withAfter_cases ?_ fun _ _ => nofun
      dsimp only
      rw [hp]
      exact nofun

theorem heedReset_of_drawing {run : RendererRun} (hp : w.renderer.phase = .drawing run) :
    w.heedReset.reset = none ∧ w.heedReset.renderer.phase ≠ .fresh := by
  cases hs : w.reset with
  | none =>
    rw [heedReset_none hs, hp]
    exact ⟨hs, nofun⟩
  | some high =>
    cases high with
    | true =>
      rw [heedReset_true hp hs]
      exact ⟨rfl, nofun⟩
    | false =>
      rw [heedReset_false hp hs]
      dsimp only
      rw [hp]
      exact ⟨rfl, nofun⟩

theorem heedReset_rests {run : RendererRun} (hp : w.renderer.phase = .drawing run)
    (hd : w.now < run.due) : w.heedReset.ready .renderer = false := by
  obtain ⟨hseen, hphase⟩ := heedReset_of_drawing hp
  apply not_ready_renderer hphase hseen
  intro run' hp'
  obtain ⟨_, _, _, heq⟩ := heedReset_frame w
  have hnow : w.heedReset.now = w.now := by rw [heq]
  cases hp.symm.trans (heedReset_phase hp')
  rw [hnow]
  exact hd

theorem RendererTurn.rests (h : w.RendererTurn v) (hw : w.drawTime = 0) (he : v.ending = none) :
    v.ready .renderer = false := by
  have hspan : 0 < w.framePeriod.toNat * 1000 := Nat.mul_pos w.one_le_framePeriod (by decide)
  cases h with
  | @awaited ns hp hns =>
    apply not_ready_renderer (awaitRelease_phase rfl) (awaitRelease_seen _)
    intro run hp'
    rw [awaitRelease_due rfl hp']
    obtain ⟨_, _, _, _, heq⟩ :=
      awaitRelease_frame ({ w with log := (w.postAll ns).log }.setRenderer .held)
    rw [heq]
    exact Nat.lt_add_of_pos_right hspan
  | overrun hp => cases he
  | @drawn run hp hd =>
    obtain ⟨run', hp'⟩ := phase_drawFrame hw run (w.now + w.framePeriod.toNat * 1000)
    apply heedReset_rests hp'
    rw [drawFrame_eq run _ hw] at hp' ⊢
    cases hp'
    exact Nat.lt_add_of_pos_right hspan
  | early hp hd => exact heedReset_rests hp hd

theorem awaitRelease_task (w : World) :
    ∃ phase, w.awaitRelease.renderer = { w.renderer with phase } := by
  unfold awaitRelease
  split
  · exact ⟨_, rfl⟩
  · exact ⟨_, rfl⟩
  · rw [releaseRenderer_eq]
    exact withAfter_cases ⟨_, rfl⟩ fun _ _ => ⟨_, rfl⟩

theorem heedReset_task (w : World) : ∃ phase, w.heedReset.renderer = { w.renderer with phase } := by
  unfold heedReset
  split
  · exact ⟨_, rfl⟩
  · exact ⟨_, rfl⟩
  · exact ⟨_, rfl⟩

/-- A poll of the renderer counts a frame where it draws one, and else it counts none. -/
inductive Counting (w v : World) : Prop
  | none (hf : v.frames = w.frames) (hd : v.done = w.done)
      (hr : ∃ phase, v.renderer = { w.renderer with phase })
  | one (hf : v.frames.length = w.frames.length + 1) (hd : v.done = w.countFrame.done)
      (hr : ∃ phase, v.renderer = { w.countFrame.renderer with phase })

theorem heedReset_counting (w : World) : Counting w w.heedReset := by
  obtain ⟨_, _, _, heq⟩ := heedReset_frame w
  have hd : w.heedReset.done = w.done := by rw [heq]
  exact .none w.frames_heedReset hd w.heedReset_task

theorem RendererTurn.counting (h : w.RendererTurn v) (hw : w.drawTime = 0) : Counting w v := by
  cases h with
  | @awaited ns hp hns =>
    obtain ⟨_, _, _, _, heq⟩ :=
      awaitRelease_frame ({ w with log := (w.postAll ns).log }.setRenderer .held)
    apply Counting.none
    · rw [frames_awaitRelease]
      rcases hns with rfl | rfl
      · exact (w.frames_postAll _).trans (List.append_nil _)
      · exact (w.frames_postAll _).trans (List.append_nil _)
    · rw [heq]
      rfl
    · exact awaitRelease_task _
  | overrun hp => exact .none rfl rfl ⟨_, rfl⟩
  | @drawn run hp hd =>
    obtain ⟨_, _, _, heq⟩ :=
      heedReset_frame (w.drawFrame run (w.now + w.framePeriod.toNat * 1000))
    obtain ⟨_, hr⟩ := heedReset_task (w.drawFrame run (w.now + w.framePeriod.toNat * 1000))
    apply Counting.one
    · rw [frames_heedReset, frames_drawFrame hw, List.length_append, List.length_singleton]
    · rw [heq, drawFrame_eq run _ hw]
    · rw [hr, drawFrame_eq run _ hw]
      exact ⟨_, rfl⟩
  | early hp hd => exact w.heedReset_counting

structure Kept (u w : World) : Prop where
  main : ∃ phase, w.main = { u.main with phase }
  frameMs : w.renderer.frameMs = u.renderer.frameMs
  frames : w.renderer.frames = u.renderer.frames
  script : w.input.script = u.input.script

namespace Kept

theorem refl (w : World) : Kept w w := ⟨⟨_, rfl⟩, rfl, rfl, rfl⟩

theorem trans (h : Kept u v) (h' : Kept v w) : Kept u w := by
  obtain ⟨phase, hm⟩ := h.main
  obtain ⟨phase', hm'⟩ := h'.main
  refine ⟨⟨phase', ?_⟩, h'.frameMs.trans h.frameMs, h'.frames.trans h.frames,
    h'.script.trans h.script⟩
  rw [hm', hm]

theorem timeout (h : Kept u w) : w.timeout = u.timeout := by
  obtain ⟨_, hm⟩ := h.main
  rw [World.timeout, World.timeout, hm]

theorem of_counting (hm : v.main = w.main) (hi : v.input = w.input) (h : Counting w v) :
    Kept w v := by
  have hs : v.input.script = w.input.script := by rw [hi]
  cases h with
  | none _ _ hr =>
    obtain ⟨_, hr⟩ := hr
    exact ⟨⟨_, hm⟩, by rw [hr], by rw [hr], hs⟩
  | one _ _ hr =>
    obtain ⟨_, hr⟩ := hr
    exact ⟨⟨_, hm⟩, by rw [hr]; rfl, by rw [hr]; rfl, hs⟩

theorem take (hw : w.Punctual) (ht : w.Allows t) : Kept w (w.take t) := by
  cases t with
  | clock time => exact ⟨⟨_, rfl⟩, rfl, rfl, rfl⟩
  | poll n =>
    cases n with
    | main =>
      have hturn := mainTurn ht
      change Kept w w.pollMain
      generalize w.pollMain = v at hturn
      cases hturn with
      | unstarted => exact ⟨⟨_, rfl⟩, rfl, rfl, rfl⟩
      | started => exact ⟨⟨_, rfl⟩, rfl, rfl, rfl⟩
      | reached => exact ⟨⟨_, rfl⟩, rfl, rfl, rfl⟩
      | timedOut => exact ⟨⟨_, rfl⟩, rfl, rfl, rfl⟩
    | renderer =>
      have hm := main_take hw ht nofun
      have hi := input_take hw ht nofun
      exact of_counting hm hi (hw.rendererTurn.counting hw.still)
    | controller =>
      obtain ⟨_, _, _, _, _, _, heq⟩ := (hw.controllerTurn ht).frame
      change Kept w w.pollController
      rw [heq]
      exact ⟨⟨_, rfl⟩, rfl, rfl, rfl⟩
    | input =>
      have hm := main_take hw ht nofun
      have hr := w.pollInput_aside.renderer
      exact ⟨⟨_, hm⟩, congrArg (·.frameMs) hr, congrArg (·.frames) hr, w.script_pollInput⟩

end Kept

end World

def MainPhase.pollsLeft : MainPhase → Nat
  | .fresh => 2
  | .waiting _ => 1

theorem MainPhase.one_le_pollsLeft (phase : MainPhase) : 1 ≤ phase.pollsLeft := by
  cases phase with
  | fresh => exact Nat.le_succ 1
  | waiting deadline => exact Nat.le_refl 1

/-- Every event takes two polls, and the start and the end take one each. -/
def InputPhase.pollsLeft (script : List InputEvent) : InputPhase → Nat
  | .fresh => 2 * script.length + 2
  | .waiting _ _ rest => 2 * rest.length + 3
  | .holding _ rest => 2 * rest.length + 2
  | .finished => 0

theorem InputPhase.Awaits.pollsLeft_le {rest : List InputEvent} {phase : InputPhase}
    (h : phase.Awaits rest) (script : List InputEvent) :
    phase.pollsLeft script ≤ 2 * rest.length + 1 := by
  cases h with
  | next => exact Nat.le_refl _
  | done => exact Nat.zero_le _

namespace World

variable {u v w : World} {t : Turn}

/-- A bound on the turns that are left. The clock moves on by a microsecond or more, which may let
the controller tick, and a tick may let the renderer look at the reset line. -/
def turnsLeft (w : World) : Nat :=
  if w.ending = none then
    4 * (w.timeout - w.now) + w.main.phase.pollsLeft + w.input.phase.pollsLeft w.input.script +
      2 * (w.ready .controller).toNat + (w.ready .renderer).toNat
  else 0

theorem turnsLeft_of_running (h : w.ending = none) :
    w.turnsLeft =
      4 * (w.timeout - w.now) + w.main.phase.pollsLeft + w.input.phase.pollsLeft w.input.script +
        2 * (w.ready .controller).toNat + (w.ready .renderer).toNat := if_pos h

theorem Aside.ready (h : Aside w v) (he : v.ending = w.ending) :
    v.ready .controller = w.ready .controller ∧ v.ready .renderer = w.ready .renderer := by
  unfold World.ready
  rw [he, h.now, h.reset, h.renderer, h.controller]
  exact ⟨rfl, rfl⟩

theorem pollsLeft_pollInput (hr : w.ready .input = true) (he : w.pollInput.ending = none) :
    w.pollInput.input.phase.pollsLeft w.input.script < w.input.phase.pollsLeft w.input.script := by
  cases inputTurn hr he with
  | started hp _ _ hv =>
    have hle := hv.pollsLeft_le w.input.script
    rw [hp, InputPhase.pollsLeft]
    omega
  | @passed _ _ rest hp _ _ _ hv =>
    have hle := hv.pollsLeft_le w.input.script
    have hbefore : w.input.phase.pollsLeft w.input.script = 2 * rest.length + 3 := by rw [hp]; rfl
    omega
  | @pressed _ _ rest hp _ _ _ hv =>
    have hbefore : w.input.phase.pollsLeft w.input.script = 2 * rest.length + 3 := by rw [hp]; rfl
    rw [hbefore, hv, InputPhase.pollsLeft]
    omega
  | @released _ rest hp _ _ hv =>
    have hle := hv.pollsLeft_le w.input.script
    have hbefore : w.input.phase.pollsLeft w.input.script = 2 * rest.length + 2 := by rw [hp]; rfl
    omega

theorem pollsLeft_pollMain (hr : w.ready .main = true) (he : w.pollMain.ending = none) :
    w.pollMain.main.phase.pollsLeft < w.main.phase.pollsLeft := by
  have hturn := mainTurn hr
  generalize w.pollMain = v at hturn he
  cases hturn with
  | unstarted hp => cases he
  | started hp =>
    rw [hp]
    exact Nat.lt_add_one 1
  | reached hp hd => cases he
  | timedOut hp hd hl => cases he

theorem turnsLeft_take (hw : w.Punctual) (hi : w.InTime) (ht : w.Allows t) :
    (w.take t).turnsLeft < w.turnsLeft := by
  have hk := Kept.take hw ht
  have hmain : 1 ≤ w.main.phase.pollsLeft := w.main.phase.one_le_pollsLeft
  have hcontroller := (w.take t).ready .controller |>.toNat_le
  have hrenderer := (w.take t).ready .renderer |>.toNat_le
  rw [turnsLeft_of_running ht.running]
  by_cases he : (w.take t).ending = none
  · rw [turnsLeft_of_running he, hk.timeout, hk.script]
    cases t with
    | clock time =>
      have hlate := (hi.clock ht).le
      rw [ht.take_clock] at hlate hcontroller hrenderer ⊢
      have hlt := ht.2.1
      change time ≤ w.timeout at hlate
      dsimp only
      omega
    | poll n =>
      have hnow : (w.take (.poll n)).now = w.now := now_poll hw ht
      rw [hnow]
      cases n with
      | main =>
        have haside : Aside w (w.take (.poll .main)) := w.pollMain_aside
        obtain ⟨hc, hr⟩ := haside.ready (he.trans ht.running.symm)
        have hlt : (w.take (.poll .main)).main.phase.pollsLeft < _ := pollsLeft_pollMain ht he
        rw [hc, hr, input_take hw ht nofun]
        omega
      | input =>
        have haside : Aside w (w.take (.poll .input)) := w.pollInput_aside
        obtain ⟨hc, hr⟩ := haside.ready (he.trans ht.running.symm)
        have hlt : (w.take (.poll .input)).input.phase.pollsLeft w.input.script < _ :=
          pollsLeft_pollInput ht he
        rw [hc, hr, main_take hw ht nofun]
        omega
      | controller =>
        have hrests : (w.take (.poll .controller)).ready .controller = false :=
          (hw.controllerTurn ht).rests he
        have hready : w.ready .controller = true := ht
        rw [hrests, hready, main_take hw ht nofun, input_take hw ht nofun, Bool.toNat_false,
          Bool.toNat_true]
        omega
      | renderer =>
        have hrests : (w.take (.poll .renderer)).ready .renderer = false :=
          hw.rendererTurn.rests hw.still he
        have hready : w.ready .renderer = true := ht
        have hc : (w.take (.poll .renderer)).ready .controller = w.ready .controller := by
          obtain ⟨_, _, _, _, _, _, heq⟩ := hw.rendererTurn.frame hw.still
          change w.pollRenderer.ending = none at he
          change w.pollRenderer.ready .controller = _
          rw [heq] at he ⊢
          dsimp only at he
          unfold ready
          rw [he, ht.running]
        rw [hrests, hready, hc, main_take hw ht nofun, input_take hw ht nofun, Bool.toNat_false,
          Bool.toNat_true]
        omega
  · rw [turnsLeft, if_neg he]
    omega

theorem lt_deadline {n : TaskName} {due : Nat} (he : w.ending = none) (hr : w.ready n = false)
    (hd : w.deadline? n = some due) : w.now < due := by
  unfold ready at hr
  rw [he] at hr
  unfold deadline? at hd
  cases n with
  | main =>
    cases hp : w.main.phase with
    | fresh =>
      rw [hp] at hd
      cases hd
    | waiting deadline =>
      rw [hp] at hr hd
      cases hd
      exact Nat.not_le.1 (of_decide_eq_false (Bool.or_eq_false_iff.1 hr).2)
  | renderer =>
    cases hp : w.renderer.phase with
    | fresh =>
      rw [hp] at hd
      cases hd
    | held =>
      rw [hp] at hd
      cases hd
    | drawing run =>
      rw [hp] at hr hd
      cases hd
      exact Nat.not_le.1 (of_decide_eq_false (Bool.or_eq_false_iff.1 hr).1)
  | controller =>
    cases hp : w.controller.phase with
    | fresh =>
      rw [hp] at hd
      cases hd
    | ticking c latch time =>
      rw [hp] at hr hd
      cases hd
      exact Nat.not_le.1 (of_decide_eq_false hr)
  | input =>
    cases hp : w.input.phase with
    | fresh =>
      rw [hp] at hd
      cases hd
    | waiting time e rest =>
      rw [hp] at hr hd
      cases hd
      exact Nat.not_le.1 (of_decide_eq_false hr)
    | holding time rest =>
      rw [hp] at hr hd
      cases hd
      exact Nat.not_le.1 (of_decide_eq_false hr)
    | finished =>
      rw [hp] at hd
      cases hd

theorem exists_allows (he : w.ending = none) : ∃ t, w.Allows t := by
  by_cases h : ∃ n, w.ready n = true
  · obtain ⟨n, hr⟩ := h
    exact ⟨.poll n, hr⟩
  · have hr (n : TaskName) : w.ready n = false := Bool.eq_false_iff.2 fun hn => h ⟨n, hn⟩
    refine ⟨.clock (w.now + 1), he, Nat.lt_add_one _, fun n _ => ⟨hr n, ?_⟩⟩
    intro due hd
    exact lt_deadline he (hr n) hd

def Tells (w : World) (ms : UInt64) : Prop := w.timeout + ms.toNat * 1000 < UInt64.size

instance (w : World) (ms : UInt64) : Decidable (w.Tells ms) :=
  inferInstanceAs (Decidable (_ < _))

theorem Tells.exists_after? {ms : UInt64} {time : Nat} (h : w.Tells ms) (hle : time ≤ w.timeout) :
    ∃ due, after? time ms = some due := by
  have hlt : time + ms.toNat * 1000 < UInt64.size :=
    Nat.lt_of_le_of_lt (Nat.add_le_add_right hle _) h
  exact ⟨_, if_pos hlt⟩

/-- The clock can tell the times that the tasks may ask for until the timeout. -/
structure Fits (w : World) : Prop where
  tick : w.Tells w.tickPeriod
  frame : w.Tells w.framePeriod
  events : ∀ e ∈ w.input.script, w.Tells e.atMs ∧ w.Tells e.holdMs

namespace Fits

theorem of_kept (h : u.Fits) (hk : Kept u w)
    (hs : w.controller.settings = u.controller.settings) : w.Fits := by
  have htick : w.tickPeriod = u.tickPeriod := by rw [tickPeriod, tickPeriod, hs]
  have hframe : w.framePeriod = u.framePeriod := by rw [framePeriod, framePeriod, hk.frameMs]
  constructor
  · rw [Tells, htick, hk.timeout]
    exact h.tick
  · rw [Tells, hframe, hk.timeout]
    exact h.frame
  · intro e he
    rw [Tells, Tells, hk.timeout]
    exact h.events e (hk.script ▸ he)

theorem pollMain (h : w.Fits) (hi : w.InTime) (hr : w.ready .main = true) :
    w.pollMain.ending ≠ some .overrun := by
  have he := Option.isNone_iff_eq_none.1 (Bool.and_eq_true_iff.1 hr).1
  have hturn := mainTurn hr
  generalize w.pollMain = v at hturn
  cases hturn with
  | unstarted hp ha =>
    have hlt : w.now + w.main.timeoutMs.toNat * 1000 < UInt64.size := by
      rw [hi.fresh hp, Nat.zero_add]
      exact Nat.lt_of_le_of_lt (Nat.le_add_right _ _) h.tick
    cases ha.symm.trans (if_pos hlt)
  | started hp =>
    change w.ending ≠ _
    rw [he]
    exact nofun
  | reached hp hd => exact nofun
  | timedOut hp hd hl => exact nofun

theorem pollController (h : w.Fits) (hw : w.Punctual) (hi : w.InTime)
    (hr : w.ready .controller = true) : w.pollController.ending = none := by
  have he := Option.isNone_iff_eq_none.1 (Bool.and_eq_true_iff.1 hr).1
  obtain ⟨next, hn⟩ := h.tick.exists_after? hi.le
  rcases ready_controller hr with hc | ⟨c, latch, due, hc, hd⟩
  · rw [pollController_fresh hc, withAfter_of_some hn]
    exact he
  · cases Nat.le_antisymm hd (hw.tick c latch due hc)
    rw [pollController_due hc, withAfter_of_some hn, tickOnce_eq]
    exact he

theorem ending_releaseRenderer {v : World} {next : Nat}
    (hn : after? v.now v.framePeriod = some next) : v.releaseRenderer.ending = v.ending := by
  rw [releaseRenderer_eq]
  dsimp only
  rw [withAfter_of_some hn]
  rfl

theorem awaitRelease (h : w.Fits) (hi : w.InTime) : w.awaitRelease.ending = w.ending := by
  obtain ⟨next, hn⟩ := h.frame.exists_after? hi.le
  cases hs : w.reset with
  | none => rw [awaitRelease_none hs]
  | some high =>
    cases high with
    | true => rw [awaitRelease_true hs]
    | false =>
      rw [awaitRelease_false hs]
      exact ending_releaseRenderer hn

theorem pollRenderer (h : w.Fits) (hw : w.Punctual) (hi : w.InTime) (he : w.ending = none) :
    w.pollRenderer.ending = none := by
  cases hp : w.renderer.phase with
  | fresh =>
    have hpoll : w.pollRenderer =
        ((w.post .rendererStarted).setRenderer .held).awaitRelease := by
      unfold World.pollRenderer
      rw [hp]
    have hsame : ((w.post .rendererStarted).setRenderer .held).Fits := ⟨h.tick, h.frame, h.events⟩
    rw [hpoll]
    exact (hsame.awaitRelease ⟨hi.fresh, hi.waiting, hi.le⟩).trans he
  | held =>
    have hpoll : w.pollRenderer = w.awaitRelease := by
      unfold World.pollRenderer
      rw [hp]
    rw [hpoll]
    exact (h.awaitRelease hi).trans he
  | drawing run =>
    rcases Nat.lt_or_eq_of_le (hw.frame run hp) with hd | hd
    · obtain ⟨_, _, _, heq⟩ := heedReset_frame w
      rw [pollRenderer_early hp hd, heq]
      exact he
    · obtain ⟨next, hn⟩ := h.frame.exists_after? hi.le
      obtain ⟨_, _, _, heq⟩ := heedReset_frame (w.drawFrame run next)
      rw [pollRenderer_due hp hd.symm hw.still, withAfter_of_some hn, heq,
        drawFrame_eq run next hw.still]
      exact he

theorem awaitEvent (he : w.ending = none) {rest : List InputEvent}
    (hrest : ∀ e ∈ rest, ∃ due, after? w.input.startedAt e.atMs = some due) :
    (w.awaitEvent rest).ending = none := by
  cases rest with
  | nil => exact he
  | cons e later =>
    obtain ⟨due, hd⟩ := hrest e List.mem_cons_self
    unfold World.awaitEvent
    dsimp only
    rw [withAfter_of_some hd]
    exact he

theorem pollInput (h : w.Fits) (hi : w.InTime) (hr : w.ready .input = true)
    (hs : w.input.startedAt ≤ w.now)
    (hleft : ∀ e ∈ w.input.phase.remaining w.input.script, e ∈ w.input.script) :
    w.pollInput.ending = none := by
  have he := Option.isNone_iff_eq_none.1 (Bool.and_eq_true_iff.1 hr).1
  have hat {time : Nat} (hle : time ≤ w.now) (e : InputEvent)
      (hm : e ∈ w.input.phase.remaining w.input.script) : ∃ due, after? time e.atMs = some due :=
    (h.events e (hleft e hm)).1.exists_after? (Nat.le_trans hle hi.le)
  rcases ready_input hr with hp | ⟨due, e, rest, hp, _⟩ | ⟨due, rest, hp, _⟩
  · rw [hp] at hat
    rw [pollInput_fresh hp]
    apply awaitEvent
    · exact he
    · exact hat (Nat.le_refl _)
  · rw [hp] at hat hleft
    have hrest (x : InputEvent) (hx : x ∈ rest) := hat hs x (List.mem_cons_of_mem e hx)
    obtain ⟨next, hn⟩ := (h.events e (hleft e List.mem_cons_self)).2.exists_after? hi.le
    rw [pollInput_waiting hp, playEvent_eq]
    split
    · obtain ⟨_, _, heq⟩ := sendSample_frame (w.switched e)
      rw [heq]
      apply awaitEvent
      · exact he
      · exact hrest
    · obtain ⟨_, _, heq⟩ := pressed_frame w e
      rw [withAfter_of_some hn, heq]
      exact he
  · rw [hp] at hat
    obtain ⟨_, _, heq⟩ :=
      sendSample_frame (w.setSample { w.input.current with buttons := .released })
    rw [pollInput_holding hp, heq]
    apply awaitEvent
    · exact he
    · exact hat hs

end Fits

theorem startedAt_awaitEvent (w : World) (rest : List InputEvent) :
    (w.awaitEvent rest).input.startedAt = w.input.startedAt := by
  cases rest with
  | nil => rfl
  | cons e later =>
    unfold awaitEvent
    dsimp only
    exact withAfter_cases rfl fun _ _ => rfl

theorem startedAt_pollInput (hs : w.input.startedAt ≤ w.now) :
    w.pollInput.input.startedAt ≤ w.now := by
  unfold pollInput
  split
  · rw [startedAt_awaitEvent]
    exact Nat.le_refl _
  · next e rest _ =>
    rw [playEvent_eq]
    split
    · rw [startedAt_awaitEvent, (w.switched e).sendSample_same.2]
      exact hs
    · obtain ⟨_, _, heq⟩ := pressed_frame w e
      rw [heq]
      exact withAfter_cases hs fun _ _ => hs
  · rw [startedAt_awaitEvent, (sendSample_same _).2]
    exact hs
  · exact hs

theorem startedAt_take (hw : w.Punctual) (ht : w.Allows t) (hs : w.input.startedAt ≤ w.now) :
    (w.take t).input.startedAt ≤ (w.take t).now := by
  by_cases hi : t = .poll .input
  · subst hi
    have hnow : (w.take (.poll .input)).now = w.now := w.pollInput_aside.now
    rw [hnow]
    exact startedAt_pollInput hs
  rw [input_take hw ht hi]
  cases t with
  | clock time =>
    rw [ht.take_clock]
    exact Nat.le_trans hs (Nat.le_of_lt ht.2.1)
  | poll n =>
    have hnow : (w.take (.poll n)).now = w.now := now_poll hw ht
    rw [hnow]
    exact hs

end World

namespace Unfolds

variable {u w : World} {ms : List Moment}

theorem inTime (h : Unfolds u ms w) (hp : u.Punctual) (hi : u.InTime) : w.InTime :=
  h.punctual_invariant hp hi fun _ _ hv ht h => h.take hv ht

theorem kept (h : Unfolds u ms w) (hp : u.Punctual) : World.Kept u w :=
  h.punctual_invariant hp (.refl u) fun _ _ hv ht h => h.trans (.take hv ht)

/-- No run goes on forever. -/
theorem length_le (h : Unfolds u ms w) (hp : u.Punctual) (hi : u.InTime) :
    ms.length + w.turnsLeft ≤ u.turnsLeft := by
  induction h with
  | start => exact Nat.le_of_eq (Nat.zero_add _)
  | @turn ms w t h ht ih =>
    have hlt := World.turnsLeft_take (h.punctual hp) (h.inTime hp hi) ht
    rw [List.length_append, List.length_singleton]
    omega

theorem startedAt_le (h : Unfolds u ms w) (hp : u.Punctual) (hu : u.input.startedAt ≤ u.now) :
    w.input.startedAt ≤ w.now :=
  h.punctual_invariant (P := fun w => w.input.startedAt ≤ w.now) hp hu fun _ _ hv ht hs =>
    World.startedAt_take hv ht hs

/-- As long as the clock can tell the times that are asked for, nothing but an exit ends a run. -/
theorem not_overrun (h : Unfolds u ms w) (hp : u.Punctual) (hi : u.InTime) (hf : u.Fits)
    {script : List InputEvent} (hu : u.input = .new script) (he : u.ending = none) :
    w.ending ≠ some .overrun := by
  cases h with
  | start =>
    rw [he]
    exact nofun
  | @turn ms w t h ht =>
    have hw := h.punctual hp
    have hin := h.inTime hp hi
    have hfits := hf.of_kept (h.kept hp) (h.settings hp)
    cases t with
    | clock time =>
      rw [ht.take_clock, ht.running]
      exact nofun
    | poll n =>
      cases n with
      | main => exact hfits.pollMain hin ht
      | controller =>
        change w.pollController.ending ≠ _
        rw [hfits.pollController hw hin ht]
        exact nofun
      | renderer =>
        change w.pollRenderer.ending ≠ _
        rw [hfits.pollRenderer hw hin ht.running]
        exact nofun
      | input =>
        have hstarted : u.input.startedAt ≤ u.now := by
          rw [hu]
          exact Nat.zero_le _
        have hreplayed := h.replayed hp hu ht.running
        change w.pollInput.ending ≠ _
        rw [hfits.pollInput hin ht (h.startedAt_le hp hstarted)]
        · exact nofun
        · intro e hm
          rw [hreplayed.kept] at hm ⊢
          rw [← hreplayed.played]
          exact List.mem_append_right _ hm

end Unfolds

end Handoff
