import Handoff.Proofs.Marks

/-!
The handshake of the controller and the renderer over the reset line. The signal keeps only the last
level of the line, but no tick comes before the renderer has seen what the tick before signalled.
-/

namespace Handoff

inductive SessionStage
  | out
  | called
  | inside
  | dismissed
deriving DecidableEq, Repr

/-- Every session is started, entered with its workload, stopped and left, in this order. -/
inductive Rounds (wl : Workload) : List Mark → SessionStage → Prop
  | none : Rounds wl [] .out
  | started {ms : List Mark} (h : Rounds wl ms .out) : Rounds wl (ms ++ [.started]) .called
  | entered {ms : List Mark} {r : Region} (h : Rounds wl ms .called)
      (hr : ∀ x, wl.resource = some x → r = x) :
      Rounds wl (ms ++ [.entered wl.program r]) .inside
  | stopped {ms : List Mark} (h : Rounds wl ms .inside) : Rounds wl (ms ++ [.stopped]) .dismissed
  | left {ms : List Mark} (h : Rounds wl ms .dismissed) : Rounds wl (ms ++ [.left]) .out

/-- The session, the renderer and the pending signal at each stage. -/
inductive SessionStage.Fits (wl : Workload) (s : SessionState) (p : RendererPhase)
    (r : Option Bool) : SessionStage → Prop
  | out (hs : s = .idle) (hp : ∀ run, p ≠ .drawing run) (hr : r ≠ some false) : Fits wl s p r .out
  | called (hs : s = .running) (hp : ∀ run, p ≠ .drawing run) (hr : r = some false) :
      Fits wl s p r .called
  | inside {run : RendererRun} (hs : s = .running) (hp : p = .drawing run)
      (hw : wl.ReadBy run.renderer) (hr : r = none) : Fits wl s p r .inside
  | dismissed {run : RendererRun} (hs : s = .idle) (hp : p = .drawing run) (hr : r = some true) :
      Fits wl s p r .dismissed

structure Controller.Holds (wl : Workload) (c : Controller) : Prop where
  selected : c.workload = some wl
  order : c.window.order = .little
  low : c.line.high = false ↔ c.state = .running

theorem Controller.holds_new (s : ControllerSettings) (wl : Workload) :
    ((Controller.new s (.cached .empty)).select wl).Holds wl where
  selected := rfl
  order := rfl
  low := by simp [Controller.new, Controller.select, ResetLine.assert]

namespace Controller.Turned

variable {wl : Workload} {c c' : Controller} {m m' : Block} {t : Option SessionState}

theorem stored (ht : c.Turned m t c' m') (hc : c.Holds wl)
    (h : c.state = .running → wl.StoredIn m) (hs : c'.state = .running) : wl.StoredIn m' := by
  cases ht with
  | @started x b _ _ _ hx hb _ _ hm =>
    cases hc.selected.symm.trans hx
    intro f hf v hv
    rw [hm f hf, hb f v hv, hc.order]
    rfl
  | stopped _ hs' _ _ => cases hs'.symm.trans hs
  | stayed hs' _ hm => exact (h (hs'.symm.trans hs)).of_same hm

/-- With no signal pending a tick takes the rounds one stage on, or leaves them where they are. -/
theorem rounds (ht : c.Turned m t c' m') {ms : List Mark} {stage : SessionStage}
    {p : RendererPhase} (hrounds : Rounds wl ms stage) (hfits : stage.Fits wl c.state p none) :
    ∃ stage', Rounds wl (ms ++ sessionMarks c.state c'.state) stage' ∧
      stage'.Fits wl c'.state p (t.map (· == .idle)) := by
  cases ht with
  | started hs _ _ hs' _ _ =>
    rw [hs] at hfits
    rw [hs, hs']
    cases hfits with
    | out _ hp _ => exact ⟨.called, hrounds.started, .called rfl hp rfl⟩
    | called _ _ hr => cases hr
    | inside hrun _ _ _ => cases hrun
    | dismissed _ _ hr => cases hr
  | stopped hs hs' _ _ =>
    rw [hs] at hfits
    rw [hs, hs']
    cases hfits with
    | out hidle _ _ => cases hidle
    | called _ _ hr => cases hr
    | inside _ hp _ _ => exact ⟨.dismissed, hrounds.stopped, .dismissed rfl hp rfl⟩
    | dismissed _ _ hr => cases hr
  | stayed hs' _ _ =>
    rw [hs', sessionMarks_self, List.append_nil]
    exact ⟨stage, hrounds, hfits⟩

end Controller.Turned

namespace World

variable {wl : Workload} {u v w : World}

structure Handshake (wl : Workload) (w : World) : Prop where
  selected : w.controller.workload = wl
  holds : ∀ c latch due, w.controller.phase = .ticking c latch due → c.Holds wl
  stored : w.session = .running → wl.StoredIn w.memory
  prompt : ∀ c latch due, w.controller.phase = .ticking c latch due → w.reset ≠ none → w.now < due
  unstarted : w.ending = none → w.controller.phase = .fresh → ∀ run, w.renderer.phase ≠ .drawing run
  stage : ∃ stage, Rounds wl w.marks stage ∧
    (w.ending = none → stage.Fits wl w.session w.renderer.phase w.reset)

namespace Handshake

theorem standing (h : w.Handshake wl) (he : w.ending = none) :
    ∃ stage, Rounds wl w.marks stage ∧ stage.Fits wl w.session w.renderer.phase w.reset := by
  obtain ⟨stage, hrounds, hfits⟩ := h.stage
  exact ⟨stage, hrounds, hfits he⟩

theorem ended (h : w.Handshake wl) {e : Ending} : { w with ending := some e }.Handshake wl := by
  obtain ⟨stage, hrounds, _⟩ := h.stage
  exact ⟨h.selected, h.holds, h.stored, h.prompt, nofun, stage, hrounds, nofun⟩

/-- The controller finds a world as it left it, but for the signal, which was seen. -/
theorem of_seen (h : w.Handshake wl) (hcontroller : v.controller = w.controller)
    (hmemory : v.memory = w.memory) (hreset : v.reset = none) {stage : SessionStage}
    (hrounds : Rounds wl v.marks stage)
    (hfits : v.ending = none → stage.Fits wl w.session v.renderer.phase none) : v.Handshake wl := by
  have hs : v.session = w.session := session_congr hcontroller
  refine ⟨?_, ?_, ?_, fun _ _ _ _ hn => (hn hreset).elim, fun he hc => ?_, stage, hrounds, ?_⟩
  · rw [hcontroller]
    exact h.selected
  · rw [hcontroller]
    exact h.holds
  · rw [hs, hmemory]
    exact h.stored
  · rw [hcontroller] at hc
    cases hfits he with
    | out _ hp _ => exact hp
    | called _ hp _ => exact hp
    | inside hrun _ _ _ => cases (session_of_fresh hc).symm.trans hrun
    | dismissed _ _ hr => cases hr
  · rw [hs, hreset]
    exact hfits

theorem drawFrame (h : w.Handshake wl) (he : w.ending = none) (hw : w.drawTime = 0)
    {run : RendererRun} (hp : w.renderer.phase = .drawing run) (next : Nat) :
    (w.drawFrame run next).Handshake wl := by
  obtain ⟨stage, hrounds, hfits⟩ := h.standing he
  have hmarks := marks_drawFrame hw run next
  rw [drawFrame_eq run next hw] at hmarks ⊢
  have hm := run.renderer.memory_frame w.memory w.now w.now
  refine ⟨h.selected, h.holds, fun hrun => ?_, h.prompt, fun _ hc => ?_, stage, ?_, fun _ => ?_⟩
  · refine (h.stored hrun).of_same fun f hf => ?_
    have hne : Field.frameLatency ≠ f := by
      rintro rfl
      cases Field.owner_of_mem_regions hf
    exact (congrArg (·.field f) hm).trans (w.memory.field_set_of_ne _ hne)
  · exact (h.unstarted he hc run hp).elim
  · exact hmarks ▸ hrounds
  · cases hfits with
    | out _ hp' _ => exact (hp' run hp).elim
    | called _ hp' _ => exact (hp' run hp).elim
    | inside hs hp' hread hr =>
      cases hp.symm.trans hp'
      exact .inside hs rfl hread hr
    | dismissed hs _ hr => exact .dismissed hs rfl hr

theorem heedReset (h : w.Handshake wl) (he : w.ending = none) {run : RendererRun}
    (hp : w.renderer.phase = .drawing run) : w.heedReset.Handshake wl := by
  obtain ⟨stage, hrounds, hfits⟩ := h.standing he
  cases hfits with
  | out _ hp' _ => exact (hp' run hp).elim
  | called _ hp' _ => exact (hp' run hp).elim
  | inside _ _ _ hr =>
    rw [heedReset_none hr]
    exact h
  | dismissed hs _ hr =>
    have hleft :
        Rounds wl ({ w with reset := none }.post (.rendererStopped run.display.swaps)).marks .out := by
      rw [marks_post]
      exact hrounds.left
    rw [heedReset_true hp hr]
    refine h.of_seen rfl rfl rfl hleft fun _ => .out hs (fun _ hp' => ?_) (fun hn => ?_)
    · cases hp'
    · cases hn

theorem awaitRelease (h : w.Handshake wl) (he : w.ending = none) (hp : w.renderer.phase = .held) :
    w.awaitRelease.Handshake wl := by
  obtain ⟨stage, hrounds, hfits⟩ := h.standing he
  have hheld (run : RendererRun) : w.renderer.phase ≠ .drawing run := by simp [hp]
  cases hfits with
  | out hs _ hr =>
    cases hreset : w.reset with
    | none =>
      rw [awaitRelease_none hreset]
      exact h
    | some high =>
      cases high with
      | true =>
        rw [awaitRelease_true hreset]
        exact h.of_seen rfl rfl rfl hrounds fun _ => .out hs hheld (by simp)
      | false => exact (hr hreset).elim
  | called hs _ hr =>
    have hread := (h.stored hs).read .empty .shipped w.renderer.camera
    rw [awaitRelease_false hr, releaseRenderer_eq]
    generalize Renderer.start (.cached .empty) w.memory .shipped w.renderer.camera = r at hread
    have hentered : Rounds wl
        ({ w with reset := none }.postAll (w.releaseNotices r)).marks .inside := by
      rw [marks_postAll, marks_releaseNotices, hread.1]
      exact hrounds.entered hread.2
    refine withAfter_cases ?_ fun due _ => ?_
    · exact h.of_seen rfl rfl rfl hentered nofun
    · exact h.of_seen rfl rfl rfl hentered fun _ => .inside hs rfl hread rfl
  | inside _ hp' _ _ => exact (hheld _ hp').elim
  | dismissed _ hp' _ => exact (hheld _ hp').elim

theorem pollRenderer (h : w.Handshake wl) (hw : w.Punctual) (he : w.ending = none) :
    w.pollRenderer.Handshake wl := by
  have ht := hw.rendererTurn
  generalize w.pollRenderer = v at ht
  cases ht with
  | @awaited ns hp hns =>
    refine awaitRelease ?_ he rfl
    have hmarks : (w.postAll ns).marks = w.marks := by
      rcases hns with rfl | rfl
      · exact (w.marks_postAll _).trans (List.append_nil _)
      · exact (w.marks_postAll _).trans (List.append_nil _)
    obtain ⟨stage, hrounds, hfits⟩ := h.standing he
    have hheld (run : RendererRun) : RendererPhase.held ≠ .drawing run := nofun
    refine ⟨h.selected, h.holds, h.stored, h.prompt, fun _ _ => hheld, stage, hmarks ▸ hrounds,
      fun _ => ?_⟩
    cases hfits with
    | out hs _ hr => exact .out hs hheld hr
    | called hs _ hr => exact .called hs hheld hr
    | inside _ hp' _ _ => exact (hp _ hp').elim
    | dismissed _ hp' _ => exact (hp _ hp').elim
  | overrun hp => exact h.ended
  | @drawn run hp hd =>
    have hv := h.drawFrame he hw.still hp (w.now + w.framePeriod.toNat * 1000)
    rw [drawFrame_eq run _ hw.still] at hv ⊢
    exact hv.heedReset he rfl
  | early hp hd => exact h.heedReset he hp

theorem startController (h : w.Handshake wl) (he : w.ending = none)
    (hp : w.controller.phase = .fresh) {due : Nat} (hdue : w.now < due) :
    ({ w.post (.controllerStarted w.controller.settings.tickMs) with
      reset := some true }.setController (.ticking
        ((Controller.new w.controller.settings (.cached .empty)).select w.controller.workload)
        .untouched due)).Handshake wl := by
  obtain ⟨stage, hrounds, hfits⟩ := h.standing he
  have hmarks := w.marks_post_of_none (n := .controllerStarted w.controller.settings.tickMs) rfl
  have hs := session_of_fresh hp
  refine ⟨h.selected, fun c latch due hp' => ?_, fun hrun => ?_, fun c latch due hp' _ => ?_,
    nofun, stage, hmarks ▸ hrounds, fun _ => ?_⟩
  · cases hp'
    rw [h.selected]
    exact Controller.holds_new w.controller.settings wl
  · cases hrun
  · cases hp'
    exact hdue
  · cases hfits with
    | out _ hp' _ => exact .out rfl hp' nofun
    | called hrun _ _ => cases hs.symm.trans hrun
    | inside hrun _ _ _ => cases hs.symm.trans hrun
    | dismissed _ hp' _ => exact (h.unstarted he hp _ hp').elim

theorem tickOnce (h : w.Handshake wl) (he : w.ending = none) {c : Controller} {latch : Sample}
    (hp : w.controller.phase = .ticking c latch w.now) {next : Nat} (hnext : w.now < next) :
    (w.tickOnce c latch next).Handshake wl := by
  obtain ⟨stage, hrounds, hfits⟩ := h.standing he
  -- the renderer was polled since the last tick, and took the signal if there was one
  have hreset : w.reset = none := by
    by_contra hn
    exact Nat.lt_irrefl _ (h.prompt c latch w.now hp hn)
  have hc := h.holds c latch w.now hp
  have hs := session_of_ticking hp
  rw [tickOnce_eq]
  dsimp only
  generalize w.inputs.latest latch = s
  have hturned := c.turned w.memory s.buttons s.switch
  have hwork := c.workload_tick w.memory s.buttons s.switch
  have horder := c.order_tick w.memory s.buttons s.switch
  generalize c.tick w.memory s.buttons s.switch = r at hturned hwork horder
  have hmarks := w.marks_postAll (outcomeNotices r.1)
  rw [marks_outcomeNotices hturned] at hmarks
  have hsignal : (resetSignal? r.1 <|> none) = r.1.transition.map (· == .idle) := by
    rw [resetSignal?]
    cases r.1.transition with
    | none => rfl
    | some t => rfl
  rw [hs] at hfits
  rw [hreset] at hfits ⊢
  obtain ⟨stage', hrounds', hfits'⟩ := hturned.rounds hrounds hfits
  refine ⟨h.selected, fun c' latch' due hp' => ?_, fun hrun => ?_, fun c' latch' due hp' _ => ?_,
    nofun, stage', hmarks ▸ hrounds', fun _ => ?_⟩
  · cases hp'
    exact ⟨hwork.trans hc.selected, horder.trans hc.order, hturned.low hc.low⟩
  · exact hturned.stored hc (fun hrun => h.stored (hs.trans hrun)) hrun
  · cases hp'
    exact hnext
  · exact hsignal ▸ hfits'

theorem pollController (h : w.Handshake wl) (hw : w.Punctual) (hr : w.ready .controller = true) :
    w.pollController.Handshake wl := by
  have he : w.ending = none := Option.isNone_iff_eq_none.1 (Bool.and_eq_true_iff.1 hr).1
  have hnext : w.now < w.now + w.tickSpan := Nat.lt_add_of_pos_right w.tickSpan_pos
  have ht := hw.controllerTurn hr
  generalize w.pollController = v at ht
  cases ht with
  | unstarted hp =>
    obtain ⟨stage, hrounds, _⟩ := h.standing he
    have hmarks := w.marks_post_of_none (n := .controllerStarted w.controller.settings.tickMs) rfl
    refine ⟨h.selected, h.holds, h.stored, fun c latch due hp' => ?_, nofun, stage,
      hmarks ▸ hrounds, nofun⟩
    cases hp.symm.trans hp'
  | overrun hp => exact h.ended
  | started hp => exact h.startController he hp hnext
  | ticked hp => exact h.tickOnce he hp hnext

theorem aside (h : w.Handshake wl) (he : w.ending = none) (ha : w.Aside v)
    (hmarks : v.marks = w.marks) : v.Handshake wl := by
  obtain ⟨stage, hrounds, hfits⟩ := h.standing he
  have hs : v.session = w.session := session_congr ha.controller
  refine ⟨?_, ?_, ?_, ?_, ?_, stage, hmarks ▸ hrounds, fun _ => ?_⟩
  · rw [ha.controller]
    exact h.selected
  · rw [ha.controller]
    exact h.holds
  · rw [hs, ha.memory]
    exact h.stored
  · rw [ha.controller, ha.reset, ha.now]
    exact h.prompt
  · rw [ha.controller, ha.renderer]
    exact fun _ => h.unstarted he
  · rw [hs, ha.renderer, ha.reset]
    exact hfits

theorem clock (h : w.Handshake wl) {time : Nat} (ht : w.Allows (.clock time)) :
    (w.take (.clock time)).Handshake wl := by
  obtain ⟨stage, hrounds, hfits⟩ := h.standing ht.running
  rw [ht.take_clock]
  rw [ht.seen] at hfits
  exact h.of_seen rfl rfl ht.seen hrounds fun _ => hfits

theorem take (h : w.Handshake wl) (hw : w.Punctual) {t : Turn} (ht : w.Allows t) :
    (w.take t).Handshake wl := by
  have he := ht.running
  cases t with
  | clock time => exact h.clock ht
  | poll t =>
    cases t with
    | main => exact h.aside he w.pollMain_aside w.marks_pollMain
    | renderer => exact h.pollRenderer hw he
    | controller => exact h.pollController hw ht
    | input => exact h.aside he w.pollInput_aside w.marks_pollInput

end Handshake

theorem handshake_new (main : MainTask) {renderer : RendererTask} (controller : ControllerTask)
    {input : InputTask} (hr : renderer.phase = .fresh) (hc : controller.phase = .fresh) :
    (World.new main renderer controller input).Handshake controller.workload := by
  have hs : (World.new main renderer controller input).session = .idle := session_of_fresh hc
  have hidle (run : RendererRun) : renderer.phase ≠ .drawing run := by simp [hr]
  refine ⟨rfl, fun _ _ _ hp => ?_, fun hrun => ?_, fun _ _ _ hp _ => ?_, fun _ _ => hidle, .out,
    .none, fun _ => .out hs hidle fun hn => ?_⟩
  · cases hc.symm.trans hp
  · cases hs.symm.trans hrun
  · cases hc.symm.trans hp
  · cases hn

end World

theorem Unfolds.handshake {wl : Workload} {u w : World} {ms : List Moment} (h : Unfolds u ms w)
    (hp : u.Punctual) (hu : u.Handshake wl) : w.Handshake wl :=
  h.punctual_invariant hp hu fun _ _ hv ht hh => hh.take hv ht

theorem Config.handshake_world (c : Config) (script : List InputEvent) (resource : List UInt8) :
    (c.world script resource).Handshake (c.workload resource.length) :=
  World.handshake_new _ (.new c.viewer.controller (c.workload resource.length)) rfl rfl

namespace World

variable {wl : Workload} {w : World}

inductive Settled (wl : Workload) (w : World) : Prop
  | out (hs : w.session = .idle) (hp : ∀ run, w.renderer.phase ≠ .drawing run)
      (hm : Rounds wl w.marks .out)
  | inside {run : RendererRun} (hs : w.session = .running) (hp : w.renderer.phase = .drawing run)
      (hw : wl.ReadBy run.renderer) (hm : Rounds wl w.marks .inside)

theorem Handshake.settled (h : w.Handshake wl) (hr : w.ready .controller = true) {c : Controller}
    {latch : Sample} {due : Nat} (hp : w.controller.phase = .ticking c latch due) :
    w.Settled wl := by
  have he : w.ending = none := Option.isNone_iff_eq_none.1 (Bool.and_eq_true_iff.1 hr).1
  obtain ⟨stage, hrounds, hfits⟩ := h.standing he
  have hreset : w.reset = none := by
    by_contra hn
    have hlt := h.prompt c latch due hp hn
    rcases ready_controller hr with hf | ⟨_, _, due', hp', hle⟩
    · cases hf.symm.trans hp
    · cases hp'.symm.trans hp
      omega
  cases hfits with
  | out hs hp' _ => exact .out hs hp' hrounds
  | called _ _ hn => cases hreset.symm.trans hn
  | inside hs hp' hw _ => exact .inside hs hp' hw hrounds
  | dismissed _ _ hn => cases hreset.symm.trans hn

end World

/-- What a turn keeps of the agreement between the two tasks. -/
structure KeepsPace (wl : Workload) (m : Moment) : Prop where
  marked : m.after.ending = none → m.after.marks = m.before.marks ++ m.marks
  stored : m.after.session = .running → wl.StoredIn m.after.memory
  /-- The controller ticks only when the renderer is where the session is. -/
  settled : m.turn = .poll .controller → ∀ c latch due,
    m.before.controller.phase = .ticking c latch due → m.before.Settled wl

/-- Under every order of polling the renderer enters each session of the controller once, with the
workload that the start of the session stored, and leaves it once, before the next tick each. -/
theorem sessions_entered_and_left (c : Config) (script : List InputEvent) (resource : List UInt8)
    {ms : List Moment} {w : World} (h : Unfolds (c.world script resource) ms w) :
    (∃ stage, Rounds (c.workload resource.length) w.marks stage) ∧
      ∀ m ∈ ms, KeepsPace (c.workload resource.length) m := by
  have hp := c.punctual_world script resource
  have hh := c.handshake_world script resource
  refine ⟨?_, fun m hm => ?_⟩
  · obtain ⟨stage, hrounds, _⟩ := (h.handshake hp hh).stage
    exact ⟨stage, hrounds⟩
  · obtain ⟨past, rest, rfl⟩ := List.append_of_mem hm
    obtain ⟨hpast, ht, _⟩ := h.at_moment
    have hp' := hpast.punctual hp
    have hh' := hpast.handshake hp hh
    refine ⟨Moment.marks_after hp' ht, (hh'.take hp' ht).stored, fun hturn _ _ _ hphase => ?_⟩
    rw [hturn] at ht
    exact hh'.settled ht hphase

/-- Two presses of the center button start a session and stop it again. -/
theorem sessions_entered_and_left_two_presses :
    let c : Config := { Config.shipped with run.frameMs := 1000 }
    let wl := c.workload 0
    ∃ ms w, Unfolds (c.world [⟨0, ⟨1⟩, 20, none⟩, ⟨40, ⟨1⟩, 20, none⟩] []) ms w ∧
      w.marks =
        [.started, .entered wl.program ⟨MemoryMap.rendererView MemoryMap.resourceBase, 0⟩,
          .stopped, .left] ∧
      (∃ stage, Rounds wl w.marks stage) ∧ ∀ m ∈ ms, KeepsPace wl m := by
  intro c wl
  have h : (c.world [⟨0, ⟨1⟩, 20, none⟩, ⟨40, ⟨1⟩, 20, none⟩] []).AllowsAll
      [.poll .main, .poll .controller, .poll .renderer, .poll .input, .poll .input,
        .clock 10000, .poll .controller, .poll .renderer, .clock 20000, .poll .controller,
        .poll .input, .clock 30000, .poll .controller, .clock 40000, .poll .controller,
        .poll .input, .clock 50000, .poll .controller, .poll .renderer] := by
    decide +kernel
  refine ⟨_, _, h.unfolds, ?_, sessions_entered_and_left c _ [] h.unfolds⟩
  decide +kernel

end Handoff
