import Handoff.Proofs.Handshake

/-!
Frames and the reset line. The renderer draws a frame that is due before it looks at the line, so a
frame that is due at the very instant of a stop may still be drawn. It is the last one.
-/

namespace Handoff

def Notice.frame? : Notice → Option FrameReport
  | .frameRendered report => some report
  | _ => none

namespace World

variable {wl : Workload} {v w : World}

def frames (w : World) : List FrameReport := w.notices.filterMap Notice.frame?

@[simp] theorem frames_postAll (w : World) (ns : List Notice) :
    (w.postAll ns).frames = w.frames ++ ns.filterMap Notice.frame? := by
  simp [frames]

/-- The level of the reset line, once the controller has taken it over. -/
def line? (w : World) : Option Bool :=
  match w.controller.phase with
  | .fresh => none
  | .ticking c _ _ => some c.line.high

theorem line?_of_ticking {c : Controller} {latch : Sample} {due : Nat}
    (h : w.controller.phase = .ticking c latch due) : w.line? = some c.line.high := by
  rw [line?, h]

theorem Handshake.line_low (h : w.Handshake wl) (hs : w.session = .running) :
    w.line? = some false := by
  cases hc : w.controller.phase with
  | fresh => cases (session_of_fresh hc).symm.trans hs
  | ticking c latch due =>
    rw [line?_of_ticking hc, (h.holds c latch due hc).low.2 ((session_of_ticking hc).symm.trans hs)]

theorem Handshake.line_high (h : w.Handshake wl) (he : w.ending = none) {run : RendererRun}
    (hp : w.renderer.phase = .drawing run) (hs : w.session = .idle) : w.line? = some true := by
  cases hc : w.controller.phase with
  | fresh => exact (h.unstarted he hc run hp).elim
  | ticking c latch due =>
    have hhigh : c.line.high = true := by
      by_contra hn
      have hrun := (h.holds c latch due hc).low.1 (Bool.eq_false_iff.2 hn)
      cases hrun.symm.trans ((session_of_ticking hc).symm.trans hs)
    rw [line?_of_ticking hc, hhigh]

theorem task_outcomeNotices (o : Outcome) : ∀ n ∈ outcomeNotices o, n.task = .controller := by
  intro n hn
  rw [outcomeNotices, List.mem_append, List.mem_append, List.mem_append] at hn
  rcases hn with ((hn | hn) | hn) | hn
  · split at hn
    · cases List.mem_singleton.1 hn
      rfl
    · cases hn
  · split at hn
    · cases List.mem_singleton.1 hn
      rfl
    · cases List.mem_singleton.1 hn
      rfl
    · cases hn
  · obtain ⟨a, _, rfl⟩ := Option.map_eq_some_iff.1 (Option.mem_toList.1 hn)
    rfl
  · obtain ⟨l, _, rfl⟩ := Option.map_eq_some_iff.1 (Option.mem_toList.1 hn)
    rfl

theorem ControllerTurn.reports (h : w.ControllerTurn v) : Reports .controller w v := by
  have hstart : Reports .controller w
      (w.post (.controllerStarted w.controller.settings.tickMs)) := .post rfl
  cases h with
  | unstarted hc => exact hstart.trans (.of_log_eq rfl)
  | overrun hc => exact .of_log_eq rfl
  | started hc => exact hstart.trans (.of_log_eq rfl)
  | ticked hc =>
    rw [tickOnce_eq]
    exact ⟨_, w.notices_postAll _, task_outcomeNotices _⟩

theorem frames_frameNotices (f : Frame) (d : Display) (a : UInt32) :
    (frameNotices f (d.swapTo a).1).filterMap Notice.frame? = [f.report] := by
  have hd : (drawInto MemoryMap.frameBuffers f.target).filterMap Notice.frame? = [] := by
    unfold drawInto
    split <;> rfl
  have hs : (d.swapTo a).1.filterMap Notice.frame? = [] := by
    unfold Display.swapTo
    dsimp only
    split <;> split <;> rfl
  have hc : (if f.report.reset then [Notice.cameraReset] else []).filterMap Notice.frame? = [] := by
    split <;> rfl
  rw [frameNotices, List.filterMap_append, List.filterMap_append, hd, hs]
  exact congrArg (f.report :: ·) hc

theorem frames_drawFrame_slow (w : World) (run : RendererRun) (next : Nat) :
    (w.drawFrame run next).frames =
      w.frames ++ [(run.renderer.frame w.memory w.now (w.now + w.drawTime)).1.report] := by
  let f := run.renderer.frame w.memory w.now (w.now + w.drawTime)
  have hf := frames_postAll { w with now := w.now + w.drawTime, memory := f.2.2 }
    (frameNotices f.1 (run.display.swapTo f.1.swap).1)
  rw [frames_frameNotices] at hf
  exact hf

theorem frames_drawFrame (hw : w.drawTime = 0) (run : RendererRun) (next : Nat) :
    (w.drawFrame run next).frames =
      w.frames ++ [(run.renderer.frame w.memory w.now w.now).1.report] := by
  rw [frames_drawFrame_slow, hw]
  rfl

theorem frames_heedReset (w : World) : w.heedReset.frames = w.frames := by
  unfold heedReset
  split
  · next run _ _ =>
    exact (frames_postAll { w with reset := none } [.rendererStopped run.display.swaps]).trans
      (List.append_nil _)
  · rfl
  · rfl

theorem frames_releaseNotices (w : World) (r : Renderer) :
    (w.releaseNotices r).filterMap Notice.frame? = [] := by
  have hr : (resourceNotice w.renderer.resource r.resource).frame? = none := by
    unfold resourceNotice
    split <;> rfl
  rw [releaseNotices, List.filterMap_cons, List.filterMap_cons, hr]
  rfl

theorem frames_awaitRelease (w : World) : w.awaitRelease.frames = w.frames := by
  unfold awaitRelease
  split
  · rfl
  · rfl
  · have hr (r : Renderer) : ({ w with reset := none }.postAll (w.releaseNotices r)).frames =
        w.frames := by
      rw [frames_postAll, frames_releaseNotices]
      exact List.append_nil _
    rw [releaseRenderer_eq]
    exact withAfter_cases (hr _) fun _ _ => hr _

theorem RendererTurn.draws (h : w.RendererTurn v) (hf : v.frames ≠ w.frames) :
    ∃ run, w.renderer.phase = .drawing run ∧ run.due = w.now ∧
      v = (w.drawFrame run (w.now + w.framePeriod.toNat * 1000)).heedReset := by
  cases h with
  | @awaited ns hp hns =>
    refine (hf ?_).elim
    rw [frames_awaitRelease]
    rcases hns with rfl | rfl
    · exact (w.frames_postAll _).trans (List.append_nil _)
    · exact (w.frames_postAll _).trans (List.append_nil _)
  | overrun hp => exact (hf rfl).elim
  | drawn hp hd => exact ⟨_, hp, hd, rfl⟩
  | early hp hd => exact (hf w.frames_heedReset).elim

theorem renderer_of_frames (hw : w.Punctual) {t : Turn} (ht : w.Allows t)
    (hf : (w.take t).frames ≠ w.frames) : t = .poll .renderer := by
  cases t with
  | clock time => exact (hf rfl).elim
  | poll t =>
    cases t with
    | renderer => rfl
    | main =>
      refine (hf (w.pollMain_reports.filterMap_eq fun n hn => ?_)).elim
      cases n <;> first | rfl | cases hn
    | input =>
      refine (hf (w.pollInput_reports.filterMap_eq fun n hn => ?_)).elim
      cases n <;> first | rfl | cases hn
    | controller =>
      refine (hf ((hw.controllerTurn ht).reports.filterMap_eq fun n hn => ?_)).elim
      cases n <;> first | rfl | cases hn

end World

def Moment.Stops (m : Moment) : Prop :=
  m.turn = .poll .controller ∧ m.before.line? = some false ∧ m.after.line? = some true

namespace World

variable {wl : Workload} {v w : World}

/-- A tick signals the high level only when it stops the session. -/
theorem Handshake.line_of_signal (h : w.Handshake wl) {c : Controller} {latch : Sample}
    (hp : w.controller.phase = .ticking c latch w.now) {next : Nat}
    (hr : (w.tickOnce c latch next).reset = some true) :
    w.line? = some false ∧ (w.tickOnce c latch next).line? = some true := by
  have hc := h.holds c latch w.now hp
  have hreset : w.reset = none := by
    by_contra hn
    exact Nat.lt_irrefl _ (h.prompt c latch w.now hp hn)
  rw [line?_of_ticking hp]
  rw [tickOnce_eq] at hr ⊢
  dsimp only at hr ⊢
  rw [hreset] at hr
  generalize w.inputs.latest latch = s at hr ⊢
  have hturned := c.turned w.memory s.buttons s.switch
  generalize c.tick w.memory s.buttons s.switch = r at hturned hr
  dsimp only at hturned
  have htransition : r.1.transition = some .idle := by
    unfold resetSignal? at hr
    cases ht : r.1.transition with
    | none => simp [ht] at hr
    | some t =>
      cases t with
      | idle => rfl
      | running => simp [ht] at hr
  rw [htransition] at hturned
  cases hturned with
  | stopped hs _ hl _ =>
    refine ⟨congrArg some (hc.low.2 hs), ?_⟩
    change some r.2.1.line.high = some true
    rw [hl]
    rfl

theorem Handshake.line_of_turn (h : w.Handshake wl) (ht : w.ControllerTurn v)
    (he : w.ending = none) (he' : v.ending = none) {run : RendererRun}
    (hd : w.renderer.phase = .drawing run) (hr : v.reset = some true) :
    w.line? = some false ∧ v.line? = some true := by
  cases ht with
  | unstarted hp => cases he'
  | overrun hp => cases he'
  | started hp => exact (h.unstarted he hp run hd).elim
  | ticked hp => exact h.line_of_signal hp hr

theorem heedReset_seen {run : RendererRun} (hd : w.heedReset.renderer.phase = .drawing run) :
    w.heedReset.reset = none := by
  have hp := heedReset_phase hd
  cases hr : w.reset with
  | none => rw [heedReset_none hr, hr]
  | some high =>
    cases high with
    | true =>
      rw [heedReset_true hp hr] at hd
      cases hd
    | false => rw [heedReset_false hp hr]

theorem held_after_frame (hw : w.drawTime = 0) (run : RendererRun) (hr : w.reset = some true)
    (next : Nat) : (w.drawFrame run next).heedReset.renderer.phase = .held := by
  obtain ⟨run', hp⟩ := phase_drawFrame hw run next
  have hreset : (w.drawFrame run next).reset = some true := by rw [drawFrame_eq run next hw, hr]
  rw [heedReset_true hp hreset]
  rfl

theorem awaitRelease_seen (w : World) : w.awaitRelease.reset = none := by
  cases hr : w.reset with
  | none => rw [awaitRelease_none hr, hr]
  | some high =>
    cases high with
    | true => rw [awaitRelease_true hr]
    | false =>
      obtain ⟨_, _, _, heq⟩ := releaseRenderer_frame { w with reset := none }
      rw [awaitRelease_false hr, heq]

/-- A drawing renderer that was polled has seen the signal. -/
theorem RendererTurn.seen (h : w.RendererTurn v) (he : v.ending = none)
    {run : RendererRun} (hd : v.renderer.phase = .drawing run) : v.reset = none := by
  cases h with
  | awaited => exact awaitRelease_seen _
  | overrun => cases he
  | drawn => exact heedReset_seen hd
  | early => exact heedReset_seen hd

end World

/-- While the renderer draws, a pending signal that the line is high comes from a stop that was made
at this very time. -/
theorem Unfolds.stop_now {wl : Workload} {u w : World} {ms : List Moment} (h : Unfolds u ms w)
    (hp : u.Punctual) (hu : u.Handshake wl) (hsignal : u.reset = none) (he : w.ending = none)
    {run : RendererRun} (hd : w.renderer.phase = .drawing run) (hr : w.reset = some true) :
    ∃ k ∈ ms, k.Stops ∧ k.before.now = w.now := by
  induction h generalizing run with
  | start => cases hsignal.symm.trans hr
  | @turn ms w t h ht ih =>
    have hw := h.punctual hp
    have hh := h.handshake hp hu
    -- the other tasks leave the line, the signal and the clock alone
    have hsame (hd : w.renderer.phase = .drawing run) (hr : w.reset = some true)
        (hnow : (w.take t).now = w.now) :
        ∃ k ∈ ms ++ [⟨t, w⟩], k.Stops ∧ k.before.now = (w.take t).now := by
      obtain ⟨k, hk, hs, hnow'⟩ := ih ht.running hd hr
      exact ⟨k, List.mem_append_left _ hk, hs, hnow'.trans hnow.symm⟩
    cases t with
    | clock time =>
      rw [ht.take_clock] at hr
      cases ht.seen.symm.trans hr
    | poll t =>
      cases t with
      | main =>
        have ha := w.pollMain_aside
        exact hsame ((congrArg (·.phase) ha.renderer).symm.trans hd) (ha.reset.symm.trans hr) ha.now
      | input =>
        have ha := w.pollInput_aside
        exact hsame ((congrArg (·.phase) ha.renderer).symm.trans hd) (ha.reset.symm.trans hr) ha.now
      | renderer => cases ((hw.rendererTurn).seen he hd).symm.trans hr
      | controller =>
        have htick := hw.controllerTurn ht
        obtain ⟨_, _, _, _, _, _, heq⟩ := htick.frame
        have hnow : w.pollController.now = w.now := by rw [heq]
        have hrenderer : w.pollController.renderer = w.renderer := by rw [heq]
        have hline := hh.line_of_turn htick ht.running he
          ((congrArg (·.phase) hrenderer).symm.trans hd) hr
        exact ⟨_, List.mem_append_right _ (List.mem_singleton_self _), ⟨rfl, hline⟩, hnow.symm⟩

inductive Drawn (past : List Moment) (m : Moment) : Prop
  | low (hl : m.before.line? = some false)
  /-- The line went high at this very time, and the renderer stops here. -/
  | last (hl : m.before.line? = some true) {k : Moment} (hk : k ∈ past) (hs : k.Stops)
      (hnow : k.before.now = m.before.now) (hp : m.after.renderer.phase = .held)

/-- A turn draws one frame at most, when it is due. With the line high it does so only at the time
of the stop, and as the last thing in the session. -/
theorem frames_drawn_in_session (c : Config) (script : List InputEvent) (resource : List UInt8)
    {past rest : List Moment} {m : Moment} {w : World}
    (h : Unfolds (c.world script resource) (past ++ m :: rest) w)
    (hf : m.after.frames ≠ m.before.frames) :
    (∃ report, m.after.frames = m.before.frames ++ [report]) ∧
      (∃ run, m.before.renderer.phase = .drawing run ∧ run.due = m.before.now) ∧
      Drawn past m := by
  obtain ⟨hpast, ht, _⟩ := h.at_moment
  have hw := hpast.punctual (c.punctual_world script resource)
  have hh := hpast.handshake (c.punctual_world script resource) (c.handshake_world script resource)
  have hturn := World.renderer_of_frames hw ht hf
  obtain ⟨t, v⟩ := m
  cases hturn
  have he : v.ending = none := ht.running
  obtain ⟨run, hp, hdue, hafter⟩ := hw.rendererTurn.draws hf
  refine ⟨⟨(run.renderer.frame v.memory v.now v.now).1.report, ?_⟩, ⟨run, hp, hdue⟩, ?_⟩
  · change v.pollRenderer.frames = _
    rw [hafter, World.frames_heedReset, World.frames_drawFrame hw.still]
  obtain ⟨stage, _, hfits⟩ := hh.standing he
  cases hfits with
  | out _ hp' _ => exact (hp' run hp).elim
  | called _ hp' _ => exact (hp' run hp).elim
  | inside hs _ _ _ => exact .low (hh.line_low hs)
  | dismissed hs _ hr =>
    obtain ⟨k, hk, hstops, hnow⟩ := hpast.stop_now (c.punctual_world script resource)
      (c.handshake_world script resource) rfl he hp hr
    refine .last (hh.line_high he hp hs) hk hstops hnow ?_
    change v.pollRenderer.renderer.phase = .held
    rw [hafter]
    exact World.held_after_frame hw.still run hr _

/-- The first frame of a session is due when the session is stopped again. -/
def stopOnFrame : World :=
  Config.world { Config.shipped with run.frameMs := 20 }
    [⟨0, ⟨1⟩, 10, none⟩, ⟨20, ⟨1⟩, 20, none⟩] []

/-- At each time the controller is polled before the renderer. -/
def stopOnFrameTurns : List Turn :=
  [.poll .main, .poll .controller, .poll .renderer, .poll .input, .poll .input,
    .clock 10000, .poll .controller, .poll .renderer, .poll .input,
    .clock 20000, .poll .controller, .poll .input, .clock 30000, .poll .controller]

theorem stopOnFrame_unfolds :
    Unfolds stopOnFrame
      (stopOnFrame.moments stopOnFrameTurns ++
        [⟨.poll .renderer, stopOnFrame.takeAll stopOnFrameTurns⟩])
      ((stopOnFrame.takeAll stopOnFrameTurns).take (.poll .renderer)) := by
  have hturns : stopOnFrame.AllowsAll stopOnFrameTurns := by decide +kernel
  have ht : (stopOnFrame.takeAll stopOnFrameTurns).Allows (.poll .renderer) := by decide +kernel
  exact hturns.unfolds.turn ht

/-- With the controller polled first, the renderer draws while the line is high. -/
theorem frame_drawn_with_line_high :
    ∃ ms m w, Unfolds stopOnFrame (ms ++ [m]) w ∧ m.before.line? = some true ∧
      m.after.frames.length = m.before.frames.length + 1 := by
  refine ⟨_, _, _, stopOnFrame_unfolds, ?_, ?_⟩
  · decide +kernel
  · decide +kernel

theorem frames_drawn_in_session_stop :
    ∃ past m w, Unfolds stopOnFrame (past ++ [m]) w ∧ m.after.frames ≠ m.before.frames ∧
      (∃ report, m.after.frames = m.before.frames ++ [report]) ∧
      (∃ run, m.before.renderer.phase = .drawing run ∧ run.due = m.before.now) ∧
      Drawn past m := by
  have hf : (Moment.after ⟨.poll .renderer, stopOnFrame.takeAll stopOnFrameTurns⟩).frames ≠
      (Moment.before ⟨.poll .renderer, stopOnFrame.takeAll stopOnFrameTurns⟩).frames := by
    decide +kernel
  exact ⟨_, _, _, stopOnFrame_unfolds, hf, frames_drawn_in_session _ _ _ stopOnFrame_unfolds hf⟩

end Handoff
