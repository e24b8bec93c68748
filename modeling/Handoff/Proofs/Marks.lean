import Handoff.Proofs.Punctual
import Handoff.Proofs.Release

namespace Handoff

inductive Mark
  | started
  | entered (program resource : Region)
  | stopped
  | left
deriving DecidableEq, Repr

def Notice.mark? : Notice → Option Mark
  | .sessionStarted => some .started
  | .workloadRead program resource => some (.entered program resource)
  | .sessionStopped => some .stopped
  | .rendererStopped _ => some .left
  | _ => none

def sessionMarks : SessionState → SessionState → List Mark
  | .idle, .running => [.started]
  | .running, .idle => [.stopped]
  | _, _ => []

def phaseMarks : RendererPhase → RendererPhase → List Mark
  | .drawing _, .drawing _ => []
  | .drawing _, _ => [.left]
  | _, .drawing run => [.entered run.renderer.program run.renderer.resource]
  | _, _ => []

@[simp] theorem sessionMarks_self (s : SessionState) : sessionMarks s s = [] := by
  cases s <;> rfl

@[simp] theorem phaseMarks_self (p : RendererPhase) : phaseMarks p p = [] := by
  cases p <;> rfl

theorem phaseMarks_of_ne {p : RendererPhase} (h : ∀ run, p ≠ .drawing run) (q : RendererPhase) :
    phaseMarks p q = phaseMarks .held q := by
  cases p with
  | fresh => cases q <;> rfl
  | held => rfl
  | drawing run => exact (h run rfl).elim

namespace World

variable {v w : World}

def marks (w : World) : List Mark := w.notices.filterMap Notice.mark?

theorem marks_post_of_none (w : World) {n : Notice} (hn : n.mark? = none) :
    (w.post n).marks = w.marks := by
  rw [marks, notices_post, List.filterMap_append, List.filterMap_cons_none hn]
  exact List.append_nil _

@[simp] theorem marks_post (w : World) (n : Notice) :
    (w.post n).marks = w.marks ++ (Notice.mark? n).toList := by
  cases h : n.mark? <;> simp [marks, h]

@[simp] theorem marks_postAll (w : World) (ns : List Notice) :
    (w.postAll ns).marks = w.marks ++ ns.filterMap Notice.mark? := by
  simp [marks]

/-- Before its first poll the controller has no session. -/
def session (w : World) : SessionState :=
  match w.controller.phase with
  | .fresh => .idle
  | .ticking c _ _ => c.state

theorem session_of_fresh (h : w.controller.phase = .fresh) : w.session = .idle := by
  rw [session, h]

theorem session_of_ticking {c : Controller} {latch : Sample} {due : Nat}
    (h : w.controller.phase = .ticking c latch due) : w.session = c.state := by
  rw [session, h]

theorem session_congr (h : v.controller = w.controller) : v.session = w.session := by
  rw [session, session, h]

theorem marks_frameNotices (f : Frame) (d : Display) (a : UInt32) :
    (frameNotices f (d.swapTo a).1).filterMap Notice.mark? = [] := by
  have hd : (drawInto MemoryMap.frameBuffers f.target).filterMap Notice.mark? = [] := by
    unfold drawInto
    split <;> rfl
  have hs : (d.swapTo a).1.filterMap Notice.mark? = [] := by
    unfold Display.swapTo
    dsimp only
    split <;> split <;> rfl
  have hc : (if f.report.reset then [Notice.cameraReset] else []).filterMap Notice.mark? = [] := by
    split <;> rfl
  rw [frameNotices, List.filterMap_append, List.filterMap_append, hd, hs]
  exact hc

theorem marks_releaseNotices (w : World) (r : Renderer) :
    (w.releaseNotices r).filterMap Notice.mark? = [.entered r.program r.resource] := by
  have hr : (resourceNotice w.renderer.resource r.resource).mark? = none := by
    unfold resourceNotice
    split <;> rfl
  rw [releaseNotices, List.filterMap_cons, List.filterMap_cons, hr]
  rfl

theorem marks_outcomeNotices {o : Outcome} {c c' : Controller} {m m' : Block}
    (ht : c.Turned m o.transition c' m') :
    (outcomeNotices o).filterMap Notice.mark? = sessionMarks c.state c'.state := by
  obtain ⟨transition, published, latency, refused⟩ := o
  have hr : (if refused then [Notice.startRefused] else []).filterMap Notice.mark? = [] := by
    split <;> rfl
  have hp : (published.map Notice.actionsPublished).toList.filterMap Notice.mark? = [] := by
    cases published <;> rfl
  have hl : (latency.map Notice.latencySampled).toList.filterMap Notice.mark? = [] := by
    cases latency <;> rfl
  rw [outcomeNotices, List.filterMap_append, List.filterMap_append, List.filterMap_append, hr, hp,
    hl, List.append_nil, List.append_nil, List.nil_append]
  cases ht with
  | started hs _ _ hs' _ _ =>
    rw [hs, hs']
    rfl
  | stopped hs hs' _ _ =>
    rw [hs, hs']
    rfl
  | stayed hs' _ _ =>
    rw [hs', sessionMarks_self]
    rfl

theorem marks_drawFrame (hw : w.drawTime = 0) (run : RendererRun) (next : Nat) :
    (w.drawFrame run next).marks = w.marks := by
  have hm := w.marks_postAll (frameNotices (run.renderer.frame w.memory w.now w.now).1
    (run.display.swapTo (run.renderer.frame w.memory w.now w.now).1.swap).1)
  rw [marks_frameNotices, List.append_nil] at hm
  rw [drawFrame_eq run next hw]
  exact hm

theorem phase_drawFrame (hw : w.drawTime = 0) (run : RendererRun) (next : Nat) :
    ∃ run', (w.drawFrame run next).renderer.phase = .drawing run' := by
  rw [drawFrame_eq run next hw]
  exact ⟨_, rfl⟩

theorem marks_heedReset {run : RendererRun} (hp : w.renderer.phase = .drawing run) :
    w.heedReset.marks = w.marks ++ phaseMarks w.renderer.phase w.heedReset.renderer.phase := by
  cases hr : w.reset with
  | none => rw [heedReset_none hr, phaseMarks_self, List.append_nil]
  | some high =>
    cases high with
    | true =>
      rw [heedReset_true hp hr, hp]
      exact marks_post _ _
    | false =>
      rw [heedReset_false hp hr, phaseMarks_self, List.append_nil]
      rfl

theorem marks_releaseRenderer (w : World) :
    let r := Renderer.start (.cached .empty) w.memory .shipped w.renderer.camera
    w.releaseRenderer.marks = w.marks ++ [.entered r.program r.resource] := by
  have hm := w.marks_postAll (w.releaseNotices
    (Renderer.start (.cached .empty) w.memory .shipped w.renderer.camera))
  rw [marks_releaseNotices] at hm
  rw [releaseRenderer_eq]
  exact withAfter_cases hm fun _ _ => hm

theorem marks_awaitRelease (hp : w.renderer.phase = .held) (hv : w.awaitRelease.ending = none) :
    w.awaitRelease.marks = w.marks ++ phaseMarks .held w.awaitRelease.renderer.phase := by
  cases hreset : w.reset with
  | none =>
    rw [awaitRelease_none hreset, hp]
    exact (List.append_nil _).symm
  | some high =>
    cases high with
    | true =>
      rw [awaitRelease_true hreset]
      dsimp only
      rw [hp]
      exact (List.append_nil _).symm
    | false =>
      rw [awaitRelease_false hreset] at hv ⊢
      rw [marks_releaseRenderer]
      rw [releaseRenderer_eq] at hv ⊢
      revert hv
      refine withAfter_cases (fun hv => ?_) fun due _ _ => ?_
      · cases hv
      · rfl

theorem marks_pollRenderer (hw : w.Punctual) (hv : w.pollRenderer.ending = none) :
    w.pollRenderer.marks =
      w.marks ++ phaseMarks w.renderer.phase w.pollRenderer.renderer.phase := by
  have ht := hw.rendererTurn
  generalize w.pollRenderer = v at ht hv
  cases ht with
  | @awaited ns hp hns =>
    rw [marks_awaitRelease rfl hv, phaseMarks_of_ne hp]
    rcases hns with rfl | rfl
    · exact congrArg (· ++ _) ((w.marks_postAll _).trans (List.append_nil _))
    · exact congrArg (· ++ _) ((w.marks_postAll _).trans (List.append_nil _))
  | overrun hp => cases hv
  | @drawn run hp hd =>
    have hm := marks_drawFrame hw.still run (w.now + w.framePeriod.toNat * 1000)
    obtain ⟨run', hp'⟩ := phase_drawFrame hw.still run (w.now + w.framePeriod.toNat * 1000)
    rw [marks_heedReset hp', hm, hp, hp']
    exact congrArg _ (by cases (w.drawFrame run _).heedReset.renderer.phase <;> rfl)
  | early hp hd => exact marks_heedReset hp

theorem marks_of_session_eq (hm : v.marks = w.marks) (hs : v.session = w.session) :
    v.marks = w.marks ++ sessionMarks w.session v.session := by
  rw [hm, hs, sessionMarks_self, List.append_nil]

theorem marks_pollController (hw : w.Punctual) (hr : w.ready .controller = true) :
    w.pollController.marks = w.marks ++ sessionMarks w.session w.pollController.session := by
  have hstart := w.marks_post_of_none (n := .controllerStarted w.controller.settings.tickMs) rfl
  have ht := hw.controllerTurn hr
  generalize w.pollController = v at ht
  cases ht with
  | unstarted hp => exact marks_of_session_eq hstart rfl
  | overrun hp => exact marks_of_session_eq rfl rfl
  | started hp => exact marks_of_session_eq hstart (session_of_fresh hp).symm
  | @ticked c latch hp =>
    rw [tickOnce_eq]
    dsimp only
    generalize w.inputs.latest latch = s
    have hturned := c.turned w.memory s.buttons s.switch
    have hm := w.marks_postAll (outcomeNotices (c.tick w.memory s.buttons s.switch).1)
    rw [marks_outcomeNotices hturned] at hm
    rw [session_of_ticking hp]
    exact hm

theorem marks_pollMain (w : World) : w.pollMain.marks = w.marks := by
  refine w.pollMain_reports.filterMap_eq fun n hn => ?_
  cases n <;> first | rfl | cases hn

theorem marks_pollInput (w : World) : w.pollInput.marks = w.marks := by
  refine w.pollInput_reports.filterMap_eq fun n hn => ?_
  cases n <;> first | rfl | cases hn

end World

/-- What a turn changes of the session and of the renderer. -/
def Moment.marks (m : Moment) : List Mark :=
  sessionMarks m.before.session m.after.session ++
    phaseMarks m.before.renderer.phase m.after.renderer.phase

theorem Moment.marks_after {m : Moment} (hw : m.before.Punctual) (ht : m.before.Allows m.turn)
    (he : m.after.ending = none) : m.after.marks = m.before.marks ++ m.marks := by
  obtain ⟨t, w⟩ := m
  change (w.take t).marks = w.marks ++ (sessionMarks w.session (w.take t).session ++
    phaseMarks w.renderer.phase (w.take t).renderer.phase)
  have hs (hc : (w.take t).controller = w.controller) :
      sessionMarks w.session (w.take t).session = [] := by
    rw [World.session_congr hc, sessionMarks_self]
  have hp (hr : (w.take t).renderer = w.renderer) :
      phaseMarks w.renderer.phase (w.take t).renderer.phase = [] := by
    rw [hr, phaseMarks_self]
  cases t with
  | clock time =>
    rw [hs rfl, hp rfl, List.append_nil, List.append_nil]
    rfl
  | poll t =>
    cases t with
    | main =>
      have ha := w.pollMain_aside
      rw [hs ha.controller, hp ha.renderer, List.append_nil, List.append_nil]
      exact w.marks_pollMain
    | input =>
      have ha := w.pollInput_aside
      rw [hs ha.controller, hp ha.renderer, List.append_nil, List.append_nil]
      exact w.marks_pollInput
    | controller =>
      obtain ⟨_, _, _, _, _, _, heq⟩ := (hw.controllerTurn ht).frame
      have hr : w.pollController.renderer = w.renderer := by rw [heq]
      rw [hp hr, List.append_nil]
      exact World.marks_pollController hw ht
    | renderer =>
      obtain ⟨_, _, _, _, _, _, heq⟩ := hw.rendererTurn.frame hw.still
      have hc : w.pollRenderer.controller = w.controller := by rw [heq]
      rw [hs hc, List.nil_append]
      exact World.marks_pollRenderer hw he

end Handoff
