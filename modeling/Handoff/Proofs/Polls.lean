import Handoff.Proofs.Turns

namespace Handoff

def Notice.task : Notice → TaskName
  | .runStarted _ | .configRefused _ | .budgetReached _ | .timedOut _ | .blockDumped _ => .main
  | .inputStarted _ | .inputFinished | .sampleDropped _ => .input
  | .controllerStarted _ | .startRefused | .sessionStarted | .sessionStopped |
    .actionsPublished _ | .latencySampled _ => .controller
  | _ => .renderer

namespace World

variable (w : World)

def notices : List Notice := w.log.toList.map (·.2)

@[simp] theorem notices_post (n : Notice) : (w.post n).notices = w.notices ++ [n] := by
  simp [notices, post]

theorem postAll_eq (ns : List Notice) :
    w.postAll ns = { w with log := w.log ++ (ns.map (w.now, ·)).toArray } := by
  induction ns generalizing w with
  | nil => simp [postAll]
  | cons n ns ih =>
    have h : w.postAll (n :: ns) = (w.post n).postAll ns := rfl
    rw [h, ih]
    simp [post]

@[simp] theorem notices_postAll (ns : List Notice) : (w.postAll ns).notices = w.notices ++ ns := by
  rw [postAll_eq]
  simp [notices, Function.comp_def]

variable {w}

@[elab_as_elim]
theorem withAfter_cases {motive : World → Prop} {time : Nat} {ms : UInt64} {go : Nat → World}
    (overrun : motive { w with ending := some .overrun })
    (go_on : ∀ due, after? time ms = some due → motive (go due)) :
    motive (w.withAfter time ms go) := by
  unfold withAfter
  split
  · next due h => exact go_on due h
  · exact overrun

theorem withAfter_of_some {time due : Nat} {ms : UInt64} (h : after? time ms = some due)
    (go : Nat → World) : w.withAfter time ms go = go due := by
  rw [withAfter, h]

theorem withAfter_of_none {time : Nat} {ms : UInt64} (h : after? time ms = none)
    (go : Nat → World) : w.withAfter time ms go = { w with ending := some .overrun } := by
  rw [withAfter, h]

theorem eq_of_after? {time due : Nat} {ms : UInt64} (h : after? time ms = some due) :
    due = time + ms.toNat * 1000 := by
  unfold after? at h
  split at h
  · exact (Option.some.inj h).symm
  · cases h

theorem one_le_max (x : UInt64) : 1 ≤ (max x 1).toNat := by
  have h : (1 : UInt64) ≤ if x ≤ 1 then 1 else x := by
    split
    · exact UInt64.le_refl 1
    · next h => exact UInt64.le_of_lt (UInt64.not_le.1 h)
  exact UInt64.le_iff_toNat_le.1 h

theorem one_le_tickPeriod (w : World) : 1 ≤ w.tickPeriod.toNat := one_le_max _

theorem one_le_framePeriod (w : World) : 1 ≤ w.framePeriod.toNat := one_le_max _

theorem pollMain_frame (w : World) :
    ∃ main done log ending, w.pollMain = { w with main, done, log, ending } := by
  unfold pollMain
  split
  · refine withAfter_cases ?_ fun _ _ => ?_
    · exact ⟨_, _, _, _, rfl⟩
    · exact ⟨_, _, _, _, rfl⟩
  · split
    · exact ⟨_, _, _, _, rfl⟩
    · exact ⟨_, _, _, _, rfl⟩

theorem sendSample_frame (w : World) : ∃ inputs log, w.sendSample = { w with inputs, log } := by
  unfold sendSample
  split
  · exact ⟨_, _, rfl⟩
  · exact ⟨_, _, rfl⟩

theorem awaitEvent_frame (w : World) (script : List InputEvent) :
    ∃ input log ending, w.awaitEvent script = { w with input, log, ending } := by
  cases script with
  | nil => exact ⟨_, _, _, rfl⟩
  | cons e rest =>
    unfold awaitEvent
    dsimp only
    refine withAfter_cases ?_ fun _ _ => ?_
    · exact ⟨_, _, _, rfl⟩
    · exact ⟨_, _, _, rfl⟩

def switched (w : World) (e : InputEvent) : World :=
  w.setSample ⟨w.input.current.buttons, e.switch <|> w.input.current.switch⟩

/-- The buttons of an event are down, and the queue has been told so. -/
def pressed (w : World) (e : InputEvent) : World :=
  ((w.switched e).setSample ⟨e.press, (w.switched e).input.current.switch⟩).sendSample

theorem pressed_frame (w : World) (e : InputEvent) :
    ∃ inputs log, w.pressed e =
      { w with
        inputs, log
        input := { w.input with current := ⟨e.press, e.switch <|> w.input.current.switch⟩ } } := by
  obtain ⟨inputs, log, h⟩ := sendSample_frame
    ((w.switched e).setSample ⟨e.press, (w.switched e).input.current.switch⟩)
  exact ⟨inputs, log, h⟩

theorem playEvent_eq (w : World) (e : InputEvent) (rest : List InputEvent) :
    w.playEvent e rest =
      if e.press = .released then (w.switched e).sendSample.awaitEvent rest
      else (w.pressed e).withAfter w.now e.holdMs fun due =>
        (w.pressed e).setInput (.holding due rest) := by
  obtain ⟨_, _, hf⟩ := pressed_frame w e
  have hnow : (w.pressed e).now = w.now := by rw [hf]
  rw [← hnow]
  unfold playEvent pressed switched
  cases e.switch with
  | none => rfl
  | some level => rfl

theorem playEvent_frame (w : World) (e : InputEvent) (rest : List InputEvent) :
    ∃ inputs input log ending, w.playEvent e rest = { w with inputs, input, log, ending } := by
  rw [playEvent_eq]
  split
  · obtain ⟨_, _, h⟩ := sendSample_frame (w.switched e)
    obtain ⟨_, _, _, h'⟩ := awaitEvent_frame (w.switched e).sendSample rest
    rw [h', h]
    exact ⟨_, _, _, _, rfl⟩
  · obtain ⟨_, _, h⟩ := pressed_frame w e
    rw [h]
    refine withAfter_cases ?_ fun _ _ => ?_
    · exact ⟨_, _, _, _, rfl⟩
    · exact ⟨_, _, _, _, rfl⟩

theorem pollInput_fresh (h : w.input.phase = .fresh) :
    w.pollInput = { w.post (.inputStarted w.input.script.length) with
      input := { w.input with startedAt := w.now } }.awaitEvent w.input.script := by
  unfold pollInput
  rw [h]
  rfl

theorem pollInput_waiting {due : Nat} {e : InputEvent} {rest : List InputEvent}
    (h : w.input.phase = .waiting due e rest) : w.pollInput = w.playEvent e rest := by
  unfold pollInput
  rw [h]

theorem pollInput_holding {due : Nat} {rest : List InputEvent}
    (h : w.input.phase = .holding due rest) :
    w.pollInput =
      (w.setSample { w.input.current with buttons := .released }).sendSample.awaitEvent rest := by
  unfold pollInput
  rw [h]

theorem pollInput_frame (w : World) :
    ∃ inputs input log ending, w.pollInput = { w with inputs, input, log, ending } := by
  unfold pollInput
  split
  · obtain ⟨_, _, _, h⟩ := awaitEvent_frame
      { w.post (.inputStarted w.input.script.length) with
        input := { w.input with startedAt := w.now } } w.input.script
    exact ⟨_, _, _, _, h⟩
  · exact playEvent_frame w _ _
  · next rest _ =>
    obtain ⟨_, _, h⟩ := sendSample_frame (w.setSample { w.input.current with buttons := .released })
    obtain ⟨_, _, _, h'⟩ := awaitEvent_frame
      (w.setSample { w.input.current with buttons := .released }).sendSample rest
    rw [h', h]
    exact ⟨_, _, _, _, rfl⟩
  · exact ⟨_, _, _, _, rfl⟩

structure Aside (w v : World) : Prop where
  now : v.now = w.now
  memory : v.memory = w.memory
  reset : v.reset = w.reset
  renderer : v.renderer = w.renderer
  controller : v.controller = w.controller

theorem pollMain_aside (w : World) : Aside w w.pollMain := by
  obtain ⟨_, _, _, _, h⟩ := pollMain_frame w
  rw [h]
  exact ⟨rfl, rfl, rfl, rfl, rfl⟩

theorem pollInput_aside (w : World) : Aside w w.pollInput := by
  obtain ⟨_, _, _, _, h⟩ := pollInput_frame w
  rw [h]
  exact ⟨rfl, rfl, rfl, rfl, rfl⟩

variable {t : TaskName} {u v : World}

def Reports (t : TaskName) (w v : World) : Prop :=
  ∃ ns : List Notice, v.notices = w.notices ++ ns ∧ ∀ n ∈ ns, n.task = t

namespace Reports

theorem of_log_eq (h : v.log = w.log) : Reports t w v :=
  ⟨[], by simp [notices, h], by simp⟩

theorem trans (h : Reports t u v) (h' : Reports t v w) : Reports t u w := by
  obtain ⟨ns, hns, ht⟩ := h
  obtain ⟨ns', hns', ht'⟩ := h'
  refine ⟨ns ++ ns', ?_, fun n hn => ?_⟩
  · rw [hns', hns, List.append_assoc]
  · exact (List.mem_append.1 hn).elim (ht n) (ht' n)

theorem post {n : Notice} (hn : n.task = t) : Reports t w (w.post n) :=
  ⟨[n], w.notices_post n, by simpa using hn⟩

theorem filterMap_eq {α : Type} {f : Notice → Option α} (h : Reports t w v)
    (hf : ∀ n, n.task = t → f n = none) :
    v.notices.filterMap f = w.notices.filterMap f := by
  obtain ⟨ns, hns, ht⟩ := h
  have hn : ns.filterMap f = [] := List.filterMap_eq_nil_iff.2 fun n hn => hf n (ht n hn)
  rw [hns, List.filterMap_append, hn, List.append_nil]

end Reports

theorem pollMain_reports (w : World) : Reports .main w w.pollMain := by
  unfold pollMain
  split
  · have h : Reports .main w (w.post (.runStarted w.input.script.length)) := .post rfl
    exact withAfter_cases (h.trans (.of_log_eq rfl)) fun _ _ => h.trans (.of_log_eq rfl)
  · split
    · next frames _ =>
      have h : Reports .main w ({ w with done := none }.post (.budgetReached frames)) := .post rfl
      exact h.trans (.post (n := .blockDumped _) rfl)
    · have h : Reports .main w (w.post (.timedOut w.main.frames)) := .post rfl
      exact h.trans (.post (n := .blockDumped _) rfl)

theorem sendSample_reports (w : World) : Reports .input w w.sendSample := by
  unfold sendSample
  split
  · exact .of_log_eq rfl
  · exact .post rfl

theorem awaitEvent_reports (w : World) (script : List InputEvent) :
    Reports .input w (w.awaitEvent script) := by
  cases script with
  | nil => exact .post (n := .inputFinished) rfl
  | cons e rest =>
    unfold awaitEvent
    dsimp only
    exact withAfter_cases (.of_log_eq rfl) fun _ _ => .of_log_eq rfl

theorem pollInput_reports (w : World) : Reports .input w w.pollInput := by
  unfold pollInput
  split
  · have h : Reports .input w (w.post (.inputStarted w.input.script.length)) := .post rfl
    exact h.trans (awaitEvent_reports _ _)
  · next e rest _ =>
    rw [playEvent_eq]
    split
    · exact (sendSample_reports (w.switched e)).trans (awaitEvent_reports _ _)
    · have h : Reports .input w (w.pressed e) := sendSample_reports _
      exact withAfter_cases (h.trans (.of_log_eq rfl)) fun _ _ => h.trans (.of_log_eq rfl)
  · next rest _ =>
    have h := sendSample_reports (w.setSample { w.input.current with buttons := .released })
    exact h.trans (awaitEvent_reports _ _)
  · exact .of_log_eq rfl

theorem pollController_fresh (h : w.controller.phase = .fresh) :
    w.pollController =
      { w.post (.controllerStarted w.controller.settings.tickMs) with reset := some true }.withAfter
        w.now w.tickPeriod fun due =>
          { w.post (.controllerStarted w.controller.settings.tickMs) with
            reset := some true }.setController (.ticking ((Controller.new w.controller.settings
              (.cached .empty)).select w.controller.workload) .untouched due) := by
  unfold pollController
  rw [h]
  rfl

theorem pollController_due {c : Controller} {latch : Sample}
    (h : w.controller.phase = .ticking c latch w.now) :
    w.pollController = w.withAfter w.now w.tickPeriod (w.tickOnce c latch) := by
  unfold pollController
  rw [h]
  dsimp only
  rw [Nat.sub_self, tickUntilDue, h]
  exact if_pos (Nat.le_refl _)

theorem tickOnce_eq (c : Controller) (latch : Sample) (next : Nat) :
    w.tickOnce c latch next =
      let s := w.inputs.latest latch
      let r := c.tick w.memory s.buttons s.switch
      { w with
        inputs := .empty
        memory := r.2.2
        reset := resetSignal? r.1 <|> w.reset
        log := (w.postAll (outcomeNotices r.1)).log
        controller := { w.controller with phase := .ticking r.2.1 s next } } := by
  unfold tickOnce
  dsimp only
  rw [postAll_eq, postAll_eq]
  rfl

theorem pollRenderer_early {run : RendererRun} (h : w.renderer.phase = .drawing run)
    (hd : w.now < run.due) : w.pollRenderer = w.heedReset := by
  unfold pollRenderer
  rw [h]
  dsimp only
  rw [drawUntilDue, h]
  exact if_neg (Nat.not_le.2 hd)

theorem drawFrame_eq (run : RendererRun) (next : Nat) (hw : w.drawTime = 0) :
    w.drawFrame run next =
      let f := run.renderer.frame w.memory w.now w.now
      let d := run.display.swapTo f.1.swap
      { w with
        memory := f.2.2
        done := w.countFrame.done
        log := (w.postAll (frameNotices f.1 d.1)).log
        renderer := { w.countFrame.renderer with phase := .drawing ⟨f.2.1, d.2, next⟩ } } := by
  unfold drawFrame
  rw [hw]
  dsimp only
  rw [postAll_eq, postAll_eq]
  rfl

theorem pollRenderer_due {run : RendererRun} (h : w.renderer.phase = .drawing run)
    (hd : run.due = w.now) (hw : w.drawTime = 0) :
    w.pollRenderer =
      w.withAfter w.now w.framePeriod fun next => (w.drawFrame run next).heedReset := by
  have hle : run.due ≤ w.now := Nat.le_of_eq hd
  unfold pollRenderer
  rw [h]
  dsimp only
  rw [hd, Nat.sub_self, Nat.zero_add, drawUntilDue, h]
  dsimp only
  rw [if_pos hle, hd]
  cases hn : after? w.now w.framePeriod with
  | none => rw [withAfter_of_none hn, withAfter_of_none hn]
  | some next =>
    have hnow : (w.drawFrame run next).now = w.now := by rw [drawFrame_eq run next hw]
    have hlt : w.now < next := by
      rw [eq_of_after? hn]
      have := w.one_le_framePeriod
      omega
    rw [withAfter_of_some hn, withAfter_of_some hn, drawUntilDue]
    exact if_neg (by rw [hnow]; exact Nat.not_le.2 hlt)

theorem heedReset_none (hs : w.reset = none) : w.heedReset = w := by
  unfold heedReset
  rw [hs]
  split
  · next h => cases h
  · next h => cases h
  · rfl

theorem heedReset_true {run : RendererRun} (h : w.renderer.phase = .drawing run)
    (hs : w.reset = some true) :
    w.heedReset =
      ({ w with reset := none }.post (.rendererStopped run.display.swaps)).setRenderer .held := by
  unfold heedReset
  rw [h, hs]

theorem heedReset_false {run : RendererRun} (h : w.renderer.phase = .drawing run)
    (hs : w.reset = some false) : w.heedReset = { w with reset := none } := by
  unfold heedReset
  rw [h, hs]

theorem heedReset_frame (w : World) :
    ∃ reset log renderer, w.heedReset = { w with reset, log, renderer } := by
  unfold heedReset
  split
  · exact ⟨_, _, _, rfl⟩
  · exact ⟨_, _, _, rfl⟩
  · exact ⟨_, _, _, rfl⟩

theorem drawFrame_frame (run : RendererRun) (next : Nat) (hw : w.drawTime = 0) :
    ∃ memory done log renderer,
      w.drawFrame run next = { w with memory, done, log, renderer } := by
  rw [drawFrame_eq run next hw]
  exact ⟨_, _, _, _, rfl⟩

def releaseNotices (w : World) (r : Renderer) : List Notice :=
  [.workloadRead r.program r.resource, resourceNotice w.renderer.resource r.resource]

theorem releaseRenderer_eq (w : World) :
    w.releaseRenderer =
      let r := Renderer.start (.cached .empty) w.memory .shipped w.renderer.camera
      let v := { w with log := (w.postAll (w.releaseNotices r)).log }
      v.withAfter w.now w.framePeriod fun due =>
        v.setRenderer (.drawing ⟨r, .new MemoryMap.frameBuffers, due⟩) := by
  unfold releaseRenderer
  dsimp only
  rw [postAll_eq]
  rfl

theorem releaseRenderer_frame (w : World) :
    ∃ log ending renderer, w.releaseRenderer = { w with log, ending, renderer } := by
  rw [releaseRenderer_eq]
  refine withAfter_cases ?_ fun _ _ => ?_
  · exact ⟨_, _, _, rfl⟩
  · exact ⟨_, _, _, rfl⟩

theorem awaitRelease_none (hs : w.reset = none) : w.awaitRelease = w := by
  rw [awaitRelease, hs]

theorem awaitRelease_true (hs : w.reset = some true) :
    w.awaitRelease = { w with reset := none } := by
  rw [awaitRelease, hs]

theorem awaitRelease_false (hs : w.reset = some false) :
    w.awaitRelease = { w with reset := none }.releaseRenderer := by
  rw [awaitRelease, hs]

theorem awaitRelease_frame (w : World) :
    ∃ reset log ending renderer, w.awaitRelease = { w with reset, log, ending, renderer } := by
  unfold awaitRelease
  split
  · exact ⟨_, _, _, _, rfl⟩
  · exact ⟨_, _, _, _, rfl⟩
  · obtain ⟨_, _, _, h⟩ := releaseRenderer_frame { w with reset := none }
    rw [h]
    exact ⟨_, _, _, _, rfl⟩

end World

end Handoff
