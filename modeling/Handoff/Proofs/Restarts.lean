import Handoff.Sim.Bench
import Handoff.Proofs.LastFrame
import Handoff.Proofs.TripleBuffer

namespace Handoff

def RendererPhase.isDrawing : RendererPhase → Bool
  | fresh => false
  | held => false
  | drawing _ => true

theorem RendererPhase.exists_of_isDrawing {p : RendererPhase} (h : p.isDrawing) :
    ∃ run, p = .drawing run := by
  cases p with
  | drawing run => exact ⟨run, rfl⟩
  | _ => cases h

namespace World

def drawnUntilDue : Nat → World → List Frame
  | 0, _ => []
  | count + 1, w =>
    match w.renderer.phase with
    | .drawing run =>
      if run.due ≤ w.now then
        match after? run.due w.framePeriod with
        | some next =>
          (run.renderer.frame w.memory w.now (w.now + w.drawTime)).1 ::
            drawnUntilDue count (w.drawFrame run next)
        | none => []
      else []
    | _ => []

def drawn (w : World) : List Frame :=
  match w.renderer.phase with
  | .drawing run => drawnUntilDue (w.now - run.due + 2) w
  | _ => []

/-- The sessions after a poll of the renderer, the newest first. A poll lets the renderer out of
reset, or it draws in the session that goes on. -/
def attend (w : World) (ss : List (List Frame)) : List (List Frame) :=
  if w.renderer.phase.isDrawing then
    match ss with
    | [] => []
    | s :: ss => (s ++ w.drawn) :: ss
  else if w.pollRenderer.renderer.phase.isDrawing then [] :: ss
  else ss

end World

/-- What becomes of a renderer task and of its sessions, whatever the rest of the world does between
two polls. -/
inductive Tended (w₀ : World) : List (List Frame) → World → Prop
  | start : Tended w₀ [] w₀
  | polled {ss : List (List Frame)} {w : World} (h : Tended w₀ ss w) :
      Tended w₀ (w.attend ss) w.pollRenderer
  | aside {ss : List (List Frame)} {w v : World} (h : Tended w₀ ss w)
      (hv : v.renderer = w.renderer) : Tended w₀ ss v

def Rotator.shippedAfter (n : Nat) : Rotator := .turned MemoryMap.frameBuffers n

/-- Frames that are drawn into one buffer after another and then handed over, after so many. -/
def InRotation (n : Nat) (fs : List Frame) : Prop :=
  ∀ i f, fs[i]? = some f → f.target = (Rotator.shippedAfter (n + i)).buildingAddress ∧
    f.swap = f.target

namespace InRotation

variable {n : Nat} {f : Frame} {fs gs : List Frame}

theorem nil : InRotation n [] := by
  intro i f hf
  cases hf

theorem cons (hf : f.target = (Rotator.shippedAfter n).buildingAddress ∧ f.swap = f.target)
    (h : InRotation (n + 1) fs) : InRotation n (f :: fs) := by
  intro i g hg
  cases i with
  | zero =>
    cases hg
    exact hf
  | succ i =>
    have hi := h i g hg
    rwa [Nat.add_assoc, Nat.add_comm 1] at hi

theorem append (h : InRotation n fs) (h' : InRotation (n + fs.length) gs) :
    InRotation n (fs ++ gs) := by
  intro i g hg
  by_cases hi : i < fs.length
  · rw [List.getElem?_append_left hi] at hg
    exact h i g hg
  · have hle := Nat.le_of_not_lt hi
    rw [List.getElem?_append_right hle] at hg
    have hj := h' (i - fs.length) g hg
    rwa [Nat.add_assoc n, Nat.add_sub_cancel' hle] at hj

end InRotation

namespace World

variable {w : World}

theorem phase_drawFrame_slow (w : World) (run : RendererRun) (next : Nat) :
    let f := run.renderer.frame w.memory w.now (w.now + w.drawTime)
    (w.drawFrame run next).renderer.phase =
      .drawing ⟨f.2.1, (run.display.swapTo f.1.swap).2, next⟩ := rfl

/-- What is drawn is in turn, and so is what will be drawn next in the session. -/
theorem inRotation_drawnUntilDue (count : Nat) {run : RendererRun} {n : Nat}
    (hp : w.renderer.phase = .drawing run)
    (hr : run.renderer.rotator = .shippedAfter n) :
    InRotation n (w.drawnUntilDue count) ∧
      ∀ run', (w.drawUntilDue count).renderer.phase = .drawing run' →
        run'.renderer.rotator = .shippedAfter (n + (w.drawnUntilDue count).length) := by
  induction count generalizing w run n with
  | zero =>
    refine ⟨.nil, fun run' hp' => ?_⟩
    cases hp.symm.trans hp'
    exact hr
  | succ count ih =>
    rw [drawnUntilDue, drawUntilDue, hp]
    dsimp only
    split
    · cases hn : after? run.due w.framePeriod with
      | none =>
        -- the clock cannot tell when the frame after is due, so the world ends before this one
        rw [withAfter_of_none hn]
        refine ⟨.nil, fun run' hp' => ?_⟩
        cases hp.symm.trans hp'
        exact hr
      | some next =>
        rw [withAfter_of_some hn]
        obtain ⟨hf, hr'⟩ := Renderer.frame_turned n hr w.memory w.now (w.now + w.drawTime)
        obtain ⟨hfs, hafter⟩ := ih (w.phase_drawFrame_slow run next) hr'
        refine ⟨hfs.cons hf, fun run' hp' => ?_⟩
        rw [hafter run' hp', List.length_cons, Nat.add_right_comm, Nat.add_assoc]
    · refine ⟨.nil, fun run' hp' => ?_⟩
      cases hp.symm.trans (heedReset_phase hp')
      exact hr

theorem inRotation_drawn {run : RendererRun} {n : Nat} (hp : w.renderer.phase = .drawing run)
    (hr : run.renderer.rotator = .shippedAfter n) :
    InRotation n w.drawn ∧ ∀ run', w.pollRenderer.renderer.phase = .drawing run' →
      run'.renderer.rotator = .shippedAfter (n + w.drawn.length) := by
  unfold drawn pollRenderer
  rw [hp]
  exact inRotation_drawnUntilDue _ hp hr

theorem frames_drawUntilDue (count : Nat) (w : World) :
    (w.drawUntilDue count).frames = w.frames ++ (w.drawnUntilDue count).map (·.report) := by
  induction count generalizing w with
  | zero => exact (List.append_nil _).symm
  | succ count ih =>
    rw [drawnUntilDue, drawUntilDue]
    cases w.renderer.phase with
    | fresh => exact (List.append_nil _).symm
    | held => exact (List.append_nil _).symm
    | drawing run =>
      dsimp only
      split
      · cases hn : after? run.due w.framePeriod with
        | none =>
          rw [withAfter_of_none hn]
          exact (List.append_nil _).symm
        | some next =>
          rw [withAfter_of_some hn, ih, frames_drawFrame_slow, List.append_assoc]
          rfl
      · rw [frames_heedReset]
        exact (List.append_nil _).symm

theorem frames_pollRenderer (w : World) :
    w.pollRenderer.frames = w.frames ++ w.drawn.map (·.report) := by
  unfold pollRenderer drawn
  cases w.renderer.phase with
  | fresh =>
    dsimp only
    rw [frames_awaitRelease]
    exact frames_postAll w [.rendererStarted]
  | held => exact w.frames_awaitRelease.trans (List.append_nil _).symm
  | drawing run => exact frames_drawUntilDue _ w

theorem rotator_awaitRelease (hp : w.renderer.phase = .held) {run : RendererRun}
    (h : w.awaitRelease.renderer.phase = .drawing run) :
    run.renderer.rotator = .shippedAfter 0 := by
  cases hs : w.reset with
  | none =>
    rw [awaitRelease_none hs, hp] at h
    cases h
  | some high =>
    cases high with
    | true =>
      rw [awaitRelease_true hs] at h
      cases hp.symm.trans h
    | false =>
      rw [awaitRelease_false hs, releaseRenderer_eq] at h
      revert h
      refine withAfter_cases (fun h => ?_) fun due _ h => ?_
      · cases hp.symm.trans h
      · cases h
        rfl

theorem rotator_pollRenderer (hp : w.renderer.phase.isDrawing = false) {run : RendererRun}
    (h : w.pollRenderer.renderer.phase = .drawing run) :
    run.renderer.rotator = .shippedAfter 0 := by
  unfold pollRenderer at h
  cases hphase : w.renderer.phase with
  | fresh =>
    rw [hphase] at h
    exact rotator_awaitRelease rfl h
  | held =>
    rw [hphase] at h
    exact rotator_awaitRelease hphase h
  | drawing run =>
    rw [hphase] at hp
    cases hp

end World

/-- What the sessions come to, of which the first may still go on. -/
structure World.InSession (ss : List (List Frame)) (w : World) : Prop where
  inRotation : ∀ s ∈ ss, InRotation 0 s
  rotator : ∀ run, w.renderer.phase = .drawing run → ∃ s past, ss = s :: past ∧
    run.renderer.rotator = .shippedAfter s.length

namespace World.InSession

variable {ss : List (List Frame)} {w : World}

theorem pollRenderer (h : w.InSession ss) : w.pollRenderer.InSession (w.attend ss) := by
  unfold attend
  split
  · next hp =>
    obtain ⟨run, hphase⟩ := RendererPhase.exists_of_isDrawing hp
    obtain ⟨s, past, rfl, hr⟩ := h.rotator run hphase
    obtain ⟨hpast, hs⟩ := List.forall_mem_cons.1 h.inRotation |>.symm
    obtain ⟨hd, hafter⟩ := inRotation_drawn hphase hr
    have hs' : InRotation 0 (s ++ w.drawn) := hs.append (by rwa [Nat.zero_add])
    refine ⟨List.forall_mem_cons.2 ⟨hs', hpast⟩, fun run' hp' => ⟨s ++ w.drawn, past, rfl, ?_⟩⟩
    rw [hafter run' hp', List.length_append]
  · next hp =>
    have hp := Bool.eq_false_iff.2 hp
    split
    -- a session begins, or the renderer stays in reset
    · refine ⟨List.forall_mem_cons.2 ⟨.nil, h.inRotation⟩, fun run' hp' => ⟨[], ss, rfl, ?_⟩⟩
      exact rotator_pollRenderer hp hp'
    · next hn =>
      refine ⟨h.inRotation, fun run' hp' => absurd ?_ hn⟩
      rw [hp']
      rfl

end World.InSession

theorem World.reports_attend {ss : List (List Frame)} {w : World} (h : w.InSession ss) :
    ((w.attend ss).reverse.flatten).map (·.report) =
      (ss.reverse.flatten).map (·.report) ++ w.drawn.map (·.report) := by
  unfold attend
  split
  · next hp =>
    obtain ⟨run, hphase⟩ := RendererPhase.exists_of_isDrawing hp
    obtain ⟨s, past, rfl, -⟩ := h.rotator run hphase
    simp
  · next hp =>
    have hd : w.drawn = [] := by
      unfold drawn
      split
      · next hphase => simp [hphase, RendererPhase.isDrawing] at hp
      · rfl
    rw [hd]
    split
    · simp
    · simp

section Tended

variable {w₀ w : World} {ss : List (List Frame)}

theorem Tended.inSession (h : Tended w₀ ss w) (h₀ : w₀.renderer.phase = .fresh) :
    w.InSession ss := by
  induction h with
  | start =>
    refine ⟨fun _ hs => (List.not_mem_nil hs).elim, fun run hp => ?_⟩
    cases h₀.symm.trans hp
  | polled _ ih => exact ih.pollRenderer
  | aside _ hv ih => exact ⟨ih.inRotation, fun run hp => ih.rotator run (hv ▸ hp)⟩

/-- In a simulation the sessions are tended too, and consist of the frames that are reported. -/
theorem Unfolds.tended (c : Config) (script : List InputEvent) (resource : List UInt8)
    {ms : List Moment} (h : Unfolds (c.world script resource) ms w) :
    ∃ ss, Tended (c.world script resource) ss w ∧
      w.frames = (ss.reverse.flatten).map (·.report) := by
  induction h with
  | start => exact ⟨[], .start, rfl⟩
  | @turn ms w t h ht ih =>
    obtain ⟨ss, hs, hss⟩ := ih
    have hw := h.punctual (c.punctual_world script resource)
    by_cases hr : t = .poll .renderer
    · subst hr
      refine ⟨_, hs.polled, ?_⟩
      rw [World.reports_attend (hs.inSession rfl), ← hss]
      exact w.frames_pollRenderer
    · have hframes : (w.take t).frames = w.frames := by
        by_contra hne
        exact hr (World.renderer_of_frames hw ht hne)
      refine ⟨ss, hs.aside ?_, hframes.trans hss⟩
      cases t with
      | clock time => rfl
      | poll t =>
        cases t with
        | renderer => exact absurd rfl hr
        | main => exact w.pollMain_aside.renderer
        | input => exact w.pollInput_aside.renderer
        | controller =>
          obtain ⟨_, _, _, _, _, _, heq⟩ := (hw.controllerTurn ht).frame
          exact (congrArg World.renderer heq :)

def lastShown (past : List (List Frame)) : Option UInt32 :=
  past.findSome? fun s => s.getLast?.map (·.swap)

def lastDrawn (past : List (List Frame)) : Option (List Frame) := past.find? (!·.isEmpty)

theorem Rotator.buildingAddress_shippedAfter_eq_iff (n : Nat) :
    (shippedAfter n).buildingAddress = (shippedAfter 0).buildingAddress ↔ n % 3 = 0 := by
  have ha : MemoryMap.frameBuffers.toList.Nodup := by decide +kernel
  have hi : (shippedAfter n).buildingAddress = (shippedAfter 0).buildingAddress ↔
      FrameSlot.nth (n + 2) = .nth 2 :=
    ⟨fun h => address_injective (o := shipped) ha h, congrArg shipped.address⟩
  rw [hi, FrameSlot.nth_eq_iff]
  omega

theorem lastShown_eq_iff {past : List (List Frame)} (h : ∀ s ∈ past, InRotation 0 s) :
    lastShown past = some (Rotator.shippedAfter 0).buildingAddress ↔
      ∃ last, lastDrawn past = some last ∧ last.length % 3 = 1 := by
  induction past with
  | nil => simp [lastShown, lastDrawn]
  | cons s past ih =>
    obtain ⟨hs, hpast⟩ := List.forall_mem_cons.1 h
    rcases List.eq_nil_or_concat s with rfl | ⟨fs, g, rfl⟩
    · exact ih hpast
    · rw [List.concat_eq_append] at hs ⊢
      obtain ⟨ht, hg⟩ := hs fs.length g List.getElem?_concat_length
      have hshown : lastShown ((fs ++ [g]) :: past) = some g.swap := by simp [lastShown]
      have hdrawn : lastDrawn ((fs ++ [g]) :: past) = some (fs ++ [g]) := by simp [lastDrawn]
      rw [hshown, hdrawn, hg, ht, Option.some_inj, Nat.zero_add,
        Rotator.buildingAddress_shippedAfter_eq_iff]
      simp
      omega

/-- The first frame of a session draws over the last that was shown just if the last session with a
frame in it had one frame more than a multiple of three. -/
theorem first_target_shown_iff (h₀ : w₀.renderer.phase = .fresh)
    {later past : List (List Frame)} {session : List Frame}
    (h : Tended w₀ (later ++ session :: past) w) {f : Frame} (hf : session.head? = some f) :
    f.target = MemoryMap.frameBuffers[2] ∧
      (lastShown past = some f.target ↔
        ∃ last, lastDrawn past = some last ∧ last.length % 3 = 1) := by
  have hs := (h.inSession h₀).inRotation
  have hpast : ∀ s ∈ past, InRotation 0 s := fun s hm =>
    hs s (List.mem_append_right _ (List.mem_cons_of_mem _ hm))
  have hsession : InRotation 0 session := hs session (List.mem_append_right _ List.mem_cons_self)
  obtain ⟨ht, -⟩ := hsession 0 f (List.head?_eq_getElem? ▸ hf)
  have hiff := lastShown_eq_iff hpast
  rw [← Nat.zero_add 0, ← ht] at hiff
  exact ⟨ht.trans (Rotator.buildingAddress_turned _ 0), hiff⟩

/-- The sessions of a task that is visited at times, with the level of the reset line if it was
driven since. -/
def World.visits (w₀ : World) (vs : List (Nat × Option Bool)) : List (List Frame) × World :=
  vs.foldl (fun p v =>
    let w := { p.2 with now := v.1, reset := v.2 }
    (w.attend p.1, w.pollRenderer)) ([], w₀)

theorem World.tended_visits (w₀ : World) (vs : List (Nat × Option Bool)) :
    Tended w₀ (w₀.visits vs).1 (w₀.visits vs).2 := by
  induction vs using List.reverseRecOn with
  | nil => exact .start
  | append_singleton vs v ih =>
    rw [visits, List.foldl_concat]
    have hv := ih.aside (v := { (w₀.visits vs).2 with now := v.1, reset := v.2 }) rfl
    exact hv.polled

theorem World.exists_of_visits (w₀ : World) (vs : List (Nat × Option Bool)) {n : Nat}
    (h : (w₀.visits vs).1.map List.length = [1, n]) :
    ∃ f last, Tended w₀ [[f], last] (w₀.visits vs).2 ∧ last.length = n := by
  have ht := w₀.tended_visits vs
  obtain ⟨session, past, hss, hone, hpast⟩ := List.map_eq_cons_iff.1 h
  obtain ⟨last, past, rfl, hn, hnil⟩ := List.map_eq_cons_iff.1 hpast
  cases List.map_eq_nil_iff.1 hnil
  obtain ⟨f, rfl⟩ := List.length_eq_one_iff.1 hone
  rw [hss] at ht
  exact ⟨f, last, ht, hn⟩

end Tended

/-- After two frames the display is left with slot one, and the next session begins with slot
three. -/
theorem first_target_shown_iff_two :
    let w₀ : World := { World.bench with renderer := .new .shipped 16 9 [] }
    let vs := [(0, none), (1000, some false), (17000, none), (33000, none), (40000, some true),
      (50000, some false), (66000, none)]
    ∃ f last, Tended w₀ [[f], last] (w₀.visits vs).2 ∧ last.length = 2 ∧
      f.target = MemoryMap.frameBuffers[2] ∧ lastShown [last] ≠ some f.target := by
  intro w₀ vs
  obtain ⟨f, last, h, hn⟩ := World.exists_of_visits w₀ vs (n := 2) (by decide +kernel)
  have h₀ : w₀.renderer.phase = .fresh := rfl
  have hsplit : Tended w₀ ([] ++ [f] :: [last]) (w₀.visits vs).2 := h
  obtain ⟨ht, hiff⟩ := first_target_shown_iff h₀ hsplit rfl
  refine ⟨f, last, h, hn, ht, fun hs => ?_⟩
  obtain ⟨drawn, hd, hmod⟩ := hiff.1 hs
  have hdrawn : drawn = last := List.mem_singleton.1 (List.mem_of_find?_eq_some hd)
  rw [hdrawn, hn] at hmod
  cases hmod

/-- After one frame the display is left with slot three, and the next session begins with it. -/
theorem first_target_shown :
    let w₀ : World := { World.bench with renderer := .new .shipped 16 9 [] }
    let vs := [(0, none), (1000, some false), (17000, none), (20000, some true),
      (30000, some false), (46000, none)]
    ∃ f g, Tended w₀ [[f], [g]] (w₀.visits vs).2 ∧ f.target = g.swap := by
  intro w₀ vs
  obtain ⟨f, last, h, hn⟩ := World.exists_of_visits w₀ vs (n := 1) (by decide +kernel)
  obtain ⟨g, rfl⟩ := List.length_eq_one_iff.1 hn
  have hs := (h.inSession rfl).inRotation
  obtain ⟨hf, -⟩ := hs [f] (by simp) 0 f rfl
  obtain ⟨hg, hswap⟩ := hs [g] (by simp) 0 g rfl
  exact ⟨f, g, h, hf.trans (hg.symm.trans hswap.symm)⟩

end Handoff
