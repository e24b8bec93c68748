import Handoff.Proofs.ScriptedPresses

namespace Handoff

def Moment.sample? (m : Moment) : Option Sample :=
  match m.turn, m.before.controller.phase with
  | .poll .controller, .ticking _ latch _ => some (m.before.inputs.latest latch)
  | _, _ => none

theorem InputQueue.latest_offer (q : InputQueue) (s held : Sample) :
    (q.offer s).latest held =
      if q.samples.length < queueCapacity then s else q.latest held := by
  split
  · next h => rw [latest, samples_offer h, List.getLast?_concat, Option.getD_some]
  · next h => rw [offer_of_full h]

namespace World

variable {v w : World} {t : Turn}

def latch (w : World) : Sample :=
  match w.controller.phase with
  | .fresh => .untouched
  | .ticking _ latch _ => latch

/-- What the next tick samples if nothing is sent before it. -/
def newest (w : World) : Sample := w.inputs.latest w.latch

theorem newest_of_ticking {c : Controller} {latch : Sample} {due : Nat}
    (h : w.controller.phase = .ticking c latch due) : w.newest = w.inputs.latest latch := by
  rw [newest, World.latch, h]

theorem newest_congr (hc : v.controller = w.controller) (hi : v.inputs = w.inputs) :
    v.newest = w.newest := by
  rw [newest, newest, latch, latch, hc, hi]

theorem ControllerTurn.newest (h : w.ControllerTurn v) : v.newest = w.newest := by
  cases h with
  | unstarted hp => rfl
  | overrun hp => rfl
  | started hp =>
    have hlatch : w.latch = .untouched := by rw [latch, hp]
    rw [World.newest, World.newest, hlatch]
    rfl
  | ticked hp =>
    rw [newest_of_ticking hp, tickOnce_eq]
    rfl

theorem newest_take (hw : w.Punctual) (ht : w.Allows t) (hi : t ≠ .poll .input) :
    (w.take t).newest = w.newest := by
  by_cases hc : t = .poll .controller
  · subst hc
    exact (hw.controllerTurn ht).newest
  · obtain ⟨hcontroller, hinputs, _⟩ := take_same hw hi hc
    exact newest_congr hcontroller hinputs

/-- A sample that is sent is the newest one, unless it finds no room. -/
theorem newest_pollInput (h : w.pollInput.inputs = w.inputs.offer w.pollInput.input.current) :
    w.pollInput.newest =
      if w.inputs.samples.length < queueCapacity then w.pollInput.input.current
      else w.newest := by
  have hlatch : w.pollInput.latch = w.latch := by
    rw [latch, latch, w.pollInput_aside.controller]
  rw [newest, hlatch, h, InputQueue.latest_offer]
  rfl

theorem newest_of_full (h : ¬w.inputs.samples.length < queueCapacity) :
    w.inputs.samples.getLast? = some w.newest := by
  rw [newest, InputQueue.latest]
  cases hs : w.inputs.samples.getLast? with
  | none =>
    rw [List.getLast?_eq_none_iff.1 hs] at h
    exact (h (by decide)).elim
  | some s => rfl

end World

theorem Unfolds.newest {u w : World} {ms : List Moment} (h : Unfolds u ms w) (hp : u.Punctual)
    (hi : ∀ m ∈ ms, m.turn ≠ .poll .input) : w.newest = u.newest := by
  induction h with
  | start => rfl
  | @turn ms w t h ht ih =>
    obtain ⟨hearlier, hlast⟩ := forall_mem_snoc.1 hi
    rw [World.newest_take (h.punctual hp) ht hlast]
    exact ih hearlier

namespace Moment.Ticks

variable {m : Moment}

theorem sample?_eq (h : m.Ticks) : m.sample? = some m.before.newest := by
  obtain ⟨hturn, hphase⟩ := h
  rw [Moment.sample?, hturn]
  cases hp : m.before.controller.phase with
  | fresh => exact (hphase hp).elim
  | ticking c latch due => rw [World.newest_of_ticking hp]

/-- What is sampled is what the latch holds afterwards, and the controller has seen its buttons. -/
theorem latched (h : m.Ticks) (hw : m.before.Punctual) (ht : m.before.Allows m.turn)
    (he : m.after.ending = none) :
    m.sample? = some m.after.latch ∧ m.after.lastButtons = m.after.latch.buttons := by
  obtain ⟨c, latch, next, hp, hafter, _⟩ := h.tickOnce hw ht he
  have hlatch : m.after.latch = m.before.newest := by
    rw [hafter, World.tickOnce_eq, World.newest_of_ticking hp]
    rfl
  constructor
  · rw [h.sample?_eq, hlatch]
  · rw [hlatch, hafter, World.tickOnce_eq, World.newest_of_ticking hp]
    exact c.previous_tick _ _ _

end Moment.Ticks

def Moment.Finishes (m : Moment) : Prop :=
  m.turn = .poll .input ∧ m.after.input.phase = .finished

instance (m : Moment) : Decidable m.Finishes := inferInstanceAs (Decidable (_ ∧ _))

theorem Unfolds.finishes {u w : World} {ms : List Moment} (h : Unfolds u ms w) (hp : u.Punctual)
    (hu : u.input.phase = .fresh) (hw : w.input.phase = .finished) :
    ∃ start p between, ms = start ++ p :: between ∧ p.Finishes ∧
      ∀ m ∈ between, m.turn ≠ .poll .input := by
  induction h with
  | start => cases hu.symm.trans hw
  | @turn ms w t h ht ih =>
    by_cases hi : t = .poll .input
    · exact ⟨ms, ⟨t, w⟩, [], rfl, ⟨hi, hw⟩, by simp⟩
    · rw [World.input_take (h.punctual hp) ht hi] at hw
      obtain ⟨start, p, between, rfl, hfinishes, hquiet⟩ := ih hw
      exact ⟨start, p, between ++ [⟨t, w⟩], by simp, hfinishes, forall_mem_snoc.2 ⟨hquiet, hi⟩⟩

namespace Replayed

variable {script : List InputEvent} {ms : List Moment} {i : InputTask}

theorem current (h : Replayed script ms i) (hi : ∀ due rest, i.phase ≠ .holding due rest) :
    i.current = ⟨.released, lastLevel (events ms)⟩ := by
  rw [← h.buttons hi, ← h.switch]

theorem current_fresh (h : Replayed script ms i) (hi : i.phase = .fresh) :
    i.current = .untouched := by
  have hplayed := h.played
  rw [hi] at hplayed
  have hevents : events ms = [] := List.append_left_eq_self.1 hplayed
  rw [h.current (by simp [hi]), hevents]
  rfl

theorem current_finished (h : Replayed script ms i) (hi : i.phase = .finished) :
    i.current = ⟨.released, lastLevel script⟩ := by
  rw [h.current (by simp [hi]), (h.playsAll hi).inOrder]

end Replayed

/-- The last sample of a script has the buttons released and the last level of the switch. -/
theorem Unfolds.newest_finished {u w : World} {past : List Moment} {p : Moment}
    {script : List InputEvent} (h : Unfolds u (past ++ [p]) w) (hp : u.Punctual)
    (hu : u.input = .new script) (hfresh : u.newest = .untouched) (he : w.ending = none)
    (hfinishes : p.Finishes) :
    w.newest =
      if p.before.inputs.samples.length < queueCapacity then ⟨.released, lastLevel script⟩
      else p.before.newest := by
  have hafter := h.replayed hp hu he
  obtain ⟨hpast, ht, rfl⟩ := h.cases_snoc
  obtain ⟨t, v⟩ := p
  obtain ⟨hturn, hfinished⟩ := hfinishes
  cases hturn
  have hcurrent := hafter.current_finished hfinished
  rw [← hcurrent]
  cases World.inputTurn ht he with
  | started hphase hs hq _ =>
    -- the script is empty, and the latch is as it was made
    have hbefore := hpast.replayed hp hu ht.running
    have hsame : v.pollInput.newest = v.newest :=
      World.newest_congr v.pollInput_aside.controller hq
    have hnewest : v.newest = v.pollInput.input.current := by
      rw [hpast.newest hp (hbefore.fresh hphase), hfresh, hs, hbefore.current_fresh hphase]
    split
    · exact hsame.trans hnewest
    · exact hsame
  | passed _ _ _ hq _ => exact World.newest_pollInput hq
  | released _ _ hq _ => exact World.newest_pollInput hq
  | pressed _ _ _ _ hv => cases hv.symm.trans hfinished

/-- From its end on, every tick samples the last sample of the script if it found room, and else
the newest one that was waiting then. -/
theorem latch_converges (c : Config) (script : List InputEvent) (resource : List UInt8)
    {past later : List Moment} {k : Moment} {w : World}
    (h : Unfolds (c.world script resource) (past ++ k :: later) w) (hk : k.Ticks)
    (hf : k.before.input.phase = .finished) :
    ∃ start p between, past = start ++ p :: between ∧ p.Finishes ∧
      (∀ m ∈ between, m.turn ≠ .poll .input) ∧
      (p.before.inputs.samples.length < queueCapacity →
        k.sample? = some ⟨.released, lastLevel script⟩) ∧
      (p.before.inputs.samples.length = queueCapacity →
        k.sample? = p.before.inputs.samples.getLast?) := by
  obtain ⟨hbefore, ht, _⟩ := h.at_moment
  have hp := c.punctual_world script resource
  obtain ⟨start, p, between, rfl, hfinishes, hquiet⟩ := hbefore.finishes hp rfl hf
  obtain ⟨hstart, hp', hbetween⟩ := hbefore.at_moment
  have hpa : p.after.Punctual := (hstart.punctual hp).take hp'
  have hrunning := hbetween.running ht.running
  have hnewest := (hstart.turn hp').newest_finished hp rfl rfl hrunning hfinishes
  have hsample : k.sample? = some p.after.newest := by
    rw [hk.sample?_eq, hbetween.newest hpa hquiet]
  refine ⟨start, p, between, rfl, hfinishes, hquiet, ?_, ?_⟩
  · intro hroom
    rw [hsample]
    exact congrArg some (hnewest.trans (if_pos hroom))
  · intro hfull
    have hnot : ¬p.before.inputs.samples.length < queueCapacity := by omega
    rw [hsample, World.newest_of_full hnot]
    exact congrArg some (hnewest.trans (if_neg hnot))

def crowdedEndTurns : List Turn :=
  crowdedTurns ++ .poll .input :: (crowdedHoldTurns ++ [.poll .input, .clock 30000])

/-- The press is lost, and its release is not. -/
theorem latch_converges_crowded :
    ∃ past k w, Unfolds crowdedWorld (past ++ [k]) w ∧ k.Ticks ∧
      k.before.input.phase = .finished ∧ k.sample? = some ⟨.released, some true⟩ := by
  have hturns : crowdedWorld.AllowsAll (crowdedEndTurns ++ [.poll .controller]) := by decide +kernel
  have h := hturns.unfolds
  rw [World.moments_append] at h
  have hk : Moment.Ticks ⟨.poll .controller, crowdedWorld.takeAll crowdedEndTurns⟩ := by
    refine ⟨rfl, ?_⟩
    decide +kernel
  have hf : (crowdedWorld.takeAll crowdedEndTurns).input.phase = .finished := by decide +kernel
  have hroom : ∀ p ∈ crowdedWorld.moments crowdedEndTurns, p.Finishes →
      p.before.inputs.samples.length < queueCapacity := by
    decide +kernel
  obtain ⟨start, p, between, hpast, hfinishes, _, hsample, _⟩ :=
    latch_converges crowded crowdedEvents [] h hk hf
  refine ⟨_, _, _, h, hk, hf, hsample (hroom p ?_ hfinishes)⟩
  rw [hpast]
  exact List.mem_append_right _ List.mem_cons_self

/-- Sixteen settings of the switch fill the queue before it is set back. -/
def flooded : Config :=
  { Config.shipped with
    run.frameMs := 1000
    script := List.replicate 16 ⟨0, [], 20, some true⟩ ++ [⟨0, [], 20, some false⟩] }

def floodedEvents : List InputEvent :=
  List.replicate 16 ⟨0, ⟨0⟩, 20, some true⟩ ++ [⟨0, ⟨0⟩, 20, some false⟩]

theorem inputEvents_flooded : flooded.inputEvents = .ok floodedEvents := by
  have hm : flooded.script.mapM (ScriptStep.resolve flooded.viewer.controller.tickMs) =
      .ok floodedEvents := rfl
  exact Config.inputEvents_of_sorted hm (by decide)

def floodedWorld : World := flooded.world floodedEvents []

def floodedTurns : List Turn := crowdedTurns ++ [.poll .input, .clock 10000]

/-- The queue does not take the last level. -/
theorem last_level_lost :
    flooded.inputEvents = .ok floodedEvents ∧ lastLevel floodedEvents = some false ∧
      ∃ past k w, Unfolds floodedWorld (past ++ [k]) w ∧ k.Ticks ∧
        k.before.input.phase = .finished ∧ k.sample? = some ⟨.released, some true⟩ := by
  have hturns : floodedWorld.AllowsAll (floodedTurns ++ [.poll .controller]) := by decide +kernel
  have h := hturns.unfolds
  rw [World.moments_append] at h
  refine ⟨inputEvents_flooded, rfl, _, _, _, h, ⟨rfl, ?_⟩, ?_, ?_⟩
  · decide +kernel
  · decide +kernel
  · decide +kernel

end Handoff
