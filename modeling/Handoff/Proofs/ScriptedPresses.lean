import Handoff.Proofs.Playback
import Handoff.Proofs.Script
import Handoff.Proofs.Tick

namespace Handoff

def Moment.Ticks (m : Moment) : Prop :=
  m.turn = .poll .controller ∧ m.before.controller.phase ≠ .fresh

instance (m : Moment) : Decidable m.Ticks := inferInstanceAs (Decidable (_ ∧ _))

/-- The rising edges that the controller sees in a turn; there are none unless it ticks. -/
def Moment.edges (m : Moment) : Buttons :=
  match m.turn, m.before.controller.phase with
  | .poll .controller, .ticking c latch _ =>
    (m.before.inputs.latest latch).buttons.risingEdges c.previous
  | _, _ => .released

theorem Moment.edges_of_not_ticks {m : Moment} (h : ¬m.Ticks) : m.edges = .released := by
  unfold edges
  split
  · next hturn hphase => exact (h ⟨hturn, by rw [hphase]; exact nofun⟩).elim
  · rfl

/-- One turn shows these edges, and the others show none. -/
def ShownOnce (edges : Buttons) (ms : List Moment) : Prop :=
  ∃ early m late, ms = early ++ m :: late ∧ m.edges = edges ∧
    ∀ k ∈ early ++ late, k.edges = .released

namespace ShownOnce

variable {edges : Buttons} {ms : List Moment} {m : Moment}

theorem now (h : ∀ k ∈ ms, ¬k.Ticks) : ShownOnce m.edges (ms ++ [m]) := by
  refine ⟨ms, m, [], rfl, rfl, ?_⟩
  rw [List.append_nil]
  intro k hk
  exact Moment.edges_of_not_ticks (h k hk)

theorem still (h : ShownOnce edges ms) (hm : m.edges = .released) :
    ShownOnce edges (ms ++ [m]) := by
  obtain ⟨early, k, late, rfl, hk, hothers⟩ := h
  refine ⟨early, k, late ++ [m], by simp, hk, ?_⟩
  rw [← List.append_assoc]
  exact forall_mem_snoc.2 ⟨hothers, hm⟩

end ShownOnce

namespace World

variable {s : Sample} {last : Buttons} {limit : Nat} {u v w : World} {t : Turn}

/-- The buttons that the controller saw last. -/
def lastButtons (w : World) : Buttons :=
  match w.controller.phase with
  | .fresh => .released
  | .ticking c _ _ => c.previous

theorem lastButtons_congr (h : v.controller = w.controller) : v.lastButtons = w.lastButtons := by
  rw [lastButtons, lastButtons, h]

/-- A sample is the newest one in the queue, and a tick is due soon. -/
structure Pending (s : Sample) (last : Buttons) (limit : Nat) (w : World) : Prop where
  queued : w.inputs.samples.getLast? = some s
  last : w.lastButtons = last
  soon : ∀ c latch due, w.controller.phase = .ticking c latch due → due ≤ limit
  room : w.tickSpan ≤ limit

structure Latched (s : Sample) (w : World) : Prop where
  drained : w.inputs.samples = []
  ticking : ∃ c due, w.controller.phase = .ticking c s due ∧ c.previous = s.buttons

theorem edges_of_ticking {c : Controller} {latch : Sample} {due : Nat}
    (h : w.controller.phase = .ticking c latch due) :
    Moment.edges ⟨.poll .controller, w⟩ =
      (w.inputs.latest latch).buttons.risingEdges c.previous := by
  unfold Moment.edges
  rw [h]

theorem Pending.take (h : w.Pending s last limit) (hw : w.Punctual) (hg : w.OnGrid)
    (ht : w.Allows t) (hi : t ≠ .poll .input) (he : (w.take t).ending = none) :
    (¬Moment.Ticks ⟨t, w⟩ ∧ (w.take t).Pending s last limit) ∨
      (Moment.Ticks ⟨t, w⟩ ∧ Moment.edges ⟨t, w⟩ = s.buttons.risingEdges last ∧
        (w.take t).Latched s) := by
  by_cases hc : t = .poll .controller
  · subst hc
    have hturn := hw.controllerTurn ht
    change w.pollController.ending = none at he
    change _ ∧ w.pollController.Pending s last limit ∨ _ ∧ _ ∧ w.pollController.Latched s
    generalize w.pollController = v at hturn he
    cases hturn with
    | unstarted hp => cases he
    | overrun hp => cases he
    | started hp =>
      refine .inl ⟨fun hticks => hticks.2 hp, h.queued, ?_, fun c latch due hp' => ?_, h.room⟩
      · rw [← h.last, lastButtons, lastButtons, hp]
        rfl
      · cases hp'
        rw [hg.fresh hp, Nat.zero_add]
        exact h.room
    | @ticked c latch hp =>
      have hs : w.inputs.latest latch = s := by rw [InputQueue.latest, h.queued, Option.getD_some]
      have hlast : c.previous = last := by rw [← h.last, lastButtons, hp]
      refine .inr ⟨⟨rfl, by rw [hp]; exact nofun⟩, by rw [edges_of_ticking hp, hs, hlast], ?_⟩
      rw [tickOnce_eq, hs]
      exact ⟨rfl, _, _, rfl, c.previous_tick _ _ _⟩
  · obtain ⟨hcontroller, hinputs, _⟩ := take_same hw hi hc
    refine .inl ⟨fun hticks => hc hticks.1, ?_, ?_, ?_, ?_⟩
    · rw [hinputs]
      exact h.queued
    · rw [lastButtons_congr hcontroller]
      exact h.last
    · rw [hcontroller]
      exact h.soon
    · rw [tickSpan_congr (congrArg (·.settings) hcontroller)]
      exact h.room

theorem Latched.take (h : w.Latched s) (hw : w.Punctual) (ht : w.Allows t) (hi : t ≠ .poll .input)
    (he : (w.take t).ending = none) :
    Moment.edges ⟨t, w⟩ = .released ∧ (w.take t).Latched s := by
  obtain ⟨c, due, hp, hprevious⟩ := h.ticking
  by_cases hc : t = .poll .controller
  · subst hc
    have hturn := hw.controllerTurn ht
    change w.pollController.ending = none at he
    change _ ∧ w.pollController.Latched s
    generalize w.pollController = v at hturn he
    have hs : w.inputs.latest s = s := by rw [InputQueue.latest, h.drained]; rfl
    refine ⟨by rw [edges_of_ticking hp, hs, hprevious, Buttons.risingEdges_self], ?_⟩
    cases hturn with
    | unstarted hp' => cases he
    | overrun hp' => cases he
    | started hp' => cases hp'.symm.trans hp
    | ticked hp' =>
      cases hp'.symm.trans hp
      rw [tickOnce_eq, hs]
      exact ⟨rfl, _, _, rfl, c.previous_tick _ _ _⟩
  · obtain ⟨hcontroller, hinputs, _⟩ := take_same hw hi hc
    refine ⟨Moment.edges_of_not_ticks fun hticks => hc hticks.1, ?_, c, due, ?_, hprevious⟩
    · rw [hinputs]
      exact h.drained
    · rw [hcontroller]
      exact hp

end World

namespace Unfolds

variable {s : Sample} {last : Buttons} {limit : Nat} {u w : World} {ms : List Moment}

theorem settings (h : Unfolds u ms w) (hp : u.Punctual) :
    w.controller.settings = u.controller.settings := by
  induction h with
  | start => rfl
  | @turn ms w t h ht ih =>
    have hw := h.punctual hp
    refine Eq.trans ?_ ih
    by_cases hi : t = .poll .input
    · subst hi
      exact congrArg (·.settings) w.pollInput_aside.controller
    by_cases hc : t = .poll .controller
    · subst hc
      have hturn := hw.controllerTurn ht
      change w.pollController.controller.settings = _
      generalize w.pollController = v at hturn
      cases hturn with
      | unstarted hp => rfl
      | overrun hp => rfl
      | started hp => rfl
      | ticked hp => rw [World.tickOnce_eq]
    · exact congrArg (·.settings) (World.take_same hw hi hc).1

theorem input_same (h : Unfolds u ms w) (hp : u.Punctual)
    (hi : ∀ m ∈ ms, m.turn ≠ .poll .input) : w.input = u.input := by
  induction h with
  | start => rfl
  | @turn ms w t h ht ih =>
    obtain ⟨hearlier, hlast⟩ := forall_mem_snoc.1 hi
    rw [World.input_take (h.punctual hp) ht hlast]
    exact ih hearlier

/-- As long as nothing else is sent, a pending sample waits for a tick, and shows its edges once. -/
theorem pending (h : Unfolds u ms w) (hp : u.Punctual) (hg : u.OnGrid)
    (hi : ∀ m ∈ ms, m.turn ≠ .poll .input) (he : w.ending = none) (hu : u.Pending s last limit) :
    (∀ m ∈ ms, ¬m.Ticks) ∧ w.Pending s last limit ∨
      (∃ m ∈ ms, m.Ticks) ∧ w.Latched s ∧ ShownOnce (s.buttons.risingEdges last) ms := by
  induction h with
  | start => exact .inl ⟨by simp, hu⟩
  | @turn ms w t h ht ih =>
    have hw := h.punctual hp
    obtain ⟨hearlier, hlast⟩ := forall_mem_snoc.1 hi
    rcases ih hearlier ht.running with
      ⟨hnone, hpending⟩ | ⟨⟨k, hk, hticks⟩, hlatched, hshown⟩
    · rcases hpending.take hw (h.onGrid hp hg) ht hlast he with
        ⟨hticks, hnext⟩ | ⟨hticks, hedges, hnext⟩
      · exact .inl ⟨forall_mem_snoc.2 ⟨hnone, hticks⟩, hnext⟩
      · rw [← hedges]
        exact .inr ⟨⟨_, List.mem_concat_self, hticks⟩, hnext, .now hnone⟩
    · obtain ⟨hedges, hnext⟩ := hlatched.take hw ht hlast he
      exact .inr ⟨⟨k, List.mem_append_left _ hk, hticks⟩, hnext, hshown.still hedges⟩

end Unfolds

namespace World

variable {w : World} {e : InputEvent}

theorem pollInput_press {due : Nat} {rest : List InputEvent}
    (h : w.input.phase = .waiting due e rest) (hpress : e.press ≠ .released)
    (hfits : w.inputs.samples.length < queueCapacity) (hr : w.ready .input = true)
    (he : w.pollInput.ending = none) :
    w.pollInput.inputs.samples.getLast? =
        some ⟨e.press, e.switch <|> w.input.current.switch⟩ ∧
      w.pollInput.input.phase = .holding (w.now + e.holdMs.toNat * 1000) rest := by
  cases inputTurn hr he with
  | started hp => cases h.symm.trans hp
  | passed hp hreleased =>
    cases h.symm.trans hp
    exact (hpress hreleased).elim
  | pressed hp _ hs hq hv =>
    cases h.symm.trans hp
    refine ⟨?_, hv⟩
    rw [hq, InputQueue.samples_offer hfits, List.getLast?_concat, hs]
  | released hp => cases h.symm.trans hp

theorem OnGrid.pending (h : w.OnGrid) {s : Sample}
    (hs : w.pollInput.inputs.samples.getLast? = some s) :
    w.pollInput.Pending s w.lastButtons (w.now + w.tickSpan) := by
  have hc := w.pollInput_aside.controller
  refine ⟨hs, lastButtons_congr hc, ?_, ?_⟩
  · rw [hc]
    exact h.near
  · rw [tickSpan_congr (congrArg (·.settings) hc)]
    exact Nat.le_add_left _ _

/-- A sample that is pending for a whole period was sent at a tick, and another tick is due. -/
theorem Pending.dvd {s : Sample} {last : Buttons} {sent : Nat}
    (h : w.Pending s last (sent + w.tickSpan)) (hw : w.Punctual) (hg : w.OnGrid)
    (hlate : sent + w.tickSpan ≤ w.now) : w.tickSpan ∣ sent ∧ w.now = sent + w.tickSpan := by
  cases hc : w.controller.phase with
  | fresh =>
    have hpos := w.tickSpan_pos
    have hzero := hg.fresh hc
    omega
  | ticking c latch due =>
    have hsoon := h.soon c latch due hc
    have htick := hw.tick c latch due hc
    have hdue : due = sent + w.tickSpan := by omega
    refine ⟨?_, by omega⟩
    have hdvd := hg.grid c latch due hc
    rw [hdue] at hdvd
    exact (Nat.dvd_add_iff_left (Nat.dvd_refl _)).2 hdvd

end World

/-- A press that is held for a tick, and for more if it was sent at one and misses the next, is
taken by a tick, and shown once. -/
theorem Unfolds.press_taken {u w : World} {past between rest : List Moment} {p r : Moment}
    {e : InputEvent} (h : Unfolds u (past ++ p :: (between ++ r :: rest)) w) (hp : u.Punctual)
    (hg : u.OnGrid) (hplayed : Played e p between r) (hpress : e.press ≠ .released)
    (hfits : p.before.inputs.samples.length < queueCapacity)
    (hhold : u.tickSpan ≤ e.holdMs.toNat * 1000)
    (hgrid : u.tickSpan ∣ p.before.now → e.holdMs.toNat * 1000 = u.tickSpan →
      ∃ k ∈ between, k.Ticks) :
    (∃ k ∈ between, k.Ticks) ∧
      ShownOnce (e.press.risingEdges p.before.lastButtons) between := by
  obtain ⟨hpast, htp, hafter⟩ := h.at_moment
  obtain ⟨hbetween, htr, _⟩ := hafter.at_moment
  obtain ⟨hsends, ⟨due, later, hphase⟩, hquiet, hreleases⟩ := hplayed
  obtain ⟨t, v⟩ := p
  obtain ⟨t', x⟩ := r
  cases hsends
  cases hreleases
  have hv := hpast.punctual hp
  have hgv := hpast.onGrid hp hg
  have ha := v.pollInput_aside
  have hpa : v.pollInput.Punctual := hv.pollInput
  have hga : v.pollInput.OnGrid := hgv.of_same ha.now ha.controller
  obtain ⟨hsample, hholding⟩ :=
    World.pollInput_press hphase hpress hfits htp (hbetween.running htr.running)
  rcases hbetween.pending hpa hga hquiet htr.running (hgv.pending hsample) with
    ⟨hnone, hpending⟩ | ⟨hticks, _, hshown⟩
  · -- the sample would have waited for a whole press
    exfalso
    have hspan : v.tickSpan = u.tickSpan := World.tickSpan_congr (hpast.settings hp)
    have hspan' : x.tickSpan = v.tickSpan :=
      World.tickSpan_congr ((hbetween.settings hpa).trans (congrArg (·.settings) ha.controller))
    have hinput : x.input.phase = .holding (v.now + e.holdMs.toNat * 1000) later := by
      rw [hbetween.input_same hpa hquiet]
      exact hholding
    have hover : v.now + e.holdMs.toNat * 1000 ≤ x.now := World.holding_over htr hinput
    have hlate : v.now + x.tickSpan ≤ x.now := by omega
    rw [← hspan'] at hpending
    obtain ⟨hdvd, hnow⟩ := hpending.dvd (hbetween.punctual hpa) (hbetween.onGrid hpa hga) hlate
    have hdue : x.now = v.now + x.tickSpan := hnow
    rw [hspan', hspan] at hdvd
    obtain ⟨k, hk, hticks⟩ := hgrid hdvd (by omega)
    exact hnone k hk hticks
  · exact ⟨hticks, hshown⟩

theorem Unfolds.press_shown {u w : World} {past between rest : List Moment} {p r : Moment}
    {e : InputEvent} (h : Unfolds u (past ++ p :: (between ++ r :: rest)) w) (hp : u.Punctual)
    (hg : u.OnGrid) (hplayed : Played e p between r) (hpress : e.press ≠ .released)
    (hfits : p.before.inputs.samples.length < queueCapacity)
    (hhold : u.tickSpan ≤ e.holdMs.toNat * 1000)
    (hgrid : u.tickSpan ∣ p.before.now → e.holdMs.toNat * 1000 = u.tickSpan →
      ∃ k ∈ between, k.Ticks) :
    ShownOnce (e.press.risingEdges p.before.lastButtons) between :=
  (h.press_taken hp hg hplayed hpress hfits hhold hgrid).2

theorem Config.tickSpan_world_eq (c : Config) (script : List InputEvent) (resource : List UInt8) :
    (c.world script resource).tickSpan = max c.viewer.controller.tickMs.toNat 1 * 1000 := by
  have hmax (x : UInt64) : (max x 1).toNat = max x.toNat 1 := by
    change (if x ≤ 1 then 1 else x).toNat = _
    rw [apply_ite UInt64.toNat, Nat.max_def]
    exact if_congr UInt64.le_iff_toNat_le rfl rfl
  change (max c.viewer.controller.tickMs.toUInt64 1).toNat * 1000 = _
  rw [hmax, UInt32.toNat_toUInt64]

theorem Config.tickSpan_world (c : Config) (script : List InputEvent) (resource : List UInt8)
    (h : 1 ≤ c.viewer.controller.tickMs) :
    (c.world script resource).tickSpan = c.viewer.controller.tickMs.toNat * 1000 := by
  have hone : 1 ≤ c.viewer.controller.tickMs.toNat := UInt32.le_iff_toNat_le.1 h
  rw [c.tickSpan_world_eq, Nat.max_eq_left hone]

/-- Every accepted press is played if the script is, and every press that is played and fits into
the queue is shown by one tick before its release; one that is sent at a tick to be released at the
next must not slip between the two. Each of its buttons rises there, unless the controller saw it
held by the press before. -/
theorem scripted_press_shown (c : Config) {script : List InputEvent}
    (hc : c.inputEvents = .ok script) (htick : 1 ≤ c.viewer.controller.tickMs)
    (resource : List UInt8) {ms : List Moment} {w : World}
    (h : Unfolds (c.world script resource) ms w) {s : ScriptStep} (hs : s ∈ c.script)
    (hpress : s.press ≠ []) :
    ∃ e ∈ script, s.resolve c.viewer.controller.tickMs = .ok e ∧
      (w.ending = none → w.input.phase = .finished → PlayedIn ms e) ∧
      ∀ past p between r rest, ms = past ++ p :: (between ++ r :: rest) → Played e p between r →
        p.before.inputs.samples.length < queueCapacity →
        (c.viewer.controller.tickMs.toNat * 1000 ∣ p.before.now →
          s.holdMs.toNat = c.viewer.controller.tickMs.toNat → ∃ k ∈ between, k.Ticks) →
        ∃ early m late, between = early ++ m :: late ∧
          (∀ k ∈ early ++ late, k.edges = .released) ∧
          ∀ b, s.Names b → m.edges.isPressed b = !p.before.lastButtons.isPressed b := by
  obtain ⟨e, he, hresolve⟩ := Config.exists_of_inputEvents hc hs
  obtain ⟨hlong, hhold, hheld, hnames⟩ := ScriptStep.resolve_ok hresolve hpress
  have hp := c.punctual_world script resource
  have hspan := c.tickSpan_world script resource htick
  refine ⟨e, he, hresolve, fun hw hfinished => h.plays hp rfl hw hfinished he hheld, ?_⟩
  rintro past p between r rest rfl hplayed hfits hgrid
  have hshown : ShownOnce (e.press.risingEdges p.before.lastButtons) between := by
    refine h.press_shown hp (c.onGrid_world script resource) hplayed hheld hfits ?_ ?_
    · rw [hspan, hhold]
      exact Nat.mul_le_mul_right _ hlong
    · rw [hspan, hhold]
      intro hdvd heq
      exact hgrid hdvd (Nat.eq_of_mul_eq_mul_right (by decide) heq)
  obtain ⟨early, m, late, hbetween, hedges, hothers⟩ := hshown
  refine ⟨early, m, late, hbetween, hothers, fun b hb => ?_⟩
  rw [hedges, Buttons.isPressed_risingEdges, hnames b hb, Bool.true_and]

/-- A tick comes when it is due, and the edges it shows are those of the newest sample. -/
theorem Moment.Ticks.tickOnce {m : Moment} (hm : m.Ticks) (hw : m.before.Punctual)
    (ht : m.before.Allows m.turn) (he : m.after.ending = none) :
    ∃ c latch next, m.before.controller.phase = .ticking c latch m.before.now ∧
      m.after = m.before.tickOnce c latch next ∧
      m.edges = (m.before.inputs.latest latch).buttons.risingEdges c.previous := by
  obtain ⟨t, w⟩ := m
  obtain ⟨hturn, hphase⟩ := hm
  cases hturn
  have hturn := hw.controllerTurn ht
  change w.pollController.ending = none at he
  change ∃ c latch next, _ ∧ w.pollController = _ ∧ _
  generalize w.pollController = v at hturn he
  cases hturn with
  | unstarted hp => cases he
  | overrun hp => cases he
  | started hp => exact (hphase hp).elim
  | @ticked c latch hp => exact ⟨c, latch, _, hp, rfl, World.edges_of_ticking hp⟩

/-- The center button is pressed twice, the second time as soon as it is released. -/
def twoPresses : Config :=
  { Config.shipped with
    run.frameMs := 1000
    script := [⟨0, ["center"], 20, none⟩, ⟨20, ["center"], 20, none⟩] }

def twoPressesEvents : List InputEvent := [⟨0, ⟨1⟩, 20, none⟩, ⟨20, ⟨1⟩, 20, none⟩]

theorem names_center : Button.ofName? (ScriptStep.lowercase "center") = some .center := by
  decide +kernel

theorem resolve_center_of_long {tickMs : UInt32} {holdMs : UInt64}
    (h : tickMs.toNat ≤ holdMs.toNat) (atMs : UInt64) :
    ScriptStep.resolve tickMs ⟨atMs, ["center"], holdMs, none⟩ =
      .ok ⟨atMs, ⟨1⟩, holdMs, none⟩ := by
  have hb : ScriptStep.buttons ["center"] = .ok ⟨1⟩ := by
    unfold ScriptStep.buttons
    simp only [List.foldlM_cons, names_center]
    rfl
  rw [ScriptStep.resolve_of_long (.inr h), hb]

theorem resolve_center (atMs : UInt64) :
    ScriptStep.resolve 10 ⟨atMs, ["center"], 20, none⟩ = .ok ⟨atMs, ⟨1⟩, 20, none⟩ :=
  resolve_center_of_long (by decide) atMs

theorem inputEvents_twoPresses : twoPresses.inputEvents = .ok twoPressesEvents := by
  have hm : twoPresses.script.mapM (ScriptStep.resolve twoPresses.viewer.controller.tickMs) =
      .ok twoPressesEvents := by
    change List.mapM (ScriptStep.resolve 10)
      [⟨0, ["center"], 20, none⟩, ⟨20, ["center"], 20, none⟩] = _
    simp only [List.mapM_cons, resolve_center]
    rfl
  exact Config.inputEvents_of_sorted hm (by decide)

def twoPressesWorld : World := twoPresses.world twoPressesEvents []

def firstPressTurns : List Turn := [.poll .main, .poll .controller, .poll .renderer, .poll .input]

/-- Until its release. At each time the controller is polled before the input task. -/
def firstHoldTurns : List Turn :=
  [.clock 10000, .poll .controller, .poll .renderer, .clock 20000, .poll .controller]

def secondHoldTurns : List Turn :=
  [.clock 30000, .poll .controller, .clock 40000, .poll .controller]

theorem scripted_press_shown_first :
    ∃ past p between r w, Unfolds twoPressesWorld (past ++ p :: (between ++ [r])) w ∧
      Played ⟨0, ⟨1⟩, 20, none⟩ p between r ∧
      ∃ early m late, between = early ++ m :: late ∧
        (∀ k ∈ early ++ late, k.edges = .released) ∧ m.edges.isPressed .center := by
  have hturns : twoPressesWorld.AllowsAll
      (firstPressTurns ++ .poll .input :: (firstHoldTurns ++ [.poll .input])) := by
    decide +kernel
  have h := hturns.unfolds_between
  have hmem : ⟨0, ["center"], 20, none⟩ ∈ twoPresses.script := List.mem_cons_self
  obtain ⟨e, _, hresolve, _, hshown⟩ :=
    scripted_press_shown twoPresses inputEvents_twoPresses (by decide) [] h hmem (by simp)
  cases (resolve_center 0).symm.trans hresolve
  have hplayed : Played ⟨0, ⟨1⟩, 20, none⟩
      ⟨.poll .input, twoPressesWorld.takeAll firstPressTurns⟩
      (((twoPressesWorld.takeAll firstPressTurns).take (.poll .input)).moments firstHoldTurns)
      ⟨.poll .input, ((twoPressesWorld.takeAll firstPressTurns).take (.poll .input)).takeAll
        firstHoldTurns⟩ := by
    refine ⟨rfl, ⟨0, [⟨20, ⟨1⟩, 20, none⟩], ?_⟩, ?_, rfl⟩
    · decide +kernel
    · decide +kernel
  obtain ⟨early, m, late, hbetween, hothers, hedge⟩ :=
    hshown _ _ _ _ [] rfl hplayed (by decide +kernel) fun _ heq => absurd heq (by decide)
  refine ⟨_, _, _, _, _, h, hplayed, early, m, late, hbetween, hothers, ?_⟩
  rw [hedge .center ⟨_, List.mem_singleton_self _, names_center⟩]
  decide +kernel

/-- A run of an accepted script in which no tick shows the center button of a press. -/
def PressUnseen (c : Config) (script : List InputEvent) : Prop :=
  c.inputEvents = .ok script ∧ 1 ≤ c.viewer.controller.tickMs ∧
    ∃ s ∈ c.script, s.Names .center ∧
    ∃ e ∈ script, s.resolve c.viewer.controller.tickMs = .ok e ∧
    ∃ past p between r w, Unfolds (c.world script []) (past ++ p :: (between ++ [r])) w ∧
      Played e p between r ∧ ∀ m ∈ between, m.edges.isPressed .center = false

/-- The controller has not seen the release before the second press. -/
theorem unseen_twoPresses : PressUnseen twoPresses twoPressesEvents := by
  have hturns : twoPressesWorld.AllowsAll
      ((firstPressTurns ++ .poll .input :: (firstHoldTurns ++ [.poll .input])) ++
        .poll .input :: (secondHoldTurns ++ [.poll .input])) := by
    decide +kernel
  refine ⟨inputEvents_twoPresses, by decide, ⟨20, ["center"], 20, none⟩, ?_,
    ⟨_, List.mem_singleton_self _, names_center⟩, ⟨20, ⟨1⟩, 20, none⟩, by decide,
    resolve_center 20, _, _, _, _, _, hturns.unfolds_between, ?_, ?_⟩
  · exact List.mem_cons_of_mem _ (List.mem_singleton_self _)
  · refine ⟨rfl, ⟨20000, [], ?_⟩, ?_, rfl⟩
    · decide +kernel
    · decide +kernel
  · decide +kernel

/-- Sixteen settings of the switch fill the queue before the center button is pressed. -/
def crowded : Config :=
  { Config.shipped with
    run.frameMs := 1000
    script := List.replicate 16 ⟨0, [], 20, some true⟩ ++ [⟨0, ["center"], 20, none⟩] }

def crowdedEvents : List InputEvent :=
  List.replicate 16 ⟨0, ⟨0⟩, 20, some true⟩ ++ [⟨0, ⟨1⟩, 20, none⟩]

theorem inputEvents_crowded : crowded.inputEvents = .ok crowdedEvents := by
  have hswitch : ScriptStep.resolve 10 ⟨0, [], 20, some true⟩ = .ok ⟨0, ⟨0⟩, 20, some true⟩ := rfl
  have hm : crowded.script.mapM (ScriptStep.resolve crowded.viewer.controller.tickMs) =
      .ok crowdedEvents := by
    change List.mapM (ScriptStep.resolve 10)
      (List.replicate 16 ⟨0, [], 20, some true⟩ ++ [⟨0, ["center"], 20, none⟩]) = _
    simp only [List.replicate, List.cons_append, List.nil_append, List.mapM_cons, hswitch,
      resolve_center]
    rfl
  exact Config.inputEvents_of_sorted hm (by decide)

def crowdedWorld : World := crowded.world crowdedEvents []

def crowdedTurns : List Turn := firstPressTurns ++ List.replicate 16 (.poll .input)

def crowdedHoldTurns : List Turn :=
  [.clock 10000, .poll .controller, .clock 20000, .poll .controller]

/-- The queue does not take the press. -/
theorem played_crowded :
    ∃ past p between r w, Unfolds crowdedWorld (past ++ p :: (between ++ [r])) w ∧
      Played ⟨0, ⟨1⟩, 20, none⟩ p between r ∧
      between = ((crowdedWorld.takeAll crowdedTurns).take (.poll .input)).moments
        crowdedHoldTurns := by
  have hturns : crowdedWorld.AllowsAll
      (crowdedTurns ++ .poll .input :: (crowdedHoldTurns ++ [.poll .input])) := by
    decide +kernel
  refine ⟨_, _, _, _, _, hturns.unfolds_between, ⟨rfl, ⟨0, [], ?_⟩, ?_, rfl⟩, rfl⟩
  · decide +kernel
  · decide +kernel

theorem unseen_crowded : PressUnseen crowded crowdedEvents := by
  obtain ⟨past, p, between, r, w, h, hplayed, rfl⟩ := played_crowded
  refine ⟨inputEvents_crowded, by decide, ⟨0, ["center"], 20, none⟩, ?_,
    ⟨_, List.mem_singleton_self _, names_center⟩, ⟨0, ⟨1⟩, 20, none⟩, by decide,
    resolve_center 0, past, p, _, r, w, h, hplayed, ?_⟩
  · exact List.mem_append_right _ (List.mem_singleton_self _)
  · decide +kernel

theorem presses_unseen :
    PressUnseen twoPresses twoPressesEvents ∧ PressUnseen crowded crowdedEvents :=
  ⟨unseen_twoPresses, unseen_crowded⟩

end Handoff
