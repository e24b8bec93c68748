import Handoff.Proofs.Endings

namespace Handoff

/-- So many frames were drawn, over all sessions, when the clock was still before a time. -/
def DrawnBefore (ms : List Moment) (time n : Nat) : Prop :=
  ∃ m ∈ ms, m.before.now < time ∧ n ≤ m.before.frames.length

instance (ms : List Moment) (time n : Nat) : Decidable (DrawnBefore ms time n) :=
  inferInstanceAs (Decidable (∃ m ∈ ms, _))

theorem drawnBefore_snoc {ms : List Moment} {m : Moment} {time n : Nat} :
    DrawnBefore (ms ++ [m]) time n ↔
      DrawnBefore ms time n ∨ m.before.now < time ∧ n ≤ m.before.frames.length := by
  unfold DrawnBefore
  simp only [List.mem_append, List.mem_singleton, or_and_right, exists_or, exists_eq_left]

/-- A count that starts at nothing has come to the budget. -/
def Reached (budget : UInt32) (n : Nat) : Prop := budget ≠ 0 ∧ budget.toNat ≤ n

instance (budget : UInt32) (n : Nat) : Decidable (Reached budget n) :=
  inferInstanceAs (Decidable (_ ∧ _))

/-- A count that has not come to the budget, and has not turned over if there is none. -/
def Unreached (budget : UInt32) (n : Nat) : Prop :=
  n < budget.toNat ∨ budget = 0 ∧ n < UInt32.size

namespace Unreached

variable {budget : UInt32} {n : Nat}

theorem not_reached (h : Unreached budget n) : ¬Reached budget n := by
  rintro ⟨hne, hle⟩
  rcases h with hlt | ⟨hzero, -⟩
  · exact Nat.not_le.2 hlt hle
  · exact hne hzero

theorem lt_size (h : Unreached budget n) : n < UInt32.size := by
  rcases h with hlt | ⟨-, hlt⟩
  · exact Nat.lt_trans hlt budget.toNat_lt
  · exact hlt

end Unreached

/-- The count is one of 32 bits, so a budget of no frames has to wait until it turns over. -/
theorem reached_succ_iff {budget : UInt32} {n : Nat} (h : budget ≠ 0 ∨ n + 1 < UInt32.size) :
    Reached budget (n + 1) ↔ UInt32.ofNat (n + 1) = budget ∨ Reached budget n := by
  have hsize : UInt32.size = 4294967296 := rfl
  have hlt := budget.toNat_lt
  have hzero : budget ≠ 0 ↔ budget.toNat ≠ 0 := not_congr UInt32.toNat_inj.symm
  have heq : UInt32.ofNat (n + 1) = budget ↔ (n + 1) % 4294967296 = budget.toNat :=
    UInt32.toNat_inj.symm
  unfold Reached
  rw [hzero] at h ⊢
  rw [heq]
  omega

namespace World

variable {v w : World} {t : Turn}

def SaysLast (w : World) (n : Notice) : Prop := ∃ ns, w.notices = ns ++ [n, .blockDumped w.memory]

/-- The frames are counted, and a budget that was reached is signalled until the main task exits. -/
structure Counted (w : World) : Prop where
  total : w.renderer.total = .ofNat w.frames.length
  signal : w.ending = none → w.renderer.frames ≠ 0 ∨ w.frames.length < UInt32.size →
    w.done = if Reached w.renderer.frames w.frames.length then some w.renderer.frames else none

theorem saysLast_exit (w : World) (n : Notice) (code : UInt8) :
    ((w.post n).exit code).SaysLast n := by
  refine ⟨w.notices, ?_⟩
  exact w.notices_postAll [n, .blockDumped w.memory]

theorem frames_take (hw : w.Punctual) (ht : w.Allows t) (hr : t ≠ .poll .renderer) :
    (w.take t).frames = w.frames := by
  by_contra hf
  exact hr (renderer_of_frames hw ht hf)

theorem length_frames_le (hw : w.Punctual) (ht : w.Allows t) :
    w.frames.length ≤ (w.take t).frames.length := by
  by_cases hr : t = .poll .renderer
  · subst hr
    change _ ≤ w.pollRenderer.frames.length
    cases hw.rendererTurn.counting hw.still with
    | none hf => exact Nat.le_of_eq (congrArg List.length hf.symm)
    | one hf => exact hf ▸ Nat.le_succ _
  · exact Nat.le_of_eq (congrArg List.length (frames_take hw ht hr).symm)

namespace Counted

theorem of_counting (h : w.Counted) (he : w.ending = none) (hv : Counting w v) : v.Counted := by
  cases hv with
  | none hf hd hr =>
    obtain ⟨phase, hr⟩ := hr
    constructor
    · rw [hf, hr]
      exact h.total
    · rw [hf, hd, hr]
      intro _
      exact h.signal he
  | one hf hd hr =>
    obtain ⟨phase, hr⟩ := hr
    have htotal : w.renderer.total + 1 = .ofNat (w.frames.length + 1) := by
      rw [h.total, UInt32.ofNat_add]
      rfl
    constructor
    · rw [hf, hr]
      exact htotal
    · rw [hf, hd, hr]
      intro _ hcount
      change w.renderer.frames ≠ 0 ∨ _ at hcount
      change (if w.renderer.total + 1 = w.renderer.frames then some (w.renderer.total + 1)
        else w.done) = if Reached w.renderer.frames (w.frames.length + 1) then _ else _
      have hbefore := h.signal he (hcount.imp_right Nat.lt_of_succ_lt)
      rw [htotal, hbefore]
      simp only [reached_succ_iff hcount]
      by_cases heq : UInt32.ofNat (w.frames.length + 1) = w.renderer.frames
      · rw [if_pos heq, if_pos (.inl heq), heq]
        rfl
      · simp only [heq, false_or, if_false]
        rfl

theorem of_same (h : w.Counted) (he : w.ending = none) (hf : v.frames = w.frames)
    (hr : v.renderer = w.renderer) (hd : v.ending = none → v.done = w.done) : v.Counted := by
  constructor
  · rw [hr, hf]
    exact h.total
  · intro he'
    rw [hr, hf, hd he']
    exact h.signal he

theorem take (h : w.Counted) (hw : w.Punctual) (ht : w.Allows t) : (w.take t).Counted := by
  have he := ht.running
  by_cases hr : t = .poll .renderer
  · subst hr
    exact h.of_counting he (hw.rendererTurn.counting hw.still)
  have hf := frames_take hw ht hr
  cases t with
  | clock time => exact h.of_same he hf rfl fun _ => rfl
  | poll n =>
    cases n with
    | renderer => exact (hr rfl).elim
    | input =>
      obtain ⟨_, _, _, _, heq⟩ := pollInput_frame w
      exact h.of_same he hf w.pollInput_aside.renderer fun _ => (congrArg World.done heq :)
    | controller =>
      obtain ⟨_, _, _, _, _, _, heq⟩ := (hw.controllerTurn ht).frame
      exact h.of_same he hf (congrArg World.renderer heq :) fun _ => (congrArg World.done heq :)
    | main =>
      apply h.of_same he hf w.pollMain_aside.renderer
      change w.pollMain.ending = none → w.pollMain.done = w.done
      have hturn := mainTurn ht
      generalize w.pollMain = v at hturn
      intro he'
      cases hturn with
      | unstarted => rfl
      | started => rfl
      | reached => cases he'
      | timedOut => cases he'

end Counted

/-- A task that breaks down ends the run, but only the main task exits. -/
def BreaksAtMost (w v : World) : Prop := v.ending = w.ending ∨ v.ending = some .overrun

theorem awaitEvent_breaksAtMost (w : World) (rest : List InputEvent) :
    BreaksAtMost w (w.awaitEvent rest) := by
  cases rest with
  | nil => exact .inl rfl
  | cons e later =>
    unfold awaitEvent
    dsimp only
    exact withAfter_cases (.inr rfl) fun _ _ => .inl rfl

theorem pollInput_breaksAtMost (w : World) : BreaksAtMost w w.pollInput := by
  unfold pollInput
  split
  · exact awaitEvent_breaksAtMost _ _
  · next e rest _ =>
    rw [playEvent_eq]
    split
    · obtain ⟨_, _, heq⟩ := sendSample_frame (w.switched e)
      rw [heq]
      exact awaitEvent_breaksAtMost _ _
    · obtain ⟨_, _, heq⟩ := pressed_frame w e
      rw [heq]
      exact withAfter_cases (.inr rfl) fun _ _ => .inl rfl
  · obtain ⟨_, _, heq⟩ :=
      sendSample_frame (w.setSample { w.input.current with buttons := .released })
    rw [heq]
    exact awaitEvent_breaksAtMost _ _
  · exact .inl rfl

theorem awaitRelease_breaksAtMost (w : World) : BreaksAtMost w w.awaitRelease := by
  unfold awaitRelease
  split
  · exact .inl rfl
  · exact .inl rfl
  · rw [releaseRenderer_eq]
    exact withAfter_cases (.inr rfl) fun _ _ => .inl rfl

theorem heedReset_breaksAtMost (w : World) : BreaksAtMost w w.heedReset := by
  obtain ⟨_, _, _, heq⟩ := heedReset_frame w
  rw [heq]
  exact .inl rfl

theorem RendererTurn.breaksAtMost (h : w.RendererTurn v) (hw : w.drawTime = 0) :
    BreaksAtMost w v := by
  cases h with
  | awaited hp hns => exact awaitRelease_breaksAtMost _
  | overrun hp => exact .inr rfl
  | @drawn run hp hd =>
    have hdrawn := drawFrame_eq run (w.now + w.framePeriod.toNat * 1000) hw
    have hends := heedReset_breaksAtMost (w.drawFrame run (w.now + w.framePeriod.toNat * 1000))
    rw [BreaksAtMost, hdrawn] at hends
    rw [hdrawn]
    exact hends
  | early hp hd => exact w.heedReset_breaksAtMost

theorem ControllerTurn.breaksAtMost (h : w.ControllerTurn v) : BreaksAtMost w v := by
  cases h with
  | unstarted hp => exact .inr rfl
  | overrun hp => exact .inr rfl
  | started hp => exact .inl rfl
  | ticked hp =>
    rw [tickOnce_eq]
    exact .inl rfl

inductive ExitTurn (w v : World) : UInt8 → Prop
  | reached {frames : UInt32} (hd : w.done = some frames)
      (hv : v = ({ w with done := none }.post (.budgetReached frames)).exit 0) : ExitTurn w v 0
  | timedOut (hd : w.done = none) (hl : w.now = w.timeout)
      (hv : v = (w.post (.timedOut w.main.frames)).exit 1) : ExitTurn w v 1

theorem BreaksAtMost.not_exited (h : BreaksAtMost w v) (he : w.ending = none) (code : UInt8) :
    v.ending ≠ some (.exited code) := by
  intro hv
  rcases h with h | h
  · cases hv.symm.trans (h.trans he)
  · cases hv.symm.trans h

theorem exitTurn (hw : w.Punctual) (hi : w.InTime) (ht : w.Allows t) {code : UInt8}
    (hv : (w.take t).ending = some (.exited code)) : ExitTurn w (w.take t) code := by
  have he := ht.running
  cases t with
  | clock time =>
    rw [ht.take_clock, he] at hv
    cases hv
  | poll n =>
    cases n with
    | input => exact (w.pollInput_breaksAtMost.not_exited he code hv).elim
    | controller => exact ((hw.controllerTurn ht).breaksAtMost.not_exited he code hv).elim
    | renderer => exact ((hw.rendererTurn.breaksAtMost hw.still).not_exited he code hv).elim
    | main =>
      have hturn := mainTurn ht
      change ExitTurn w w.pollMain code
      change w.pollMain.ending = _ at hv
      generalize w.pollMain = v at hturn hv
      cases hturn with
      | unstarted => cases hv
      | started => cases he.symm.trans hv
      | reached hp hd =>
        cases hv
        exact .reached hd rfl
      | timedOut hp hd hl =>
        cases hv
        rw [hi.waiting _ hp] at hl
        exact .timedOut hd (Nat.le_antisymm hi.le hl) rfl

theorem ExitTurn.frames {code : UInt8} (h : ExitTurn w v code) : v.frames = w.frames := by
  cases h with
  | reached _ hv =>
    rw [hv]
    exact (frames_postAll { w with done := none } [.budgetReached _, .blockDumped w.memory]).trans
      (List.append_nil _)
  | timedOut _ _ hv =>
    rw [hv]
    exact (frames_postAll w [.timedOut _, .blockDumped w.memory]).trans (List.append_nil _)

end World

namespace Unfolds

variable {u w : World} {ms : List Moment}

theorem counted (h : Unfolds u ms w) (hp : u.Punctual) (hu : u.Counted) : w.Counted :=
  h.punctual_invariant hp hu fun _ _ hv ht h => h.take hv ht

/-- Once the budget is reached the clock stands still, as the main task has something to do. -/
theorem stands_still (h : Unfolds u ms w) (hp : u.Punctual) (hu : u.Counted)
    (hn : u.renderer.frames ≠ 0) {time : Nat} (he : w.ending = none)
    (hd : DrawnBefore ms time u.renderer.frames.toNat) :
    w.now < time ∧ u.renderer.frames.toNat ≤ w.frames.length := by
  induction h with
  | start =>
    obtain ⟨m, hm, _⟩ := hd
    cases hm
  | @turn ms w t h ht ih =>
    have hw := h.punctual hp
    obtain ⟨hnow, hframes⟩ := (drawnBefore_snoc.1 hd).elim (ih ht.running) id
    refine ⟨?_, Nat.le_trans hframes (World.length_frames_le hw ht)⟩
    cases t with
    | poll n =>
      have hsame : (w.take (.poll n)).now = w.now := World.now_poll hw ht
      rw [hsame]
      exact hnow
    | clock later =>
      have hbudget := (h.kept hp).frames
      have hsignal := (h.counted hp hu).signal ht.running (.inl (hbudget ▸ hn))
      have hreached : Reached w.renderer.frames w.frames.length := by
        rw [hbudget]
        exact ⟨hn, hframes⟩
      obtain ⟨_, _, hnone, _⟩ := World.not_ready_main ht.running (ht.not_ready .main)
      rw [hnone, if_pos hreached] at hsignal
      cases hsignal

/-- A run that exits after its budget was reached does so with 0, and gives the budget. -/
theorem exit_of_drawn (h : Unfolds u ms w) (hp : u.Punctual) (hi : u.InTime) (hu : u.Counted)
    (he : u.ending = none) (hn : u.renderer.frames ≠ 0)
    (hd : DrawnBefore ms u.timeout u.renderer.frames.toNat) {code : UInt8}
    (hcode : w.ending = some (.exited code)) :
    code = 0 ∧ w.SaysLast (.budgetReached u.renderer.frames) := by
  cases h with
  | start => cases he.symm.trans hcode
  | @turn ms w t h ht =>
    have hk := h.kept hp
    have hsignal := (h.counted hp hu).signal ht.running
    rw [hk.frames] at hsignal
    cases World.exitTurn (h.punctual hp) (h.inTime hp hi) ht hcode with
    | reached hdone hv =>
      have hframes := hdone.symm.trans (hsignal (.inl hn))
      split at hframes
      · cases hframes
        rw [hv]
        exact ⟨rfl, World.saysLast_exit _ _ _⟩
      · cases hframes
    | timedOut _ hl _ =>
      -- the clock has come to the timeout, where it could not come with the budget reached
      rw [hk.timeout] at hl
      obtain ⟨hlt, -⟩ := (drawnBefore_snoc.1 hd).elim (h.stands_still hp hu hn ht.running) id
      exact (Nat.ne_of_lt hlt hl).elim

/-- A run that exits with its budget unreached does so with 1, at the timeout. -/
theorem exit_of_unreached (h : Unfolds u ms w) (hp : u.Punctual) (hi : u.InTime) (hu : u.Counted)
    (he : u.ending = none) (hn : Unreached u.renderer.frames w.frames.length) {code : UInt8}
    (hcode : w.ending = some (.exited code)) :
    code = 1 ∧ w.now = u.timeout ∧ w.SaysLast (.timedOut u.main.frames) := by
  cases h with
  | start => cases he.symm.trans hcode
  | @turn ms w t h ht =>
    have hk := h.kept hp
    have hexit := World.exitTurn (h.punctual hp) (h.inTime hp hi) ht hcode
    rw [hexit.frames] at hn
    cases hexit with
    | reached hdone _ =>
      have hsignal := (h.counted hp hu).signal ht.running (.inr hn.lt_size)
      rw [hk.frames, if_neg hn.not_reached, hdone] at hsignal
      cases hsignal
    | timedOut _ hl hv =>
      obtain ⟨_, hmain⟩ := hk.main
      have hsays := w.saysLast_exit (.timedOut w.main.frames) 1
      rw [hmain] at hsays
      rw [hv, hmain]
      exact ⟨rfl, hl.trans hk.timeout, hsays⟩

end Unfolds

theorem Config.counted_world (c : Config) (script : List InputEvent) (resource : List UInt8) :
    (c.world script resource).Counted where
  total := rfl
  signal _ _ := by
    have hreached : ¬Reached c.run.frames 0 := by
      rintro ⟨hne, hle⟩
      exact hne (UInt32.toNat_inj.1 (Nat.le_zero.1 hle))
    exact (if_neg hreached).symm

theorem Config.inTime_world (c : Config) (script : List InputEvent) (resource : List UInt8) :
    (c.world script resource).InTime where
  fresh _ := rfl
  waiting _ h := by cases h
  le := Nat.zero_le _

theorem exists_of_bind_eq_ok {ε α β : Type} {x : Except ε α} {f : α → Except ε β} {b : β}
    (h : x >>= f = .ok b) : ∃ a, x = .ok a ∧ f a = .ok b := by
  cases x with
  | error e => cases h
  | ok a => exact ⟨a, rfl, h⟩

theorem RunRequest.frames_of_load {r : RunRequest} {files : Config.Files} {c : Config}
    {script : List InputEvent} (h : r.load files = .ok (c, script)) {n : UInt32}
    (hn : r.frames = some n) : c.run.frames = n := by
  unfold load at h
  split at h
  · obtain ⟨c₀, -, h⟩ := exists_of_bind_eq_ok h
    obtain ⟨events, -, h⟩ := exists_of_bind_eq_ok h
    cases h
    exact congrArg (·.getD c₀.run.frames) hn
  · obtain ⟨c₀, -, h⟩ := exists_of_bind_eq_ok h
    obtain ⟨events, -, h⟩ := exists_of_bind_eq_ok h
    cases h
    exact congrArg (·.getD c₀.run.frames) hn

/-- A run comes to an end after so many turns, which is an exit if the clock can tell the times that
are asked for. It exits with 0 if its budget was reached before the timeout, and with 1 at the
timeout if it was not reached until then. A budget of no frames is not reached, although no fewer
frames are drawn. -/
theorem exit_follows_budget (c : Config) (script : List InputEvent) (resource : List UInt8)
    {ms : List Moment} {w : World} (h : Unfolds (c.world script resource) ms w) :
    (∀ (r : RunRequest) files, r.load files = .ok (c, script) →
        ∀ n, r.frames = some n → c.run.frames = n) ∧
      ms.length ≤ 4 * (c.run.timeoutMs.toNat * 1000) + 2 * script.length + 7 ∧
      ((∃ t, w.Allows t) ∨ (∃ code, w.ending = some (.exited code)) ∨
        w.ending = some .overrun ∧ ¬(c.world script resource).Fits) ∧
      w.now ≤ c.run.timeoutMs.toNat * 1000 ∧
      ∀ code, w.ending = some (.exited code) →
        (c.run.frames ≠ 0 →
          DrawnBefore ms (c.run.timeoutMs.toNat * 1000) c.run.frames.toNat →
          code = 0 ∧ w.SaysLast (.budgetReached c.run.frames)) ∧
        (Unreached c.run.frames w.frames.length →
          code = 1 ∧ w.now = c.run.timeoutMs.toNat * 1000 ∧
            w.SaysLast (.timedOut c.run.frames)) := by
  have hp := c.punctual_world script resource
  have hi := c.inTime_world script resource
  have hc := c.counted_world script resource
  have hlength := h.length_le hp hi
  have hturns : (c.world script resource).turnsLeft =
      4 * (c.run.timeoutMs.toNat * 1000) + 2 + (2 * script.length + 2) + 2 + 1 := rfl
  refine ⟨fun r files hload n hn => RunRequest.frames_of_load hload hn, by omega, ?_,
    Nat.le_trans (h.inTime hp hi).le (Nat.le_of_eq (h.kept hp).timeout), ?_⟩
  · cases he : w.ending with
    | none => exact .inl (World.exists_allows he)
    | some e =>
      cases e with
      | exited code => exact .inr (.inl ⟨code, rfl⟩)
      | overrun => exact .inr (.inr ⟨rfl, fun hf => h.not_overrun hp hi hf rfl rfl he⟩)
  · intro code hcode
    exact ⟨fun hn hd => h.exit_of_drawn hp hi hc rfl hn hd hcode,
      fun hn => h.exit_of_unreached hp hi hc rfl hn hcode⟩

/-- A session of which one frame is drawn before the timeout. -/
def oneFrame (budget : UInt32) : World :=
  Config.world
    { Config.shipped with run.frameMs := 1, run.frames := budget, run.timeoutMs := 12 }
    [⟨0, ⟨1⟩, 10, none⟩] []

def oneFrameTurns : List Turn :=
  [.poll .main, .poll .controller, .poll .renderer, .poll .input, .poll .input,
    .clock 10000, .poll .controller, .poll .renderer, .poll .input, .clock 11000, .poll .renderer]

theorem exit_follows_budget_one :
    (oneFrame 1).Fits ∧ ∃ ms w, Unfolds (oneFrame 1) ms w ∧ DrawnBefore ms 12000 1 ∧
      w.ending = some (.exited 0) ∧ w.SaysLast (.budgetReached 1) := by
  have hturns : (oneFrame 1).AllowsAll (oneFrameTurns ++ [.poll .main]) := by decide +kernel
  have hdrawn : DrawnBefore ((oneFrame 1).moments (oneFrameTurns ++ [.poll .main])) 12000 1 := by
    decide +kernel
  have hending : ((oneFrame 1).takeAll (oneFrameTurns ++ [.poll .main])).ending =
      some (.exited 0) := by
    decide +kernel
  have hfits : (oneFrame 1).Fits := by
    refine ⟨?_, ?_, ?_⟩
    · decide +kernel
    · decide +kernel
    · decide +kernel
  obtain ⟨-, -, -, -, hexit⟩ := exit_follows_budget _ _ _ hturns.unfolds
  exact ⟨hfits, _, _, hturns.unfolds, hdrawn, hending, ((hexit 0 hending).1 (by decide) hdrawn).2⟩

/-- A frame is drawn, and so no fewer than none are; but the run waits for the timeout. -/
theorem empty_budget_times_out :
    ∃ ms w, Unfolds (oneFrame 0) ms w ∧ DrawnBefore ms 12000 0 ∧ w.frames.length = 1 ∧
      w.ending = some (.exited 1) := by
  have hturns : (oneFrame 0).AllowsAll (oneFrameTurns ++ [.clock 12000, .poll .main]) := by
    decide +kernel
  refine ⟨_, _, hturns.unfolds, ?_, ?_, ?_⟩
  · decide +kernel
  · decide +kernel
  · decide +kernel

end Handoff
