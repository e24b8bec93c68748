import Mathlib.Algebra.Order.Ring.Nat
import Mathlib.Data.List.Basic
import Handoff.Proofs.ActionBits
import Handoff.Proofs.History
import Handoff.Proofs.Run
import Handoff.Proofs.Tick

/-!
The cadence of the latency samples. The tick count of a session has 32 bits, so the `n`-th tick
samples where the cadence divides what is left of `n` by a full turn of the count. As long as the
count has not turned over, or if it turns over in step with the cadence, that is where the cadence
divides `n`.
-/

namespace Handoff

def ControllerSettings.Samples (s : ControllerSettings) (ticks : UInt32) : Prop :=
  s.latencySampleTicks ≠ 0 ∧ ticks % s.latencySampleTicks = 0

theorem ControllerSettings.samples_ofNat (s : ControllerSettings) (n : Nat) :
    s.Samples (.ofNat n) ↔
      s.latencySampleTicks ≠ 0 ∧ s.latencySampleTicks.toNat ∣ n % 2 ^ 32 := by
  rw [Samples, ← UInt32.toNat_inj, UInt32.toNat_mod, UInt32.toNat_ofNat', Nat.dvd_iff_mod_eq_zero]
  rfl

namespace Controller

variable (c : Controller) (m : Block) (buttons : Buttons) (switch : Option Bool)

theorem isSome_countTick : (c.countTick m).1.isSome ↔ c.settings.Samples (c.ticks + 1) := by
  unfold countTick ControllerSettings.Samples
  dsimp only
  split
  · next h => exact iff_of_true rfl h
  · next h => exact iff_of_false nofun h

theorem isSome_latency_serve (edges : Buttons) (out : Outcome) :
    (c.serve m edges switch out).1.latency.isSome ↔ c.settings.Samples (c.ticks + 1) := by
  obtain ⟨w, e, he⟩ := c.editActions_frame m edges switch
  refine (isSome_countTick _ _).trans ?_
  rw [he]

/-- How a tick counts: from one on in the session that it starts, and on in the one that it finds
running. -/
inductive Counted (c : Controller) (o : Outcome) (c' : Controller) : Prop
  | off (hs : c'.state = .idle) (hset : c'.settings = c.settings)
      (ht : o.transition = none → c.state = .idle) (hr : o.transition ≠ some .running)
  | first (hs : c'.state = .running) (hset : c'.settings = c.settings)
      (ht : o.transition = some .running) (hc : c'.ticks = 1)
      (hl : o.latency.isSome ↔ c.settings.Samples 1)
  | next (hs : c'.state = .running) (hset : c'.settings = c.settings) (ht : o.transition = none)
      (hc : c'.ticks = c.ticks + 1) (hl : o.latency.isSome ↔ c.settings.Samples (c.ticks + 1))

theorem counted :
    let r := c.tick m buttons switch
    c.Counted r.1 r.2.1 := by
  have ht := c.ticked m buttons switch
  generalize c.tick m buttons switch = r at ht ⊢
  cases ht with
  | idle hs => exact .off hs rfl (fun _ => hs) nofun
  | refused hs => exact .off hs rfl (fun _ => hs) nofun
  | stopped hs => exact .off (congrArg (·.next .stop) hs) rfl nofun nofun
  | @started w hs hw =>
    obtain ⟨_, _, he⟩ := ((c.sample buttons).start m w).1.serve_frame
      ((c.sample buttons).start m w).2 (buttons.risingEdges c.previous) switch
      { Outcome.quiet with transition := some .running, published := some .empty }
    refine .first ?_ ?_ rfl ?_ (isSome_latency_serve _ _ _ _ _) <;> rw [he]
    · exact congrArg (·.next .start) hs
    · rfl
    · rfl
  | served hs =>
    obtain ⟨_, _, he⟩ := (c.sample buttons).serve_frame m (buttons.risingEdges c.previous) switch
      .quiet
    refine .next ?_ ?_ rfl ?_ ((c.sample buttons).isSome_latency_serve _ _ _ _) <;> rw [he]
    · exact hs
    · rfl
    · rfl

end Controller

def outcomes (es : List Entry) : List Outcome := es.filterMap (·.reply.outcome?)

theorem outcomes_snoc (es : List Entry) (e : Entry) :
    outcomes (es ++ [e]) = outcomes es ++ e.reply.outcome?.toList :=
  filterMap_snoc _ es e

/-- The ticks from one that starts a session on, none of which stops it. -/
def IsSession : List Outcome → Prop
  | [] => False
  | first :: later => first.transition = some .running ∧ ∀ o ∈ later, o.transition = none

namespace IsSession

instance decidable : DecidablePred IsSession
  | [] => inferInstanceAs (Decidable False)
  | _ :: _ => inferInstanceAs (Decidable (_ ∧ _))

variable {os : List Outcome} {o : Outcome}

theorem snoc (h : IsSession os) (ho : o.transition = none) : IsSession (os ++ [o]) := by
  cases os with
  | nil => exact h.elim
  | cons first later => exact ⟨h.1, forall_mem_snoc.2 ⟨h.2, ho⟩⟩

theorem of_snoc (h : IsSession (os ++ [o])) :
    os = [] ∧ o.transition = some .running ∨ IsSession os ∧ o.transition = none := by
  cases os with
  | nil => exact .inl ⟨rfl, h.1⟩
  | cons first later =>
    exact .inr ⟨⟨h.1, fun x hx => h.2 x (List.mem_append_left _ hx)⟩,
      h.2 o (List.mem_append_right _ (List.mem_singleton_self o))⟩

theorem exists_snoc (h : IsSession os) : ∃ os' o, os = os' ++ [o] := by
  rcases List.eq_nil_or_concat' os with rfl | he
  · exact h.elim
  · exact he

end IsSession

/-- The `n`-th of the ticks sampled the latency. They are numbered from one on. -/
def SampledAt (os : List Outcome) (n : Nat) : Prop :=
  0 < n ∧ os[n - 1]?.any (·.latency.isSome) = true

instance (os : List Outcome) (n : Nat) : Decidable (SampledAt os n) :=
  inferInstanceAs (Decidable (_ ∧ _))

theorem SampledAt.le {os : List Outcome} {n : Nat} (h : SampledAt os n) : n ≤ os.length := by
  obtain ⟨hn, ho⟩ := h
  by_contra hlt
  rw [List.getElem?_eq_none (by omega)] at ho
  cases ho

theorem sampledAt_snoc (os : List Outcome) (o : Outcome) (n : Nat) :
    SampledAt (os ++ [o]) n ↔ SampledAt os n ∨ n = os.length + 1 ∧ o.latency.isSome := by
  rcases Nat.lt_or_ge os.length n with hn | hn
  · by_cases he : n = os.length + 1
    · subst he
      simp [SampledAt]
    · have ho : ¬ SampledAt os n := fun h => absurd h.le (Nat.not_le.2 hn)
      have ho' : ¬ SampledAt (os ++ [o]) n := fun h => by
        have hle := h.le
        rw [List.length_append, List.length_singleton] at hle
        omega
      simp [ho, ho', he]
  · have ho : n ≠ os.length + 1 := Nat.ne_of_lt (Nat.lt_succ_of_le hn)
    simp only [ho, false_and, or_false, SampledAt]
    refine and_congr_right fun h₀ => ?_
    rw [List.getElem?_append_left (by omega)]

/-- The session sampled where its 32-bit tick count said so. -/
def Measured (s : ControllerSettings) (session : List Outcome) : Prop :=
  ∀ n, SampledAt session n ↔ 0 < n ∧ n ≤ session.length ∧ s.Samples (.ofNat n)

theorem Measured.nil (s : ControllerSettings) : Measured s [] := by
  intro n
  refine iff_of_false (fun h => ?_) (fun h => ?_)
  · exact absurd h.le (Nat.not_le.2 h.1)
  · exact absurd h.2.1 (Nat.not_le.2 h.1)

theorem Measured.snoc {s : ControllerSettings} {session : List Outcome} {o : Outcome}
    (h : Measured s session)
    (ho : o.latency.isSome ↔ s.Samples (.ofNat (session.length + 1))) :
    Measured s (session ++ [o]) := by
  intro n
  rw [sampledAt_snoc, h n, ho, List.length_append, List.length_singleton]
  by_cases hn : n = session.length + 1
  · subst hn
    simp
  · simp only [hn, false_and, or_false]
    exact and_congr_right fun _ => and_congr_left fun _ => by omega

structure Controller.Counts (s : ControllerSettings) (os : List Outcome) (c : Controller) :
    Prop where
  settings : c.settings = s
  current : ∀ before session, os = before ++ session → IsSession session →
    c.state = .running ∧ c.ticks = .ofNat session.length
  measured : ∀ before session after, os = before ++ session ++ after → IsSession session →
    Measured s session

namespace Controller.Counts

variable {s : ControllerSettings} {os : List Outcome} {o : Outcome} {c c' : Controller}

theorem new (s : ControllerSettings) (w : Window) : (Controller.new s w).Counts s [] where
  settings := rfl
  current before session h hs := by
    rw [(List.append_eq_nil_iff.1 h.symm).2] at hs
    exact hs.elim
  measured before session after h hs := by
    rw [(List.append_eq_nil_iff.1 (List.append_eq_nil_iff.1 h.symm).1).2] at hs
    exact hs.elim

theorem session (h : c.Counts s os) (ht : c.Counted o c') {before session : List Outcome}
    (ho : os = before ++ session) (hs : IsSession (session ++ [o])) :
    c'.state = .running ∧ c'.ticks = .ofNat (session.length + 1) ∧
      Measured s (session ++ [o]) := by
  rcases hs.of_snoc with ⟨rfl, htr⟩ | ⟨hsession, htr⟩
  · cases ht with
    | off _ _ _ hr => exact absurd htr hr
    | first hrun _ _ hc hl => exact ⟨hrun, hc, (Measured.nil s).snoc (h.settings ▸ hl)⟩
    | next _ _ hn => cases hn.symm.trans htr
  · obtain ⟨hrun, hticks⟩ := h.current before session ho hsession
    have hnext : c.ticks + 1 = .ofNat (session.length + 1) := by
      rw [hticks, UInt32.ofNat_add]
      rfl
    cases ht with
    | off _ _ hidle => cases hrun.symm.trans (hidle htr)
    | first _ _ hn => cases hn.symm.trans htr
    | next hrun' _ _ hc hl =>
      have hm := h.measured before session [] (by rw [ho, List.append_nil]) hsession
      rw [h.settings, hnext] at hl
      exact ⟨hrun', hc.trans hnext, hm.snoc hl⟩

theorem tick (h : c.Counts s os) (ht : c.Counted o c') : c'.Counts s (os ++ [o]) where
  settings := by
    cases ht with
    | off _ hset => exact hset.trans h.settings
    | first _ hset => exact hset.trans h.settings
    | next _ hset => exact hset.trans h.settings
  current before session ho hs := by
    obtain ⟨session, x, rfl⟩ := hs.exists_snoc
    rw [← List.append_assoc] at ho
    obtain ⟨hos, hx⟩ := List.append_inj' ho rfl
    cases hx
    obtain ⟨hrun, hc, -⟩ := h.session ht hos hs
    rw [List.length_append]
    exact ⟨hrun, hc⟩
  measured before session after ho hs := by
    rcases List.eq_nil_or_concat' after with rfl | ⟨after, x, rfl⟩
    · obtain ⟨session, x, rfl⟩ := hs.exists_snoc
      rw [List.append_nil, ← List.append_assoc] at ho
      obtain ⟨hos, hx⟩ := List.append_inj' ho rfl
      cases hx
      exact (h.session ht hos hs).2.2
    · rw [← List.append_assoc] at ho
      exact h.measured before session after (List.append_inj' ho rfl).1 hs

end Controller.Counts

section Run

variable {s : SystemSetup} {m : Block} {es : List Entry} {y : System}

theorem Run.counts (h : Run s m es y) : y.controller.Counts s.controller (outcomes es) := by
  induction h with
  | start => exact .new s.controller s.kind.newWindow
  | @step es y y' op reply _ hop ih =>
    rw [outcomes_snoc]
    cases System.handled hop with
    | ticked buttons switch => exact ih.tick (y.controller.counted y.memory buttons switch)
    | selected w =>
      have hnone : SystemReply.done.outcome? = none := rfl
      rw [hnone, Option.toList_none, List.append_nil]
      exact ⟨ih.settings, ih.current, ih.measured⟩
    | aside _ hreply hc =>
      rw [hreply, Option.toList_none, List.append_nil, hc]
      exact ih

structure Consecutive (os : List Outcome) (n n' : Nat) : Prop where
  first : SampledAt os n
  second : SampledAt os n'
  lt : n < n'
  between : ∀ i, n < i → i < n' → ¬ SampledAt os i

/-- The count turns over at every multiple of `2 ^ 32`, and every turn is a hit. -/
theorem next_hit {k n n' : Nat} (hk : 0 < k) (hn : k ∣ n % 2 ^ 32) (hn' : k ∣ n' % 2 ^ 32)
    (hlt : n < n') (hbetween : ∀ i, n < i → i < n' → ¬ k ∣ i % 2 ^ 32) :
    n' = min (n + k) ((n / 2 ^ 32 + 1) * 2 ^ 32) := by
  have hhit : k ∣ min (n + k) ((n / 2 ^ 32 + 1) * 2 ^ 32) % 2 ^ 32 := by
    by_cases hr : n % 2 ^ 32 + k < 2 ^ 32
    · have he : min (n + k) ((n / 2 ^ 32 + 1) * 2 ^ 32) % 2 ^ 32 = n % 2 ^ 32 + k := by omega
      rw [he]
      exact Nat.dvd_add hn (Nat.dvd_refl k)
    · have he : min (n + k) ((n / 2 ^ 32 + 1) * 2 ^ 32) % 2 ^ 32 = 0 := by omega
      rw [he]
      exact Nat.dvd_zero k
  have hle : min (n + k) ((n / 2 ^ 32 + 1) * 2 ^ 32) ≤ n' := by
    by_contra h
    have hd : n' - n = n' % 2 ^ 32 - n % 2 ^ 32 := by omega
    have hdvd : k ∣ n' - n := hd ▸ Nat.dvd_sub hn' hn
    have hge := Nat.le_of_dvd (Nat.sub_pos_of_lt hlt) hdvd
    omega
  by_contra h
  exact hbetween _ (by omega) (by omega) hhit

structure Cadence (every : UInt32) (session : List Outcome) : Prop where
  sampled : ∀ n, 0 < n → n ≤ session.length →
    (SampledAt session n ↔ every ≠ 0 ∧ every.toNat ∣ n % 2 ^ 32)
  spacing : ∀ n n', Consecutive session n n' →
    n' = min (n + every.toNat) ((n / 2 ^ 32 + 1) * 2 ^ 32)
  /-- The count does not turn over, or it does so in step with the cadence. -/
  regular : session.length < 2 ^ 32 ∨ every.toNat ∣ 2 ^ 32 →
    (∀ n, 0 < n → n ≤ session.length → (SampledAt session n ↔ every ≠ 0 ∧ every.toNat ∣ n)) ∧
    ∀ n n', Consecutive session n n' → n' = n + every.toNat

theorem Run.sampled_iff (h : Run s m es y) {before session after : List Outcome}
    (ho : outcomes es = before ++ session ++ after) (hs : IsSession session) {n : Nat}
    (hn : 0 < n) (hle : n ≤ session.length) :
    SampledAt session n ↔ s.controller.latencySampleTicks ≠ 0 ∧
      s.controller.latencySampleTicks.toNat ∣ n % 2 ^ 32 := by
  rw [h.counts.measured before session after ho hs n, s.controller.samples_ofNat]
  simp only [hn, hle, true_and]

/-- The `n`-th tick of a session samples where the cadence divides what the count shows at it. -/
theorem latency_cadence (h : Run s m es y) {before session after : List Outcome}
    (ho : outcomes es = before ++ session ++ after) (hs : IsSession session) :
    Cadence s.controller.latencySampleTicks session := by
  have hiff {n : Nat} (hn : 0 < n) (hle : n ≤ session.length) := h.sampled_iff ho hs hn hle
  generalize s.controller.latencySampleTicks = every at hiff ⊢
  have hspacing (n n' : Nat) (hc : Consecutive session n n') :
      n' = min (n + every.toNat) ((n / 2 ^ 32 + 1) * 2 ^ 32) := by
    obtain ⟨he, hn⟩ := (hiff hc.first.1 hc.first.le).1 hc.first
    have hn' := (hiff hc.second.1 hc.second.le).1 hc.second
    refine next_hit ?_ hn hn'.2 hc.lt fun i hi hi' hd => ?_
    · exact Nat.pos_of_ne_zero fun h => he (UInt32.toNat_inj.1 h)
    · have hle : i ≤ session.length := Nat.le_of_lt (Nat.lt_of_lt_of_le hi' hc.second.le)
      exact hc.between i hi hi' ((hiff (Nat.zero_lt_of_lt hi) hle).2 ⟨he, hd⟩)
  refine ⟨fun n => hiff, hspacing, fun hreg => ?_⟩
  have hmod (n : Nat) (hn : n ≤ session.length) : every.toNat ∣ n % 2 ^ 32 ↔ every.toNat ∣ n := by
    rcases hreg with hreg | hreg
    · rw [Nat.mod_eq_of_lt (Nat.lt_of_le_of_lt hn hreg)]
    · exact Nat.dvd_mod_iff hreg
  refine ⟨fun n hn hle => by rw [hiff hn hle, hmod n hle], fun n n' hc => ?_⟩
  have hmin := hspacing n n' hc
  have hle := hc.second.le
  rcases hreg with hreg | hreg
  · omega
  · have hn := (hmod n hc.first.le).1 ((hiff hc.first.1 hc.first.le).1 hc.first).2
    have hturn : every.toNat ∣ (n / 2 ^ 32 + 1) * 2 ^ 32 - n :=
      Nat.dvd_sub (Nat.dvd_mul_left_of_dvd hreg _) hn
    have hge := Nat.le_of_dvd (by omega) hturn
    omega

end Run

/-- Every third tick of a short session samples. -/
theorem latency_cadence_three :
    let s : SystemSetup :=
      ⟨.cached, ⟨10, 3, .modeButton⟩, .shipped, MemoryMap.frameBuffers, id⟩
    ∃ es y session, Run s .zero es y ∧ outcomes es = [] ++ session ++ [] ∧ IsSession session ∧
      session.length = 7 ∧ Cadence 3 session ∧ Consecutive session 3 6 ∧
      ∀ n n', Consecutive session n n' → n' = n + 3 := by
  intro s
  have h₀ := Run.start (s := s) (m := .zero)
  have h₁ := h₀.step (o := .select ⟨⟨0x1000, 64⟩, none⟩) rfl
  have h₂ := h₁.step (o := .tick ⟨1⟩ none) rfl
  have h₃ := h₂.step (o := .tick ⟨0⟩ none) rfl
  have h₄ := h₃.step (o := .tick ⟨0⟩ none) rfl
  have h₅ := h₄.step (o := .tick ⟨0⟩ none) rfl
  have h₆ := h₅.step (o := .tick ⟨0⟩ none) rfl
  have h₇ := h₆.step (o := .tick ⟨0⟩ none) rfl
  have h₈ := h₇.step (o := .tick ⟨0⟩ none) rfl
  obtain ⟨es, y, h, hs, hlen, h₃, h₆, hn⟩ : ∃ es y, Run s .zero es y ∧ IsSession (outcomes es) ∧
      (outcomes es).length = 7 ∧ SampledAt (outcomes es) 3 ∧ SampledAt (outcomes es) 6 ∧
      ∀ i ∈ [4, 5], ¬ SampledAt (outcomes es) i :=
    ⟨_, _, h₈, by decide +kernel, by decide +kernel, by decide +kernel, by decide +kernel,
      by decide +kernel⟩
  have ho : outcomes es = [] ++ outcomes es ++ [] := (List.append_nil _).symm
  have hc : Cadence 3 (outcomes es) := latency_cadence h ho hs
  refine ⟨es, y, outcomes es, h, ho, hs, hlen, hc, ⟨h₃, h₆, by decide, fun i hi hi' => hn i ?_⟩,
    (hc.regular (.inl ?_)).2⟩
  · have hi : i = 4 ∨ i = 5 := by omega
    simpa using hi
  · rw [hlen]
    decide

section Long

variable (s : SystemSetup) (m : Block)

theorem Controller.tick_held {c : Controller} {buttons : Buttons} (hs : c.state = .running)
    (hp : c.previous = buttons) :
    let r := c.tick m buttons none
    r.1.transition = none ∧ r.2.1.state = .running := by
  have he : buttons.risingEdges c.previous = .released := by rw [hp, Buttons.risingEdges_self]
  have ht : c.turn m buttons = (.quiet, c.sample buttons, m) := by
    rw [turn, he, Buttons.isPressed_released]
    rfl
  rw [tick_of_running none ht hs]
  obtain ⟨_, _, hr⟩ := (c.sample buttons).serve_frame m (buttons.risingEdges c.previous) none .quiet
  refine ⟨rfl, ?_⟩
  rw [hr]
  exact hs

theorem Controller.tick_press {c : Controller} {w : Workload} (hs : c.state = .idle)
    (hw : c.workload = some w) (hp : c.previous = .released) :
    let r := c.tick m ⟨1⟩ none
    r.1.transition = some .running ∧ r.2.1.state = .running := by
  have he : ((⟨1⟩ : Buttons).risingEdges c.previous).isPressed .center = true := by
    rw [hp]
    decide
  have ht : c.turn m ⟨1⟩ = (c.sample ⟨1⟩).toggleSession m := if_pos he
  rw [(c.sample ⟨1⟩).toggleSession_start m hs hw] at ht
  have hr : ((c.sample ⟨1⟩).start m w).1.state = .running := congrArg (·.next .start) hs
  rw [tick_of_running none ht hr]
  refine ⟨rfl, ?_⟩
  obtain ⟨_, _, he⟩ := serve_frame _ _ _ _ _
  rw [he]
  exact hr

theorem exists_session (w : Workload) (n : Nat) :
    ∃ es y, Run s m es y ∧
      es.map (·.op) = .select w :: List.replicate (n + 1) (.tick ⟨1⟩ none) ∧
      IsSession (outcomes es) ∧ (outcomes es).length = n + 1 ∧ y.controller.state = .running ∧
      y.controller.previous = ⟨1⟩ := by
  induction n with
  | zero =>
    have h₁ := (Run.start (s := s) (m := m)).step (o := .select w) rfl
    have h₂ := h₁.step (o := .tick ⟨1⟩ none) rfl
    obtain ⟨ht, hs⟩ := Controller.tick_press (w := w) m
      (c := ((System.attach s m).controller.select w)) rfl rfl rfl
    exact ⟨_, _, h₂, rfl, ⟨ht, nofun⟩, rfl, hs, Controller.previous_tick _ _ _ _⟩
  | succ n ih =>
    obtain ⟨es, y, h, hops, hsession, hlen, hs, hp⟩ := ih
    obtain ⟨ht, hs'⟩ := Controller.tick_held y.memory hs hp
    refine ⟨_, _, h.step (o := .tick ⟨1⟩ none) rfl, ?_, ?_, ?_, hs',
      Controller.previous_tick _ _ _ _⟩
    · rw [List.map_append, hops, List.replicate_succ' (n := n + 1)]
      rfl
    · rw [outcomes_snoc]
      exact hsession.snoc ht
    · rw [outcomes_snoc, List.length_append, hlen]
      rfl

end Long

/-- The count turns over on the last of these ticks, which so follows a sample with another. -/
theorem latency_cadence_turns_over :
    let s : SystemSetup :=
      ⟨.cached, ⟨1, 4294967295, .modeButton⟩, .shipped, MemoryMap.frameBuffers, id⟩
    ∃ es y, Run s .zero es y ∧ IsSession (outcomes es) ∧ (outcomes es).length = 2 ^ 32 ∧
      SampledAt (outcomes es) (2 ^ 32 - 1) ∧ SampledAt (outcomes es) (2 ^ 32) ∧
      ¬ s.controller.latencySampleTicks.toNat ∣ 2 ^ 32 := by
  intro s
  obtain ⟨es, y, h, -, hs, hlen, -, -⟩ := exists_session s .zero ⟨⟨0x1000, 64⟩, none⟩ (2 ^ 32 - 1)
  have ho : outcomes es = [] ++ outcomes es ++ [] := (List.append_nil _).symm
  refine ⟨es, y, h, hs, hlen, ?_, ?_, by decide⟩
  · exact (h.sampled_iff ho hs (by decide) (by omega)).2 (by decide)
  · exact (h.sampled_iff ho hs (by decide) (by omega)).2 (by decide)

end Handoff
