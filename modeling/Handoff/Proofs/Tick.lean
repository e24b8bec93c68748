import Handoff.Controller
import Handoff.Proofs.Link

namespace Handoff

/-- What a start publishes: the program, the resource if there is one, and no actions. -/
def Link.publishWorkload (l : Link .controller) (w : Workload) : Link .controller :=
  let l := l.publishProgram w.program
  let l := match w.resource with
    | some r => l.publishResource r
    | none => l
  l.publishActions .empty

def Workload.published? (w : Workload) : Field → Option UInt32
  | .programLocation => some w.program.location
  | .programSize => some w.program.size
  | .resourceLocation => w.resource.map (·.location)
  | .resourceSize => w.resource.map (·.size)
  | .frameLatency => none
  | .inputActions => some 0

theorem Link.field_publishWorkload (l : Link .controller) (w : Workload) (f : Field) :
    (l.publishWorkload w).memory.field f =
      ((w.published? f).map l.window.order.toRaw).getD (l.memory.field f) := by
  obtain ⟨p, r⟩ := w
  cases r <;> cases f <;>
    simp [publishWorkload, publishProgram_eq, publishResource_eq, publishActions_eq,
      Workload.published?, ActionWord.empty]

@[simp] theorem Link.order_publishWorkload (l : Link .controller) (w : Workload) :
    (l.publishWorkload w).window.order = l.window.order := by
  obtain ⟨p, r⟩ := w
  cases r <;>
    simp [publishWorkload, publishProgram_eq, publishResource_eq, publishActions_eq]

namespace Controller

def sample (c : Controller) (buttons : Buttons) : Controller := { c with previous := buttons }

def serve (c : Controller) (m : Block) (edges : Buttons) (switch : Option Bool)
    (outcome : Outcome) : Outcome × Controller × Block :=
  let e := c.editActions m edges switch
  let t := e.2.1.countTick e.2.2
  ({ outcome with published := e.1 <|> outcome.published, latency := t.1 }, t.2, e.2.2)

inductive Ticked (c : Controller) (m : Block) (buttons : Buttons) (switch : Option Bool) :
    Outcome × Controller × Block → Prop
  | idle (hs : c.state = .idle) (he : (buttons.risingEdges c.previous).isPressed .center = false) :
      Ticked c m buttons switch (.quiet, c.sample buttons, m)
  | refused (hs : c.state = .idle) (hw : c.workload = none) :
      Ticked c m buttons switch
        ({ Outcome.quiet with startRefused := true }, c.sample buttons, m)
  | stopped (hs : c.state = .running) :
      Ticked c m buttons switch
        ({ Outcome.quiet with transition := some .idle }, (c.sample buttons).stop, m)
  | started {w : Workload} (hs : c.state = .idle) (hw : c.workload = some w) :
      Ticked c m buttons switch
        (((c.sample buttons).start m w).1.serve ((c.sample buttons).start m w).2
          (buttons.risingEdges c.previous) switch
          { Outcome.quiet with transition := some .running, published := some .empty })
  | served (hs : c.state = .running) :
      Ticked c m buttons switch
        ((c.sample buttons).serve m (buttons.risingEdges c.previous) switch .quiet)

variable (c : Controller) (m : Block) (buttons : Buttons) (switch : Option Bool)

theorem toggleSession_running (h : c.state = .running) :
    c.toggleSession m = ({ Outcome.quiet with transition := some .idle }, c.stop, m) := by
  simp only [toggleSession, h]

theorem toggleSession_refused (h : c.state = .idle) (hw : c.workload = none) :
    c.toggleSession m = ({ Outcome.quiet with startRefused := true }, c, m) := by
  simp only [toggleSession, h, hw]

theorem toggleSession_start {w : Workload} (h : c.state = .idle) (hw : c.workload = some w) :
    c.toggleSession m =
      ({ Outcome.quiet with transition := some .running, published := some .empty },
        c.start m w) := by
  simp only [toggleSession, h, hw]

/-- A tick first sees to the center button. -/
def turn : Outcome × Controller × Block :=
  if (buttons.risingEdges c.previous).isPressed .center then (c.sample buttons).toggleSession m
  else (.quiet, c.sample buttons, m)

variable {c m buttons} {r : Outcome × Controller × Block}

theorem tick_of_running (h : c.turn m buttons = r) (hr : r.2.1.state = .running) :
    c.tick m buttons switch =
      r.2.1.serve r.2.2 (buttons.risingEdges c.previous) switch r.1 := by
  subst h
  exact if_pos hr

theorem tick_of_idle (h : c.turn m buttons = r) (hr : r.2.1.state = .idle) :
    c.tick m buttons switch = r := by
  subst h
  have hn : (c.turn m buttons).2.1.state ≠ .running := by
    rw [hr]
    decide
  exact if_neg hn

theorem ticked (c : Controller) (m : Block) (buttons : Buttons) (switch : Option Bool) :
    c.Ticked m buttons switch (c.tick m buttons switch) := by
  by_cases he : (buttons.risingEdges c.previous).isPressed .center
  · have ht : c.turn m buttons = (c.sample buttons).toggleSession m := if_pos he
    cases hs : c.state with
    | running =>
      rw [(c.sample buttons).toggleSession_running m hs] at ht
      have hn : (c.sample buttons).stop.state = .idle := congrArg (·.next .stop) hs
      rw [tick_of_idle switch ht hn]
      exact .stopped hs
    | idle =>
      cases hw : c.workload with
      | none =>
        rw [(c.sample buttons).toggleSession_refused m hs hw] at ht
        rw [tick_of_idle switch ht hs]
        exact .refused hs hw
      | some w =>
        rw [(c.sample buttons).toggleSession_start m hs hw] at ht
        have hr : ((c.sample buttons).start m w).1.state = .running := congrArg (·.next .start) hs
        rw [tick_of_running switch ht hr]
        exact .started hs hw
  · have ht : c.turn m buttons = (.quiet, c.sample buttons, m) := if_neg he
    cases hs : c.state with
    | running =>
      rw [tick_of_running switch ht hs]
      exact .served hs
    | idle =>
      rw [tick_of_idle switch ht hs]
      exact .idle hs (Bool.not_eq_true _ ▸ he)

section Parts

variable (c : Controller) (m : Block) (edges : Buttons) (switch : Option Bool) (out : Outcome)

theorem start_eq (w : Workload) :
    c.start m w =
      let l := (c.link m).publishWorkload w
      ({ c with
          window := l.window
          line := c.line.release l.memory
          state := c.state.next .start
          encoder := c.encoder.reset
          ticks := 0 }, l.memory) := rfl

@[simp] theorem order_start (w : Workload) : (c.start m w).1.window.order = c.window.order :=
  (c.link m).order_publishWorkload w

theorem field_start (w : Workload) (f : Field) :
    (c.start m w).2.field f =
      ((w.published? f).map c.window.order.toRaw).getD (m.field f) :=
  (c.link m).field_publishWorkload w f

/-- Editing leaves everything but the shadow word and the window as it is. -/
theorem editActions_frame : ∃ w e,
    (c.editActions m edges switch).2.1 = { c with window := w, encoder := e } := by
  unfold editActions
  dsimp only
  split
  · exact ⟨_, _, rfl⟩
  · exact ⟨_, _, rfl⟩

@[simp] theorem order_editActions :
    (c.editActions m edges switch).2.1.window.order = c.window.order := by
  unfold editActions
  dsimp only
  split
  · rw [Link.publishActions_eq, Link.order_write]
    rfl
  · rfl

theorem field_editActions_of_ne {f : Field} (h : f ≠ .inputActions) :
    (c.editActions m edges switch).2.2.field f = m.field f := by
  unfold editActions
  dsimp only
  split
  · rw [Link.publishActions_eq, Link.memory_write]
    exact m.field_set_of_ne _ h.symm
  · rfl

def Published : Prop := m.field .inputActions = c.window.order.toRaw c.actions.bits

variable {c m} in
theorem Published.editActions (h : c.Published m) :
    (c.editActions m edges switch).2.1.Published (c.editActions m edges switch).2.2 := by
  rw [Published, order_editActions]
  unfold Controller.editActions
  dsimp only
  split
  · rw [Link.publishActions_eq, Link.memory_write]
    exact m.field_set_self .inputActions _
  · next hn =>
    obtain ⟨hedit, hsync⟩ := not_or.1 hn
    rw [h, ← Decidable.not_not.1 hedit, ← Decidable.not_not.1 hsync]
    rfl

theorem countTick_frame : ∃ w,
    (c.countTick m).2 = { c with window := w, ticks := c.ticks + 1 } := by
  unfold countTick
  dsimp only
  split
  · exact ⟨_, rfl⟩
  · exact ⟨_, rfl⟩

@[simp] theorem order_countTick : (c.countTick m).2.window.order = c.window.order := by
  unfold countTick
  dsimp only
  split
  · rw [Link.sampleLatency_eq, Link.order_read]
    rfl
  · rfl

theorem latency_countTick {l : UInt32} (h : (c.countTick m).1 = some l) :
    l = c.window.order.ofRaw (m.field .frameLatency) := by
  unfold countTick at h
  dsimp only at h
  split at h
  · rw [Link.sampleLatency_eq, Link.read_fst] at h
    exact (Option.some.inj h).symm
  · cases h

/-- Serving the input leaves the session, the reset line and the selection as they are. -/
theorem serve_frame : ∃ w e,
    (c.serve m edges switch out).2.1 =
      { c with window := w, encoder := e, ticks := c.ticks + 1 } := by
  obtain ⟨w, e, he⟩ := c.editActions_frame m edges switch
  obtain ⟨w', ht⟩ := (c.editActions m edges switch).2.1.countTick_frame
    (c.editActions m edges switch).2.2
  refine ⟨w', e, ?_⟩
  rw [serve, ht, he]

@[simp] theorem order_serve :
    (c.serve m edges switch out).2.1.window.order = c.window.order := by
  rw [serve, order_countTick, order_editActions]

theorem field_serve_of_ne {f : Field} (h : f ≠ .inputActions) :
    (c.serve m edges switch out).2.2.field f = m.field f :=
  c.field_editActions_of_ne m edges switch h

theorem previous_serve : (c.serve m edges switch out).2.1.previous = c.previous := by
  obtain ⟨_, _, h⟩ := c.serve_frame m edges switch out
  rw [h]

variable {c m} in
theorem Published.serve (h : c.Published m) :
    (c.serve m edges switch out).2.1.Published (c.serve m edges switch out).2.2 := by
  have hf := h.editActions edges switch
  obtain ⟨w, ht⟩ := (c.editActions m edges switch).2.1.countTick_frame
    (c.editActions m edges switch).2.2
  rw [Published, order_serve, Controller.serve, ht]
  rw [Published, order_editActions] at hf
  exact hf

theorem latency_serve {l : UInt32} (h : (c.serve m edges switch out).1.latency = some l) :
    l = c.window.order.ofRaw (m.field .frameLatency) := by
  have hl := latency_countTick _ _ h
  rw [order_editActions, c.field_editActions_of_ne m edges switch (by decide)] at hl
  exact hl

end Parts

section Tick

variable (c : Controller) (m : Block) (buttons : Buttons) (switch : Option Bool)

theorem previous_tick : (c.tick m buttons switch).2.1.previous = buttons := by
  have ht := c.ticked m buttons switch
  generalize c.tick m buttons switch = r at ht ⊢
  cases ht with
  | idle => rfl
  | refused => rfl
  | stopped => rfl
  | started => exact previous_serve _ _ _ _ _
  | served => exact previous_serve _ _ _ _ _

theorem published_start (w : Workload) : (c.start m w).1.Published (c.start m w).2 := by
  rw [Published, order_start, field_start]
  rfl

variable {c m} in
theorem Published.tick (h : c.Published m) :
    (c.tick m buttons switch).2.1.Published (c.tick m buttons switch).2.2 := by
  have ht := c.ticked m buttons switch
  generalize c.tick m buttons switch = r at ht ⊢
  cases ht with
  | idle => exact h
  | refused => exact h
  | stopped => exact h
  | started => exact (published_start _ m _).serve _ switch _
  | served => exact Published.serve (c := c.sample buttons) _ switch _ h

theorem field_tick_frameLatency :
    (c.tick m buttons switch).2.2.field .frameLatency = m.field .frameLatency := by
  have ht := c.ticked m buttons switch
  generalize c.tick m buttons switch = r at ht ⊢
  cases ht with
  | idle => rfl
  | refused => rfl
  | stopped => rfl
  | started =>
    rw [field_serve_of_ne _ _ _ _ _ (by decide), field_start]
    rfl
  | served => exact field_serve_of_ne _ _ _ _ _ (by decide)

/-- What a tick samples is the latency in memory. -/
theorem latency_tick {l : UInt32} (h : (c.tick m buttons switch).1.latency = some l) :
    l = c.window.order.ofRaw (m.field .frameLatency) := by
  have ht := c.ticked m buttons switch
  generalize c.tick m buttons switch = r at ht h
  cases ht with
  | idle => cases h
  | refused => cases h
  | stopped => cases h
  | started =>
    have hl := latency_serve _ _ _ _ _ h
    rw [order_start, field_start] at hl
    exact hl
  | served => exact latency_serve (c.sample buttons) m _ switch _ h

end Tick

end Controller

end Handoff
