import Handoff.Proofs.Run

namespace Handoff

def Field.regions : List Field := [programLocation, programSize, resourceLocation, resourceSize]

theorem Field.owner_of_mem_regions {f : Field} (h : f ∈ regions) : f.owner = .controller := by
  cases f with
  | frameLatency => simp [regions] at h
  | _ => rfl

theorem Field.ne_of_mem_regions {f : Field} (h : f ∈ regions) : f ≠ .inputActions := by
  rintro rfl
  simp [regions] at h

namespace Workload

variable {w : Workload} {m : Block}

def StoredIn (w : Workload) (m : Block) : Prop :=
  ∀ f ∈ Field.regions, ∀ v, w.published? f = some v → m.field f = v

def ReadBy (w : Workload) (r : Renderer) : Prop :=
  r.program = w.program ∧ ∀ x, w.resource = some x → r.resource = x

theorem StoredIn.of_same (h : w.StoredIn m) {m' : Block}
    (hm : ∀ f ∈ Field.regions, m'.field f = m.field f) : w.StoredIn m' :=
  fun f hf v hv => (hm f hf).trans (h f hf v hv)

theorem StoredIn.read (h : w.StoredIn m) (c : Cache) (rotator : Rotator) (camera : CameraSettings) :
    w.ReadBy (Renderer.start (.cached c) m rotator camera) := by
  refine ⟨?_, fun x hx => ?_⟩
  · rw [Renderer.program_start]
    exact congrArg₂ Region.mk (h .programLocation (by decide) _ rfl)
      (h .programSize (by decide) _ rfl)
  · rw [Renderer.resource_start]
    exact congrArg₂ Region.mk
      (h .resourceLocation (by decide) _ (congrArg (Option.map Region.location) hx))
      (h .resourceSize (by decide) _ (congrArg (Option.map Region.size) hx))

end Workload

namespace Controller

inductive Turned (c : Controller) (m : Block) : Option SessionState → Controller → Block → Prop
  | started {w : Workload} {b m' : Block} {c' : Controller} (hs : c.state = .idle)
      (hw : c.workload = some w)
      (hb : ∀ f v, w.published? f = some v → b.field f = c.window.order.toRaw v)
      (hs' : c'.state = .running) (hl : c'.line = c.line.release b)
      (hm : ∀ f ∈ Field.regions, m'.field f = b.field f) : Turned c m (some .running) c' m'
  | stopped {m' : Block} {c' : Controller} (hs : c.state = .running) (hs' : c'.state = .idle)
      (hl : c'.line = c.line.assert) (hm : ∀ f ∈ Field.regions, m'.field f = m.field f) :
      Turned c m (some .idle) c' m'
  | stayed {m' : Block} {c' : Controller} (hs' : c'.state = c.state) (hl : c'.line = c.line)
      (hm : ∀ f ∈ Field.regions, m'.field f = m.field f) : Turned c m none c' m'

namespace Turned

variable {c c' : Controller} {m m' : Block} {t : Option SessionState}

theorem regions (h : c.Turned m t c' m') (ht : t ≠ some .running) :
    ∀ f ∈ Field.regions, m'.field f = m.field f := by
  cases h with
  | started => exact (ht rfl).elim
  | stopped _ _ _ hm => exact hm
  | stayed _ _ hm => exact hm

theorem low (h : c.Turned m t c' m') (hl : c.line.high = false ↔ c.state = .running) :
    c'.line.high = false ↔ c'.state = .running := by
  cases h with
  | started _ _ _ hs' hl' _ => simp [hs', hl', ResetLine.release]
  | stopped _ hs' hl' _ => simp [hs', hl', ResetLine.assert]
  | stayed hs' hl' _ => rw [hs', hl', hl]

theorem transition_iff (h : c.Turned m t c' m') (s : SessionState) :
    t = some s ↔ c.state ≠ c'.state ∧ c'.state = s := by
  cases h with
  | started hs _ _ hs' _ _ => simp [hs, hs']
  | stopped hs hs' _ _ => simp [hs, hs']
  | stayed hs' _ _ => simp [hs']

end Turned

variable (c : Controller) (m : Block) (buttons : Buttons) (switch : Option Bool)

theorem turned :
    let r := c.tick m buttons switch
    c.Turned m r.1.transition r.2.1 r.2.2 := by
  have ht := c.ticked m buttons switch
  generalize c.tick m buttons switch = r at ht ⊢
  cases ht with
  | idle => exact .stayed rfl rfl fun _ _ => rfl
  | refused => exact .stayed rfl rfl fun _ _ => rfl
  | stopped hs => exact .stopped hs (congrArg (·.next .stop) hs) rfl fun _ _ => rfl
  | @started w hs hw =>
    obtain ⟨_, _, he⟩ := ((c.sample buttons).start m w).1.serve_frame
      ((c.sample buttons).start m w).2 (buttons.risingEdges c.previous) switch
      { Outcome.quiet with transition := some .running, published := some .empty }
    refine .started (b := ((c.sample buttons).start m w).2) hs hw ?_ ?_ ?_ ?_
    · intro f v hv
      rw [field_start, hv]
      rfl
    · rw [he]
      exact congrArg (·.next .start) hs
    · rw [he]
      rfl
    · intro f hf
      exact field_serve_of_ne _ _ _ _ _ (Field.ne_of_mem_regions hf)
  | served hs =>
    obtain ⟨_, _, he⟩ := (c.sample buttons).serve_frame m (buttons.risingEdges c.previous) switch
      .quiet
    refine .stayed ?_ ?_ fun f hf => field_serve_of_ne _ _ _ _ _ (Field.ne_of_mem_regions hf)
    · rw [he]
      rfl
    · rw [he]
      rfl

theorem workload_tick : (c.tick m buttons switch).2.1.workload = c.workload := by
  have ht := c.ticked m buttons switch
  generalize c.tick m buttons switch = r at ht ⊢
  cases ht with
  | idle => rfl
  | refused => rfl
  | stopped => rfl
  | started =>
    obtain ⟨_, _, he⟩ := serve_frame _ _ _ _ _
    rw [he]
    rfl
  | served =>
    obtain ⟨_, _, he⟩ := serve_frame _ _ _ _ _
    rw [he]
    rfl

end Controller

/-- Which workload was selected last, and which one the last start took. -/
structure Ledger where
  selected : Option Workload
  started : Option Workload

def SystemReply.starts : SystemReply → Bool
  | .ticked o => o.transition == some .running
  | _ => false

theorem SystemReply.starts_iff {r : SystemReply} :
    r.starts ↔ ∃ o, r = .ticked o ∧ o.transition = some .running := by
  cases r <;> simp [starts]

def Ledger.add (l : Ledger) (e : Entry) : Ledger :=
  match e.op with
  | .select w => { l with selected := some w }
  | _ => if e.reply.starts then { l with started := l.selected } else l

def ledger (es : List Entry) : Ledger := es.foldl Ledger.add ⟨none, none⟩

theorem ledger_snoc (es : List Entry) (e : Entry) : ledger (es ++ [e]) = (ledger es).add e :=
  List.foldl_append

theorem Ledger.add_of_starts (l : Ledger) {e : Entry} (hop : ∀ w, e.op ≠ .select w)
    (h : e.reply.starts) : l.add e = { l with started := l.selected } := by
  unfold add
  split
  · next w he => exact (hop w he).elim
  · exact if_pos h

theorem Ledger.add_of_not_starts (l : Ledger) {e : Entry} (hop : ∀ w, e.op ≠ .select w)
    (h : ¬e.reply.starts) : l.add e = l := by
  unfold add
  split
  · next w he => exact (hop w he).elim
  · exact if_neg h

namespace System

variable {s : SystemSetup} {y y' : System} {op : SystemOp} {reply : SystemReply}

/-- What an operation other than those of the controller's link does to the controller and to the
regions. -/
inductive Moved (y : System) : SystemOp → SystemReply → System → Prop
  | selected (w : Workload) :
      Moved y (.select w) .done { y with controller := y.controller.select w }
  | turned {op : SystemOp} {o : Outcome} {y' : System} (hop : ∀ w, op ≠ .select w)
      (ht : y.controller.Turned y.memory o.transition y'.controller y'.memory)
      (hw : y'.controller.workload = y.controller.workload) : Moved y op (.ticked o) y'
  | other {op : SystemOp} {reply : SystemReply} {y' : System} (hop : ∀ w, op ≠ .select w)
      (hreply : ∀ o, reply ≠ .ticked o) (hc : y'.controller = y.controller)
      (hm : ∀ f ∈ Field.regions, y'.memory.field f = y.memory.field f) : Moved y op reply y'

theorem moved (hop : op.participant ≠ .controllerLink) (hr : y.run? s op = some (reply, y')) :
    y.Moved op reply y' := by
  have hdata (h : reply.IsData) (o : Outcome) : reply ≠ .ticked o := by
    rintro rfl
    cases h
  cases op.shape with
  | select w =>
    cases hr
    exact .selected w
  | tick buttons switch =>
    obtain ⟨hreply, hy⟩ := Prod.mk.inj (Option.some.inj hr)
    subst hreply hy
    exact .turned (by simp) (y.controller.turned y.memory buttons switch)
      (y.controller.workload_tick y.memory buttons switch)
  | startRenderer =>
    cases hr
    exact .other (by simp) (by simp) rfl fun _ _ => rfl
  | frameOf k =>
    obtain ⟨r, f, r', m', _, hf, rfl, rfl⟩ := exists_of_frame? hr
    have hm := r.renderer.memory_frame y.memory (s.clock r.readings) (s.clock (r.readings + 1))
    rw [hf] at hm
    refine .other (by simp) (by simp) rfl fun g hg => ?_
    have hne : Field.frameLatency ≠ g := by
      rintro rfl
      cases Field.owner_of_mem_regions hg
    exact (congrArg (·.field g) hm).trans (y.memory.field_set_of_ne _ hne)
  | controllerLink hp => exact (hop hp).elim
  | rendererLink hp ha hd he =>
    rw [he] at hr
    cases hr
    refine .other ?_ (hdata (hd _)) rfl fun f hf => ha.confined _ f ?_
    · rintro w rfl
      cases hp
    · rw [Field.owner_of_mem_regions hf]
      decide
  | rawWindow hp he =>
    obtain ⟨hd, w, _, rfl⟩ := he _ _ _ _ hr
    refine .other ?_ (hdata hd) rfl fun _ _ => rfl
    rintro w rfl
    cases hp

namespace Moved

theorem line_of_starts (h : y.Moved op reply y') (hs : reply.starts) :
    ∃ w b, y.controller.workload = some w ∧
      y'.controller.line = y.controller.line.release b ∧
      ∀ f v, w.published? f = some v → b.field f = y.controller.window.order.toRaw v := by
  obtain ⟨o, ho, hto⟩ := SystemReply.starts_iff.1 hs
  cases h with
  | selected => cases ho
  | turned _ ht _ =>
    cases ho
    rw [hto] at ht
    cases ht with
    | started _ hw hb _ hl _ => exact ⟨_, _, hw, hl, hb⟩
  | other _ hreply _ _ => exact (hreply o ho).elim

theorem line_of_not_starts (h : y.Moved op reply y') (hs : ¬reply.starts) :
    y'.controller.line = y.controller.line ∨
      y'.controller.line = y.controller.line.assert := by
  cases h with
  | selected => exact .inl rfl
  | @turned _ o _ _ ht _ =>
    generalize hto : o.transition = t at ht
    cases ht with
    | started => exact (hs (SystemReply.starts_iff.2 ⟨o, rfl, hto⟩)).elim
    | stopped _ _ hl _ => exact .inr hl
    | stayed _ hl _ => exact .inl hl
  | other _ _ hc _ =>
    rw [hc]
    exact .inl rfl

theorem transition_iff {o : Outcome} (h : y.Moved op (.ticked o) y') (t : SessionState) :
    o.transition = some t ↔
      y.controller.state ≠ y'.controller.state ∧ y'.controller.state = t := by
  cases h with
  | turned _ ht _ => exact ht.transition_iff t
  | other _ hreply _ _ => exact (hreply o rfl).elim

end Moved

theorem regions_run? (hop : op.participant ≠ .controllerLink)
    (hr : y.run? s op = some (reply, y')) (hs : ¬reply.starts) :
    ∀ f ∈ Field.regions, y'.memory.field f = y.memory.field f := by
  cases moved hop hr with
  | selected w => exact fun _ _ => rfl
  | turned _ ht _ => exact ht.regions fun e => hs (SystemReply.starts_iff.2 ⟨_, rfl, e⟩)
  | other _ _ _ hm => exact hm

structure Sealed (l : Ledger) (y : System) : Prop where
  selected : y.controller.workload = l.selected
  low : y.controller.line.high = false ↔ y.controller.state = .running
  released : ∀ b, y.controller.line.releasedWith = some b →
    ∀ f ∈ Field.regions, y.memory.field f = b.field f
  started : ∀ w, l.started = some w →
    ∀ f ∈ Field.regions, ∀ v, w.published? f = some v → y.memory.field f = v

namespace Sealed

variable {l : Ledger}

theorem attach (s : SystemSetup) (m : Block) : (System.attach s m).Sealed ⟨none, none⟩ where
  selected := rfl
  low := by simp [System.attach, System.new, Controller.new, ResetLine.assert]
  released b hb := by cases hb
  started w hw := by cases hw

theorem of_same (h : y.Sealed l) {l' : Ledger} (hw : y'.controller.workload = l'.selected)
    (hl : y'.controller.line.high = false ↔ y'.controller.state = .running)
    (hb : y'.controller.line.releasedWith = y.controller.line.releasedWith)
    (hs : l'.started = l.started)
    (hm : ∀ f ∈ Field.regions, y'.memory.field f = y.memory.field f) : y'.Sealed l' where
  selected := hw
  low := hl
  released b hb' f hf := (hm f hf).trans (h.released b (hb ▸ hb') f hf)
  started w hw' f hf v hv := (hm f hf).trans (h.started w (hs ▸ hw') f hf v hv)

theorem step (h : y.Sealed l) (ho : y.controller.window.order = .little)
    (hop : op.participant ≠ .controllerLink) (hr : y.run? s op = some (reply, y')) :
    y'.Sealed (l.add ⟨op, reply, y'⟩) := by
  cases moved hop hr with
  | selected w => exact h.of_same rfl h.low rfl rfl fun _ _ => rfl
  | @turned _ o _ hop' ht hw =>
    have hlow := ht.low h.low
    generalize hto : o.transition = t at ht
    cases ht with
    | @started w b _ _ _ hw' hb _ hl hm =>
      rw [l.add_of_starts hop' (SystemReply.starts_iff.2 ⟨o, rfl, hto⟩)]
      refine ⟨hw.trans h.selected, hlow, ?_, ?_⟩
      · intro b' hb'
        rw [hl] at hb'
        cases hb'
        exact hm
      · intro x hx f hf v hv
        have hxw : some w = some x := hw'.symm.trans (h.selected.trans hx)
        cases hxw
        rw [hm f hf, hb f v hv, ho]
        rfl
    | stopped _ _ hl hm =>
      rw [l.add_of_not_starts hop' (by simp [SystemReply.starts, hto])]
      exact h.of_same (hw.trans h.selected) hlow (by rw [hl]; rfl) rfl hm
    | stayed _ hl hm =>
      rw [l.add_of_not_starts hop' (by simp [SystemReply.starts, hto])]
      exact h.of_same (hw.trans h.selected) hlow (by rw [hl]) rfl hm
  | other hop' hreply hc hm =>
    have hs : ¬reply.starts := by
      intro hs
      obtain ⟨o, ho, _⟩ := SystemReply.starts_iff.1 hs
      exact hreply o ho
    rw [l.add_of_not_starts hop' hs]
    refine h.of_same ?_ ?_ ?_ rfl hm
    · rw [hc]
      exact h.selected
    · rw [hc]
      exact h.low
    · rw [hc]

end Sealed

end System

section Run

variable {s : SystemSetup} {m : Block} {es : List Entry} {y y' : System}

theorem Run.isSealed (h : Run (s.over .cached) m es y)
    (hes : ∀ op ∈ es.map (·.op), op.participant ≠ .controllerLink) : y.Sealed (ledger es) := by
  induction h with
  | start => exact .attach (s.over .cached) m
  | @step es y y' op reply h hop ih =>
    obtain ⟨hes, ho⟩ := forall_op_snoc.1 hes
    rw [ledger_snoc]
    exact (ih hes).step h.uniform.controller ho hop

/-- What an operation does to the reset line and to the regions, given the entries before it. -/
structure ReleaseOrder (s : SystemSetup) (es : List Entry) (y : System) (e : Entry) : Prop where
  /-- The line goes low when a session starts, with its workload and no actions in memory. -/
  released : e.reply.starts → ∃ w b, (ledger es).selected = some w ∧
    e.after.controller.line = y.controller.line.release b ∧
    ∀ f v, w.published? f = some v → b.field f = v
  held : ¬e.reply.starts → e.after.controller.line = y.controller.line ∨
    e.after.controller.line = y.controller.line.assert
  /-- Whatever memory holds, only a start writes a region. -/
  unwritten : ∀ m reply y', System.run? s { y with memory := m } e.op = some (reply, y') →
    ¬reply.starts → ∀ f ∈ Field.regions, y'.memory.field f = m.field f
  unchanged : ∀ b, e.after.controller.line.releasedWith = some b →
    ∀ f ∈ Field.regions, e.after.memory.field f = b.field f
  /-- Any renderer that starts now reads what the last session was started with. -/
  read : ∀ w, (ledger (es ++ [e])).started = some w → ∀ c rotator camera,
    let r := Renderer.start (.cached c) e.after.memory rotator camera
    r.program = w.program ∧ ∀ x, w.resource = some x → r.resource = x
  low : e.after.controller.line.high = false ↔ e.after.controller.state = .running
  transition : ∀ o, e.reply = .ticked o → ∀ t, o.transition = some t ↔
    y.controller.state ≠ e.after.controller.state ∧ e.after.controller.state = t

theorem System.Sealed.read {l : Ledger} (h : y.Sealed l) {w : Workload} (hw : l.started = some w)
    (c : Cache) (rotator : Rotator) (camera : CameraSettings) :
    let r := Renderer.start (.cached c) y.memory rotator camera
    r.program = w.program ∧ ∀ x, w.resource = some x → r.resource = x :=
  Workload.StoredIn.read (h.started w hw) c rotator camera

/-- Over caches, and with the controller's loop alone on its side, every operation keeps to the
order of publishing and releasing. -/
theorem publishes_before_release {op : SystemOp} {reply : SystemReply}
    (h : Run (s.over .cached) m es y)
    (hes : ∀ op ∈ es.map (·.op), op.participant ≠ .controllerLink)
    (hop : op.participant ≠ .controllerLink)
    (hr : y.run? (s.over .cached) op = some (reply, y')) :
    ReleaseOrder (s.over .cached) es y ⟨op, reply, y'⟩ := by
  have ho := h.uniform.controller
  have hi := h.isSealed hes
  have hi' := hi.step ho hop hr
  have hmoved := System.moved hop hr
  rw [← ledger_snoc] at hi'
  refine ⟨fun hs => ?_, hmoved.line_of_not_starts, ?_, hi'.released, fun w hw => hi'.read hw,
    hi'.low, ?_⟩
  · obtain ⟨w, b, hw, hl, hb⟩ := hmoved.line_of_starts hs
    rw [ho] at hb
    exact ⟨w, b, hi.selected.symm.trans hw, hl, hb⟩
  · intro m reply' y'' hr' hs
    exact System.regions_run? hop hr' hs
  · intro o he t
    cases he
    exact hmoved.transition_iff t

end Run

/-- After an idle tick the center button starts what was selected. -/
theorem publishes_before_release_first_start :
    let s : SystemSetup := ⟨.cached, .shipped, .shipped, MemoryMap.frameBuffers, id⟩
    let w : Workload := ⟨⟨0x1000, 64⟩, some ⟨0x2000, 32⟩⟩
    ∃ es y reply y', Run (s.over .cached) .zero es y ∧
      es.map (·.op) = [.select w, .tick ⟨0⟩ none] ∧
      (∀ op ∈ es.map (·.op), op.participant ≠ .controllerLink) ∧
      y.run? (s.over .cached) (.tick ⟨1⟩ none) = some (reply, y') ∧ reply.starts ∧
      ReleaseOrder (s.over .cached) es y ⟨.tick ⟨1⟩ none, reply, y'⟩ := by
  intro s w
  have h₀ := Run.start (s := s.over .cached) (m := .zero)
  have h₁ := h₀.step (o := .select w) rfl
  have h := h₁.step (o := .tick ⟨0⟩ none) rfl
  have hes : ∀ op ∈ [SystemOp.select w, .tick ⟨0⟩ none], op.participant ≠ .controllerLink := by
    decide
  refine ⟨_, _, _, _, h, rfl, hes, rfl, ?_, publishes_before_release h hes (by decide) rfl⟩
  decide +kernel

end Handoff
