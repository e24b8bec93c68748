import Handoff.Proofs.History
import Handoff.Proofs.Release

namespace Handoff

/-- The workloads of the sessions that entries start, given the ledger before them. -/
def Ledger.sessions (l : Ledger) : List Entry → List Workload
  | [] => []
  | e :: es => (if e.reply.starts then l.selected.toList else []) ++ (l.add e).sessions es

def sessions (es : List Entry) : List Workload := Ledger.sessions ⟨none, none⟩ es

theorem Ledger.sessions_snoc (l : Ledger) (es : List Entry) (e : Entry) :
    l.sessions (es ++ [e]) =
      l.sessions es ++ if e.reply.starts then (es.foldl add l).selected.toList else [] := by
  induction es generalizing l with
  | nil => exact List.append_nil _
  | cons x es ih =>
    rw [List.cons_append, sessions, sessions, ih, List.append_assoc]
    rfl

theorem sessions_snoc (es : List Entry) (e : Entry) :
    sessions (es ++ [e]) =
      sessions es ++ if e.reply.starts then (ledger es).selected.toList else [] :=
  Ledger.sessions_snoc _ es e

/-- The resource of the latest workload that has one, or a region of size zero. -/
def lastResource (ws : List Workload) : Region := (ws.filterMap (·.resource)).getLast?.getD ⟨0, 0⟩

theorem lastResource_snoc (ws : List Workload) (w : Workload) :
    lastResource (ws ++ [w]) = w.resource.getD (lastResource ws) := by
  rw [lastResource, getLast?_filterMap_snoc]
  cases w.resource <;> rfl

theorem lastResource_of_none {ws : List Workload} (h : ∀ w ∈ ws, w.resource = none) :
    lastResource ws = ⟨0, 0⟩ := by
  rw [lastResource, List.filterMap_eq_nil_iff.2 h]
  rfl

def Block.resource (m : Block) : Region := ⟨m.field .resourceLocation, m.field .resourceSize⟩

theorem Block.resource_congr {m m' : Block} (h : ∀ f ∈ Field.regions, m'.field f = m.field f) :
    m'.resource = m.resource :=
  congrArg₂ Region.mk (h .resourceLocation (by decide)) (h .resourceSize (by decide))

theorem Link.resource_publishWorkload {l : Link .controller} (h : l.window.order = .little)
    (w : Workload) : (l.publishWorkload w).memory.resource = w.resource.getD l.memory.resource := by
  rw [Block.resource, field_publishWorkload, field_publishWorkload, h]
  cases hr : w.resource with
  | none => simp [Workload.published?, hr, Block.resource]
  | some r => simp [Workload.published?, hr, ByteOrder.toRaw]

namespace Controller

variable {c : Controller}

/-- A start is the only tick that writes the resource, and it does so only if it has one. -/
theorem resource_tick (h : c.window.order = .little) (m : Block) (buttons : Buttons)
    (switch : Option Bool) :
    let r := c.tick m buttons switch
    r.2.2.resource =
      if r.1.transition = some .running then (c.workload.bind (·.resource)).getD m.resource
      else m.resource := by
  have ht := c.ticked m buttons switch
  generalize c.tick m buttons switch = r at ht ⊢
  cases ht with
  | idle => rfl
  | refused => rfl
  | stopped => rfl
  | @started w hs hw =>
    have hserve := Block.resource_congr fun f hf =>
      field_serve_of_ne ((c.sample buttons).start m w).1 ((c.sample buttons).start m w).2
        (buttons.risingEdges c.previous) switch
        { Outcome.quiet with transition := some .running, published := some .empty }
        (Field.ne_of_mem_regions hf)
    rw [hw]
    exact hserve.trans (Link.resource_publishWorkload (l := (c.sample buttons).link m) h w)
  | served =>
    exact Block.resource_congr fun f hf =>
      field_serve_of_ne (c.sample buttons) m _ switch _ (Field.ne_of_mem_regions hf)

end Controller

section Run

variable {s : SystemSetup} {es : List Entry} {y y' : System} {op : SystemOp} {reply : SystemReply}

theorem System.exists_tick_of_starts (hr : y.run? s op = some (reply, y')) (h : reply.starts) :
    ∃ buttons switch, op = .tick buttons switch := by
  obtain ⟨o, rfl, _⟩ := SystemReply.starts_iff.1 h
  cases answered hr with
  | ticked buttons switch => exact ⟨buttons, switch, rfl⟩
  | data hd => cases hd

theorem System.resource_run? (ho : y.controller.window.order = .little)
    (hop : op.participant ≠ .controllerLink) (hr : y.run? s op = some (reply, y')) :
    y'.memory.resource =
      if reply.starts then (y.controller.workload.bind (·.resource)).getD y.memory.resource
      else y.memory.resource := by
  by_cases hs : reply.starts
  · obtain ⟨buttons, switch, rfl⟩ := exists_tick_of_starts hr hs
    obtain ⟨hreply, hy⟩ := Prod.mk.inj (Option.some.inj hr)
    subst hreply hy
    rw [if_pos hs]
    exact (Controller.resource_tick ho y.memory buttons switch).trans (if_pos (eq_of_beq hs))
  · rw [if_neg hs]
    exact Block.resource_congr (regions_run? hop hr hs)

theorem Run.resource (h : Run (s.over .cached) .zero es y)
    (hes : ∀ op ∈ es.map (·.op), op.participant ≠ .controllerLink) :
    y.memory.resource = lastResource (sessions es) := by
  induction h with
  | start => rfl
  | @step es y y' op reply h hop ih =>
    obtain ⟨hes, ho⟩ := forall_op_snoc.1 hes
    rw [System.resource_run? h.uniform.controller ho hop, sessions_snoc, ih hes,
      (h.isSealed hes).selected]
    by_cases hs : reply.starts
    · rw [if_pos hs, if_pos hs]
      cases (ledger es).selected with
      | none => rw [Option.toList_none, List.append_nil]; rfl
      | some w => rw [Option.toList_some, lastResource_snoc]; rfl
    · rw [if_neg hs, if_neg hs, List.append_nil]

/-- A renderer that starts at any point of a run reads the latest resource that a session was
started with. It sees that there is none as long as no session has had one. -/
theorem renderer_reads_last_resource (h : Run (s.over .cached) .zero es y)
    (hes : ∀ op ∈ es.map (·.op), op.participant ≠ .controllerLink) (c : Cache) (rotator : Rotator)
    (camera : CameraSettings) :
    let r := Renderer.start (.cached c) y.memory rotator camera
    r.resource = lastResource (sessions es) ∧
      ((∀ w ∈ sessions es, w.resource = none) → r.resource.isEmpty) := by
  have hr : (Renderer.start (.cached c) y.memory rotator camera).resource =
      lastResource (sessions es) :=
    (Renderer.resource_start (.cached c) y.memory rotator camera).trans (h.resource hes)
  refine ⟨hr, fun hn => ?_⟩
  rw [hr, lastResource_of_none hn]
  rfl

end Run

/-- Two sessions without a resource, over whatever a renderer has cached. -/
theorem renderer_reads_last_resource_none :
    let s : SystemSetup := ⟨.cached, .shipped, .shipped, MemoryMap.frameBuffers, id⟩
    let w : Workload := ⟨⟨0x1000, 64⟩, none⟩
    let ops : List SystemOp := [.select w, .tick ⟨1⟩ none, .tick ⟨0⟩ none, .tick ⟨1⟩ none,
      .tick ⟨0⟩ none, .tick ⟨1⟩ none]
    ∃ es y, Run (s.over .cached) .zero es y ∧ es.map (·.op) = ops ∧
      (∀ op ∈ ops, op.participant ≠ .controllerLink) ∧ sessions es = [w, w] ∧
      ∀ c, (Renderer.start (.cached c) y.memory (.new s.frameBuffers) s.camera).resource.isEmpty := by
  intro s w ops
  have h₀ := Run.start (s := s.over .cached) (m := .zero)
  have h₁ := h₀.step (o := .select w) rfl
  have h₂ := h₁.step (o := .tick ⟨1⟩ none) rfl
  have h₃ := h₂.step (o := .tick ⟨0⟩ none) rfl
  have h₄ := h₃.step (o := .tick ⟨1⟩ none) rfl
  have h₅ := h₄.step (o := .tick ⟨0⟩ none) rfl
  have h₆ := h₅.step (o := .tick ⟨1⟩ none) rfl
  obtain ⟨es, y, h, he, hw⟩ : ∃ es y, Run (s.over .cached) .zero es y ∧ es.map (·.op) = ops ∧
      sessions es = [w, w] := ⟨_, _, h₆, rfl, by decide +kernel⟩
  have hops : ∀ op ∈ ops, op.participant ≠ .controllerLink := by decide
  refine ⟨es, y, h, he, hops, hw, fun c => ?_⟩
  refine (renderer_reads_last_resource h (he ▸ hops) c (.new s.frameBuffers) s.camera).2 ?_
  rw [hw]
  decide

/-- The resource of a session that is over is still read in the next one, which has none. -/
theorem resource_outlives_session :
    let s : SystemSetup := ⟨.cached, .shipped, .shipped, MemoryMap.frameBuffers, id⟩
    let w : Workload := ⟨⟨0x1000, 64⟩, some ⟨0x2000, 32⟩⟩
    let v : Workload := ⟨⟨0x1000, 64⟩, none⟩
    let ops : List SystemOp := [.select w, .tick ⟨1⟩ none, .tick ⟨0⟩ none, .tick ⟨1⟩ none,
      .tick ⟨0⟩ none, .select v, .tick ⟨1⟩ none]
    ∃ es y, Run (s.over .cached) .zero es y ∧ es.map (·.op) = ops ∧ sessions es = [w, v] ∧
      y.controller.state = .running ∧
      (Renderer.start (.cached .empty) y.memory (.new s.frameBuffers) s.camera).resource =
        ⟨0x2000, 32⟩ := by
  intro s w v ops
  have h₀ := Run.start (s := s.over .cached) (m := .zero)
  have h₁ := h₀.step (o := .select w) rfl
  have h₂ := h₁.step (o := .tick ⟨1⟩ none) rfl
  have h₃ := h₂.step (o := .tick ⟨0⟩ none) rfl
  have h₄ := h₃.step (o := .tick ⟨1⟩ none) rfl
  have h₅ := h₄.step (o := .tick ⟨0⟩ none) rfl
  have h₆ := h₅.step (o := .select v) rfl
  have h := h₆.step (o := .tick ⟨1⟩ none) rfl
  refine ⟨_, _, h, rfl, ?_, ?_, ?_⟩
  · decide +kernel
  · decide +kernel
  · decide +kernel

end Handoff
