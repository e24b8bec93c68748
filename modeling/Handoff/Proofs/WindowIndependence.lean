import Handoff.Proofs.SystemView

namespace Handoff

def SystemReply.plain : SystemReply → SystemReply
  | .started r => .started r.plain
  | r => r

def RunningRenderer.plain (r : RunningRenderer) : RunningRenderer :=
  { r with renderer := r.renderer.plain }

/-- The system as it would be with all its windows straight onto the plain block. -/
def System.plain (o : ByteOrder) (y : System) : System where
  memory := y.memory.map o.ofRaw
  controller := y.controller.plain o
  controllerWindow := .direct .little
  rendererWindow := .direct .little
  rawWindow := .direct .little
  renderers := y.renderers.map (·.plain)

def Entry.plain (o : ByteOrder) (e : Entry) : Entry := ⟨e.op, e.reply.plain, e.after.plain o⟩

theorem System.plain_attach (s : SystemSetup) :
    (System.attach s .zero).plain s.kind.order = System.attach (s.over .coherent) .zero := by
  have hz : Block.zero.map s.kind.order.ofRaw = .zero := by
    refine Block.ext_get fun i => ?_
    rw [Block.get_map, Block.get_zero]
    cases s.kind.order <;> rfl
  have hc : (Controller.new s.controller s.kind.newWindow).plain s.kind.order =
      Controller.new s.controller (.direct .little) := rfl
  rw [System.attach, plain, hz]
  exact congrArg (System.mk .zero · _ _ _ []) hc

theorem View.op_plain (o : ByteOrder) (op : SystemOp) : (View.plain o).op op = op := by
  cases op with
  | write f v => exact congrArg (SystemOp.write f) (View.word_plain o f v)
  | _ => rfl

theorem View.reply_plain (o : ByteOrder) (op : SystemOp) (r : SystemReply) :
    (View.plain o).reply op r = r.plain := by
  cases r with
  | ticked out => cases op <;> exact congrArg SystemReply.ticked (View.outcome_plain o out)
  | word v =>
    cases op with
    | read f => exact congrArg SystemReply.word (View.word_plain o f v)
    | _ => rfl
  | _ => cases op <;> rfl

theorem View.sets_plain (s : SystemSetup) :
    (View.plain s.kind.order).Sets s (s.over .coherent) where
  window := rfl
  camera := rfl
  frameBuffers := rfl
  clock _ := rfl

theorem System.Uniform.within {o : ByteOrder} {y : System} (h : y.Uniform o) :
    y.Within (·.order = o) :=
  ⟨h.controller, h.controllerWindow, h.rendererWindow, h.renderers⟩

theorem System.plain_run? {s : SystemSetup} {y : System} {op : SystemOp}
    (h : y.Uniform s.kind.order) (hop : op.participant ≠ .rawWindow) :
    (y.plain s.kind.order).run? (s.over .coherent) op =
      (y.run? s op).map fun r => (r.1.plain, r.2.plain s.kind.order) := by
  have hr := (View.faithful_plain s.kind.order).run? (View.sets_plain s) s.kind.order_newWindow
    h.within hop
  simp only [View.op_plain, View.reply_plain] at hr
  exact hr

/-- Every run that keeps off the raw window is a run on the plain block. -/
theorem ClockedRun.plain {s : SystemSetup} {clocks : Nat → Nat → Nat} {es : List Entry}
    {y : System} (h : ClockedRun s clocks .zero es y)
    (hraw : ∀ op ∈ es.map (·.op), op.participant ≠ .rawWindow) :
    ClockedRun (s.over .coherent) clocks .zero (es.map (·.plain s.kind.order))
      (y.plain s.kind.order) := by
  induction h with
  | start =>
    rw [System.plain_attach]
    exact .start
  | @step es y y' op reply h hop ih =>
    obtain ⟨hraw, ho⟩ := forall_op_snoc.1 hraw
    have hrun := ih hraw
    have hstep := System.plain_run? (s := s.clocked (clocks es.length)) h.uniform ho
    rw [hop] at hstep
    rw [List.map_append]
    apply hrun.step
    rw [List.length_map]
    exact hstep

/-- Over every kind of window, what a system can be asked gives one and the same run, apart from
the windows themselves; memory is the same too, or has the bytes of each word reversed. -/
theorem windows_interchangeable (s : SystemSetup) (clocks : Nat → Nat → Nat) {ops : List SystemOp}
    (h : Playable ops) :
    ∃ flat y₀, ClockedRun (s.over .coherent) clocks .zero flat y₀ ∧ flat.map (·.op) = ops ∧
      ∀ k : WindowKind, ∃ es y, ClockedRun (s.over k) clocks .zero es y ∧
        es.map (·.plain k.order) = flat ∧
        es.map (·.after.memory) = flat.map fun e =>
          match k with
          | .mapped .big => e.after.memory.map swapBytes
          | _ => e.after.memory := by
  obtain ⟨flat, y₀, hflat, hops⟩ := h.exists_clockedRun (s.over .coherent) clocks .zero
  refine ⟨flat, y₀, hflat, hops, fun k => ?_⟩
  obtain ⟨es, y, hr, he⟩ := h.exists_clockedRun (s.over k) clocks .zero
  have hp := hr.plain (he ▸ h.noRaw)
  have hsame : (es.map (·.plain k.order)).map (·.op) = flat.map (·.op) := by
    rw [hops, ← he, List.map_map]
    rfl
  have hes : es.map (·.plain k.order) = flat := (hp.unique hflat hsame).1
  refine ⟨es, y, hr, hes, ?_⟩
  rw [← hes, List.map_map]
  refine List.map_congr_left fun e _ => ?_
  cases k with
  | cached => exact e.after.memory.map_little.symm
  | coherent => exact e.after.memory.map_little.symm
  | mapped o =>
    cases o with
    | little => exact e.after.memory.map_little.symm
    | big => exact e.after.memory.map_swapBytes.symm

/-- The older of two renderers may still be asked for a frame. It takes 4 units of time, and the
next frame of the younger one takes 9. -/
theorem windows_interchangeable_two_renderers :
    let s : SystemSetup := ⟨.cached, .shipped, .shipped, MemoryMap.frameBuffers, id⟩
    let clocks : Nat → Nat → Nat := fun i n => if i ≤ 5 then 4 * n else 9 * n
    let ops : List SystemOp := [.select ⟨⟨0x1000, 64⟩, none⟩, .tick ⟨1⟩ none, .startRenderer,
      .startRenderer, .tick ⟨4⟩ none, .frameOf 1, .frameOf 0, .read .frameLatency]
    Playable ops ∧ ∃ flat y₀, ClockedRun (s.over .coherent) clocks .zero flat y₀ ∧
      flat.map (·.op) = ops ∧
      ∀ k : WindowKind, ∃ es y, ClockedRun (s.over k) clocks .zero es y ∧
        es.map (·.plain k.order) = flat ∧
        es.map (·.after.memory) = flat.map fun e =>
          match k with
          | .mapped .big => e.after.memory.map swapBytes
          | _ => e.after.memory := by
  intro s clocks ops
  have h : Playable ops := by
    refine ⟨by decide, fun i k hi => ?_⟩
    obtain _ | _ | _ | _ | _ | _ | _ | _ | i := i <;> cases hi <;> decide
  exact ⟨h, windows_interchangeable s clocks h⟩

end Handoff
