import Handoff.Proofs.History
import Handoff.Proofs.Run

namespace Handoff

def SystemOp.OfLoops (op : SystemOp) : Prop :=
  op.participant = .controllerLoop ∨ op.participant = .rendererLoop

instance (op : SystemOp) : Decidable op.OfLoops := inferInstanceAs (Decidable (_ ∨ _))

def SystemReply.reported? : SystemReply → Option UInt32
  | .framed f => some f.report.latency
  | _ => none

/-- The latency of the latest frame of any renderer, 0 before the first. -/
def lastLatency (es : List Entry) : UInt32 :=
  (es.filterMap (·.reply.reported?)).getLast?.getD 0

theorem lastLatency_snoc (es : List Entry) (e : Entry) :
    lastLatency (es ++ [e]) = e.reply.reported?.getD (lastLatency es) := by
  rw [lastLatency, getLast?_filterMap_snoc]
  cases e.reply.reported? <;> rfl

/-- What the loops keep true of a system, given the entries of its run. -/
structure System.InStep (es : List Entry) (y : System) : Prop where
  published : y.controller.Published y.memory
  latency : y.memory.field .frameLatency = lastLatency es

namespace System.InStep

variable {s : SystemSetup} {es : List Entry} {y y' : System} {op : SystemOp} {reply : SystemReply}

theorem attach (s : SystemSetup) : InStep [] (System.attach (s.over .cached) .zero) where
  published := rfl
  latency := rfl

theorem frame (h : y.InStep es) (hu : y.Uniform .little) {k : Nat}
    (hr : y.frame? s k = some (reply, y')) :
    y'.InStep (es ++ [⟨.frameOf k, reply, y'⟩]) ∧
      ∀ f, reply = .framed f → f.report.actions = y.controller.actions.decode := by
  have ho := hu.controller
  obtain ⟨r, f, r', m', hk, hf, rfl, rfl⟩ := exists_of_frame? hr
  have hro := hu.renderers r (List.mem_of_getElem? hk)
  have hm : m' = y.memory.set Field.frameLatency.index f.report.latency := by
    have hw := r.renderer.memory_frame y.memory (s.clock r.readings) (s.clock (r.readings + 1))
    rw [hf, hro] at hw
    exact hw
  have ha : f.report.actions = y.controller.actions.decode := by
    have hd := r.renderer.actions_frame y.memory (s.clock r.readings) (s.clock (r.readings + 1))
    rw [hf, hro, h.published, ho] at hd
    exact hd
  refine ⟨⟨?_, ?_⟩, ?_⟩
  · rw [hm]
    exact (y.memory.field_set_of_ne _ (by decide)).trans h.published
  · rw [lastLatency_snoc, hm]
    exact y.memory.field_set_self .frameLatency _
  · intro f' he
    cases he
    exact ha

theorem step (h : y.InStep es) (hu : y.Uniform .little) (hop : op.OfLoops)
    (hr : y.run? s op = some (reply, y')) :
    y'.InStep (es ++ [⟨op, reply, y'⟩]) ∧
      (∀ f, reply = .framed f → f.report.actions = y.controller.actions.decode) ∧
      ∀ o l, reply = .ticked o → o.latency = some l → l = lastLatency es := by
  have ho := hu.controller
  cases op.shape with
  | select w =>
    cases hr
    refine ⟨⟨h.published, ?_⟩, by simp, by simp⟩
    rw [lastLatency_snoc]
    exact h.latency
  | tick buttons switch =>
    cases hr
    refine ⟨⟨h.published.tick buttons switch, ?_⟩, by simp, ?_⟩
    · rw [lastLatency_snoc]
      exact (Controller.field_tick_frameLatency _ _ _ _).trans h.latency
    · intro o l he hl
      cases he
      have hm := Controller.latency_tick _ _ _ _ hl
      rw [ho, h.latency] at hm
      exact hm
  | startRenderer =>
    cases hr
    refine ⟨⟨h.published, ?_⟩, by simp, by simp⟩
    rw [lastLatency_snoc]
    exact h.latency
  | frameOf k =>
    obtain ⟨hi, hf⟩ := h.frame hu hr
    refine ⟨hi, hf, ?_⟩
    rintro o l rfl
    obtain ⟨_, _, _, _, _, _, he, _⟩ := exists_of_frame? hr
    cases he
  | controllerLink hp => simp [SystemOp.OfLoops, hp] at hop
  | rendererLink hp => simp [SystemOp.OfLoops, hp] at hop
  | rawWindow hp => simp [SystemOp.OfLoops, hp] at hop

end System.InStep

theorem ClockedRun.inStep {s : SystemSetup} {clocks : Nat → Nat → Nat} {es : List Entry}
    {y : System} (h : ClockedRun (s.over .cached) clocks .zero es y)
    (hes : ∀ op ∈ es.map (·.op), op.OfLoops) : y.InStep es := by
  induction h with
  | start => exact .attach s
  | @step es y y' op reply h hop ih =>
    obtain ⟨hes, ho⟩ := forall_op_snoc.1 hes
    exact ((ih hes).step h.uniform ho hop).1

/-- After whatever the loops have done over caches on a zeroed block, each operation at a time of
its own, their next operation leaves the shadow word in memory; a frame acts on that word, and a
sampled latency is the latest frame's. -/
theorem loops_agree (s : SystemSetup) {clocks : Nat → Nat → Nat} {es : List Entry} {y y' : System}
    {op : SystemOp} {reply : SystemReply} (h : ClockedRun (s.over .cached) clocks .zero es y)
    (hes : ∀ op ∈ es.map (·.op), op.OfLoops) (hop : op.OfLoops)
    (hr : y.run? ((s.over .cached).clocked (clocks es.length)) op = some (reply, y')) :
    y'.memory.field .inputActions = y'.controller.actions.bits ∧
      (∀ f, reply = .framed f → f.report.actions = y.controller.actions.decode) ∧
      ∀ o l, reply = .ticked o → o.latency = some l → l = lastLatency es := by
  obtain ⟨hi, hf, hl⟩ := (h.inStep hes).step h.uniform hop hr
  have ho := (h.step hr).uniform.controller
  have hp := hi.published
  rw [Controller.Published, ho] at hp
  exact ⟨hp, hf, hl⟩

/-- Two renderers take 5 and 7 units of time for their first frames. The frame of the second answers
a press of the left button, and the next tick samples its latency. -/
theorem loops_agree_after_frame :
    let s : SystemSetup := ⟨.cached, ⟨10, 1, .modeButton⟩, .shipped, MemoryMap.frameBuffers, id⟩
    let clocks : Nat → Nat → Nat := fun i n => if i ≤ 3 then 5 * n else 7 * n
    let ops : List SystemOp := [.select ⟨⟨0x1000, 64⟩, none⟩, .tick ⟨1⟩ none, .startRenderer,
      .frame, .startRenderer, .tick ⟨16⟩ none, .frame]
    ∃ es y o y', ClockedRun (s.over .cached) clocks .zero es y ∧ es.map (·.op) = ops ∧
      (∀ op ∈ ops, op.OfLoops) ∧
      y.run? ((s.over .cached).clocked (clocks es.length)) (.tick ⟨0⟩ none) =
        some (.ticked o, y') ∧
      y'.memory.field .inputActions = 2 ∧ y'.controller.actions.bits = 2 ∧
      es.filterMap (·.reply.reported?) = [5, 7] ∧ o.latency = some 7 ∧ lastLatency es = 7 := by
  intro s clocks ops
  have h₀ : ClockedRun (s.over .cached) clocks .zero [] _ := .start
  have h₁ := h₀.step (o := .select ⟨⟨0x1000, 64⟩, none⟩) rfl
  have h₂ := h₁.step (o := .tick ⟨1⟩ none) rfl
  have h₃ := h₂.step (o := .startRenderer) rfl
  have h₄ := h₃.step (o := .frame) rfl
  have h₅ := h₄.step (o := .startRenderer) rfl
  have h₆ := h₅.step (o := .tick ⟨16⟩ none) rfl
  have h := h₆.step (o := .frame) rfl
  have hops : ∀ op ∈ ops, op.OfLoops := by decide
  have hop : (SystemOp.tick ⟨0⟩ none).OfLoops := .inl rfl
  obtain ⟨hm, _, hl⟩ := loops_agree s h hops hop rfl
  refine ⟨_, _, _, _, h, rfl, hops, rfl, hm.trans ?_, ?_, ?_, ?_, (hl _ 7 rfl ?_).symm⟩
  · decide +kernel
  · decide +kernel
  · decide +kernel
  · decide +kernel
  · decide +kernel

end Handoff
