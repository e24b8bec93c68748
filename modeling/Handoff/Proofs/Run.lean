import Mathlib.Data.List.Induction
import Handoff.System
import Handoff.Proofs.Portable

namespace Handoff

inductive Participant
  | controllerLoop
  | rendererLoop
  | controllerLink
  | rendererLink
  | rawWindow
deriving DecidableEq, Repr

def Participant.bareLink : Side → Participant
  | .controller => .controllerLink
  | .renderer => .rendererLink

open Participant in
def SystemOp.participant : SystemOp → Participant
  | .select _ => .controllerLoop
  | .tick _ _ => .controllerLoop
  | .startRenderer => .rendererLoop
  | .frameOf _ => .rendererLoop
  | .publishProgram _ => .controllerLink
  | .publishResource _ => .controllerLink
  | .publishActions _ => .controllerLink
  | .writeProgramSize _ => .controllerLink
  | .sampleLatency => .controllerLink
  | .readProgram => .rendererLink
  | .readResource => .rendererLink
  | .readActions => .rendererLink
  | .readResourceSize => .rendererLink
  | .reportLatency _ => .rendererLink
  | .write f _ => bareLink f.owner
  | .read f => bareLink f.owner.peer
  | .rawLoad _ => .rawWindow
  | .rawInvalidate _ _ => .rawWindow

def SystemSetup.over (s : SystemSetup) (k : WindowKind) : SystemSetup := { s with kind := k }

structure Entry where
  op : SystemOp
  reply : SystemReply
  after : System
deriving DecidableEq

theorem forall_op_snoc {p : SystemOp → Prop} {es : List Entry} {e : Entry} :
    (∀ op ∈ (es ++ [e]).map (·.op), p op) ↔ (∀ op ∈ es.map (·.op), p op) ∧ p e.op := by
  rw [List.map_append, List.map_singleton, List.forall_mem_append, List.forall_mem_singleton]

/-- All participants over a block that need not be zero. -/
def System.attach (s : SystemSetup) (m : Block) : System := { System.new s with memory := m }

inductive Run (s : SystemSetup) (m : Block) : List Entry → System → Prop
  | start : Run s m [] (.attach s m)
  | step {es : List Entry} {y y' : System} {o : SystemOp} {reply : SystemReply}
      (h : Run s m es y) (ho : y.run? s o = some (reply, y')) :
      Run s m (es ++ [⟨o, reply, y'⟩]) y'

def SystemSetup.clocked (s : SystemSetup) (clock : Nat → Nat) : SystemSetup := { s with clock }

/-- A run in which every operation finds the clocks at readings of its own, so that the clocks of
two renderers need not agree. -/
inductive ClockedRun (s : SystemSetup) (clocks : Nat → Nat → Nat) (m : Block) :
    List Entry → System → Prop
  | start : ClockedRun s clocks m [] (.attach s m)
  | step {es : List Entry} {y y' : System} {o : SystemOp} {reply : SystemReply}
      (h : ClockedRun s clocks m es y)
      (ho : y.run? (s.clocked (clocks es.length)) o = some (reply, y')) :
      ClockedRun s clocks m (es ++ [⟨o, reply, y'⟩]) y'

variable {s : SystemSetup} {clocks : Nat → Nat → Nat} {m : Block} {es : List Entry} {y : System}

theorem Run.clockedRun (h : Run s m es y) : ClockedRun s (fun _ => s.clock) m es y := by
  induction h with
  | start => exact .start
  | step _ hop ih => exact ih.step hop

theorem ClockedRun.unique (h : ClockedRun s clocks m es y) {es' : List Entry} {y' : System}
    (h' : ClockedRun s clocks m es' y') (ho : es.map (·.op) = es'.map (·.op)) :
    es = es' ∧ y = y' := by
  induction h generalizing es' y' with
  | start =>
    cases h' with
    | start => exact ⟨rfl, rfl⟩
    | step h' hop' => simp at ho
  | step h hop ih =>
    cases h' with
    | start => simp at ho
    | step h' hop' =>
      simp only [List.map_append, List.map_cons, List.map_nil] at ho
      obtain ⟨ho, he⟩ := List.append_inj' ho rfl
      obtain ⟨hes, hy⟩ := ih h' ho
      subst hes hy
      cases he
      rw [hop] at hop'
      cases hop'
      exact ⟨rfl, rfl⟩

theorem System.frame?_of_none (s : SystemSetup) {k : Nat} (h : y.renderers[k]? = none) :
    y.frame? s k = none := by
  rw [frame?, h]
  rfl

theorem System.frame?_of_some (s : SystemSetup) {k : Nat} {r : RunningRenderer}
    (h : y.renderers[k]? = some r) :
    y.frame? s k =
      let f := r.renderer.frame y.memory (s.clock r.readings) (s.clock (r.readings + 1))
      some (.framed f.1, { y with
        memory := f.2.2
        renderers := y.renderers.set k ⟨f.2.1, r.readings + 2, r.swaps ++ [f.1.swap]⟩ }) := by
  rw [frame?, h]
  rfl

theorem System.exists_of_frame? {k : Nat} {reply : SystemReply} {y' : System}
    (h : y.frame? s k = some (reply, y')) :
    ∃ r f r' m', y.renderers[k]? = some r ∧
      r.renderer.frame y.memory (s.clock r.readings) (s.clock (r.readings + 1)) = (f, r', m') ∧
      reply = .framed f ∧
      y' = { y with
        memory := m'
        renderers := y.renderers.set k ⟨r', r.readings + 2, r.swaps ++ [f.swap]⟩ } := by
  cases hk : y.renderers[k]? with
  | none =>
    rw [frame?_of_none s hk] at h
    cases h
  | some r =>
    rw [frame?_of_some s hk] at h
    obtain ⟨hreply, hy⟩ := Prod.mk.inj (Option.some.inj h)
    exact ⟨r, _, _, _, rfl, rfl, hreply.symm, hy.symm⟩

theorem System.writeField_controller (y : System) {f : Field} (v : UInt32)
    (h : f.owner = .controller) :
    y.writeField f v = y.onControllerLink fun l => (.done, l.write f v h) := by
  unfold writeField
  split
  · rfl
  · next hr => rw [h] at hr; cases hr

theorem System.writeField_renderer (y : System) {f : Field} (v : UInt32)
    (h : f.owner = .renderer) :
    y.writeField f v = y.onRendererLink fun l => (.done, l.write f v h) := by
  unfold writeField
  split
  · next hc => rw [h] at hc; cases hc
  · rfl

theorem System.readField_controller (y : System) {f : Field} (h : f.owner = .controller) :
    y.readField f = y.onRendererLink fun l => (.word (l.read f h).1, (l.read f h).2) := by
  unfold readField
  split
  · rfl
  · next hr => rw [h] at hr; cases hr

theorem System.readField_renderer (y : System) {f : Field} (h : f.owner = .renderer) :
    y.readField f = y.onControllerLink fun l => (.word (l.read f h).1, (l.read f h).2) := by
  unfold readField
  split
  · next hc => rw [h] at hc; cases hc
  · rfl

structure System.Uniform (o : ByteOrder) (y : System) : Prop where
  controller : y.controller.window.order = o
  controllerWindow : y.controllerWindow.order = o
  rendererWindow : y.rendererWindow.order = o
  rawWindow : y.rawWindow.order = o
  renderers : ∀ r ∈ y.renderers, r.renderer.window.order = o

namespace System.Uniform

variable {o : ByteOrder} {y' : System} {α : Type}

theorem attach (s : SystemSetup) (m : Block) : (System.attach s m).Uniform s.kind.order where
  controller := s.kind.order_newWindow
  controllerWindow := s.kind.order_newWindow
  rendererWindow := s.kind.order_newWindow
  rawWindow := s.kind.order_newWindow
  renderers _ hr := (List.not_mem_nil hr).elim

theorem onControllerLink (h : y.Uniform o)
    {act : Link .controller → SystemReply × Link .controller} (ha : Link.Portable act) :
    (y.onControllerLink act).2.Uniform o :=
  { h with controllerWindow := (ha.order _).trans h.controllerWindow }

theorem onRendererLink (h : y.Uniform o)
    {act : Link .renderer → SystemReply × Link .renderer} (ha : Link.Portable act) :
    (y.onRendererLink act).2.Uniform o :=
  { h with rendererWindow := (ha.order _).trans h.rendererWindow }

theorem tick (h : y.Uniform o) (buttons : Buttons) (switch : Option Bool) :
    let r := y.controller.tick y.memory buttons switch
    System.Uniform o { y with controller := r.2.1, memory := r.2.2 } :=
  { h with controller := (Controller.order_tick _ _ _ _).trans h.controller }

theorem startRenderer (h : y.Uniform s.kind.order) :
    (y.startRenderer s).2.Uniform s.kind.order := by
  refine { h with renderers := ?_ }
  intro r hr
  rcases List.mem_cons.1 hr with rfl | hr
  · exact (Renderer.order_start _ _ _ _).trans s.kind.order_newWindow
  · exact h.renderers r hr

theorem frame (h : y.Uniform o) {k : Nat} {reply : SystemReply}
    (hr : y.frame? s k = some (reply, y')) : y'.Uniform o := by
  obtain ⟨r, f, r', m', hk, hf, _, rfl⟩ := System.exists_of_frame? hr
  have ho := r.renderer.order_frame y.memory (s.clock r.readings) (s.clock (r.readings + 1))
  rw [hf] at ho
  refine { h with renderers := ?_ }
  intro x hx
  rcases List.mem_or_eq_of_mem_set hx with hx | rfl
  · exact h.renderers x hx
  · exact ho.trans (h.renderers r (List.mem_of_getElem? hk))

end System.Uniform

/-- The answers of the bare links and of the raw window. -/
def SystemReply.IsData : SystemReply → Prop
  | .done => True
  | .region _ => True
  | .word _ => True
  | _ => False

/-- What an operation comes to. Those of the bare links are all portable actions on them. -/
inductive SystemOp.Shape : SystemOp → Prop
  | select (w : Workload) : Shape (.select w)
  | tick (buttons : Buttons) (switch : Option Bool) : Shape (.tick buttons switch)
  | startRenderer : Shape .startRenderer
  | frameOf (k : Nat) : Shape (.frameOf k)
  | controllerLink {op : SystemOp} {act : Link .controller → SystemReply × Link .controller}
      (hp : op.participant = .controllerLink) (ha : Link.Portable act)
      (hd : ∀ l, (act l).1.IsData)
      (he : ∀ s y, System.run? s y op = some (y.onControllerLink act)) : Shape op
  | rendererLink {op : SystemOp} {act : Link .renderer → SystemReply × Link .renderer}
      (hp : op.participant = .rendererLink) (ha : Link.Portable act)
      (hd : ∀ l, (act l).1.IsData)
      (he : ∀ s y, System.run? s y op = some (y.onRendererLink act)) : Shape op
  | rawWindow {op : SystemOp} (hp : op.participant = .rawWindow)
      (he : ∀ s y reply y', System.run? s y op = some (reply, y') →
        reply.IsData ∧ ∃ w : Window, w.order = y.rawWindow.order ∧ y' = { y with rawWindow := w }) :
      Shape op

namespace SystemOp.Shape

variable {f : Field}

theorem write (v : UInt32) : (SystemOp.write f v).Shape := by
  cases h : f.owner with
  | controller =>
    exact .controllerLink (congrArg Participant.bareLink h)
      ((Link.Portable.write f v h).map fun _ => SystemReply.done) (fun _ => by trivial)
      fun _ y => congrArg some (y.writeField_controller v h)
  | renderer =>
    exact .rendererLink (congrArg Participant.bareLink h)
      ((Link.Portable.write f v h).map fun _ => SystemReply.done) (fun _ => by trivial)
      fun _ y => congrArg some (y.writeField_renderer v h)

theorem read : (SystemOp.read f).Shape := by
  cases h : f.owner with
  | controller =>
    have hp : (SystemOp.read f).participant = .rendererLink :=
      congrArg (fun i : Side => Participant.bareLink i.peer) h
    have hr : Link.Portable fun l : Link .renderer => l.read f h :=
      @Link.Portable.read .renderer f h
    exact .rendererLink hp (hr.map SystemReply.word) (fun _ => by trivial)
      fun _ y => congrArg some (y.readField_controller h)
  | renderer =>
    have hp : (SystemOp.read f).participant = .controllerLink :=
      congrArg (fun i : Side => Participant.bareLink i.peer) h
    have hr : Link.Portable fun l : Link .controller => l.read f h :=
      @Link.Portable.read .controller f h
    exact .controllerLink hp (hr.map SystemReply.word) (fun _ => by trivial)
      fun _ y => congrArg some (y.readField_renderer h)

theorem rawLoad (offset : UInt64) : (SystemOp.rawLoad offset).Shape := by
  refine .rawWindow rfl fun s y reply y' h => ?_
  obtain ⟨r, hw, h⟩ := Option.bind_eq_some_iff.1 h
  obtain ⟨i, _, hi⟩ := Option.bind_eq_some_iff.1 hw
  cases hi
  cases h
  exact ⟨trivial, _, y.rawWindow.order_load y.memory i, rfl⟩

theorem rawInvalidate (offset len : UInt64) : (SystemOp.rawInvalidate offset len).Shape := by
  refine .rawWindow rfl fun s y reply y' h => ?_
  obtain ⟨r, hw, h⟩ := Option.bind_eq_some_iff.1 h
  rw [Window.run?] at hw
  split at hw
  · cases hw
    cases h
    exact ⟨trivial, _, y.rawWindow.order_invalidate offset len, rfl⟩
  · cases hw

end SystemOp.Shape

open Link in
theorem SystemOp.shape (op : SystemOp) : op.Shape := by
  cases op with
  | select w => exact .select w
  | tick buttons switch => exact .tick buttons switch
  | startRenderer => exact .startRenderer
  | frameOf k => exact .frameOf k
  | publishProgram r =>
    exact .controllerLink rfl ((Portable.publishProgram r).map fun _ => .done) (fun _ => by trivial)
      fun _ _ => rfl
  | publishResource r =>
    exact .controllerLink rfl ((Portable.publishResource r).map fun _ => .done)
      (fun _ => by trivial) fun _ _ => rfl
  | publishActions a =>
    exact .controllerLink rfl ((Portable.publishActions a).map fun _ => .done) (fun _ => by trivial)
      fun _ _ => rfl
  | writeProgramSize v =>
    exact .controllerLink rfl ((Portable.writeProgramSize v).map fun _ => .done)
      (fun _ => by trivial) fun _ _ => rfl
  | sampleLatency =>
    exact .controllerLink rfl (Portable.sampleLatency.map .word) (fun _ => by trivial)
      fun _ _ => rfl
  | readProgram =>
    exact .rendererLink rfl (Portable.program.map .region) (fun _ => by trivial) fun _ _ => rfl
  | readResource =>
    exact .rendererLink rfl (Portable.resource.map .region) (fun _ => by trivial) fun _ _ => rfl
  | readActions =>
    exact .rendererLink rfl (Portable.actions.map fun a => .word a.bits) (fun _ => by trivial)
      fun _ _ => rfl
  | readResourceSize =>
    exact .rendererLink rfl (Portable.resourceSize.map .word) (fun _ => by trivial) fun _ _ => rfl
  | reportLatency v =>
    exact .rendererLink rfl ((Portable.reportLatency v).map fun _ => .done) (fun _ => by trivial)
      fun _ _ => rfl
  | write f v => exact .write v
  | read f => exact .read
  | rawLoad offset => exact .rawLoad offset
  | rawInvalidate offset len => exact .rawInvalidate offset len

inductive SystemOp.Answered : SystemOp → SystemReply → Prop
  | ticked (buttons : Buttons) (switch : Option Bool) (o : Outcome) :
      Answered (.tick buttons switch) (.ticked o)
  | started (r : Renderer) : Answered .startRenderer (.started r)
  | framed (k : Nat) (f : Frame) : Answered (.frameOf k) (.framed f)
  | data {op : SystemOp} {reply : SystemReply} (h : reply.IsData) : Answered op reply

theorem System.answered {y' : System} {op : SystemOp} {reply : SystemReply}
    (hr : y.run? s op = some (reply, y')) : op.Answered reply := by
  cases op.shape with
  | select w =>
    cases hr
    exact .data trivial
  | tick buttons switch =>
    obtain ⟨rfl, _⟩ := Prod.mk.inj (Option.some.inj hr)
    exact .ticked buttons switch _
  | startRenderer =>
    cases hr
    exact .started _
  | frameOf k =>
    obtain ⟨_, f, _, _, _, _, rfl, _⟩ := System.exists_of_frame? hr
    exact .framed k f
  | controllerLink _ _ hd he =>
    rw [he] at hr
    obtain ⟨rfl, _⟩ := Prod.mk.inj (Option.some.inj hr)
    exact .data (hd _)
  | rendererLink _ _ hd he =>
    rw [he] at hr
    obtain ⟨rfl, _⟩ := Prod.mk.inj (Option.some.inj hr)
    exact .data (hd _)
  | rawWindow _ he => exact .data (he _ _ _ _ hr).1

def SystemReply.outcome? : SystemReply → Option Outcome
  | .ticked o => some o
  | _ => none

theorem SystemReply.IsData.outcome? {r : SystemReply} (h : r.IsData) : r.outcome? = none := by
  cases r with
  | ticked o => exact h.elim
  | _ => rfl

inductive System.Handled (y : System) : SystemOp → SystemReply → System → Prop
  | ticked (buttons : Buttons) (switch : Option Bool) :
      Handled y (.tick buttons switch) (.ticked (y.controller.tick y.memory buttons switch).1)
        { y with
          controller := (y.controller.tick y.memory buttons switch).2.1
          memory := (y.controller.tick y.memory buttons switch).2.2 }
  | selected (w : Workload) :
      Handled y (.select w) .done { y with controller := y.controller.select w }
  | aside {op : SystemOp} {reply : SystemReply} {y' : System}
      (hop : op.participant ≠ .controllerLoop) (hreply : reply.outcome? = none)
      (hc : y'.controller = y.controller) : Handled y op reply y'

theorem System.handled {y' : System} {op : SystemOp} {reply : SystemReply}
    (hr : y.run? s op = some (reply, y')) : y.Handled op reply y' := by
  cases op.shape with
  | select w =>
    cases hr
    exact .selected w
  | tick buttons switch =>
    cases hr
    exact .ticked buttons switch
  | startRenderer =>
    cases hr
    exact .aside nofun rfl rfl
  | frameOf k =>
    obtain ⟨r, f, r', m', _, _, rfl, rfl⟩ := System.exists_of_frame? hr
    exact .aside nofun rfl rfl
  | controllerLink hp _ hd he =>
    rw [he] at hr
    cases hr
    exact .aside (by simp [hp]) (hd _).outcome? rfl
  | rendererLink hp _ hd he =>
    rw [he] at hr
    cases hr
    exact .aside (by simp [hp]) (hd _).outcome? rfl
  | rawWindow hp he =>
    obtain ⟨hd, w, _, rfl⟩ := he _ _ _ _ hr
    exact .aside (by simp [hp]) hd.outcome? rfl

theorem System.Uniform.run? {y' : System} {op : SystemOp} {reply : SystemReply}
    (h : y.Uniform s.kind.order) (hr : y.run? s op = some (reply, y')) :
    y'.Uniform s.kind.order := by
  cases op.shape with
  | select w =>
    cases hr
    exact { h with controller := h.controller }
  | tick buttons switch =>
    cases hr
    exact h.tick buttons switch
  | startRenderer =>
    cases hr
    exact h.startRenderer
  | frameOf k => exact h.frame hr
  | controllerLink _ ha _ he =>
    rw [he] at hr
    cases hr
    exact h.onControllerLink ha
  | rendererLink _ ha _ he =>
    rw [he] at hr
    cases hr
    exact h.onRendererLink ha
  | rawWindow _ he =>
    obtain ⟨_, w, hw, rfl⟩ := he _ _ _ _ hr
    exact { h with rawWindow := hw.trans h.rawWindow }

theorem ClockedRun.uniform (h : ClockedRun s clocks m es y) : y.Uniform s.kind.order := by
  induction h with
  | start => exact .attach s m
  | @step es _ _ _ _ h hop ih =>
    exact System.Uniform.run? (s := s.clocked (clocks es.length)) ih hop

theorem Run.uniform (h : Run s m es y) : y.Uniform s.kind.order := h.clockedRun.uniform

theorem System.length_renderers_run? {y' : System} {op : SystemOp} {reply : SystemReply}
    (hr : y.run? s op = some (reply, y')) :
    y'.renderers.length = y.renderers.length + [op].count .startRenderer := by
  have hn (hp : op.participant ≠ .rendererLoop) : [op].count .startRenderer = 0 := by
    refine List.count_eq_zero.2 fun hm => hp ?_
    rw [← List.mem_singleton.1 hm]
    rfl
  cases op.shape with
  | select w => cases hr; rfl
  | tick buttons switch => cases hr; rfl
  | startRenderer => cases hr; rfl
  | frameOf k =>
    obtain ⟨r, f, r', m', _, _, _, rfl⟩ := System.exists_of_frame? hr
    exact List.length_set
  | controllerLink hp _ _ he =>
    rw [he] at hr
    cases hr
    rw [hn (by simp [hp])]
    rfl
  | rendererLink hp _ _ he =>
    rw [he] at hr
    cases hr
    rw [hn (by simp [hp])]
    rfl
  | rawWindow hp he =>
    obtain ⟨_, w, _, rfl⟩ := he _ _ _ _ hr
    rw [hn (by simp [hp])]
    rfl

theorem ClockedRun.length_renderers (h : ClockedRun s clocks m es y) :
    y.renderers.length = (es.map (·.op)).count .startRenderer := by
  induction h with
  | start => rfl
  | step h hop ih =>
    rw [List.map_append, List.count_append, ← ih]
    exact System.length_renderers_run? hop

/-- Operations that keep off the raw window and ask for frames of started renderers only. -/
structure Playable (ops : List SystemOp) : Prop where
  noRaw : ∀ op ∈ ops, op.participant ≠ .rawWindow
  started : ∀ i k, ops[i]? = some (.frameOf k) → k < (ops.take i).count .startRenderer

theorem Playable.init {ops : List SystemOp} {op : SystemOp} (h : Playable (ops ++ [op])) :
    Playable ops := by
  refine ⟨fun o ho => h.noRaw o (List.mem_append_left _ ho), ?_⟩
  intro i k hi
  obtain ⟨hlt, _⟩ := List.getElem?_eq_some_iff.1 hi
  have hk := h.started i k ((List.getElem?_append_left hlt).trans hi)
  rw [List.take_append_of_le_length (Nat.le_of_lt hlt)] at hk
  exact hk

theorem System.exists_run? (s : SystemSetup) {y : System} {op : SystemOp}
    (hop : op.participant ≠ .rawWindow) (hf : ∀ k, op = .frameOf k → k < y.renderers.length) :
    ∃ reply y', y.run? s op = some (reply, y') := by
  cases op.shape with
  | select w => exact ⟨_, _, rfl⟩
  | tick buttons switch => exact ⟨_, _, rfl⟩
  | startRenderer => exact ⟨_, _, rfl⟩
  | frameOf k => exact ⟨_, _, frame?_of_some s (List.getElem?_eq_getElem (hf k rfl))⟩
  | controllerLink _ _ _ he => exact ⟨_, _, he s y⟩
  | rendererLink _ _ _ he => exact ⟨_, _, he s y⟩
  | rawWindow hp _ => exact (hop hp).elim

theorem Playable.exists_clockedRun (s : SystemSetup) (clocks : Nat → Nat → Nat) (m : Block)
    {ops : List SystemOp} (h : Playable ops) :
    ∃ es y, ClockedRun s clocks m es y ∧ es.map (·.op) = ops := by
  induction ops using List.reverseRecOn with
  | nil => exact ⟨[], _, .start, rfl⟩
  | append_singleton ops op ih =>
    obtain ⟨es, y, hr, he⟩ := ih h.init
    have hop := h.noRaw op (List.mem_append_right _ (List.mem_singleton_self op))
    have hf (k : Nat) (hop : op = .frameOf k) : k < y.renderers.length := by
      have hk := h.started ops.length k (by rw [List.getElem?_concat_length, hop])
      rw [List.take_left, ← he, ← hr.length_renderers] at hk
      exact hk
    obtain ⟨reply, y', ho⟩ := System.exists_run? (s.clocked (clocks es.length)) hop hf
    refine ⟨_, y', hr.step ho, ?_⟩
    rw [List.map_append, he]
    rfl

end Handoff
