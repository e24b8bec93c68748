import Handoff.Proofs.Run

namespace Handoff

variable {s s' : SystemSetup} {y : System}

structure System.Within (Covers : Window → Prop) (y : System) : Prop where
  controller : Covers y.controller.window
  controllerWindow : Covers y.controllerWindow
  rendererWindow : Covers y.rendererWindow
  renderers : ∀ r ∈ y.renderers, Covers r.renderer.window

namespace View

variable (k : View)

def running (r : RunningRenderer) : RunningRenderer := { r with renderer := k.renderer r.renderer }

def system (y : System) : System where
  memory := k.block y.memory
  controller := k.controller y.controller
  controllerWindow := k.window y.controllerWindow
  rendererWindow := k.window y.rendererWindow
  rawWindow := k.window y.rawWindow
  renderers := y.renderers.map k.running

def op : SystemOp → SystemOp
  | .reportLatency v => .reportLatency (k.latency v)
  | .write f v => .write f (k.word f v)
  | o => o

/-- How the answer to an operation looks. A bare word is a latency if it was asked for as one. -/
def reply : SystemOp → SystemReply → SystemReply
  | _, .ticked o => .ticked (k.outcome o)
  | _, .started r => .started (k.renderer r)
  | _, .framed f => .framed (k.frame f)
  | .sampleLatency, .word v => .word (k.latency v)
  | .read f, .word v => .word (k.word f v)
  | _, r => r

structure Sets (s s' : SystemSetup) : Prop where
  window : s'.kind.newWindow = k.window s.kind.newWindow
  camera : s'.camera = s.camera
  frameBuffers : s'.frameBuffers = s.frameBuffers
  clock (n : Nat) : elapsed (s'.clock n) (s'.clock (n + 1)) =
    k.latency (elapsed (s.clock n) (s.clock (n + 1)))

theorem onControllerLink {op : SystemOp}
    {act act' : Link .controller → SystemReply × Link .controller}
    (ha : act' (k.link ⟨y.controllerWindow, y.memory⟩) =
      (k.reply op (act ⟨y.controllerWindow, y.memory⟩).1,
        k.link (act ⟨y.controllerWindow, y.memory⟩).2)) :
    (k.system y).onControllerLink act' =
      (k.reply op (y.onControllerLink act).1, k.system (y.onControllerLink act).2) := by
  have hl : act' ⟨(k.system y).controllerWindow, (k.system y).memory⟩ = _ := ha
  rw [System.onControllerLink, hl]
  rfl

theorem onRendererLink {op : SystemOp}
    {act act' : Link .renderer → SystemReply × Link .renderer}
    (ha : act' (k.link ⟨y.rendererWindow, y.memory⟩) =
      (k.reply op (act ⟨y.rendererWindow, y.memory⟩).1,
        k.link (act ⟨y.rendererWindow, y.memory⟩).2)) :
    (k.system y).onRendererLink act' =
      (k.reply op (y.onRendererLink act).1, k.system (y.onRendererLink act).2) := by
  have hl : act' ⟨(k.system y).rendererWindow, (k.system y).memory⟩ = _ := ha
  rw [System.onRendererLink, hl]
  rfl

section Keeps

variable {k} {Covers : Window → Prop} {α : Type} (hy : y.Within Covers) {op : SystemOp}
  (answer : α → SystemReply) (hr : ∀ a, k.reply op (answer a) = answer a)
include hy hr

theorem Keeps.onControllerLink {act : Link .controller → α × Link .controller}
    (ha : k.Keeps Covers act) :
    (k.system y).onControllerLink (fun l => (answer (act l).1, (act l).2)) =
      let r := y.onControllerLink fun l => (answer (act l).1, (act l).2)
      (k.reply op r.1, k.system r.2) := by
  refine k.onControllerLink ?_
  rw [hr]
  exact (ha.map answer _ hy.controllerWindow).1

theorem Keeps.onRendererLink {act : Link .renderer → α × Link .renderer}
    (ha : k.Keeps Covers act) :
    (k.system y).onRendererLink (fun l => (answer (act l).1, (act l).2)) =
      let r := y.onRendererLink fun l => (answer (act l).1, (act l).2)
      (k.reply op r.1, k.system r.2) := by
  refine k.onRendererLink ?_
  rw [hr]
  exact (ha.map answer _ hy.rendererWindow).1

end Keeps

namespace Faithful

variable {k} {Covers : Window → Prop} (h : k.Faithful Covers)
include h

theorem startRenderer (hs : k.Sets s s') (hw : Covers s.kind.newWindow) :
    (k.system y).startRenderer s' =
      (k.reply .startRenderer (y.startRenderer s).1, k.system (y.startRenderer s).2) := by
  have hr : Renderer.start (k.window s.kind.newWindow) (k.system y).memory _ _ = _ :=
    (h.start_renderer y.memory hw (.new s.frameBuffers) s.camera).1
  rw [System.startRenderer, hs.window, hs.frameBuffers, hs.camera, hr]
  rfl

theorem frame? (hs : k.Sets s s') (hy : y.Within Covers) (j : Nat) :
    (k.system y).frame? s' j =
      (y.frame? s j).map fun r => (k.reply (.frameOf j) r.1, k.system r.2) := by
  have hj : (k.system y).renderers[j]? = y.renderers[j]?.map k.running := List.getElem?_map
  cases hr : y.renderers[j]? with
  | none =>
    rw [hr] at hj
    rw [System.frame?_of_none _ hj, System.frame?_of_none _ hr]
    rfl
  | some r =>
    rw [hr] at hj
    have hf : (k.running r).renderer.frame (k.system y).memory (s'.clock (k.running r).readings)
        (s'.clock ((k.running r).readings + 1)) = _ :=
      (h.frame_renderer y.memory (hy.renderers r (List.mem_of_getElem? hr))
        (hs.clock r.readings)).1
    rw [System.frame?_of_some _ hj, System.frame?_of_some _ hr, hf, Option.map_some]
    dsimp only [system]
    rw [List.map_set]
    rfl

theorem writeField (hy : y.Within Covers) (f : Field) (v : UInt32) :
    (k.system y).writeField f (k.word f v) =
      (k.reply (.write f v) (y.writeField f v).1, k.system (y.writeField f v).2) := by
  cases hf : f.owner with
  | controller =>
    rw [System.writeField_controller _ _ hf, System.writeField_controller _ _ hf]
    exact k.onControllerLink (congrArg (Prod.mk _) (h.write _ f v hf hy.controllerWindow))
  | renderer =>
    rw [System.writeField_renderer _ _ hf, System.writeField_renderer _ _ hf]
    exact k.onRendererLink (congrArg (Prod.mk _) (h.write _ f v hf hy.rendererWindow))

theorem readField (hy : y.Within Covers) (f : Field) :
    (k.system y).readField f =
      (k.reply (.read f) (y.readField f).1, k.system (y.readField f).2) := by
  cases hf : f.owner with
  | controller =>
    rw [System.readField_controller _ hf, System.readField_controller _ hf]
    exact k.onRendererLink (congrArg (fun r => (SystemReply.word r.1, r.2))
      (h.read (⟨_, y.memory⟩ : Link .renderer) f hf hy.rendererWindow))
  | renderer =>
    rw [System.readField_renderer _ hf, System.readField_renderer _ hf]
    exact k.onControllerLink (congrArg (fun r => (SystemReply.word r.1, r.2))
      (h.read (⟨_, y.memory⟩ : Link .controller) f hf hy.controllerWindow))

theorem run? (hs : k.Sets s s') (hw : Covers s.kind.newWindow) (hy : y.Within Covers)
    {op : SystemOp} (hop : op.participant ≠ .rawWindow) :
    (k.system y).run? s' (k.op op) =
      (y.run? s op).map fun r => (k.reply op r.1, k.system r.2) := by
  cases op with
  | select w => rfl
  | tick buttons switch =>
    exact congrArg (fun r => some (SystemReply.ticked r.1,
        { k.system y with controller := r.2.1, memory := r.2.2 }))
      (h.tick y.memory hy.controller buttons switch).1
  | startRenderer => exact congrArg some (h.startRenderer hs hw)
  | frameOf j => exact h.frame? hs hy j
  | publishProgram r =>
    exact congrArg some
      ((h.keeps_publishProgram r).onControllerLink hy (fun _ => .done) fun _ => rfl)
  | publishResource r =>
    exact congrArg some
      ((h.keeps_publishResource r).onControllerLink hy (fun _ => .done) fun _ => rfl)
  | publishActions a =>
    exact congrArg some
      ((h.keeps_publishActions a).onControllerLink hy (fun _ => .done) fun _ => rfl)
  | writeProgramSize v =>
    exact congrArg some ((h.keeps_write (f := .programSize) (by decide) v rfl).onControllerLink hy
      (fun _ => .done) fun _ => rfl)
  | sampleLatency =>
    exact congrArg some (k.onControllerLink
      (congrArg (fun r => (SystemReply.word r.1, r.2)) (h.sampleLatency _ hy.controllerWindow)))
  | readProgram => exact congrArg some (h.keeps_program.onRendererLink hy .region fun _ => rfl)
  | readResource => exact congrArg some (h.keeps_resource.onRendererLink hy .region fun _ => rfl)
  | readActions =>
    exact congrArg some (h.keeps_actions.onRendererLink hy (.word ·.bits) fun _ => rfl)
  | readResourceSize =>
    exact congrArg some (h.keeps_resourceSize.onRendererLink hy .word fun _ => rfl)
  | reportLatency v =>
    exact congrArg some (k.onRendererLink
      (congrArg (Prod.mk _) (h.reportLatency _ v hy.rendererWindow)))
  | write f v => exact congrArg some (h.writeField hy f v)
  | read f => exact congrArg some (h.readField hy f)
  | rawLoad offset => exact (hop rfl).elim
  | rawInvalidate offset len => exact (hop rfl).elim

end Faithful

end View

end Handoff
