import Handoff.Bus
import Handoff.Controller
import Handoff.Renderer

namespace Handoff

structure SystemSetup where
  kind : WindowKind
  controller : ControllerSettings
  camera : CameraSettings
  frameBuffers : Vector UInt32 3
  clock : Nat → Nat

/-- A renderer with its clock and its display. -/
structure RunningRenderer where
  renderer : Renderer
  readings : Nat
  /-- The addresses that were handed to the display, in order. -/
  swaps : List UInt32
deriving DecidableEq

structure System where
  memory : Block
  controller : Controller
  controllerWindow : Window
  rendererWindow : Window
  rawWindow : Window
  /-- All that were ever started, the newest first. -/
  renderers : List RunningRenderer
deriving DecidableEq

inductive SystemOp
  | select (workload : Workload)
  | tick (buttons : Buttons) (switch : Option Bool)
  | startRenderer
  /-- A frame of the renderer after whose start so many others have been started. -/
  | frameOf (younger : Nat)
  | publishProgram (region : Region)
  | publishResource (region : Region)
  | publishActions (actions : ActionWord)
  | writeProgramSize (size : UInt32)
  | sampleLatency
  | readProgram
  | readResource
  | readActions
  | readResourceSize
  | reportLatency (ticks : UInt32)
  | write (f : Field) (value : UInt32)
  | read (f : Field)
  | rawLoad (offset : UInt64)
  | rawInvalidate (offset len : UInt64)
deriving DecidableEq, Repr

def SystemOp.frame : SystemOp := .frameOf 0

inductive SystemReply
  | done
  | ticked (outcome : Outcome)
  | started (renderer : Renderer)
  | framed (frame : Frame)
  | region (region : Region)
  | word (value : UInt32)
deriving DecidableEq

namespace System

def renderer (y : System) : Option RunningRenderer := y.renderers[0]?

/-- All participants over a zeroed block; no renderer is running. -/
def new (s : SystemSetup) : System where
  memory := .zero
  controller := .new s.controller s.kind.newWindow
  controllerWindow := s.kind.newWindow
  rendererWindow := s.kind.newWindow
  rawWindow := s.kind.newWindow
  renderers := []

/-- What the bare controller link does, with the answer of a read. -/
def onControllerLink (y : System) (act : Link .controller → SystemReply × Link .controller) :
    SystemReply × System :=
  let (reply, l) := act ⟨y.controllerWindow, y.memory⟩
  (reply, { y with controllerWindow := l.window, memory := l.memory })

def onRendererLink (y : System) (act : Link .renderer → SystemReply × Link .renderer) :
    SystemReply × System :=
  let (reply, l) := act ⟨y.rendererWindow, y.memory⟩
  (reply, { y with rendererWindow := l.window, memory := l.memory })

def writeField (y : System) (f : Field) (value : UInt32) : SystemReply × System :=
  match h : f.owner with
  | .controller => y.onControllerLink fun l => (.done, l.write f value h)
  | .renderer => y.onRendererLink fun l => (.done, l.write f value h)

def readField (y : System) (f : Field) : SystemReply × System :=
  match h : f.owner with
  | .controller => y.onRendererLink fun l => (.word (l.read f h).1, (l.read f h).2)
  | .renderer => y.onControllerLink fun l => (.word (l.read f h).1, (l.read f h).2)

def onRawWindow? (y : System) (op : BusOp) : Option (SystemReply × System) := do
  let (reply, w, m) ← y.rawWindow.run? y.memory op
  let reply := match reply with
    | .word v => .word v
    | _ => .done
  return (reply, { y with rawWindow := w, memory := m })

def startRenderer (s : SystemSetup) (y : System) : SystemReply × System :=
  let r := Renderer.start s.kind.newWindow y.memory (.new s.frameBuffers) s.camera
  (.started r, { y with renderers := ⟨r, 0, []⟩ :: y.renderers })

def frame? (s : SystemSetup) (y : System) (younger : Nat) : Option (SystemReply × System) := do
  let r ← y.renderers[younger]?
  let (frame, renderer, m) :=
    r.renderer.frame y.memory (s.clock r.readings) (s.clock (r.readings + 1))
  return (.framed frame,
    { y with
      memory := m
      renderers :=
        y.renderers.set younger ⟨renderer, r.readings + 2, r.swaps ++ [frame.swap]⟩ })

/-- One operation. It fails where the raw window does, and where a frame is asked of a renderer
that was never started. -/
def run? (s : SystemSetup) (y : System) : SystemOp → Option (SystemReply × System)
  | .select w => some (.done, { y with controller := y.controller.select w })
  | .tick buttons switch =>
    let (outcome, controller, memory) := y.controller.tick y.memory buttons switch
    some (.ticked outcome, { y with controller, memory })
  | .startRenderer => some (y.startRenderer s)
  | .frameOf younger => y.frame? s younger
  | .publishProgram r => some (y.onControllerLink fun l => (.done, l.publishProgram r))
  | .publishResource r => some (y.onControllerLink fun l => (.done, l.publishResource r))
  | .publishActions a => some (y.onControllerLink fun l => (.done, l.publishActions a))
  | .writeProgramSize v => some (y.onControllerLink fun l => (.done, l.writeProgramSize v))
  | .sampleLatency =>
    some (y.onControllerLink fun l => (.word l.sampleLatency.1, l.sampleLatency.2))
  | .readProgram => some (y.onRendererLink fun l => (.region l.program.1, l.program.2))
  | .readResource => some (y.onRendererLink fun l => (.region l.resource.1, l.resource.2))
  | .readActions => some (y.onRendererLink fun l => (.word l.actions.1.bits, l.actions.2))
  | .readResourceSize =>
    some (y.onRendererLink fun l => (.word l.resourceSize.1, l.resourceSize.2))
  | .reportLatency t => some (y.onRendererLink fun l => (.done, l.reportLatency t))
  | .write f v => some (y.writeField f v)
  | .read f => some (y.readField f)
  | .rawLoad offset => y.onRawWindow? (.load offset)
  | .rawInvalidate offset len => y.onRawWindow? (.invalidate offset len)

end System

end Handoff
