import Handoff.Config.Script
import Handoff.Sim.Board

/-!
The simulated world: four tasks that share a control block, a queue of input samples and two
signals, on a clock that counts microseconds. A task is kept as the point where it waits.
-/

namespace Handoff

inductive TaskName
  | main
  | renderer
  | controller
  | input
deriving DecidableEq, Repr

inductive MainPhase
  | fresh
  | waiting (deadline : Nat)
deriving DecidableEq, Repr

structure MainTask where
  timeoutMs : UInt64
  frames : UInt32
  phase : MainPhase
deriving DecidableEq, Repr

inductive InputPhase
  | fresh
  | waiting (due : Nat) (event : InputEvent) (rest : List InputEvent)
  | holding (due : Nat) (rest : List InputEvent)
  | finished
deriving DecidableEq, Repr

structure InputTask where
  script : List InputEvent
  startedAt : Nat
  current : Sample
  phase : InputPhase
deriving DecidableEq, Repr

inductive ControllerPhase
  | fresh
  | ticking (controller : Controller) (latch : Sample) (due : Nat)
deriving DecidableEq

structure ControllerTask where
  settings : ControllerSettings
  workload : Workload
  phase : ControllerPhase
deriving DecidableEq

structure RendererRun where
  renderer : Renderer
  display : Display
  due : Nat
deriving DecidableEq

inductive RendererPhase
  | fresh
  | held
  | drawing (run : RendererRun)
deriving DecidableEq

structure RendererTask where
  camera : CameraSettings
  frameMs : UInt64
  /-- The number of frames, over all sessions, at which the budget is reached. -/
  frames : UInt32
  resource : List UInt8
  total : UInt32
  phase : RendererPhase
deriving DecidableEq

inductive Ending
  | exited (code : UInt8)
  /-- A task asked for a time that the clock cannot tell. -/
  | overrun
deriving DecidableEq, Repr

structure World where
  /-- Microseconds since the start. -/
  now : Nat
  drawTime : Nat
  memory : Block
  inputs : InputQueue
  /-- The level of the reset line, if it was driven since it was last looked at. -/
  reset : Option Bool
  /-- The number of frames, once the budget is reached. -/
  done : Option UInt32
  log : Array (Nat × Notice)
  ending : Option Ending
  main : MainTask
  renderer : RendererTask
  controller : ControllerTask
  input : InputTask
deriving DecidableEq

/-- So many milliseconds after a time, if the clock can tell it, which has 64 bits. -/
def after? (time : Nat) (ms : UInt64) : Option Nat :=
  if time + ms.toNat * 1000 < UInt64.size then some (time + ms.toNat * 1000) else none

def MainTask.new (timeoutMs : UInt64) (frames : UInt32) : MainTask := ⟨timeoutMs, frames, .fresh⟩

def InputTask.new (script : List InputEvent) : InputTask := ⟨script, 0, .untouched, .fresh⟩

def ControllerTask.new (settings : ControllerSettings) (workload : Workload) : ControllerTask :=
  ⟨settings, workload, .fresh⟩

def RendererTask.new (camera : CameraSettings) (frameMs : UInt64) (frames : UInt32)
    (resource : List UInt8) : RendererTask := ⟨camera, frameMs, frames, resource, 0, .fresh⟩

namespace World

/-- A zeroed block, nothing sent and nothing signalled, and no task polled yet. -/
def new (main : MainTask) (renderer : RendererTask) (controller : ControllerTask)
    (input : InputTask) : World where
  now := 0
  drawTime := 0
  memory := .zero
  inputs := .empty
  reset := none
  done := none
  log := #[]
  ending := none
  main := main
  renderer := renderer
  controller := controller
  input := input

def post (w : World) (n : Notice) : World := { w with log := w.log.push (w.now, n) }

def postAll (w : World) (ns : List Notice) : World := ns.foldl post w

def withAfter (w : World) (time : Nat) (ms : UInt64) (go : Nat → World) : World :=
  match after? time ms with
  | some due => go due
  | none => { w with ending := some .overrun }

end World

end Handoff
