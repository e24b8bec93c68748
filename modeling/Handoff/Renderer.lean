import Handoff.Camera.Rig
import Handoff.Link
import Handoff.Rotator

namespace Handoff

structure Renderer where
  window : Window
  rig : Rig
  rotator : Rotator
  program : Region
  resource : Region
  frames : UInt32
deriving DecidableEq

structure FrameReport where
  frame : UInt32
  actions : Actions
  mode : CameraMode
  reset : Bool
  presented : FrameSlot
  latency : UInt32
deriving DecidableEq, Repr

/-- A frame's effects: what was drawn where, which address the display was given, the report. -/
structure Frame where
  pose : Pose
  target : UInt32
  swap : UInt32
  report : FrameReport
deriving DecidableEq

/-- The time between two readings of the clock, as far as a word can tell it. -/
def elapsed (started finished : Nat) : UInt32 :=
  UInt32.ofNat (min (finished - started) (UInt32.size - 1))

namespace Renderer

def link (r : Renderer) (m : Block) : Link .renderer := ⟨r.window, m⟩

/-- Reads the published workload and sets up the camera. -/
def start (w : Window) (m : Block) (rotator : Rotator) (camera : CameraSettings) : Renderer :=
  let l : Link .renderer := ⟨w, m⟩
  let (program, l) := l.program
  let (resource, l) := l.resource
  ⟨l.window, .new camera, rotator, program, resource, 0⟩

/-- One frame, given the clock readings before it is drawn and after it is presented. -/
def frame (r : Renderer) (m : Block) (started finished : Nat) : Frame × Renderer × Block :=
  let (word, l) := (r.link m).actions
  let (step, rig) := r.rig.update word.decode
  let (slot, swap, rotator) := r.rotator.complete
  let latency := elapsed started finished
  let l := l.reportLatency latency
  ({ pose := rig.pose
     target := r.rotator.buildingAddress
     swap
     report := ⟨r.frames, word.decode, step.mode, step.reset, slot, latency⟩ },
    { r with window := l.window, rig, rotator, frames := r.frames + 1 }, l.memory)

end Renderer

end Handoff
