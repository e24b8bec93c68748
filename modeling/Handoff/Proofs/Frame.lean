import Handoff.Renderer
import Handoff.Proofs.Link

namespace Handoff

namespace Renderer

def regions (l : Link .renderer) : (Region × Region) × Link .renderer :=
  ((l.program.1, l.program.2.resource.1), l.program.2.resource.2)

def exchange (latency : UInt32) (l : Link .renderer) : ActionWord × Link .renderer :=
  (l.actions.1, l.actions.2.reportLatency latency)

section Start

variable (w : Window) (m : Block) (rotator : Rotator) (camera : CameraSettings)

theorem start_eq :
    start w m rotator camera =
      let r := regions ⟨w, m⟩
      ⟨r.2.window, .new camera, rotator, r.1.1, r.1.2, 0⟩ := rfl

@[simp] theorem order_start : (start w m rotator camera).window.order = w.order := by
  simp [start_eq, regions, Link.program_eq, Link.resource_eq]

theorem program_start :
    (start w m rotator camera).program =
      ⟨w.order.ofRaw (m.field .programLocation), w.order.ofRaw (m.field .programSize)⟩ := by
  simp [start_eq, regions, Link.program_eq]

theorem resource_start :
    (start w m rotator camera).resource =
      ⟨w.order.ofRaw (m.field .resourceLocation), w.order.ofRaw (m.field .resourceSize)⟩ := by
  simp [start_eq, regions, Link.program_eq, Link.resource_eq]

end Start

section Frame

variable (r : Renderer) (m : Block) (started finished : Nat)

theorem frame_eq :
    r.frame m started finished =
      let e := exchange (elapsed started finished) (r.link m)
      let s := r.rig.update e.1.decode
      let p := r.rotator.complete
      (⟨s.2.pose, r.rotator.buildingAddress, p.2.1,
        ⟨r.frames, e.1.decode, s.1.mode, s.1.reset, p.1, elapsed started finished⟩⟩,
        { r with window := e.2.window, rig := s.2, rotator := p.2.2, frames := r.frames + 1 },
        e.2.memory) := rfl

@[simp] theorem order_frame : (r.frame m started finished).2.1.window.order = r.window.order := by
  simp [frame_eq, exchange, Link.actions_eq, Link.reportLatency_eq, link]

theorem actions_frame :
    (r.frame m started finished).1.report.actions =
      (ActionWord.mk (r.window.order.ofRaw (m.field .inputActions))).decode := by
  simp [frame_eq, exchange, Link.actions_eq, link]

/-- A frame writes nothing but its latency. -/
theorem memory_frame :
    (r.frame m started finished).2.2 = m.set Field.frameLatency.index
      (r.window.order.toRaw (r.frame m started finished).1.report.latency) := by
  simp [frame_eq, exchange, Link.actions_eq, Link.reportLatency_eq, link]

end Frame

end Renderer

end Handoff
