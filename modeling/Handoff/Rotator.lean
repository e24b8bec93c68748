import Handoff.MemoryMap

namespace Handoff

inductive FrameSlot
  | one
  | two
  | three
deriving DecidableEq, Repr

namespace FrameSlot

def all : List FrameSlot := [one, two, three]

def next : FrameSlot → FrameSlot
  | one => two
  | two => three
  | three => one

def index : FrameSlot → Fin 3
  | one => 0
  | two => 1
  | three => 2

/-- Slots are numbered from one. -/
def number (s : FrameSlot) : Nat := s.index + 1

end FrameSlot

structure FrameRoles where
  displayed : FrameSlot
  pending : FrameSlot
  building : FrameSlot
deriving DecidableEq, Repr

structure Rotator where
  addresses : Vector UInt32 3
  displayed : FrameSlot
  presented : UInt32
deriving DecidableEq, Repr

namespace Rotator

/-- Slot one is displayed first, so that slot three is built first. -/
def new (addresses : Vector UInt32 3) : Rotator := ⟨addresses, .one, 0⟩

def shipped : Rotator := new MemoryMap.frameBuffers

def roles (r : Rotator) : FrameRoles := ⟨r.displayed, r.displayed.next, r.displayed.next.next⟩

def building (r : Rotator) : FrameSlot := r.roles.building

def address (r : Rotator) (s : FrameSlot) : UInt32 := r.addresses[s.index]

def buildingAddress (r : Rotator) : UInt32 := r.address r.building

/-- Finishes the building buffer: its slot, the address for the display, and the roles after. -/
def complete (r : Rotator) : FrameSlot × UInt32 × Rotator :=
  (r.building, r.buildingAddress,
    { r with displayed := r.displayed.next, presented := r.presented + 1 })

end Rotator

end Handoff
