import Handoff.Action
import Handoff.Window

/-!
Links: a side's window together with the memory behind it, with only the operations that the side
may use. A side writes the fields it owns and reads those of its peer.
-/

namespace Handoff

structure Region where
  location : UInt32
  size : UInt32
deriving DecidableEq, Repr

/-- A region of size zero was never published. -/
def Region.isEmpty (r : Region) : Bool := r.size == 0

structure Workload where
  program : Region
  resource : Option Region
deriving DecidableEq, Repr

structure Link (side : Side) where
  window : Window
  memory : Block
deriving DecidableEq, Repr

namespace Link

variable {side : Side}

/-- Stores a field and pushes it out to memory. -/
def write (l : Link side) (f : Field) (value : UInt32) (_owned : f.owner = side := by rfl) :
    Link side :=
  let (w, m) := l.window.store l.memory f.index value
  let (w, m) := w.flush m f.offset 4
  ⟨w, m⟩

/-- Drops the local copy of a field and fetches what memory holds. -/
def read (l : Link side) (f : Field) (_peer : f.owner = side.peer := by rfl) :
    UInt32 × Link side :=
  let w := (l.window.invalidate f.offset 4).fence
  let (v, w) := w.load l.memory f.index
  (v, ⟨w, l.memory⟩)

def writeProgramSize (l : Link .controller) (size : UInt32) : Link .controller :=
  l.write .programSize size

def publishProgram (l : Link .controller) (r : Region) : Link .controller :=
  (l.write .programLocation r.location).writeProgramSize r.size

def publishResource (l : Link .controller) (r : Region) : Link .controller :=
  (l.write .resourceLocation r.location).write .resourceSize r.size

def publishActions (l : Link .controller) (a : ActionWord) : Link .controller :=
  l.write .inputActions a.bits

def sampleLatency (l : Link .controller) : UInt32 × Link .controller := l.read .frameLatency

def program (l : Link .renderer) : Region × Link .renderer :=
  let (location, l) := l.read .programLocation
  let (size, l) := l.read .programSize
  (⟨location, size⟩, l)

def resourceSize (l : Link .renderer) : UInt32 × Link .renderer := l.read .resourceSize

def resource (l : Link .renderer) : Region × Link .renderer :=
  let (location, l) := l.read .resourceLocation
  let (size, l) := l.resourceSize
  (⟨location, size⟩, l)

def actions (l : Link .renderer) : ActionWord × Link .renderer :=
  let (bits, l) := l.read .inputActions
  (⟨bits⟩, l)

def reportLatency (l : Link .renderer) (ticks : UInt32) : Link .renderer :=
  l.write .frameLatency ticks

end Link

end Handoff
