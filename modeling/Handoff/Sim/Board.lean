import Handoff.Sim.Notice

namespace Handoff

def queueCapacity : Nat := 16

structure InputQueue where
  samples : List Sample
  bounded : samples.length ≤ queueCapacity
deriving DecidableEq

namespace InputQueue

def empty : InputQueue := ⟨[], Nat.zero_le _⟩

/-- A full queue refuses the new sample. -/
def send? (q : InputQueue) (s : Sample) : Option InputQueue :=
  if h : q.samples.length < queueCapacity then
    some ⟨q.samples ++ [s], by rw [List.length_append]; exact h⟩
  else none

/-- The newest sample that was sent since the latch was last refreshed, or what the latch holds. -/
def latest (q : InputQueue) (held : Sample) : Sample := q.samples.getLast?.getD held

end InputQueue

structure Display where
  known : Vector UInt32 3
  /-- The address that was swapped to last. -/
  scanning : Option UInt32
  swaps : UInt32
deriving DecidableEq, Repr

namespace Display

def new (known : Vector UInt32 3) : Display := ⟨known, none, 0⟩

def swapTo (d : Display) (address : UInt32) : List Notice × Display :=
  ((if d.known.contains address then [] else [.swappedOutside address]) ++
      (if d.scanning = some address then [.swappedAgain address] else []),
    { d with scanning := some address, swaps := d.swaps + 1 })

end Display

/-- The rasterizer refuses to draw where there is no buffer. -/
def drawInto (known : Vector UInt32 3) (target : UInt32) : List Notice :=
  if known.contains target then [] else [.drawnOutside target]

inductive BoardOp
  | send (sample : Sample)
  | refresh
  | drive (high : Bool)
  | swap (address : UInt32)
  | draw (target : UInt32)
deriving DecidableEq, Repr

inductive BoardReply
  | done
  | fitted (ok : Bool)
  | latched (sample : Sample)
  /-- The level of the line, and what was signalled. -/
  | driven (high : Bool) (signal : Option Bool)
  | swapped (swaps : UInt32)
deriving DecidableEq, Repr

structure Board where
  inputs : InputQueue
  latch : Sample
  resetHigh : Bool
  display : Display
deriving DecidableEq

namespace Board

def new (known : Vector UInt32 3) : Board := ⟨.empty, .untouched, false, .new known⟩

def run (b : Board) : BoardOp → BoardReply × List Notice × Board
  | .send s =>
    match b.inputs.send? s with
    | some inputs => (.fitted true, [], { b with inputs })
    | none => (.fitted false, [], b)
  | .refresh =>
    let latch := b.inputs.latest b.latch
    (.latched latch, [], { b with inputs := .empty, latch })
  | .drive high => (.driven high (some high), [], { b with resetHigh := high })
  | .swap address =>
    let (notices, display) := b.display.swapTo address
    (.swapped display.swaps, notices, { b with display })
  | .draw target => (.done, drawInto b.display.known target, b)

end Board

end Handoff
