import Handoff.Window

namespace Handoff

inductive BusOp
  | load (offset : UInt64)
  | store (offset : UInt64) (value : UInt32)
  | flush (offset len : UInt64)
  | invalidate (offset len : UInt64)
  | fence
  | isCached (offset : UInt64)
deriving DecidableEq, Repr

inductive BusReply
  | done
  | word (value : UInt32)
  | flag (value : Bool)
deriving DecidableEq, Repr

def wordIndex? (offset : UInt64) : Option WordIndex :=
  if h : offset.toNat / wordSize < wordCount then some ⟨offset.toNat / wordSize, h⟩ else none

/-- One operation of one window. It fails where the offset names no word, and where a range cannot
be told. -/
def Window.run? (w : Window) (m : Block) : BusOp → Option (BusReply × Window × Block)
  | .load offset => do
    let i ← wordIndex? offset
    let (v, w) := w.load m i
    return (.word v, w, m)
  | .store offset value => do
    let i ← wordIndex? offset
    return (.done, w.store m i value)
  | .flush offset len =>
    if w.takesRange offset len then some (.done, w.flush m offset len) else none
  | .invalidate offset len =>
    if w.takesRange offset len then some (.done, w.invalidate offset len, m) else none
  | .fence => some (.done, w.fence, m)
  | .isCached offset => do
    let c ← w.cache?
    let i ← wordIndex? offset
    return (.flag (c.isCached i), w, m)

structure Bus where
  memory : Block
  windows : List Window
deriving DecidableEq, Repr

namespace Bus

def attach (kind : WindowKind) (count : Nat) : Bus := ⟨.zero, .replicate count kind.newWindow⟩

def run? (b : Bus) (index : Nat) (op : BusOp) : Option (BusReply × Bus) := do
  let w ← b.windows[index]?
  let (reply, w, m) ← w.run? b.memory op
  return (reply, ⟨m, b.windows.set index w⟩)

end Bus

end Handoff
