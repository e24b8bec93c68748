import Handoff.Cache

namespace Handoff

inductive WindowKind
  | cached
  | coherent
  | mapped (order : ByteOrder)
deriving DecidableEq, Repr

inductive Window
  | cached (cache : Cache)
  | direct (order : ByteOrder)
deriving DecidableEq, Repr

def WindowKind.newWindow : WindowKind → Window
  | cached => .cached .empty
  | coherent => .direct .little
  | mapped order => .direct order

namespace Window

def load (w : Window) (m : Block) (i : WordIndex) : UInt32 × Window :=
  match w with
  | cached c => ((c.load m i).1, cached (c.load m i).2)
  | direct o => (o.ofRaw (m.get i), w)

def store (w : Window) (m : Block) (i : WordIndex) (v : UInt32) : Window × Block :=
  match w with
  | cached c => (cached (c.store i v), m)
  | direct o => (w, m.set i (o.toRaw v))

def flush (w : Window) (m : Block) (offset len : UInt64) : Window × Block :=
  match w with
  | cached c => (cached (c.flush m offset len).1, (c.flush m offset len).2)
  | direct _ => (w, m)

def invalidate (w : Window) (offset len : UInt64) : Window :=
  match w with
  | cached c => cached (c.invalidate offset len)
  | direct _ => w

def fence (w : Window) : Window :=
  match w with
  | cached c => cached c.fence
  | direct _ => w

/-- Whether a byte range can be flushed and invalidated. Only a cache works out where it ends. -/
def takesRange (w : Window) (offset len : UInt64) : Bool :=
  match w with
  | cached _ => rangeFits offset len
  | direct _ => true

def cache? : Window → Option Cache
  | cached c => some c
  | direct _ => none

def stats? (w : Window) : Option CacheStats := w.cache?.map (·.stats)

end Window

end Handoff
