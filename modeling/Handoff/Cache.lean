import Handoff.Block

namespace Handoff

inductive Line
  | invalid
  | clean (value : UInt32)
  | dirty (value : UInt32)
deriving DecidableEq, Repr

namespace Line

def copy? : Line → Option UInt32
  | invalid => none
  | clean v => some v
  | dirty v => some v

def isDirty : Line → Bool
  | dirty _ => true
  | _ => false

end Line

/-- Counters of what was asked of a cache. Release arithmetic is meant: a count of 32 bits turns over,
where other sums that overflow are faults. -/
structure CacheStats where
  flushes : UInt32
  writeBacks : UInt32
  invalidates : UInt32
  discarded : UInt32
  fences : UInt32
  misses : UInt32
deriving DecidableEq, Repr

def CacheStats.zero : CacheStats := ⟨0, 0, 0, 0, 0, 0⟩

@[ext]
structure Cache where
  lines : Vector Line wordCount
  stats : CacheStats
deriving DecidableEq, Repr

/-- Where a byte range ends is a number of 64 bits. -/
def rangeFits (offset len : UInt64) : Bool := offset.toNat + len.toNat < UInt64.size

/-- The words that a byte range touches; what lies past the block is left out. -/
def touched (offset len : UInt64) : List WordIndex :=
  let first := offset.toNat / wordSize
  let stop := (offset.toNat + len.toNat + (wordSize - 1)) / wordSize
  (List.finRange wordCount).filter fun i => first ≤ i && i < stop

namespace Cache

def empty : Cache := ⟨.replicate wordCount .invalid, .zero⟩

def line (c : Cache) (i : WordIndex) : Line := c.lines.get i

def setLine (c : Cache) (i : WordIndex) (l : Line) : Cache :=
  { c with lines := c.lines.set i l i.isLt }

@[simp] theorem line_setLine_self (c : Cache) (i : WordIndex) (l : Line) :
    (c.setLine i l).line i = l := Vector.getElem_set_self i.isLt

@[simp] theorem line_setLine_of_ne (c : Cache) {i j : WordIndex} (l : Line) (h : i ≠ j) :
    (c.setLine i l).line j = c.line j :=
  Vector.getElem_set_ne i.isLt j.isLt fun e => h (Fin.ext e)

@[simp] theorem stats_setLine (c : Cache) (i : WordIndex) (l : Line) :
    (c.setLine i l).stats = c.stats := rfl

def isCached (c : Cache) (i : WordIndex) : Bool := (c.line i).copy?.isSome

/-- The local copy, or on a miss the word in memory, of which a clean copy is kept. -/
def load (c : Cache) (m : Block) (i : WordIndex) : UInt32 × Cache :=
  match (c.line i).copy? with
  | some v => (v, c)
  | none =>
    let c := c.setLine i (.clean (m.get i))
    (m.get i, { c with stats.misses := c.stats.misses + 1 })

/-- A store stays in the cache until it is flushed. -/
def store (c : Cache) (i : WordIndex) (v : UInt32) : Cache := c.setLine i (.dirty v)

/-- Writes one word back if it is dirty, and keeps it as a clean copy. -/
def flushWord (s : Cache × Block) (i : WordIndex) : Cache × Block :=
  match s.1.line i with
  | .dirty v =>
    let c := s.1.setLine i (.clean v)
    ({ c with stats.writeBacks := c.stats.writeBacks + 1 }, s.2.set i v)
  | _ => s

def flush (c : Cache) (m : Block) (offset len : UInt64) : Cache × Block :=
  (touched offset len).foldl flushWord ({ c with stats.flushes := c.stats.flushes + 1 }, m)

/-- Drops one word; what was dirty is lost. -/
def dropWord (c : Cache) (i : WordIndex) : Cache :=
  let d := c.setLine i .invalid
  if (c.line i).isDirty then { d with stats.discarded := d.stats.discarded + 1 } else d

def invalidate (c : Cache) (offset len : UInt64) : Cache :=
  (touched offset len).foldl dropWord { c with stats.invalidates := c.stats.invalidates + 1 }

def fence (c : Cache) : Cache := { c with stats.fences := c.stats.fences + 1 }

end Cache

end Handoff
