namespace Handoff

inductive CacheInstruction
  | clean (line : UInt64)
  | cleanInvalidate (line : UInt64)
  | barrier
deriving DecidableEq, Repr

def cacheLineSize : UInt64 := 64

def lineOf (address : UInt64) : UInt64 := address &&& ~~~(cacheLineSize - 1)

def topAddress : UInt64 := 0xFFFFFFFFFFFFFFFF

def addChecked? (a b : UInt64) : Option UInt64 :=
  if a.toNat + b.toNat < UInt64.size then some (a + b) else none

/-- Where a walk ends. An empty range still has a line, and a range that runs past the top of the
address space ends there. -/
def walkEnd (address len : UInt64) : UInt64 :=
  (addChecked? address (if len = 0 then 1 else len)).getD topAddress

def linesBetween (start stop : UInt64) : Nat :=
  (stop.toNat - start.toNat + (cacheLineSize.toNat - 1)) / cacheLineSize.toNat

def linesFrom? (line : UInt64) : Nat → Option (List UInt64)
  | 0 => some []
  | 1 => some [line]
  | count + 2 => do
    let next ← addChecked? line cacheLineSize
    let rest ← linesFrom? next (count + 1)
    return line :: rest

/-- The lines that maintenance of a byte range visits. -/
def linesOf? (address len : UInt64) : Option (List UInt64) :=
  linesFrom? (lineOf address) (linesBetween (lineOf address) (walkEnd address len))

/-- Asks the same of every line of a byte range, and waits until it is done. -/
def maintainRange? (ask : UInt64 → CacheInstruction) (address len : UInt64) :
    Option (List CacheInstruction) := do
  let lines ← linesOf? address len
  return lines.map ask ++ [.barrier]

def cleanRange? : UInt64 → UInt64 → Option (List CacheInstruction) := maintainRange? .clean

/-- A dirty neighbour on the same line is written back and not lost. -/
def invalidateRange? : UInt64 → UInt64 → Option (List CacheInstruction) :=
  maintainRange? .cleanInvalidate

end Handoff
