namespace Handoff

inductive ActionBit
  | rotateMode
  | left
  | right
  | up
  | down
deriving DecidableEq, Repr

inductive Horizontal
  | none
  | left
  | right
deriving DecidableEq, Repr

inductive Vertical
  | none
  | up
  | down
deriving DecidableEq, Repr

/-- What one frame takes from an action word. -/
structure Actions where
  rotateMode : Bool
  horizontal : Horizontal
  vertical : Vertical
deriving DecidableEq, Repr

namespace ActionBit

def all : List ActionBit := [rotateMode, left, right, up, down]

def position : ActionBit → UInt32
  | rotateMode => 0
  | left => 1
  | right => 2
  | up => 3
  | down => 4

def mask (b : ActionBit) : UInt32 := 1 <<< b.position

def opposite : ActionBit → Option ActionBit
  | rotateMode => none
  | left => some right
  | right => some left
  | up => some down
  | down => some up

end ActionBit

/-- An action word; any 32 bits are accepted. -/
structure ActionWord where
  bits : UInt32
deriving DecidableEq, Repr

namespace ActionWord

def empty : ActionWord := ⟨0⟩

/-- The positions that carry a meaning; all others are reserved. -/
def definedMask : UInt32 := 31

def isSet (w : ActionWord) (b : ActionBit) : Bool := w.bits &&& b.mask != 0

def set (w : ActionWord) (b : ActionBit) : ActionWord := ⟨w.bits ||| b.mask⟩

def clear (w : ActionWord) (b : ActionBit) : ActionWord := ⟨w.bits &&& ~~~b.mask⟩

/-- Forces one bit and leaves its opposite alone. -/
def put (w : ActionWord) (b : ActionBit) (value : Bool) : ActionWord :=
  if value then w.set b else w.clear b

/-- A press: a set bit is cleared, a clear bit is set and its opposite cleared. -/
def toggle (w : ActionWord) (b : ActionBit) : ActionWord :=
  if w.isSet b then w.clear b
  else match b.opposite with
    | some o => (w.set b).clear o
    | none => w.set b

def reserved (w : ActionWord) : UInt32 := w.bits &&& ~~~definedMask

/-- Left wins over right and up over down. -/
def decode (w : ActionWord) : Actions where
  rotateMode := w.isSet .rotateMode
  horizontal := if w.isSet .left then .left else if w.isSet .right then .right else .none
  vertical := if w.isSet .up then .up else if w.isSet .down then .down else .none

end ActionWord

end Handoff
