namespace Handoff

inductive Button
  | center
  | down
  | right
  | up
  | left
  | mode
deriving DecidableEq, Repr

namespace Button

def all : List Button := [center, down, right, up, left, mode]

def mask : Button → UInt8
  | center => 1
  | down => 2
  | right => 4
  | up => 8
  | left => 16
  | mode => 32

def name : Button → String
  | center => "center"
  | down => "down"
  | right => "right"
  | up => "up"
  | left => "left"
  | mode => "mode"

def ofName? (s : String) : Option Button := all.find? (·.name == s)

end Button

structure Buttons where
  bits : UInt8
deriving DecidableEq, Repr

namespace Buttons

def released : Buttons := ⟨0⟩

def press (s : Buttons) (b : Button) : Buttons := ⟨s.bits ||| b.mask⟩

def isPressed (s : Buttons) (b : Button) : Bool := s.bits &&& b.mask != 0

/-- The buttons held now that were not held before. -/
def risingEdges (now before : Buttons) : Buttons := ⟨now.bits &&& ~~~before.bits⟩

def pressed (s : Buttons) : List Button := Button.all.filter s.isPressed

end Buttons

end Handoff
