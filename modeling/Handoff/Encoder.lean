import Handoff.Action
import Handoff.Button
import Handoff.Settings

namespace Handoff

structure Encoder where
  actions : ActionWord
  source : RotateSource
deriving DecidableEq, Repr

namespace Encoder

def new (source : RotateSource) : Encoder := ⟨.empty, source⟩

def reset (e : Encoder) : Encoder := { e with actions := .empty }

/-- The bit that an edge of a button toggles. The center button drives the session instead. -/
def bitFor? (e : Encoder) : Button → Option ActionBit
  | .left => some .left
  | .right => some .right
  | .up => some .up
  | .down => some .down
  | .mode => if e.source = .modeButton then some .rotateMode else none
  | .center => none

def press (e : Encoder) (b : Button) : Encoder :=
  match e.bitFor? b with
  | some bit => { e with actions := e.actions.toggle bit }
  | none => e

def applyEdges (e : Encoder) (edges : Buttons) : Encoder := edges.pressed.foldl press e

def rotateFor? (e : Encoder) (level : Option Bool) : Option Bool :=
  match e.source with
  | .switch => level
  | .switchActiveLow => level.map (!·)
  | .modeButton => none

def syncSwitch (e : Encoder) (level : Option Bool) : Encoder :=
  match e.rotateFor? level with
  | some rotate => { e with actions := e.actions.put .rotateMode rotate }
  | none => e

end Encoder

end Handoff
