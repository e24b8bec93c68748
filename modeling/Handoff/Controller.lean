import Handoff.Encoder
import Handoff.Link
import Handoff.Session

namespace Handoff

/-- The line that holds the renderer in reset while it is high. -/
structure ResetLine where
  high : Bool
  /-- What memory held when the line was last driven low. -/
  releasedWith : Option Block
deriving DecidableEq, Repr

namespace ResetLine

def assert (l : ResetLine) : ResetLine := { l with high := true }

def release (_ : ResetLine) (m : Block) : ResetLine := ⟨false, some m⟩

end ResetLine

structure Outcome where
  /-- The new session state, if it changed. -/
  transition : Option SessionState
  published : Option ActionWord
  latency : Option UInt32
  /-- The center button was pressed with no workload selected. -/
  startRefused : Bool
deriving DecidableEq, Repr

def Outcome.quiet : Outcome := ⟨none, none, none, false⟩

structure Controller where
  settings : ControllerSettings
  window : Window
  line : ResetLine
  state : SessionState
  encoder : Encoder
  previous : Buttons
  workload : Option Workload
  ticks : UInt32
deriving DecidableEq, Repr

namespace Controller

/-- A controller takes over the reset line and asserts it. -/
def new (s : ControllerSettings) (w : Window) : Controller where
  settings := s
  window := w
  line := ResetLine.assert ⟨false, none⟩
  state := .idle
  encoder := .new s.rotateSource
  previous := .released
  workload := none
  ticks := 0

def actions (c : Controller) : ActionWord := c.encoder.actions

def select (c : Controller) (w : Workload) : Controller := { c with workload := some w }

def link (c : Controller) (m : Block) : Link .controller := ⟨c.window, m⟩

/-- Everything that the renderer reads when it starts is in memory before the line is released. -/
def start (c : Controller) (m : Block) (w : Workload) : Controller × Block :=
  let l := (c.link m).publishProgram w.program
  let l := match w.resource with
    | some r => l.publishResource r
    | none => l
  let l := l.publishActions .empty
  ({ c with
      window := l.window
      line := c.line.release l.memory
      state := c.state.next .start
      encoder := c.encoder.reset
      ticks := 0 }, l.memory)

def stop (c : Controller) : Controller :=
  { c with line := c.line.assert, state := c.state.next .stop }

/-- An edge of the center button: it stops a running session and starts the selected workload. -/
def toggleSession (c : Controller) (m : Block) : Outcome × Controller × Block :=
  match c.state, c.workload with
  | .running, _ => ({ Outcome.quiet with transition := some .idle }, c.stop, m)
  | .idle, none => ({ Outcome.quiet with startRefused := true }, c, m)
  | .idle, some w =>
    let (c, m) := c.start m w
    ({ Outcome.quiet with transition := some .running, published := some .empty }, c, m)

def editActions (c : Controller) (m : Block) (edges : Buttons) (switch : Option Bool) :
    Option ActionWord × Controller × Block :=
  let edited := c.encoder.applyEdges edges
  let synced := edited.syncSwitch switch
  if edited.actions ≠ c.actions ∨ synced.actions ≠ edited.actions then
    let l := (c.link m).publishActions synced.actions
    (some synced.actions, { c with encoder := synced, window := l.window }, l.memory)
  else (none, { c with encoder := synced }, m)

/-- Counts the tick, and samples the latency on every tick of the cadence. -/
def countTick (c : Controller) (m : Block) : Option UInt32 × Controller :=
  let c := { c with ticks := c.ticks + 1 }
  let every := c.settings.latencySampleTicks
  if every ≠ 0 ∧ c.ticks % every = 0 then
    let (latency, l) := (c.link m).sampleLatency
    (some latency, { c with window := l.window })
  else (none, c)

def tick (c : Controller) (m : Block) (buttons : Buttons) (switch : Option Bool) :
    Outcome × Controller × Block :=
  let edges := buttons.risingEdges c.previous
  let c := { c with previous := buttons }
  let (outcome, c, m) :=
    if edges.isPressed .center then c.toggleSession m else (.quiet, c, m)
  if c.state = .running then
    let (published, c, m) := c.editActions m edges switch
    let (latency, c) := c.countTick m
    ({ outcome with published := published <|> outcome.published, latency }, c, m)
  else (outcome, c, m)

end Controller

end Handoff
