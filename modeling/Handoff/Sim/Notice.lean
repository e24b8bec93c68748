import Handoff.Config.Basic
import Handoff.Controller
import Handoff.Numeral
import Handoff.Renderer

namespace Handoff

inductive Level
  | error
  | warn
  | info
  | debug
deriving DecidableEq, Repr

namespace Level

def name : Level → String
  | error => "ERROR"
  | warn => "WARN"
  | info => "INFO"
  | debug => "DEBUG"

def rank : Level → Nat
  | error => 0
  | warn => 1
  | info => 2
  | debug => 3

def all : List Level := [error, warn, info, debug]

/-- Case does not matter. -/
def ofName? (s : String) : Option Level := all.find? (·.name == s.toUpper)

/-- A filter shows its own level and the graver ones. -/
def shows (filter level : Level) : Bool := level.rank ≤ filter.rank

end Level

/-- The buttons and the switch as the user's hands leave them. -/
structure Sample where
  buttons : Buttons
  switch : Option Bool
deriving DecidableEq, Repr

def Sample.untouched : Sample := ⟨.released, none⟩

inductive Notice
  | runStarted (steps : Nat)
  | configRefused (error : ConfigError)
  | budgetReached (frames : UInt32)
  | timedOut (frames : UInt32)
  | blockDumped (block : Block)
  | inputStarted (steps : Nat)
  | inputFinished
  | sampleDropped (sample : Sample)
  | controllerStarted (tickMs : UInt32)
  | startRefused
  | sessionStarted
  | sessionStopped
  | actionsPublished (actions : ActionWord)
  | latencySampled (latency : UInt32)
  | rendererStarted
  | workloadRead (program resource : Region)
  | sceneRead (textures meshes : Nat)
  | sceneRejected (error : ResourceError)
  | frameRendered (report : FrameReport)
  | cameraReset
  | rendererStopped (frames : UInt32)
  | drawnOutside (target : UInt32)
  | swappedOutside (address : UInt32)
  | swappedAgain (address : UInt32)
deriving DecidableEq, Repr

def addressText (a : UInt32) : String := "0x" ++ paddedDigits 16 8 a.toNat

/-- An action word as at least five binary digits. -/
def actionsText (a : ActionWord) : String := "0b" ++ paddedDigits 2 5 a.bits.toNat

namespace Sample

def text (s : Sample) : String :=
  let switch := match s.switch with
    | none => "None"
    | some true => "Some(true)"
    | some false => "Some(false)"
  s!"InputSample \x7b buttons: ButtonState({s.buttons.bits}), switch: " ++ switch ++ " \x7d"

end Sample

namespace FrameReport

def modeText : CameraMode → String
  | .movement => "Movement"
  | .rotation => "Rotation"

def horizontalText : Horizontal → String
  | .none => "None"
  | .left => "Left"
  | .right => "Right"

def verticalText : Vertical → String
  | .none => "None"
  | .up => "Up"
  | .down => "Down"

def slotText : FrameSlot → String
  | .one => "One"
  | .two => "Two"
  | .three => "Three"

def text (r : FrameReport) : String :=
  let mode := modeText r.mode
  let horizontal := horizontalText r.actions.horizontal
  let vertical := verticalText r.actions.vertical
  let slot := slotText r.presented
  s!"Frame {r.frame} {mode} h={horizontal} v={vertical} slot={slot} latency={r.latency} us"

end FrameReport

namespace Notice

def level : Notice → Level
  | configRefused _ | sceneRejected _ => .error
  | timedOut _ | sampleDropped _ | startRefused | drawnOutside _ | swappedOutside _ => .warn
  | actionsPublished _ | frameRendered _ | swappedAgain _ => .debug
  | _ => .info

def regionText (r : Region) : String := s!"{addressText r.location} ({r.size} bytes)"

def blockText (b : Block) : String :=
  let program := addressText (b.field .programLocation)
  let resource := addressText (b.field .resourceLocation)
  let actions := actionsText ⟨b.field .inputActions⟩
  s!"Block: program {program}+{b.field .programSize} " ++
    s!"resource {resource}+{b.field .resourceSize} " ++
    s!"latency {b.field .frameLatency} actions {actions}"

def message : Notice → String
  | runStarted steps => s!"Tandem simulator starting, {steps} scripted inputs"
  | configRefused error => error.message
  | budgetReached frames => s!"Rendered {frames} frames"
  | timedOut frames => s!"Timed out before {frames} frames"
  | blockDumped block => blockText block
  | inputStarted steps => s!"Input task started, {steps} scripted steps"
  | inputFinished => "Input script finished"
  | sampleDropped sample => "input channel full, dropped " ++ sample.text
  | controllerStarted tickMs => s!"Controller task started, tick {tickMs} ms"
  | startRefused => "Start ignored: no workload selected"
  | sessionStarted => "Session started, renderer released"
  | sessionStopped => "Session stopped, renderer held in reset"
  | actionsPublished actions => "Published actions " ++ actionsText actions
  | latencySampled latency => s!"Frame latency {latency} us"
  | rendererStarted => "Renderer task started, held in reset"
  | workloadRead program resource =>
    s!"Program at {regionText program}, resources at {regionText resource}"
  | sceneRead textures meshes => s!"Scene: {textures} textures, {meshes} meshes"
  | sceneRejected error => "Resource file rejected: " ++ error.message
  | frameRendered report => report.text
  | cameraReset => "Camera reset to default pose"
  | rendererStopped frames => s!"Renderer back in reset after {frames} frames"
  | drawnOutside target => "draw into unknown buffer " ++ addressText target
  | swappedOutside address => "swap to unknown buffer " ++ addressText address
  | swappedAgain address => "swap to buffer already on screen " ++ addressText address

end Notice

end Handoff
