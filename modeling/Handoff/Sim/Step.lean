import Handoff.Sim.World

namespace Handoff.World

def setInput (w : World) (phase : InputPhase) : World := { w with input := { w.input with phase } }

def awaitEvent (w : World) : List InputEvent → World
  | [] => (w.post .inputFinished).setInput .finished
  | e :: rest =>
    w.withAfter w.input.startedAt e.atMs fun due => w.setInput (.waiting due e rest)

def setSample (w : World) (current : Sample) : World :=
  { w with input := { w.input with current } }

def sendSample (w : World) : World :=
  match w.inputs.send? w.input.current with
  | some inputs => { w with inputs }
  | none => w.post (.sampleDropped w.input.current)

def playEvent (w : World) (e : InputEvent) (rest : List InputEvent) : World :=
  let w := match e.switch with
    | some level => w.setSample { w.input.current with switch := some level }
    | none => w
  if e.press = .released then w.sendSample.awaitEvent rest
  else
    let w := (w.setSample { w.input.current with buttons := e.press }).sendSample
    w.withAfter w.now e.holdMs fun due => w.setInput (.holding due rest)

def pollInput (w : World) : World :=
  match w.input.phase with
  | .fresh =>
    let w := w.post (.inputStarted w.input.script.length)
    { w with input := { w.input with startedAt := w.now } }.awaitEvent w.input.script
  | .waiting _ e rest => w.playEvent e rest
  | .holding _ rest =>
    ((w.setSample { w.input.current with buttons := .released }).sendSample).awaitEvent rest
  | .finished => w

/-- In milliseconds, and one at the least. -/
def tickPeriod (w : World) : UInt64 := max w.controller.settings.tickMs.toUInt64 1

def setController (w : World) (phase : ControllerPhase) : World :=
  { w with controller := { w.controller with phase } }

def outcomeNotices (o : Outcome) : List Notice :=
  (if o.startRefused then [.startRefused] else []) ++
    (match o.transition with
      | some .running => [.sessionStarted]
      | some .idle => [.sessionStopped]
      | none => []) ++
    (o.published.map .actionsPublished).toList ++ (o.latency.map .latencySampled).toList

def resetSignal? (o : Outcome) : Option Bool := o.transition.map (· == .idle)

/-- One tick: the latch takes the newest sample, and the controller sees what the latch holds. It
is given when the next one is due. -/
def tickOnce (w : World) (c : Controller) (latch : Sample) (next : Nat) : World :=
  let latch := w.inputs.latest latch
  let (outcome, c, memory) := c.tick w.memory latch.buttons latch.switch
  let w := { w with
    inputs := .empty
    memory
    reset := resetSignal? outcome <|> w.reset }
  (w.postAll (outcomeNotices outcome)).setController (.ticking c latch next)

/-- Ticks that are late are made up for. -/
def tickUntilDue : Nat → World → World
  | 0, w => w
  | count + 1, w =>
    match w.controller.phase with
    | .ticking c latch due =>
      if due ≤ w.now then
        w.withAfter due w.tickPeriod fun next => tickUntilDue count (w.tickOnce c latch next)
      else w
    | .fresh => w

def pollController (w : World) : World :=
  match w.controller.phase with
  | .fresh =>
    let w := w.post (.controllerStarted w.controller.settings.tickMs)
    let c := (Controller.new w.controller.settings (.cached .empty)).select w.controller.workload
    let w := { w with reset := some c.line.high }
    w.withAfter w.now w.tickPeriod fun due => w.setController (.ticking c .untouched due)
  | .ticking _ _ due => tickUntilDue (w.now - due + 1) w

/-- In milliseconds, and one at the least. -/
def framePeriod (w : World) : UInt64 := max w.renderer.frameMs 1

def setRenderer (w : World) (phase : RendererPhase) : World :=
  { w with renderer := { w.renderer with phase } }

/-- What the renderer says about the resource file, of which it sees as much as was published. -/
def resourceNotice (bytes : List UInt8) (r : Region) : Notice :=
  match Directory.parse (bytes.take r.size.toNat) with
  | .ok d => .sceneRead d.textures.length d.meshes.length
  | .error e => .sceneRejected e

/-- Out of reset: the caches start empty, and the first frame is a period away. -/
def releaseRenderer (w : World) : World :=
  let r := Renderer.start (.cached .empty) w.memory .shipped w.renderer.camera
  let w := w.postAll [.workloadRead r.program r.resource,
    resourceNotice w.renderer.resource r.resource]
  w.withAfter w.now w.framePeriod fun due =>
    w.setRenderer (.drawing ⟨r, .new MemoryMap.frameBuffers, due⟩)

def awaitRelease (w : World) : World :=
  match w.reset with
  | none => w
  | some true => { w with reset := none }
  | some false => { w with reset := none }.releaseRenderer

def frameNotices (frame : Frame) (swapNotices : List Notice) : List Notice :=
  drawInto MemoryMap.frameBuffers frame.target ++ swapNotices ++
    .frameRendered frame.report :: (if frame.report.reset then [.cameraReset] else [])

/-- Counts a frame; the budget is reached once. -/
def countFrame (w : World) : World :=
  let total := w.renderer.total + 1
  { w with
    renderer := { w.renderer with total }
    done := if total = w.renderer.frames then some total else w.done }

/-- One frame; the clock moves on while it is drawn. It is given when the next one is due. -/
def drawFrame (w : World) (run : RendererRun) (next : Nat) : World :=
  let finished := w.now + w.drawTime
  let (frame, renderer, memory) := run.renderer.frame w.memory w.now finished
  let (swapNotices, display) := run.display.swapTo frame.swap
  let w := { w with now := finished, memory }.postAll (frameNotices frame swapNotices)
  w.countFrame.setRenderer (.drawing ⟨renderer, display, next⟩)

def heedReset (w : World) : World :=
  match w.renderer.phase, w.reset with
  | .drawing run, some true =>
    ({ w with reset := none }.post (.rendererStopped run.display.swaps)).setRenderer .held
  | .drawing _, some false => { w with reset := none }
  | _, _ => w

/-- Frames that are late are made up for. Once none is due the reset line is looked at. -/
def drawUntilDue : Nat → World → World
  | 0, w => w
  | count + 1, w =>
    match w.renderer.phase with
    | .drawing run =>
      if run.due ≤ w.now then
        w.withAfter run.due w.framePeriod fun next => drawUntilDue count (w.drawFrame run next)
      else w.heedReset
    | _ => w

def pollRenderer (w : World) : World :=
  match w.renderer.phase with
  | .fresh => ((w.post .rendererStarted).setRenderer .held).awaitRelease
  | .held => w.awaitRelease
  | .drawing run => drawUntilDue (w.now - run.due + 2) w

def setMain (w : World) (phase : MainPhase) : World := { w with main := { w.main with phase } }

def exit (w : World) (code : UInt8) : World :=
  { w.post (.blockDumped w.memory) with ending := some (.exited code) }

def pollMain (w : World) : World :=
  match w.main.phase with
  | .fresh =>
    let w := w.post (.runStarted w.input.script.length)
    w.withAfter w.now w.main.timeoutMs fun deadline => w.setMain (.waiting deadline)
  | .waiting _ =>
    match w.done with
    | some frames => ({ w with done := none }.post (.budgetReached frames)).exit 0
    | none => (w.post (.timedOut w.main.frames)).exit 1

end Handoff.World
