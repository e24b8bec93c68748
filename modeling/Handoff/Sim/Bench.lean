import Handoff.Sim.Schedule

namespace Handoff

inductive Stimulus
  /-- A sample is sent; a full queue loses it. -/
  | sample (sample : Sample)
  | latency (ticks : UInt32)
  | program (region : Region)
  | resource (region : Region)
  | actions (actions : ActionWord)
  | reset (high : Bool)
deriving DecidableEq, Repr

abbrev Agenda := List (Nat × List Stimulus)

def Agenda.due (a : Agenda) (ms : Nat) : List Stimulus := (a.filter (·.1 == ms)).flatMap (·.2)

structure ControllerChange where
  ms : Nat
  reset : Option Bool
  block : Block
deriving DecidableEq, Repr

namespace World

def rendererLink (w : World) : Link .renderer := ⟨.cached .empty, w.memory⟩

def controllerLink (w : World) : Link .controller := ⟨.cached .empty, w.memory⟩

def apply (w : World) : Stimulus → World
  | .sample s => { w with inputs := (w.inputs.send? s).getD w.inputs }
  | .latency ticks => { w with memory := (w.rendererLink.reportLatency ticks).memory }
  | .program r => { w with memory := (w.controllerLink.publishProgram r).memory }
  | .resource r => { w with memory := (w.controllerLink.publishResource r).memory }
  | .actions a => { w with memory := (w.controllerLink.publishActions a).memory }
  | .reset high => { w with reset := some high }

/-- Tasks with nothing to do, of which one is replaced by the task on the bench. -/
def bench : World :=
  .new (.new 0 0) (.new .shipped 0 0 []) (.new .shipped ⟨⟨0, 0⟩, none⟩) (.new [])

/-- A millisecond on the bench. What is taken may depend on what memory held before. -/
def benchMs {α : Type} (task : TaskName) (agenda : Agenda)
    (take : Nat → Block → World → List α × World) (ms : Nat) (w : World) : List α × World :=
  take ms w.memory
    (((agenda.due ms).foldl apply (w.advanceTo (ms * 1000))).atMs [task] ms)

def onBench {α : Type} (task : TaskName) (agenda : Agenda)
    (take : Nat → Block → World → List α × World) (lastMs : Nat) (w : World) : List α × World :=
  let step (ms : Nat) : StateM World (List α) := benchMs task agenda take ms
  let (taken, w) := (List.range (lastMs + 1)).mapM step w
  (taken.flatten, w)

/-- What the input task sends. The queue is emptied at each millisecond, or only at the last one. -/
def runInput (script : List InputEvent) (eachMs : Bool) (lastMs : Nat) :
    List (Nat × Sample) × World :=
  let take (ms : Nat) (_ : Block) (w : World) : List (Nat × Sample) × World :=
    if eachMs ∨ ms = lastMs then (w.inputs.samples.map (ms, ·), { w with inputs := .empty })
    else ([], w)
  { bench with input := .new script }.onBench .input [] take lastMs

def runController (settings : ControllerSettings) (workload : Workload) (agenda : Agenda)
    (lastMs : Nat) : List ControllerChange × World :=
  let take (ms : Nat) (before : Block) (w : World) : List ControllerChange × World :=
    (if w.reset.isSome ∨ w.memory ≠ before then [⟨ms, w.reset, w.memory⟩] else [],
      { w with reset := none })
  { bench with controller := .new settings workload }.onBench .controller agenda take lastMs

def runRenderer (task : RendererTask) (drawTime : Nat) (agenda : Agenda) (lastMs : Nat) :
    List (Nat × UInt32) × World :=
  let take (ms : Nat) (_ : Block) (w : World) : List (Nat × UInt32) × World :=
    (w.done.toList.map (ms, ·), { w with done := none })
  { bench with renderer := task, drawTime }.onBench .renderer agenda take lastMs

def inputFinished (w : World) : Bool := w.input.phase = .finished

end World

end Handoff
