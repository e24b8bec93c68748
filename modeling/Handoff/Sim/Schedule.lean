import Handoff.Sim.Step

namespace Handoff.World

/-- Whether a task has something to do. Nothing is ready any more once all is over. -/
def ready (w : World) (t : TaskName) : Bool :=
  w.ending.isNone &&
  match t with
  | .main =>
    match w.main.phase with
    | .fresh => true
    | .waiting deadline => w.done.isSome || deadline ≤ w.now
  | .input =>
    match w.input.phase with
    | .fresh => true
    | .waiting due _ _ => due ≤ w.now
    | .holding due _ => due ≤ w.now
    | .finished => false
  | .controller =>
    match w.controller.phase with
    | .fresh => true
    | .ticking _ _ due => due ≤ w.now
  | .renderer =>
    match w.renderer.phase with
    | .fresh => true
    | .held => w.reset.isSome
    | .drawing run => run.due ≤ w.now || w.reset.isSome

def poll (w : World) : TaskName → World
  | .main => w.pollMain
  | .renderer => w.pollRenderer
  | .controller => w.pollController
  | .input => w.pollInput

/-- Polls each task of a list that is ready when its turn comes. -/
def round (order : List TaskName) (w : World) : World :=
  order.foldl (fun w t => if w.ready t then w.poll t else w) w

/-- Rounds until no task is ready, and so many at the most. -/
def settle (order : List TaskName) : Nat → World → World
  | 0, w => w
  | rounds + 1, w =>
    if order.any w.ready then settle order rounds (w.round order) else w

/-- More rounds than the tasks can fill at one instant: each event of the script takes two. -/
def roundLimit (w : World) : Nat := 2 * w.input.script.length + 16

def advanceTo (w : World) (time : Nat) : World := { w with now := max w.now time }

def atMs (order : List TaskName) (ms : Nat) (w : World) : World :=
  let w := w.advanceTo (ms * 1000)
  w.settle order w.roundLimit

def runToEnd (order : List TaskName) : Nat → Nat → World → World
  | 0, _, w => w
  | count + 1, ms, w =>
    let w := w.atMs order ms
    if w.ending.isSome then w else runToEnd order count (ms + 1) w

end Handoff.World
