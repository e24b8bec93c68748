import Handoff.Config.Reader
import Handoff.Sim.Schedule
import Handoff.Terminal

namespace Handoff

structure Transcript where
  exitCode : UInt8
  output : String
  notices : List Notice
deriving DecidableEq

namespace Transcript

def lines (filter : Level) (t : Transcript) : List String :=
  (t.notices.filter fun n => filter.shows n.level).map fun n =>
    n.level.name ++ " " ++ Terminal.headline n.message

/-- A run that broke down prints nothing. -/
def broken (notices : List Notice) : Transcript := ⟨101, "", notices⟩

end Transcript

namespace Config

def workload (c : Config) (resourceLength : Nat) : Workload where
  program := ⟨MemoryMap.rendererView MemoryMap.programBase, c.run.programSize⟩
  resource := some ⟨MemoryMap.rendererView MemoryMap.resourceBase, UInt32.ofNat resourceLength⟩

def world (c : Config) (script : List InputEvent) (resource : List UInt8) : World :=
  .new (.new c.run.timeoutMs c.run.frames)
    (.new c.viewer.camera c.run.frameMs c.run.frames resource)
    (.new c.viewer.controller (c.workload resource.length))
    (.new script)

/-- The order in which the tasks of a run are started and polled. -/
def taskOrder : List TaskName := [.main, .renderer, .controller, .input]

def finalWorld (c : Config) (script : List InputEvent) (resource : List UInt8) : World :=
  (c.world script resource).runToEnd taskOrder (c.run.timeoutMs.toNat + 1) 0

end Config

def dumpText (order : ByteOrder) (b : Block) : String :=
  " ".intercalate ((b.bytes order).map fun x => paddedDigits 16 2 x.toNat) ++ "\n"

def World.transcript (order : ByteOrder) (w : World) : Transcript :=
  let notices := w.log.toList.map (·.2)
  match w.ending with
  | some (.exited code) => ⟨code, dumpText order w.memory, notices⟩
  | _ => .broken notices

structure RunRequest where
  /-- The file of the configuration, if it is not the demonstration. -/
  config : Option String
  frames : Option UInt32
  dumpOrder : ByteOrder
deriving DecidableEq, Repr

namespace RunRequest

def load (r : RunRequest) (files : Config.Files) :
    Except ConfigError (Config × List InputEvent) := do
  let c ← match r.config with
    | some path => Config.load files path
    | none => pure .demonstration
  let c := { c with run.frames := r.frames.getD c.run.frames }
  return (c, ← c.inputEvents)

def execute (r : RunRequest) (files : Config.Files) : Transcript :=
  match r.load files with
  | .error e => ⟨2, "", [.configRefused e]⟩
  | .ok (c, script) =>
    match Scene.file? c.scene with
    | some resource => (c.finalWorld script resource).transcript r.dumpOrder
    | none => .broken [.runStarted script.length]

end RunRequest

end Handoff
