import Handoff.Button
import Handoff.Resource.Scene
import Handoff.Settings

namespace Handoff

structure RunSettings where
  frameMs : UInt64
  frames : UInt32
  timeoutMs : UInt64
  programSize : UInt32
deriving DecidableEq, Repr

def RunSettings.shipped : RunSettings := ⟨16, 240, 10000, 262144⟩

def SceneShape.shipped : SceneShape := ⟨1, 1⟩

structure ScriptStep where
  atMs : UInt64
  press : List String
  holdMs : UInt64
  switch : Option Bool
deriving DecidableEq, Repr

namespace ScriptStep

def defaultHoldMs : UInt64 := 50

end ScriptStep

structure Config where
  viewer : ViewerSettings
  run : RunSettings
  scene : SceneShape
  script : List ScriptStep
deriving DecidableEq

namespace Config

def shipped : Config := ⟨.shipped, .shipped, .shipped, []⟩

def pressAt (atMs : UInt64) (button : String) : ScriptStep :=
  ⟨atMs, [button], ScriptStep.defaultHoldMs, none⟩

def switchAt (atMs : UInt64) (level : Bool) : ScriptStep :=
  ⟨atMs, [], ScriptStep.defaultHoldMs, some level⟩

/-- The run that is made when no configuration is given: a session with a flight, an orbit after
the switch goes low, and a flight again. -/
def demonstration : Config where
  viewer := ⟨.shipped, ⟨10, 50, .switchActiveLow⟩⟩
  run := .shipped
  scene := ⟨1, 2⟩
  script :=
    [switchAt 0 true, pressAt 100 "center", pressAt 400 "left", pressAt 800 "up",
     pressAt 1200 "up", switchAt 1600 false, pressAt 1700 "right", switchAt 2400 true,
     pressAt 3000 "center"]

end Config

inductive ReadFailure
  | notFound
  | isDirectory
  | notDirectory
  | permissionDenied
  | nameTooLong
  | nulInName
  | notUtf8
  | other (message : String)
deriving DecidableEq, Repr

def ReadFailure.message : ReadFailure → String
  | notFound => "No such file or directory (os error 2)"
  | permissionDenied => "Permission denied (os error 13)"
  | notDirectory => "Not a directory (os error 20)"
  | isDirectory => "Is a directory (os error 21)"
  | nameTooLong => "File name too long (os error 36)"
  | nulInName => "file name contained an unexpected NUL byte"
  | notUtf8 => "stream did not contain valid UTF-8"
  | other message => message

inductive ConfigError
  | read (path : String) (failure : ReadFailure)
  | malformed
  | unknownButton (atMs : UInt64) (name : String)
  | holdTooShort (atMs holdMs : UInt64) (tickMs : UInt32)
deriving DecidableEq, Repr

def ConfigError.message : ConfigError → String
  | read path failure => s!"failed to read {path}: {failure.message}"
  | malformed => "invalid configuration"
  | unknownButton atMs name =>
    s!"script step at {atMs} ms names unknown button " ++ "\x60" ++ name ++ "\x60"
  | holdTooShort atMs holdMs tickMs =>
    s!"script step at {atMs} ms holds for {holdMs} ms, shorter than the {tickMs} ms controller tick"

end Handoff
