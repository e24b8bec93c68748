import Handoff.Config.Basic

namespace Handoff

structure InputEvent where
  atMs : UInt64
  press : Buttons
  holdMs : UInt64
  switch : Option Bool
deriving DecidableEq, Repr

namespace ScriptStep

def lowercase (name : String) : String := name.map Char.toLower

/-- The buttons of a list of names, or the first name that is no button's. Case does not matter
for the letters of the Latin alphabet. -/
def buttons : List String → Except String Buttons
  | names => names.foldlM (fun held name =>
      match Button.ofName? (lowercase name) with
      | some b => .ok (held.press b)
      | none => .error name) .released

/-- A press has to last for a tick of the controller, or it could be missed. -/
def resolve (tickMs : UInt32) (s : ScriptStep) : Except ConfigError InputEvent :=
  if s.press ≠ [] ∧ s.holdMs < tickMs.toUInt64 then
    .error (.holdTooShort s.atMs s.holdMs tickMs)
  else
    match buttons s.press with
    | .error name => .error (.unknownButton s.atMs name)
    | .ok press => .ok ⟨s.atMs, press, s.holdMs, s.switch⟩

end ScriptStep

/-- Every step resolved, in the order of their times; steps of one time stay in their order. -/
def resolveScript (tickMs : UInt32) (script : List ScriptStep) :
    Except ConfigError (List InputEvent) := do
  let events ← script.mapM (ScriptStep.resolve tickMs)
  return events.mergeSort fun a b => a.atMs ≤ b.atMs

def Config.inputEvents (c : Config) : Except ConfigError (List InputEvent) :=
  resolveScript c.viewer.controller.tickMs c.script

end Handoff
