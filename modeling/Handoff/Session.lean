namespace Handoff

inductive SessionState
  | idle
  | running
deriving DecidableEq, Repr

inductive SessionEvent
  | start
  | stop
deriving DecidableEq, Repr

namespace SessionState

def isRunning : SessionState → Bool
  | idle => false
  | running => true

/-- An event that does not fit the state leaves it as it is. -/
def next : SessionState → SessionEvent → SessionState
  | idle, .start => running
  | running, .stop => idle
  | s, _ => s

end SessionState

end Handoff
