import ScriptMachine.Session

namespace ScriptMachine

structure Host (m : Type → Type) where
  awaitLine : Session → m Session
  fetch : Path → Session → m Session
  finish : Machine → m Machine
  emit : String → m Unit
  emitError : String → m Unit

namespace Host

variable {m : Type → Type} [Monad m]

def run (host : Host m) (s : Session) (name text : String) : m (Session.Ending × Session) := do
  match Session.parse name text with
  | .error e => return (some (.error e), s)
  | .ok (source, program) =>
    let machine ← host.finish (s.launch source program)
    let (printed, s) := (Session.ofMachine machine).takeOutput
    host.emit printed
    return (Session.ending machine, s)

end Host

structure Transcript where
  output : List String := []
  errors : List String := []

def Host.recorded : Host (StateM Transcript) where
  awaitLine s := pure s
  fetch _ s := pure s
  finish machine := pure (machine.finish.getD machine)
  emit text := modify fun t => { t with output := text :: t.output }
  emitError text := modify fun t => { t with errors := text :: t.errors }

end ScriptMachine
