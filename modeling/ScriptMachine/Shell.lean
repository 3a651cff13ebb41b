import ScriptMachine.Host
import ScriptMachine.Token.Listing

/-! The interactive loop: a line is read, run, and answered with its value. -/

namespace ScriptMachine

def version : String := "Zerionyx (v2.3.0)"

namespace Shell

variable {m : Type → Type} [Monad m]

def prompt : String := ">> "

def greeting : String := version ++ "\nType '.exit' to exit.\n"

def errorLine (coloured : Bool) (text : String) : String :=
  Styled.render coloured [⟨.alert, Excerpt.padLeft 11 "Error"⟩, .plain (" " ++ text ++ "\n")]

def loop (host : Host m) (coloured : Bool) (handle : Session → String → m Session) :
    (rounds : Nat) → Session → m UInt32
  | 0, _ => pure 0
  | rounds + 1, s => do
    host.emit prompt
    let s ← host.awaitLine s
    if s.world.input.isEmpty then return 0
    let (line, world) := s.world.readLine
    let s := { s with world }
    match line with
    | .error reason =>
      host.emitError (errorLine coloured ("Failed to read input: " ++ reason.text))
      return 1
    | .ok line =>
      let line := Text.trim line.toList
      if line = ".exit".toList then return 0
      else if line = [] ∨ line.head? = some '#' then loop host coloured handle rounds s
      else
        let s ← handle s (String.ofList line)
        loop host coloured handle rounds s

def evaluate (host : Host m) (coloured : Bool) (s : Session) (line : String) : m Session := do
  let (ending, s) ← host.run s "<stdin>" line
  match ending with
  | some (.ok .nil) | none => pure ()
  | some (.ok v) => host.emit (s.world.heap.repr v ++ "\n")
  | some (.error e) => host.emitError (Styled.render coloured e.styled)
  return s

def tokens (host : Host m) (s : Session) (line : String) : m Session := do
  host.emit (String.join ((listTokens line).map (· ++ "\n")))
  return s

end Shell

end ScriptMachine
