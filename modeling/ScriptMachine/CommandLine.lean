import ScriptMachine.Shell

namespace ScriptMachine

namespace CommandLine

structure Options where
  version : Bool := false
  tokens : Bool := false
  libRoot : Option String := none
  path : Option String := none
  args : List String := []

namespace Options

def words (o : Options) (rest : List String) : Options :=
  match o.path, rest with
  | none, path :: args => { o with path := some path, args }
  | _, args => { o with args }

/-- Options end at the first word after the path. -/
def read (o : Options) : List String → Options
  | [] => o
  | "--" :: rest => o.words rest
  | "--version" :: rest => read { o with version := true } rest
  | "--tokens" :: rest => read { o with tokens := true } rest
  | "--lib-root" :: folder :: rest => read { o with libRoot := some folder } rest
  | word :: rest =>
    if word.startsWith "--lib-root=" then
      read { o with libRoot := some (String.ofList (word.toList.drop "--lib-root=".length)) } rest
    else match o.path with
      | none => read { o with path := some word } rest
      | some _ => { o with args := word :: rest }

end Options

structure Surroundings where
  libRoot : Path
  coloured : Bool
  files : FileTree
  input : List UInt8

variable {m : Type → Type} [Monad m]

def session (here : Surroundings) (o : Options) (argv : List String) : Session :=
  .start ⟨(o.libRoot.map Path.mk).getD here.libRoot, 1000⟩ argv here.files here.input

def runFile (host : Host m) (here : Surroundings) (o : Options) (p : Path) : m UInt32 := do
  if p.extension? ≠ some fileExtension then
    host.emitError (Shell.errorLine here.coloured s!"The file must have a '.{fileExtension}' extension")
    return 1
  let path := p.absolute here.files.workingFolder
  let s ← host.fetch path (session here o (path.text :: o.args))
  if !s.world.files.isFile path then
    host.emitError (Shell.errorLine here.coloured s!"File '{path.text}' does not exist")
    return 1
  let ending ← match s.readProgram path with
    | .error e => pure (some (.error e))
    | .ok text => do pure (← host.run s path.text text).1
  match ending with
  | some (.ok _) => return 0
  | some (.error (.empty name)) =>
    host.emitError (Shell.errorLine here.coloured (ProgramError.empty name).text)
    return 0
  | some (.error e) =>
    host.emitError (Styled.render here.coloured e.styled)
    return 1
  | none => return 1

def run (host : Host m) (here : Surroundings) (rounds : Nat) (words : List String) : m UInt32 := do
  let o := Options.read {} words
  if o.version then
    host.emit (ScriptMachine.version ++ "\n")
    return 0
  else if o.tokens then
    Shell.loop host here.coloured (Shell.tokens host) rounds (session here o [])
  else match o.path with
    | some path => runFile host here o ⟨path⟩
    | none =>
      host.emit Shell.greeting
      Shell.loop host here.coloured (Shell.evaluate host here.coloured) rounds (session here o [])

def transcript (here : Surroundings) (words : List String) : UInt32 × String × String :=
  let (code, t) := (run Host.recorded here (here.input.length + 1) words).run {}
  (code, String.join t.output.reverse, String.join t.errors.reverse)

end CommandLine

end ScriptMachine
