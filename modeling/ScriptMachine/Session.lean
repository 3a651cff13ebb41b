import ScriptMachine.Machine.Schedule
import ScriptMachine.Report

namespace ScriptMachine

structure Session where
  world : World
  others : List Task := []
  now : Nat := 0

namespace Session

def start (settings : Settings) (argv : List String) (files : FileTree) (input : List UInt8) : Session where
  world := { settings, globals := 0, tables := { tables := #[initialGlobals argv] }, files, input }

def globals (s : Session) : Dict Value := s.world.tables.table s.world.globals

def parse (name text : String) : Except ProgramError (Source × Module) :=
  if Text.isIdle text then .error (.empty name)
  else
    let source : Source := ⟨name, Text.stripLines text⟩
    match parseModule source.text with
    | .ok m => .ok (source, m)
    | .error fault => .error (.invalid source fault)

def launch (s : Session) (source : Source) (m : Module) : Machine :=
  let state : State := ⟨s.world, { control := .done (.value .nil), stack := [], clock := s.now }⟩
  let (ctx, state) := state.moduleContext "<program>" source none (Span.point 0) true
  let state := state.runStatements ctx .nil m.statements
  { world := state.world, main := state.task, others := s.others, now := s.now }

def ofMachine (m : Machine) : Session := { world := m.world, others := m.others, now := max m.now m.main.clock }

abbrev Ending := Option (Except ProgramError Value)

def ending (m : Machine) : Ending := m.result?.map fun r => r.mapError .failed

def run (s : Session) (name text : String) : Ending × Session :=
  match parse name text with
  | .error e => (some (.error e), s)
  | .ok (source, m) =>
    match (s.launch source m).finish with
    | some m => (ending m, ofMachine m)
    | none => (none, s)

def readProgram (s : Session) (p : Path) : Except ProgramError String :=
  (s.world.files.readText p).mapError (.unreadable p.text)

def runFile (s : Session) (p : Path) : Ending × Session :=
  match s.readProgram p with
  | .error e => (some (.error e), s)
  | .ok text => s.run p.text text

def takeOutput (s : Session) : String × Session :=
  (String.join s.world.output.reverse, { s with world := { s.world with output := [] } })

def boundNames (s : Session) : List String := ScriptMachine.boundNames s.globals

end Session

end ScriptMachine
