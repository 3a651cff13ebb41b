import ScriptMachine.Files.ModulePath
import ScriptMachine.Machine.World
import ScriptMachine.Syntax.Parser

/-! Running the statements of a module, and loading modules from files. -/

namespace ScriptMachine

namespace State

def runStatements (s : State) (ctx : Context) (last : Value) : List Node → State
  | [] => s.value last
  | statement :: rest => (s.push (.moduleStatement statement rest ctx)).eval statement ctx

def folderOf (source : Source) : Path := ((⟨source.name⟩ : Path).parent?).getD ⟨""⟩

def readModule (s : State) (name : String) (file : Path) : Except Fault (Source × Module) :=
  match s.world.files.readText file with
  | .error reason => .error (.moduleUnreadable name reason)
  | .ok text =>
    let source : Source := ⟨file.text, Text.stripLines text⟩
    match parseModule source.text with
    | .error fault =>
      .error (.moduleInvalid name fault.kindName fault.message (source.lineCol fault.span.start).1)
    | .ok m => .ok (source, m)

def findModule (s : State) (name : String) (kind : LoadKind) (ctx : Context) : Except Fault (Source × Module) :=
  let candidates := moduleCandidates name kind (folderOf ctx.source) s.world.settings.libRoot
  match candidates.find? s.world.files.isFile with
  | none => .error (.moduleNotFound name (candidates.map (·.text)))
  | some file => s.readModule name file

def moduleContext (s : State) (name : String) (source : Source) (parent : Option Context) (entry : Span)
    (isMain : Bool) : Context × State :=
  s.onTables fun t =>
    let (ctx, t) := Context.ofModule name source s.world.globals parent entry t
    (ctx, t.set ctx.privateTable "is_main" (.bool isMain))

def load (s : State) (name : String) (kind : LoadKind) (span : Span) (ctx : Context) : State :=
  match s.findModule name kind ctx with
  | .error f => s.fail f span ctx
  | .ok (source, m) =>
    if s.world.settings.maxDepth ≤ s.task.depth then s.fail (.tooDeep s.world.settings.maxDepth) span ctx
    else
      let (inner, s) := s.moduleContext "<module>" source (some ctx) span false
      let s := s.push .leaveModule
      ({ s with task := { s.task with depth := s.task.depth + 1 } }).runStatements inner .nil m.statements

end State

end ScriptMachine
