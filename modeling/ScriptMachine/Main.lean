import ScriptMachine.CommandLine
import ScriptMachine.Machine.Demand

/-! The command on a terminal, with its files, its input and its clock. -/

namespace ScriptMachine

namespace Terminal

partial def readLine (input : IO.FS.Stream) (line : List UInt8) : IO (List UInt8) := do
  match (← input.read 1).toList with
  | [] => return line.reverse
  | 10 :: _ => return (10 :: line).reverse
  | byte :: _ => readLine input (byte :: line)

def awaitLine (w : World) : IO World := do
  if w.input.isEmpty then
    return { w with input := ← readLine (← IO.getStdin) [] }
  else
    return w

def look (p : Path) (t : FileTree) : IO FileTree := do
  let there := (← IO.currentDir) / p.text
  match t.resolve p with
  | .error _ => return t
  | .ok place =>
    let t := { t with files := t.files.filter (·.1 != place), folders := t.folders.erase place }
    if ← there.isDir then
      return { t with folders := place :: t.folders }
    else if ← there.pathExists then
      return t.put place (← IO.FS.readBinFile there).toList
    else
      return t

def fetch (p : Path) (w : World) : IO World := do
  let steps := (List.range p.segments.length).map fun n => Path.joinSlash (p.segments.take (n + 1))
  let files ← (steps.filter (!·.isEmpty)).foldlM (fun t text => look ⟨text⟩ t) w.files
  return { w with files }

def save (before after : FileTree) (p : Path) : IO Unit := do
  match before.read p, after.read p with
  | .ok old, .ok new => if old != new then write new
  | _, .ok new => write new
  | _, .error _ => return
where
  write (bytes : List UInt8) : IO Unit := do
    IO.FS.writeBinFile ((← IO.currentDir) / p.text) ⟨bytes.toArray⟩

def emit (stream : IO.FS.Stream) (text : String) : IO Unit := do
  stream.putStr text
  stream.flush

def emitOutput (m : Machine) : IO Machine := do
  if m.world.output.isEmpty then return m
  emit (← IO.getStdout) (String.join m.world.output.reverse)
  return { m with world := { m.world with output := [] } }

def nanosPerMilli : Nat := 1000000

partial def finish (m : Machine) : IO Machine := do
  if m.main.isOver then return m
  match m.next? with
  | none => return m
  | some (time, _) =>
    IO.sleep ((time - m.now) / nanosPerMilli).toUInt32
    let demand := m.demand
    let world ← demand.paths.foldlM (fun w p => fetch p w) m.world
    let world ← if demand.line then awaitLine world else pure world
    match ({ m with world }).step with
    | none => return m
    | some next =>
      demand.paths.forM (save world.files next.world.files)
      finish (← emitOutput next)

def host : Host IO where
  awaitLine s := do return { s with world := ← awaitLine s.world }
  fetch p s := do return { s with world := ← fetch p s.world }
  finish := finish
  emit text := do emit (← IO.getStdout) text
  emitError text := do emit (← IO.getStderr) text

def surroundings : IO CommandLine.Surroundings := do
  let folder ← IO.currentDir
  let libRoot := (← IO.getEnv "ZER_LIB_ROOT").getD (← IO.appDir).toString
  let forced := (← IO.getEnv "FORCE_COLOR").any (!·.isEmpty)
  let coloured := forced || (← (← IO.getStderr).isTty)
  let names := (Path.splitSlash folder.toString.toList).filter (!Path.isIdle ·)
  return ⟨⟨libRoot⟩, coloured, { workingFolder := names.map String.ofList, files := [] }, []⟩

def maxRounds : Nat := 1000000000000000

end Terminal

end ScriptMachine

def main (words : List String) : IO UInt32 := do
  ScriptMachine.CommandLine.run ScriptMachine.Terminal.host (← ScriptMachine.Terminal.surroundings)
    ScriptMachine.Terminal.maxRounds words
