import ScriptMachine.Machine.Schedule

/-! What the next step of a machine will look for outside of it: files, and a line of input. -/

namespace ScriptMachine

structure Demand where
  paths : List Path := []
  line : Bool := false

namespace Demand

def pathOf? : Value → Option Path
  | .file _ p => some p
  | .str s => some ⟨s⟩
  | _ => none

def ofBuiltin (b : Builtin) (args : List Value) (kwargs : Dict Value) : Demand :=
  match b.bind args kwargs with
  | .error _ => {}
  | .ok bound =>
    match b with
    | .input => { line := true }
    | .readFile | .writeFile | .fileExists | .readFileAsync | .writeFileAsync =>
      { paths := ((bound.head?).bind pathOf?).toList }
    | _ => {}

def ofTask (w : World) (t : Task) : Demand :=
  match t.control with
  | .call (.builtin b) args kwargs _ _ => ofBuiltin b args kwargs
  | .eval (.load name kind _) ctx =>
    { paths := moduleCandidates name kind (State.folderOf ctx.source) w.settings.libRoot }
  | _ => {}

end Demand

def Machine.demand (m : Machine) : Demand :=
  match m.next? with
  | some (_, place) => ((m.tasks[place]?).map (Demand.ofTask m.world)).getD {}
  | none => {}

end ScriptMachine
