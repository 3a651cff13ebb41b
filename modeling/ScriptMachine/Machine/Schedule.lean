import ScriptMachine.Machine.Step

/-! Tasks side by side. Each task has a clock of its own that its steps move on; the task that is furthest behind
goes next, so what happens first is done first. -/

namespace ScriptMachine

structure Machine where
  world : World
  main : Task
  others : List Task
  now : Nat

namespace Machine

def stepTime : Nat := 100

def readyAt? (w : World) (now : Nat) (t : Task) : Option Nat :=
  match t.control with
  | .wait wait => State.wakeTime? ⟨w, t⟩ now wait
  | _ => some t.clock

def earliest (w : World) (now : Nat) (place : Nat) : List Task → Option (Nat × Nat)
  | [] => none
  | t :: rest =>
    match readyAt? w now t, earliest w now (place + 1) rest with
    | some time, some (other, p) => if time ≤ other then some (time, place) else some (other, p)
    | some time, none => some (time, place)
    | none, found => found

def tasks (m : Machine) : List Task := m.main :: m.others

def setTask (m : Machine) (place : Nat) (t : Task) : Machine :=
  match place with
  | 0 => { m with main := t }
  | p + 1 => { m with others := if t.isOver then m.others.eraseIdx p else m.others.set p t }

def adopt (m : Machine) : Machine :=
  match m.world.born with
  | [] => m
  | born => { m with others := m.others ++ born, world := { m.world with born := [] } }

def stepTask (m : Machine) (place time : Nat) (t : Task) : Machine :=
  let ⟨world, main, others, _⟩ := m
  let ⟨world, t⟩ := State.step ⟨world, { t with clock := time }⟩
  ((Machine.mk world main others time).setTask place { t with clock := t.clock + stepTime }).adopt

def next? (m : Machine) : Option (Nat × Nat) := earliest m.world m.now 0 m.tasks

def stepAt (m : Machine) (place time : Nat) : Machine :=
  match m.tasks[place]? with
  | some t => m.stepTask place time t
  | none => m

def step (m : Machine) : Option Machine := m.next?.map fun (time, place) => m.stepAt place time

def finish (m : Machine) : Option Machine :=
  if m.main.isOver then some m
  else match m.next? with
    | some (time, place) => by apply finish; exact m.stepAt place time
    | none => some m
partial_fixpoint

def result? (m : Machine) : Option Result :=
  match m.main.control, m.main.stack with
  | .done c, [] => some c.result
  | _, _ => none

end Machine

end ScriptMachine
