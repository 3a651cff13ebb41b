import ScriptMachine.Fault

/-! The single result of a thread or a job: its producer sends it at most once and goes away, and clients may
ask for it any number of times. -/

namespace ScriptMachine

abbrev Result := Except Failure Value

structure Outcome where
  sent : Option Result := none
  producerGone : Bool := false
  settled : Option Result := none

inductive Answer where
  | ready (r : Result)
  | pending
  | lost

namespace Outcome

def send (o : Outcome) (r : Result) : Outcome := { o with sent := some r, producerGone := true }

def abandon (o : Outcome) : Outcome := { o with producerGone := true }

def poll (o : Outcome) : Answer × Outcome :=
  match o.settled, o.sent with
  | some r, _ => (.ready r, o)
  | none, some r => (.ready r, { o with sent := none, settled := some r })
  | none, none => (if o.producerGone then .lost else .pending, o)

def isSettled (o : Outcome) : Bool × Outcome :=
  match o.poll with
  | (.pending, o) => (false, o)
  | (_, o) => (true, o)

end Outcome

end ScriptMachine
