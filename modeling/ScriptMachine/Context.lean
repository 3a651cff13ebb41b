import ScriptMachine.Source

/-! Where a piece of code runs: the tables its names are in, and how it was reached. -/

namespace ScriptMachine

structure Site where
  source : Source
  span : Span
  name : String
deriving DecidableEq, Repr

structure Context where
  name : String
  source : Source
  callers : List Site
  scope : List Nat
  /-- Tables that hold a second copy of each assignment, read when the scope lacks a name. -/
  privates : List Nat
  escapes : Nat
deriving Repr

namespace Context

def sites (c : Context) (span : Span) : List Site := (⟨c.source, span, c.name⟩ :: c.callers).reverse

def isGlobal (c : Context) : Bool := c.scope.length ≤ 1

end Context

end ScriptMachine
