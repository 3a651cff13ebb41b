import ScriptMachine.Proofs.Subtrees
import ScriptMachine.Machine.Schedule

/-! The signals `return`, `break` and `continue`: the trees that can end with one, the frames that let it through, and
the frames that take it. -/

namespace ScriptMachine

inductive Signal where
  | return_ | break_ | continue_
deriving DecidableEq

def Completion.signal? : Completion → Option Signal
  | .return_ _ => some .return_
  | .break_ => some .break_
  | .continue_ => some .continue_
  | .value _ | .error _ => none

def Reason.isStray : Reason → Bool
  | .strayBreak | .strayContinue => true
  | .of _ => false

mutual

/-- A signal occurs free in a tree: in no function or namespace inside it and, unless it is `return`, in no body of a
loop. -/
def Node.hasFree (σ : Signal) : Node → Bool
  | .int _ _ | .float _ _ | .str _ _ | .ident _ _ | .alias_ _ _ _ | .del _ _ | .load _ _ _ | .using_ _ _ _
  | .namespace_ _ _ _ => false
  | .break_ _ => σ = .break_
  | .continue_ _ => σ = .continue_
  | .return_ value _ => σ = .return_ || freeInOption σ value
  | .list nodes _ | .block nodes _ | .function _ _ _ _ _ nodes _ => freeInNodes σ nodes
  | .map entries _ => freeInPairs σ entries
  | .assign _ value _ | .multiAssign _ value _ | .unary _ value _ | .member value _ _ | .await value _ =>
      value.hasFree σ
  | .indexAssign target index value _ => target.hasFree σ || index.hasFree σ || value.hasFree σ
  | .binary _ left right _ => left.hasFree σ || right.hasFree σ
  | .branch cases_ otherwise _ _ => freeInPairs σ cases_ || freeInOption σ otherwise
  | .forRange _ start stop step body _ _ =>
    start.hasFree σ || stop.hasFree σ || freeInOption σ step || (σ = .return_ && body.hasFree σ)
  | .forIn _ iterable body _ _ => iterable.hasFree σ || (σ = .return_ && body.hasFree σ)
  | .while_ condition body _ _ => condition.hasFree σ || (σ = .return_ && body.hasFree σ)
  | .call callee args _ => callee.hasFree σ || freeInArgs σ args

def freeInNodes (σ : Signal) : List Node → Bool
  | [] => false
  | n :: rest => n.hasFree σ || freeInNodes σ rest

def freeInPairs (σ : Signal) : List (Node × Node) → Bool
  | [] => false
  | (a, b) :: rest => a.hasFree σ || b.hasFree σ || freeInPairs σ rest

def freeInOption (σ : Signal) : Option Node → Bool
  | none => false
  | some n => n.hasFree σ

def freeInArgs (σ : Signal) : List Arg → Bool
  | [] => false
  | .positional value :: rest | .keyword _ value :: rest | .spread value :: rest | .spreadKeywords value :: rest =>
    value.hasFree σ || freeInArgs σ rest

end

lemma freeInNodes_eq_any (σ : Signal) (nodes : List Node) : freeInNodes σ nodes = nodes.any (Node.hasFree σ) := by
  induction nodes with
  | nil => rfl
  | cons n nodes ih => rw [freeInNodes, ih, List.any_cons]

lemma freeInArgs_cons (σ : Signal) (arg : Arg) (args : List Arg) :
    freeInArgs σ (arg :: args) = ((State.argumentNode arg).hasFree σ || freeInArgs σ args) := by
  cases arg <;> rfl

namespace Frame

def unit? : Frame → Option Node
  | .moduleStatement current _ _ | .namespaceBody _ current _ _ _ _ | .default _ _ _ current _ => some current
  | .functionBody closure _ => some closure.routine.body
  | _ => none

def takes (σ : Signal) : Frame → Bool
  | .rangeBody _ _ _ | .eachBody _ _ _ | .whileBody _ _ => σ ≠ .return_
  | .jobEnd _ _ => true
  | f => f.unit?.isSome

def hasFree (σ : Signal) : Frame → Bool
  | .listItem _ rest _ | .statement rest _ | .decorator _ _ rest _ _ | .decorated rest _ _ => freeInNodes σ rest
  | .mapKey _ _ value rest _ => value.hasFree σ || freeInPairs σ rest
  | .mapValue _ _ rest _ => freeInPairs σ rest
  | .storeKey target value _ _ => target.hasFree σ || value.hasFree σ
  | .storeValue target _ _ _ => target.hasFree σ
  | .storeOuterKey left target _ _ _ _ _ => left.hasFree σ || target.hasFree σ
  | .storeContainer outer _ _ _ _ _ => freeInOption σ (outer.map Prod.fst)
  | .logicLeft _ right _ _ | .binaryLeft _ right _ _ => right.hasFree σ
  | .condition body rest otherwise _ _ => body.hasFree σ || freeInPairs σ rest || freeInOption σ otherwise
  | .rangeStart head => head.stop.hasFree σ || freeInOption σ head.step || (σ = .return_ && head.body.hasFree σ)
  | .rangeStop head _ => freeInOption σ head.step || (σ = .return_ && head.body.hasFree σ)
  | .rangeStep head _ _ => σ = .return_ && head.body.hasFree σ
  | .rangeBody loop _ _ => σ = .return_ && loop.body.hasFree σ
  | .eachSource loop | .eachBody loop _ _ => σ = .return_ && loop.body.hasFree σ
  | .whileCondition loop _ | .whileBody loop _ => loop.condition.hasFree σ || (σ = .return_ && loop.body.hasFree σ)
  | .callee args _ _ | .argument _ _ _ _ args _ _ => freeInArgs σ args
  | .returned => σ = .return_
  | .cleanedUp result => result.signal? = some σ
  | _ => false

def passes (σ : Signal) (f : Frame) (above : Bool) : Bool := f.hasFree σ || (above && !f.takes σ)

end Frame

def escapes (σ : Signal) (above : Bool) : List Frame → Bool
  | [] => above
  | f :: rest => escapes σ (f.passes σ above) rest

def Control.hasFree (σ : Signal) : Control → Bool
  | .eval n _ => n.hasFree σ
  | .done c => c.signal? = some σ
  | .call _ _ _ _ _ | .wait _ => false

end ScriptMachine
