import ScriptMachine.Fault

/-! Matching the arguments of a call against parameters, the same for functions of the program and built-in
ones. -/

namespace ScriptMachine

inductive Slot where
  | required
  | optional
  | rest
  | keywords
deriving DecidableEq, Repr

def Slot.isSingle : Slot → Bool
  | required | optional => true
  | rest | keywords => false

def Param.slot : Param → Slot
  | .required _ => .required
  | .optional _ _ => .optional
  | .rest _ => .rest
  | .keywords _ => .keywords

structure Filled where
  name : String
  slot : Slot
  value : Option Value

def fillPositional (open_ : Bool) : List (String × Slot) → List Value → List Filled × List Value
  | [], args => ([], args)
  | (name, .rest) :: params, args =>
    let (filled, left) := fillPositional false params []
    (⟨name, .rest, some (.list args)⟩ :: filled, left)
  | (name, slot) :: params, arg :: args =>
    if open_ && slot.isSingle then
      let (filled, left) := fillPositional open_ params args
      (⟨name, slot, some arg⟩ :: filled, left)
    else
      let (filled, left) := fillPositional open_ params (arg :: args)
      (⟨name, slot, none⟩ :: filled, left)
  | (name, slot) :: params, [] =>
    let (filled, left) := fillPositional open_ params []
    (⟨name, slot, none⟩ :: filled, left)

inductive Placed where
  | filled (params : List Filled)
  | taken
  | unknown

def placeKeyword (key : String) (value : Value) : List Filled → Placed
  | [] => .unknown
  | p :: rest =>
    if p.name = key ∧ p.slot.isSingle then
      match p.value with
      | some _ => .taken
      | none => .filled ({ p with value := some value } :: rest)
    else match placeKeyword key value rest with
      | .filled rest => .filled (p :: rest)
      | other => other

def placeKeywords (function : String) (collects : Bool) :
    Dict Value → List Filled → Dict Value → Except Fault (List Filled × Dict Value)
  | [], filled, collected => .ok (filled, collected)
  | (key, value) :: rest, filled, collected =>
    match placeKeyword key value filled with
    | .filled filled => placeKeywords function collects rest filled collected
    | .taken => .error (.argumentTwice function key)
    | .unknown =>
      if collects then placeKeywords function collects rest filled (collected.insert key value)
      else .error (.unexpectedArgument function key)

def fillKeywords (collected : Dict Value) : List Filled → List Filled
  | [] => []
  | p :: rest =>
    if p.slot = .keywords then { p with value := some (.map collected) } :: rest
    else p :: fillKeywords collected rest

def firstMissing? (filled : List Filled) : Option String :=
  (filled.find? fun p => p.slot = .required ∧ p.value.isNone).map (·.name)

def bindArguments (function : String) (params : List (String × Slot)) (args : List Value) (kwargs : Dict Value) :
    Except Fault (List (Option Value)) :=
  let (filled, left) := fillPositional true params args
  if !left.isEmpty then
    .error (.tooManyArguments function (params.countP (·.2.isSingle)) args.length)
  else do
    let collects := params.any (·.2 = .keywords)
    let (filled, collected) ← placeKeywords function collects kwargs filled []
    let filled := fillKeywords collected filled
    match firstMissing? filled with
    | some name => .error (.missingArgument function name)
    | none => .ok (filled.map (·.value))

end ScriptMachine
