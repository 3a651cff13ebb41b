import Mathlib
import ScriptMachine.Machine.Eval

/-! The trees inside a tree: all of them, those that are evaluated where it is, and the names that it binds there. -/

namespace ScriptMachine

open List

mutual

def Node.within : Node → List Node
  | .int _ _ | .float _ _ | .str _ _ | .ident _ _ | .alias_ _ _ _ | .del _ _ | .continue_ _ | .break_ _ | .load _ _ _
  | .using_ _ _ _ => []
  | .list nodes _ | .block nodes _ | .namespace_ _ nodes _ => withinNodes nodes
  | .map entries _ => withinPairs entries
  | .assign _ value _ | .multiAssign _ value _ | .unary _ value _ | .member value _ _ | .await value _ =>
    value :: value.within
  | .indexAssign target index value _ => target :: index :: value :: (target.within ++ index.within ++ value.within)
  | .binary _ left right _ => left :: right :: (left.within ++ right.within)
  | .branch cases_ otherwise _ _ => withinPairs cases_ ++ withinOption otherwise
  | .forRange _ start stop step body _ _ =>
    start :: stop :: body :: (start.within ++ stop.within ++ body.within ++ withinOption step)
  | .forIn _ iterable body _ _ => iterable :: body :: (iterable.within ++ body.within)
  | .while_ condition body _ _ => condition :: body :: (condition.within ++ body.within)
  | .function _ params body _ _ decorators _ => body :: (body.within ++ withinParams params ++ withinNodes decorators)
  | .call callee args _ => callee :: (callee.within ++ withinArgs args)
  | .return_ value _ => withinOption value

def withinNodes : List Node → List Node
  | [] => []
  | n :: rest => n :: (n.within ++ withinNodes rest)

def withinPairs : List (Node × Node) → List Node
  | [] => []
  | (a, b) :: rest => a :: b :: (a.within ++ b.within ++ withinPairs rest)

def withinOption : Option Node → List Node
  | none => []
  | some n => n :: n.within

def withinParams : List Param → List Node
  | [] => []
  | .optional _ value :: rest => value :: (value.within ++ withinParams rest)
  | _ :: rest => withinParams rest

def withinArgs : List Arg → List Node
  | [] => []
  | .positional value :: rest | .keyword _ value :: rest | .spread value :: rest | .spreadKeywords value :: rest =>
    value :: (value.within ++ withinArgs rest)

end

namespace Node

def subtrees (n : Node) : List Node := n :: n.within

def parts : Node → List Node
  | int _ _ | float _ _ | str _ _ | ident _ _ | alias_ _ _ _ | del _ _ | continue_ _ | break_ _ | load _ _ _
  | using_ _ _ _ | namespace_ _ _ _ => []
  | list nodes _ | block nodes _ => nodes
  | map entries _ => entries.map Prod.fst ++ entries.map Prod.snd
  | assign _ value _ | multiAssign _ value _ | unary _ value _ | member value _ _ | await value _ => [value]
  | indexAssign target index value _ => [target, index, value]
  | binary _ left right _ => [left, right]
  | branch cases_ otherwise _ _ => cases_.map Prod.fst ++ cases_.map Prod.snd ++ otherwise.toList
  | forRange _ start stop step body _ _ => [start, stop, body] ++ step.toList
  | forIn _ iterable body _ _ => [iterable, body]
  | while_ condition body _ _ => [condition, body]
  | function _ _ _ _ _ decorators _ => decorators
  | call callee args _ => callee :: args.map State.argumentNode
  | return_ value _ => value.toList

def root : Node → Option String
  | ident name _ => some name
  | binary .index left _ _ => left.root
  | _ => none

def targets : Node → List String
  | assign name _ _ | forRange name _ _ _ _ _ _ | namespace_ name _ _ => [name]
  | multiAssign names _ _ | del names _ | forIn names _ _ _ _ => names
  | alias_ _ newName _ => [newName]
  | indexAssign target _ _ _ => target.root.toList
  | function name _ _ _ _ _ _ => name.toList
  | _ => []

lemma mem_subtrees_self (n : Node) : n ∈ n.subtrees := mem_cons_self

end Node

section below

variable {n m : Node}

lemma subtrees_subset_withinNodes {nodes : List Node} (h : n ∈ nodes) : n.subtrees ⊆ withinNodes nodes := by
  induction nodes with
  | nil => contradiction
  | cons a nodes ih =>
    change n.subtrees ⊆ a.subtrees ++ withinNodes nodes
    rcases mem_cons.1 h with rfl | h
    · exact subset_append_left ..
    · exact subset_append_of_subset_right _ (ih h)

lemma subtrees_subset_withinPairs {pairs : List (Node × Node)} {p : Node × Node} (h : p ∈ pairs) :
    p.1.subtrees ⊆ withinPairs pairs ∧ p.2.subtrees ⊆ withinPairs pairs := by
  induction pairs with
  | nil => contradiction
  | cons a pairs ih =>
    rcases mem_cons.1 h with rfl | h
    · constructor <;> intro x hx <;> simp only [withinPairs, Node.subtrees, mem_cons, mem_append] at hx ⊢ <;> tauto
    · constructor
      · exact fun x hx => by simp [withinPairs, (ih h).1 hx]
      · exact fun x hx => by simp [withinPairs, (ih h).2 hx]

lemma subtrees_subset_withinOption {o : Option Node} (h : n ∈ o) : n.subtrees ⊆ withinOption o := by
  obtain rfl := Option.mem_def.1 h
  exact fun x hx => hx

lemma subtrees_subset_withinParams {params : List Param} {name : String} (h : Param.optional name n ∈ params) :
    n.subtrees ⊆ withinParams params := by
  induction params with
  | nil => contradiction
  | cons p params ih =>
    rcases mem_cons.1 h with rfl | hrest
    · exact subset_append_left n.subtrees (withinParams params)
    · cases p with
      | optional _ value => exact subset_append_of_subset_right value.subtrees (ih hrest)
      | _ => exact ih hrest

lemma subtrees_subset_withinArgs {args : List Arg} {a : Arg} (h : a ∈ args) :
    (State.argumentNode a).subtrees ⊆ withinArgs args := by
  induction args with
  | nil => contradiction
  | cons b args ih =>
    have hcons : withinArgs (b :: args) = (State.argumentNode b).subtrees ++ withinArgs args := by cases b <;> rfl
    rw [hcons]
    rcases mem_cons.1 h with rfl | h
    · exact subset_append_left ..
    · exact subset_append_of_subset_right _ (ih h)

lemma subtrees_subset_of_parts (h : m ∈ n.parts) : m.subtrees ⊆ n.subtrees := by
  suffices m.subtrees ⊆ n.within from fun x hx => mem_cons_of_mem _ (this hx)
  cases n with
  | list nodes _ | block nodes _ => exact subtrees_subset_withinNodes h
  | function _ _ _ _ _ decorators _ =>
    have hd : m ∈ decorators := h
    exact fun x hx => by simp [Node.within, subtrees_subset_withinNodes hd hx]
  | map entries _ =>
    simp only [Node.parts, mem_append, mem_map] at h
    rcases h with ⟨p, hp, rfl⟩ | ⟨p, hp, rfl⟩
    · exact (subtrees_subset_withinPairs hp).1
    · exact (subtrees_subset_withinPairs hp).2
  | branch cases_ otherwise _ _ =>
    simp only [Node.parts, mem_append, mem_map, Option.mem_toList] at h
    rcases h with (⟨p, hp, rfl⟩ | ⟨p, hp, rfl⟩) | h
    · exact fun x hx => by simp [Node.within, (subtrees_subset_withinPairs hp).1 hx]
    · exact fun x hx => by simp [Node.within, (subtrees_subset_withinPairs hp).2 hx]
    · exact fun x hx => by simp [Node.within, subtrees_subset_withinOption h hx]
  | call callee args _ =>
    simp only [Node.parts, mem_cons, mem_map] at h
    rcases h with rfl | ⟨a, ha, rfl⟩
    · exact subset_append_left m.subtrees (withinArgs args)
    · exact fun x hx => by simp [Node.within, subtrees_subset_withinArgs ha hx]
  | return_ value _ => exact subtrees_subset_withinOption (by simpa [Node.parts] using h)
  | forRange var start stop step body multiline span =>
    simp only [Node.parts, cons_append, nil_append, mem_cons, Option.mem_toList] at h
    intro x hx
    rcases h with rfl | rfl | rfl | h
    all_goals simp only [Node.within, Node.subtrees, mem_cons, mem_append] at hx ⊢
    · tauto
    · tauto
    · tauto
    · have hstep := subtrees_subset_withinOption h (by simpa [Node.subtrees] using hx)
      tauto
  | assign | multiAssign | unary | member | await | indexAssign | binary | forIn | while_ =>
    simp only [Node.parts, mem_cons, not_mem_nil, or_false] at h
    intro x hx
    rcases h with rfl | rfl | rfl <;>
      simp only [Node.within, Node.subtrees, mem_cons, mem_append] at hx ⊢ <;> tauto
  | _ => contradiction

end below

end ScriptMachine
