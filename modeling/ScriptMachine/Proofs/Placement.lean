import ScriptMachine.Proofs.Boundaries
import ScriptMachine.Proofs.Legible
import ScriptMachine.Proofs.Subtrees

/-! The trees inside a tree, and where they stand in the text that they are read from. -/

namespace ScriptMachine

open List

namespace Node

def children : Node → List Node
  | function _ params body _ _ decorators _ => body :: (params.filterMap Param.default? ++ decorators)
  | namespace_ _ body _ => body
  | n => n.parts

def Everywhere (p : Node → Prop) (n : Node) : Prop := ∀ m ∈ n.subtrees, p m

end Node

section within

variable {m : Node}

lemma mem_withinNodes {nodes : List Node} : m ∈ withinNodes nodes ↔ ∃ n ∈ nodes, m ∈ n.subtrees := by
  induction nodes with
  | nil => simp [withinNodes]
  | cons n nodes ih => simp [withinNodes, Node.subtrees, ih, or_assoc]

lemma mem_withinPairs {pairs : List (Node × Node)} :
    m ∈ withinPairs pairs ↔ ∃ p ∈ pairs, m ∈ p.1.subtrees ∨ m ∈ p.2.subtrees := by
  induction pairs with
  | nil => simp [withinPairs]
  | cons p pairs ih =>
    rw [exists_mem_cons_iff, ← ih]
    simp only [withinPairs, Node.subtrees, mem_cons, mem_append]
    tauto

lemma mem_withinOption {o : Option Node} : m ∈ withinOption o ↔ ∃ n ∈ o, m ∈ n.subtrees := by
  cases o <;> simp [withinOption, Node.subtrees]

lemma mem_withinParams {params : List Param} :
    m ∈ withinParams params ↔ ∃ n ∈ params.filterMap Param.default?, m ∈ n.subtrees := by
  induction params with
  | nil => simp [withinParams]
  | cons p params ih => cases p <;> simp [withinParams, Param.default?, Node.subtrees, ih, or_assoc]

lemma mem_withinArgs {args : List Arg} :
    m ∈ withinArgs args ↔ ∃ n ∈ args.map State.argumentNode, m ∈ n.subtrees := by
  induction args with
  | nil => simp [withinArgs]
  | cons a args ih => cases a <;> simp [withinArgs, State.argumentNode, Node.subtrees, ih, or_assoc]

lemma mem_within {n : Node} : m ∈ n.within ↔ ∃ k ∈ n.children, m ∈ k.subtrees := by
  cases n with
  | list nodes | block nodes | namespace_ _ nodes => exact mem_withinNodes
  | map entries =>
    simp only [Node.within, mem_withinPairs, Node.children, Node.parts, mem_append, mem_map]
    aesop
  | branch cases_ otherwise =>
    simp only [Node.within, mem_withinPairs, mem_withinOption, Node.children, Node.parts, mem_append,
      mem_map, Option.mem_toList]
    aesop
  | return_ value => simp [Node.within, mem_withinOption, Node.children, Node.parts]
  | call callee args =>
    simp only [Node.within, Node.children, Node.parts, exists_mem_cons_iff]
    simp only [mem_withinArgs, Node.subtrees, mem_cons, mem_append, or_assoc]
  | function _ params body _ _ decorators =>
    simp only [Node.within, Node.children, exists_mem_cons_iff, mem_append, or_and_right, exists_or]
    simp only [mem_cons, mem_append, mem_withinParams, mem_withinNodes, Node.subtrees, or_assoc]
  | forRange _ start stop step body =>
    simp only [Node.within, Node.children, Node.parts, cons_append, nil_append, exists_mem_cons_iff]
    simp only [mem_cons, mem_append, mem_withinOption, Option.mem_toList, Option.mem_def, Node.subtrees]
    generalize (∃ n, step = some n ∧ (m = n ∨ m ∈ n.within)) = inStep
    tauto
  | assign | multiAssign | unary | member | await =>
    simp [Node.within, Node.children, Node.parts, Node.subtrees]
  | indexAssign | binary | forIn | while_ =>
    simp only [Node.within, Node.children, Node.parts, mem_cons, not_mem_nil, or_false, mem_append,
      or_and_right, exists_or, exists_eq_left, Node.subtrees]
    tauto
  | _ => simp [Node.within, Node.children, Node.parts]

lemma Node.everywhere_iff {p : Node → Prop} {n : Node} :
    n.Everywhere p ↔ p n ∧ ∀ k ∈ n.children, k.Everywhere p := by
  simp only [Node.Everywhere, Node.subtrees, forall_mem_cons, mem_within]
  constructor
  · rintro ⟨hn, hwithin⟩
    exact ⟨hn, fun k hk => ⟨hwithin k ⟨k, hk, k.mem_subtrees_self⟩, fun m hm => hwithin m ⟨k, hk, by
      simpa [Node.subtrees] using Or.inr (mem_within.2 hm)⟩⟩⟩
  · rintro ⟨hn, hchildren⟩
    refine ⟨hn, ?_⟩
    rintro m ⟨k, hk, hm⟩
    obtain ⟨hself, hbelow⟩ := hchildren k hk
    rcases mem_cons.1 hm with rfl | hm
    · exact hself
    · exact hbelow m (mem_within.1 hm)

end within

def Node.Placed (B : Nat → Prop) (n : Node) : Prop := n.Everywhere fun m => m.span.Within B

section placed

variable {B : Nat → Prop} {n : Node}

lemma Node.Placed.span (h : n.Placed B) : n.span.Within B := h n n.mem_subtrees_self

lemma Node.Placed.child {k : Node} (h : n.Placed B) (hk : k ∈ n.children) : k.Placed B :=
  (Node.everywhere_iff.1 h).2 k hk

end placed

lemma parseModule_ok {text : String} {m : Module} (hm : parseModule text = .ok m) :
    ∃ lexemes, tokenize text = ⟨lexemes, none⟩ ∧ parseLexemes lexemes = .ok m := by
  unfold parseModule at hm
  split at hm
  · contradiction
  · rename_i lexemes htokens
    refine ⟨lexemes, htokens, ?_⟩
    cases hparsed : parseLexemes lexemes with
    | error fault =>
      rw [hparsed] at hm
      contradiction
    | ok m' =>
      rw [hparsed] at hm
      exact congrArg Except.ok (Except.ok.inj hm)

end ScriptMachine
