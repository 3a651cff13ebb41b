import Mathlib
import ScriptMachine.Syntax.Parser

/-! What trees are made of. The lexemes that a tree is read from hold its names and literals and those of the trees
inside it, in the same order, with keywords, symbols and line breaks between them. -/

namespace ScriptMachine

open List

variable {core : List Lexeme} {span : Span} {last : Lexeme}

namespace Token

def isPayload : Token → Bool
  | ident _ | int _ | float _ | str _ => true
  | _ => false

def isSilent : Token → Bool
  | symbol _ | keyword _ | newline => true
  | _ => false

end Token

inductive Constituent where
  | word (t : Token)
  | tree (n : Node)

def nameWords (names : List String) : List Constituent := names.map fun name => .word (.ident name)

def pairTrees (pairs : List (Node × Node)) : List Constituent := pairs.flatMap fun p => [.tree p.1, .tree p.2]

def Param.constituents : Param → List Constituent
  | required name | rest name | keywords name => [.word (.ident name)]
  | optional name value => [.word (.ident name), .tree value]

def Arg.constituents : Arg → List Constituent
  | positional value | spread value | spreadKeywords value => [.tree value]
  | keyword name value => [.word (.ident name), .tree value]

def Node.constituents : Node → List Constituent
  | int value _ => [.word (.int value)]
  | float value _ => [.word (.float value)]
  | str value _ | load value _ _ => [.word (.str value)]
  | ident name _ => [.word (.ident name)]
  | list nodes _ | block nodes _ => nodes.map .tree
  | map entries _ => pairTrees entries
  | assign name value _ => [.word (.ident name), .tree value]
  | multiAssign names value _ => nameWords names ++ [.tree value]
  | alias_ name newName _ => nameWords [name, newName]
  | indexAssign target index value _ => [.tree target, .tree index, .tree value]
  | del names _ | using_ names _ _ => nameWords names
  | binary _ left right _ => [.tree left, .tree right]
  | unary _ value _ | await value _ => [.tree value]
  | branch cases_ otherwise _ _ => pairTrees cases_ ++ otherwise.toList.map .tree
  | forRange var start stop step body _ _ =>
    .word (.ident var) :: .tree start :: .tree stop :: (step.toList.map .tree ++ [.tree body])
  | forIn vars iterable body _ _ => nameWords vars ++ [.tree iterable, .tree body]
  | while_ condition body _ _ => [.tree condition, .tree body]
  | function name params body _ _ decorators _ =>
    decorators.map .tree ++ nameWords name.toList ++ params.flatMap Param.constituents ++ [.tree body]
  | call callee args _ => .tree callee :: args.flatMap Arg.constituents
  | member object name _ => [.tree object, .word (.ident name)]
  | return_ value _ => value.toList.map .tree
  | continue_ _ | break_ _ => []
  | namespace_ name body _ => .word (.ident name) :: body.map .tree

def Lexeme.isAssign (l : Lexeme) : Bool := l.token.isSymbol .assign

structure Frames (lexemes : List Lexeme) (span : Span) : Prop where
  first : ∃ l ∈ lexemes.head?, l.isAssign = false ∧ l.span.start = span.start
  last : ∃ l ∈ lexemes.getLast?, l.isAssign = false ∧ l.span.stop ≤ span.stop
  stop : ∃ l ∈ lexemes, l.isAssign = false ∧ l.span.stop = span.stop

inductive Covers : List Lexeme → List Constituent → Prop
  | nil : Covers [] []
  | silent {l lexemes items} : l.token.isSilent = true → Covers lexemes items → Covers (l :: lexemes) items
  | word {l lexemes items} : l.token.isPayload = true → Covers lexemes items →
      Covers (l :: lexemes) (.word l.token :: items)
  | tree {core lexemes n items} : Covers core n.constituents → Frames core n.span → Covers lexemes items →
      Covers (core ++ lexemes) (.tree n :: items)

lemma Frames.ne_nil (h : Frames core span) : core ≠ [] := by
  obtain ⟨l, hl, -⟩ := h.stop
  exact ne_nil_of_mem hl

lemma Frames.extend {tail : List Lexeme} (h : Frames core span) (hlast : (core ++ tail).getLast? = some last)
    (ha : last.isAssign = false) :
    Frames (core ++ tail) ⟨span.start, max last.span.stop span.stop⟩ := by
  obtain ⟨first, hfirst, hfa, hstart⟩ := h.first
  obtain ⟨l, hl, hla, hstop⟩ := h.stop
  refine ⟨⟨first, ?_, hfa, hstart⟩, ⟨last, hlast, ha, le_max_left _ _⟩, ?_⟩
  · rw [Option.mem_def] at hfirst ⊢
    rw [head?_append, hfirst, Option.some_or]
  · rcases max_choice last.span.stop span.stop with hmax | hmax
    · exact ⟨last, mem_of_getLast? hlast, ha, hmax.symm⟩
    · exact ⟨l, mem_append_left _ hl, hla, hstop.trans hmax.symm⟩

lemma Frames.ofEnds {first : Lexeme} {tail : List Lexeme} (hf : first.isAssign = false)
    (hlast : (first :: tail).getLast? = some last) (ha : last.isAssign = false) :
    Frames (first :: tail) ⟨first.span.start, max last.span.stop first.span.stop⟩ := by
  have hself : Frames [first] first.span := ⟨⟨first, rfl, hf, rfl⟩, ⟨first, rfl, hf, le_rfl⟩, ⟨first, by simp, hf, rfl⟩⟩
  exact hself.extend hlast ha

namespace Covers

variable {lexemes tail : List Lexeme} {items more : List Constituent} {n : Node}

lemma append (h : Covers lexemes items) (h' : Covers tail more) : Covers (lexemes ++ tail) (items ++ more) := by
  induction h with
  | nil => exact h'
  | silent hl _ ih => exact .silent hl ih
  | word hl _ ih => exact .word hl ih
  | tree hcore hframe _ _ ih =>
    rw [append_assoc]
    exact .tree hcore hframe ih

lemma one (h : Covers lexemes n.constituents) (hf : Frames lexemes n.span) : Covers lexemes [.tree n] := by
  have hone := Covers.tree h hf .nil
  rwa [append_nil] at hone

lemma uncons (h : Covers lexemes (.tree n :: items)) : ∃ front core rest, lexemes = front ++ (core ++ rest) ∧
    Covers front [] ∧ Covers core n.constituents ∧ Frames core n.span ∧ Covers rest items := by
  generalize hall : Constituent.tree n :: items = all at h
  induction h with
  | nil => contradiction
  | @silent l _ _ hl _ ih =>
    obtain ⟨front, core, rest, rfl, hfront, hcore⟩ := ih hall
    exact ⟨l :: front, core, rest, rfl, .silent hl hfront, hcore⟩
  | word => cases hall
  | @tree core rest _ _ hcore hframe hrest =>
    cases hall
    exact ⟨[], core, rest, rfl, .nil, hcore, hframe, hrest⟩

lemma ne_nil (h : Covers lexemes (.tree n :: items)) : lexemes ≠ [] := by
  obtain ⟨front, core, rest, rfl, -, -, hframe, -⟩ := h.uncons
  simp [hframe.ne_nil]

lemma not_eof (h : Covers lexemes items) : ∀ l ∈ lexemes, l.token ≠ .eof := by
  induction h with
  | nil => exact forall_mem_nil _
  | silent hl _ ih | word hl _ ih =>
    refine forall_mem_cons.2 ⟨fun he => ?_, ih⟩
    rw [he] at hl
    contradiction
  | tree _ _ _ ihcore ih =>
    intro l hl
    rcases mem_append.1 hl with hl | hl
    · exact ihcore l hl
    · exact ih l hl

end Covers

end ScriptMachine
