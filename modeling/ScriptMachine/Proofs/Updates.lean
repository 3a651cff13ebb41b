import ScriptMachine.Proofs.Consumption
import ScriptMachine.Proofs.Nesting
import ScriptMachine.Proofs.Placement

/-! What the parser makes of lexemes, and of augmented assignments among them. -/

namespace ScriptMachine

open List

structure Update (all : List Lexeme) where
  before : List Lexeme
  name : String
  place : Span
  equals : Lexeme
  op : BinaryOp
  operator : Span
  rest : List Lexeme
  lexemes : all = before ++ ⟨.ident name, place, false⟩ :: equals :: ⟨.ident name, place, false⟩ ::
    ⟨op.token, operator, true⟩ :: rest
  isAssign : equals.token = .symbol .assign
  augmentable : op.token.augmentable = true

namespace Update

variable {all : List Lexeme} (u : Update all)

def left : Nat := u.rest.length + 2

def startsStatement : Bool := u.before.getLast?.any Lexeme.isImplicit

/-- Where the reading of an augmented assignment is decided: at the `let` that was put in, or at the equals sign. -/
def key : Nat := if u.startsStatement then u.left + 2 else u.left

/-- What is read after the operator, by a parser that does not run out of rounds. -/
def Takes (read : Productions → Reader Node) (right : Node) : Prop :=
  ∃ height, ∃ c d : Cursor, u.rest.length ≤ height ∧ c.lexemes = u.rest ∧
    c.behind = some ⟨u.op.token, u.operator, true⟩ ∧ read (.tower height) c.skipNewlines.1 = .ok right d

inductive Leads : Node → Prop
  | here {right span} : u.Takes (·.climb (.rightOf u.op)) right →
      Leads (.binary u.op (.ident u.name u.place) right span)
  | binary {op left right span} : Leads left → Leads (.binary op left right span)
  | call {callee args span} : Leads callee → Leads (.call callee args span)
  | member {object key span} : Leads object → Leads (.member object key span)
  | indexAssign {target index value span} : Leads target → Leads (.indexAssign target index value span)

structure Inside (value : Node) : Prop where
  leads : u.Leads value
  inside : u.startsStatement = false

end Update

/-- What an augmented assignment has become. Only the first is an assignment to its name; elsewhere the name is the
last word of something else, and just the value is made of it. -/
inductive Node.Performs {all : List Lexeme} (u : Update all) : Node → Prop
  | assign {right inner span} : u.Takes Productions.expr right →
      Performs u (.assign u.name (.binary u.op (.ident u.name u.place) right inner) span)
  | element {target index value span} : u.Inside value → Performs u (.indexAssign target index value span)
  | names {names value span} : u.Inside value → names.getLast? = some u.name →
      Performs u (.multiAssign names value span)
  | range {start stop step body multiline span} : u.Inside start →
      Performs u (.forRange u.name start stop step body multiline span)
  | argument {callee args value span} : u.Inside value → .keyword u.name value ∈ args →
      Performs u (.call callee args span)
  | default {name params value body autoReturn isAsync decorators span} : u.Inside value →
      .optional u.name value ∈ params → Performs u (.function name params body autoReturn isAsync decorators span)

section has

variable {all : List Lexeme} (u : Update all)

def Node.Has (n : Node) (u : Update all) : Prop := ∃ m ∈ n.subtrees, m.Performs u

def Arg.Has (a : Arg) (u : Update all) : Prop :=
  (State.argumentNode a).Has u ∨ ∃ value, a = .keyword u.name value ∧ u.Inside value

def Param.Has (p : Param) (u : Update all) : Prop :=
  (∃ n ∈ p.default?, n.Has u) ∨ ∃ value, p = .optional u.name value ∧ u.Inside value

variable {u} {n k : Node}

lemma Node.Performs.has (h : n.Performs u) : n.Has u := ⟨n, n.mem_subtrees_self, h⟩

lemma Node.Has.child (h : k.Has u) (hk : k ∈ n.children) : n.Has u := by
  obtain ⟨m, hm, hperforms⟩ := h
  exact ⟨m, mem_cons_of_mem _ (mem_within.2 ⟨k, hk, hm⟩), hperforms⟩

lemma Node.Has.inside (h : n.Has u) (hn : ¬n.Performs u) : ∃ k ∈ n.children, k.Has u := by
  obtain ⟨m, hm, hperforms⟩ := h
  rcases mem_cons.1 hm with rfl | hm
  · exact absurd hperforms hn
  · obtain ⟨k, hk, hm⟩ := mem_within.1 hm
    exact ⟨k, hk, m, hm, hperforms⟩

end has

/-- Where the reading of a list starts. Augmented assignments are tracked if each `let` that was put in starts a
statement. -/
structure Start where
  cursor : Cursor
  closed : cursor.Closed
  tracked : Bool
  implicit : tracked = true → ∀ front l rest, cursor.lexemes = front ++ l :: rest → l.isImplicit = true →
    ∀ b ∈ front.getLast?.or cursor.behind, b.token.endsStatement = true

def Start.untracked {c : Cursor} (h : c.Closed) : Start := ⟨c, h, false, by simp⟩

lemma eq_of_suffix {l l' all : List Lexeme} (h : l <:+ all) (h' : l' <:+ all) (hlength : l.length = l'.length) :
    l = l' :=
  (suffix_of_suffix_length_le h h' hlength.le).eq_of_length hlength

namespace Start

variable {s : Start} {c d : Cursor}

def Reaches (s : Start) (c : Cursor) : Prop := s.cursor.Before c

lemma reaches_cursor (s : Start) : s.Reaches s.cursor := .refl _

lemma Reaches.closed (h : s.Reaches c) : c.Closed := by
  obtain ⟨between, hpass⟩ := h
  exact hpass.closed s.closed

lemma Reaches.behind (h : s.Reaches c) :
    ∃ front, s.cursor.lexemes = front ++ c.lexemes ∧ c.behind = front.getLast?.or s.cursor.behind := by
  obtain ⟨front, hpass⟩ := h
  exact ⟨front, hpass.lexemes, hpass.behind⟩

lemma Reaches.step (h : s.Reaches c) (he : c.token ≠ .eof) : c.step.left + 1 = c.left ∧
    c.step.behind = some c.current := by
  have hstep := Cursor.Passes.step h.closed he
  have hleft := hstep.left
  rw [length_singleton] at hleft
  exact ⟨by omega, hstep.behind⟩

lemma Reaches.eq_of_left (h : s.Reaches c) (h' : s.Reaches d) (hleft : d.left = c.left) : d = c := by
  have hlexemes : d.lexemes = c.lexemes :=
    eq_of_suffix h'.suffix h.suffix (by rw [Cursor.length_lexemes, Cursor.length_lexemes, hleft])
  obtain ⟨front, hfront, hbehind⟩ := h.behind
  obtain ⟨front', hfront', hbehind'⟩ := h'.behind
  have hsame : front' = front := append_cancel_right (hfront'.symm.trans (hlexemes ▸ hfront))
  obtain ⟨b, l, ahead⟩ := c
  obtain ⟨b', l', ahead'⟩ := d
  cases hlexemes
  obtain rfl : b' = b := hbehind'.trans (hsame ▸ hbehind.symm)
  rfl

lemma Reaches.not_implicit (h : s.Reaches c) (hs : s.tracked = true)
    (hb : ∃ b ∈ c.behind, b.token.endsStatement = false) :
    c.current.isImplicit = false := by
  obtain ⟨b, hb, hends⟩ := hb
  obtain ⟨front, hfront, hbehind⟩ := h.behind
  refine Bool.eq_false_iff.2 fun himplicit => ?_
  have hstatement := s.implicit hs front c.current c.ahead hfront himplicit b (hbehind ▸ hb)
  rw [hends] at hstatement
  contradiction

end Start

namespace Update

variable {s : Start} {c : Cursor} (u : Update s.cursor.lexemes) (h : s.Reaches c)

include h

lemma lexemes_of_length {back : List Lexeme} (hback : back <:+ s.cursor.lexemes)
    (hleft : back.length = c.left + 1) : c.lexemes = back :=
  eq_of_suffix h.suffix hback (by rw [Cursor.length_lexemes, hleft])

lemma after_equals (hleft : c.left + 1 = u.left) :
    c.lexemes = ⟨.ident u.name, u.place, false⟩ :: ⟨u.op.token, u.operator, true⟩ :: u.rest := by
  refine lexemes_of_length h ⟨u.before ++ [⟨.ident u.name, u.place, false⟩, u.equals], ?_⟩ ?_
  · simp [u.lexemes]
  · simp only [left, length_cons] at hleft ⊢
    omega

lemma at_equals (hleft : c.left = u.left) : c.current = u.equals ∧ c.behind = some ⟨.ident u.name, u.place, false⟩ := by
  obtain ⟨front, hfront, hbehind⟩ := h.behind
  have hlexemes : c.lexemes = u.equals :: ⟨.ident u.name, u.place, false⟩ :: ⟨u.op.token, u.operator, true⟩ ::
    u.rest := by
    refine lexemes_of_length h ⟨u.before ++ [⟨.ident u.name, u.place, false⟩], ?_⟩ ?_
    · simp [u.lexemes]
    · simp only [left, length_cons] at hleft ⊢
      omega
  have hsame : front = u.before ++ [⟨.ident u.name, u.place, false⟩] := by
    refine append_cancel_right (hfront.symm.trans (u.lexemes.trans ?_))
    rw [hlexemes, append_assoc]
    rfl
  refine ⟨(List.cons.inj hlexemes).1, ?_⟩
  rw [hbehind, hsame, getLast?_concat, Option.some_or]

lemma at_let (hu : u.startsStatement = true) (hleft : c.left = u.left + 2) : c.current.isImplicit = true := by
  rw [startsStatement, Option.any_eq_true] at hu
  obtain ⟨l, hl, himplicit⟩ := hu
  obtain ⟨front, hfront⟩ := getLast?_eq_some_iff.1 hl
  have hlexemes : c.lexemes = l :: ⟨.ident u.name, u.place, false⟩ :: u.equals :: ⟨.ident u.name, u.place, false⟩ ::
      ⟨u.op.token, u.operator, true⟩ :: u.rest := by
    refine lexemes_of_length h ⟨front, ?_⟩ ?_
    · refine (u.lexemes.trans ?_).symm
      rw [hfront, append_assoc]
      rfl
    · simp only [left, length_cons] at hleft ⊢
      omega
  rw [(List.cons.inj hlexemes).1]
  exact himplicit

lemma at_key (hleft : u.key = c.left) : (c.token = .symbol .assign ∧ u.startsStatement = false ∧ u.left = c.left) ∨
      (c.current.isImplicit = true ∧ u.startsStatement = true ∧ u.left + 2 = c.left) := by
  unfold key at hleft
  split at hleft
  · rename_i hstarts
    exact .inr ⟨u.at_let h hstarts hleft.symm, hstarts, hleft⟩
  · rename_i hstarts
    refine .inl ⟨?_, Bool.eq_false_iff.2 hstarts, hleft⟩
    rw [Cursor.token, (u.at_equals h hleft.symm).1]
    exact u.isAssign

lemma of_key_equals (ht : c.token = .symbol .assign) (hkey : u.key = c.left) :
    u.startsStatement = false ∧ c.left = u.left := by
  rcases u.at_key h hkey with ⟨-, hinside, hleft⟩ | ⟨himplicit, -⟩
  · exact ⟨hinside, hleft.symm⟩
  · rw [Lexeme.isImplicit, show c.current.token = _ from ht] at himplicit
    contradiction

lemma of_key_let (ht : c.token = .keyword .let_) (hkey : u.key = c.left) : c.left = u.left + 2 := by
  rcases u.at_key h hkey with ⟨hassign, -⟩ | ⟨-, -, hleft⟩
  · rw [ht] at hassign
    contradiction
  · exact hleft.symm

lemma name_of_behind {name : String} (hleft : c.left = u.left)
    (hb : ∃ l ∈ c.behind, l.token = .ident name) : u.name = name := by
  obtain ⟨l, hl, htoken⟩ := hb
  rw [(u.at_equals h hleft).2] at hl
  cases hl
  exact Token.ident.inj htoken

end Update

def Start.IsValue (s : Start) (c : Cursor) (value : Node) : Prop :=
  ∀ u : Update s.cursor.lexemes, c.left + 1 = u.left → u.Leads value

namespace Token

def isOperator : Token → Bool
  | keyword .let_ | symbol .assign => false
  | t => t.isSilent && t.bracket?.isNone

def isNeutral (t : Token) : Bool := t.isOperator && !t.augmentable

lemma isOperator_spec {t : Token} (h : t.isOperator = true) :
    t.isSilent = true ∧ t.bracket? = none ∧ t ≠ .symbol .assign ∧ t ≠ .keyword .let_ := by
  unfold isOperator at h
  split at h
  · contradiction
  · contradiction
  · rename_i hlet hassign
    rw [Bool.and_eq_true, Option.isNone_iff_eq_none] at h
    exact ⟨h.1, h.2, hassign, hlet⟩

end Token

def Lexeme.MayPrecede (l m : Lexeme) : Prop := l.token.augmentable = true → m.isAssign = false

inductive Portion where
  | word (t : Token)
  | tree (n : Node)
  | arg (a : Arg)
  | param (p : Param)

namespace Portion

def constituents : Portion → List Constituent
  | word t => [.word t]
  | tree n => [.tree n]
  | arg a => a.constituents
  | param p => p.constituents

def Has {all : List Lexeme} (u : Update all) : Portion → Prop
  | word _ => False
  | tree n => n.Has u
  | arg a => a.Has u
  | param p => p.Has u

abbrev words (names : List String) : List Portion := names.map fun name => word (.ident name)

abbrev pairs (ps : List (Node × Node)) : List Portion := ps.flatMap fun p => [tree p.1, tree p.2]

@[simp] lemma constituents_words (names : List String) : (words names).flatMap constituents = nameWords names := by
  rw [flatMap_map, nameWords, map_eq_flatMap]
  rfl

@[simp] lemma constituents_trees (nodes : List Node) : (nodes.map tree).flatMap constituents = nodes.map .tree := by
  rw [flatMap_map, map_eq_flatMap]
  rfl

@[simp] lemma constituents_params (ps : List Param) :
    (ps.map param).flatMap constituents = ps.flatMap Param.constituents := flatMap_map ..

@[simp] lemma constituents_pairs (ps : List (Node × Node)) : (pairs ps).flatMap constituents = pairTrees ps := by
  rw [flatMap_assoc]
  rfl

end Portion

def Node.Keeps (n : Node) (made : List Portion) : Prop :=
  (∀ a, .arg a ∈ made → ∃ callee args span, n = .call callee args span ∧ a ∈ args) ∧
    ∀ p, .param p ∈ made → ∃ name params body autoReturn isAsync decorators span,
      n = .function name params body autoReturn isAsync decorators span ∧ p ∈ params

lemma tree_mem_pairTrees {k : Node} {pairs : List (Node × Node)} :
    .tree k ∈ pairTrees pairs ↔ k ∈ pairs.map Prod.fst ++ pairs.map Prod.snd := by
  simp only [pairTrees, mem_flatMap, mem_pair, Constituent.tree.injEq, mem_append, mem_map,
    and_or_left, exists_or, eq_comm]

lemma Param.tree_mem_iff {k : Node} {p : Param} : .tree k ∈ p.constituents ↔ p.default? = some k := by
  cases p <;> simp [Param.default?, Param.constituents, eq_comm]

lemma Arg.tree_mem_iff {k : Node} {a : Arg} : .tree k ∈ a.constituents ↔ State.argumentNode a = k := by
  cases a <;> simp [State.argumentNode, Arg.constituents, eq_comm]

lemma Node.tree_mem_iff {n k : Node} : .tree k ∈ n.constituents ↔ k ∈ n.children := by
  cases n with
  | map entries => exact tree_mem_pairTrees
  | branch cases_ otherwise => simp [constituents, children, parts, tree_mem_pairTrees, or_assoc]
  | function name params body autoReturn isAsync decorators =>
    simp only [constituents, children, nameWords, mem_append, mem_flatMap, mem_map, mem_cons,
      mem_filterMap, Param.tree_mem_iff, Constituent.tree.injEq, reduceCtorEq, and_false, exists_false,
      exists_eq_right, not_mem_nil, or_false]
    rw [or_comm, or_comm (a := k ∈ decorators)]
  | call callee args => simp [constituents, children, parts, Arg.tree_mem_iff]
  | forRange =>
    simp only [constituents, children, parts, mem_cons, mem_append, mem_map, reduceCtorEq,
      Constituent.tree.injEq, exists_eq_right, not_mem_nil, or_false, false_or]
    tauto
  | _ => simp [children, parts, constituents, nameWords]

lemma Portion.Has.node {all : List Lexeme} {u : Update all} {made : List Portion} {m : Portion} {n : Node}
    (h : m.Has u) (hk : n.Keeps made) (hmade : m ∈ made) (hm : ∀ k ∈ m.constituents, k ∈ n.constituents) : n.Has u := by
  cases m with
  | word => exact h.elim
  | tree k => exact Node.Has.child h (Node.tree_mem_iff.1 (hm _ (mem_singleton_self _)))
  | arg a =>
    obtain ⟨callee, args, span, rfl, ha⟩ := hk.1 a hmade
    rcases h with hhas | ⟨value, rfl, hinside⟩
    · exact hhas.child (mem_cons_of_mem _ (mem_map_of_mem ha))
    · exact (Node.Performs.argument hinside ha).has
  | param p =>
    obtain ⟨name, params, body, autoReturn, isAsync, decorators, span, rfl, hp⟩ := hk.2 p hmade
    rcases h with ⟨k, hk, hhas⟩ | ⟨value, rfl, hinside⟩
    · exact hhas.child (mem_cons_of_mem _ (mem_append_left _ (mem_filterMap.2 ⟨p, hp, hk⟩)))
    · exact (Node.Performs.default hinside hp).has

/-- The brackets that have to be closed, the equals signs that are not accounted for, and whether an operator or an
equals sign was the last lexeme. -/
structure Pending where
  due : List Symbol := []
  owed : List Nat := []
  operand : Bool := false

abbrev Pending.settled (w : Pending) : Pending := { w with operand := false }

structure Crosses (s : Start) (w : Pending) (o : Cursor) (between : List Lexeme) (made : List Portion) (c : Cursor) :
    Prop where
  start : s.Reaches o
  passes : o.Passes between c
  covers : Covers between (made.flatMap Portion.constituents)
  due : dueAfter [] (bracketsOf between) = some w.due
  updates : s.tracked = true → ∀ u : Update s.cursor.lexemes, c.left < u.key → u.key ≤ o.left →
    u.key ∈ w.owed ∨ ∃ m ∈ made, m.Has u
  apart : between.IsChain Lexeme.MayPrecede
  last : w.operand = false → ∀ l ∈ between.getLast?, l.MayPrecede c.current ∧ l.isAssign = false

def Travels (s : Start) (w : Pending) (o : Cursor) (made : List Portion) (c : Cursor) : Prop :=
  ∃ between, Crosses s w o between made c

structure Advances (s : Start) (w : Pending) (o : Cursor) (made : List Portion) (c : Cursor) : Prop where
  eof : c.token ≠ .eof
  left : c.step.left + 1 = c.left
  travels : Travels s w o made c.step

structure Start.Reads (s : Start) (P : Node → Prop) (c : Cursor) (n : Node) (d : Cursor) : Prop where
  travels : Travels s {} c [.tree n] d
  start : c.current.isAssign = false
  shape : P n

variable {s : Start} {w w' : Pending} {o c d : Cursor} {made more : List Portion} {n : Node}

lemma Crosses.mayPrecede {between : List Lexeme} (h : Crosses s w o between made c)
    (hw : w.operand = true → c.current.isAssign = false) : ∀ l ∈ between.getLast?, l.MayPrecede c.current := by
  intro l hl
  cases ho : w.operand with
  | false => exact (h.last ho l hl).1
  | true => exact fun _ => hw ho

namespace Travels

variable {owed : List Nat} {t : Token} {b : Symbol}

lemma refl (h : s.Reaches c) : Travels s {} c [] c :=
  ⟨[], h, .refl c, .nil, rfl, fun _ _ hlt hle => absurd hle (by omega), .nil, fun _ _ hl => absurd hl (by simp)⟩

lemma lt_left (h : Travels s w o (.tree n :: made) c) : c.left < o.left := by
  obtain ⟨between, h⟩ := h
  have hlength := length_pos_of_ne_nil (Covers.ne_nil (n := n) h.covers)
  have := h.passes.left
  omega

lemma bracketsOf_current (h : c.token.bracket? = none) : bracketsOf [c.current] = [] := filterMap_cons_none h

lemma isAssign_of_token (ht : c.token = t) (h : t ≠ .symbol .assign) : c.current.isAssign = false :=
  Bool.eq_false_iff.2 fun ha => h (ht.symm.trans (Token.eq_of_isSymbol ha))

lemma unsettle (h : Travels s w.settled o made c) : Travels s w o made c := by
  obtain ⟨between, h⟩ := h
  exact ⟨between, h.start, h.passes, h.covers, h.due, h.updates, h.apart, fun _ => h.last rfl⟩

section

variable (h : Travels s w o made c)

include h

lemma before : o.Before c := by
  obtain ⟨between, h⟩ := h
  exact ⟨between, h.passes⟩

lemma reaches : s.Reaches c := by
  have hbefore := h.before
  obtain ⟨between, h⟩ := h
  exact Cursor.Before.trans h.start hbefore

lemma advance (held : List Portion) (hcovers : Covers [c.current] (held.flatMap Portion.constituents))
    (hdue : dueAfter w.due (bracketsOf [c.current]) = some w'.due) (howed : w.owed ⊆ w'.owed)
    (hkey : s.tracked = true → ∀ u : Update s.cursor.lexemes, u.key = c.left → c.left ∈ w'.owed)
    (hoperand : w.operand = true → c.current.isAssign = false)
    (hoperand' : w'.operand = false → c.token.augmentable = false ∧ c.current.isAssign = false) :
    Advances s w' o (made ++ held) c := by
  have he : c.token ≠ .eof := hcovers.not_eof c.current mem_cons_self
  have hstep := Cursor.Passes.step h.reaches.closed he
  have hleft := hstep.left
  rw [length_singleton] at hleft
  obtain ⟨between, h⟩ := h
  refine ⟨he, by omega, between ++ [c.current], h.start, h.passes.trans hstep, ?_, ?_, fun hs u hlt hle => ?_, ?_,
    fun hw l hl => ?_⟩
  · rw [flatMap_append]
    exact h.covers.append hcovers
  · rw [bracketsOf_append, dueAfter_append, h.due]
    exact hdue
  · by_cases hu : u.key = c.left
    · exact .inl (hu ▸ hkey hs u hu)
    · exact (h.updates hs u (by omega) hle).imp (howed ·) (Exists.imp fun m hm => ⟨mem_append_left _ hm.1, hm.2⟩)
  · refine isChain_append.2 ⟨h.apart, .singleton _, fun l hl m hm => ?_⟩
    exact Option.some.inj hm ▸ h.mayPrecede hoperand l hl
  · rw [getLast?_concat] at hl
    cases hl
    obtain ⟨haugmentable, hassign⟩ := hoperand' hw
    exact ⟨fun ha => absurd (haugmentable.symm.trans ha) (by simp), hassign⟩

lemma skip (hsilent : c.token.isSilent = true)
    (hdue : dueAfter w.due (bracketsOf [c.current]) = some w'.due) (howed : w.owed ⊆ w'.owed)
    (hkey : s.tracked = true → ∀ u : Update s.cursor.lexemes, u.key = c.left → c.left ∈ w'.owed)
    (hoperand : w.operand = true → c.current.isAssign = false)
    (hoperand' : w'.operand = false → c.token.augmentable = false ∧ c.current.isAssign = false) :
    Advances s w' o made c := by
  have hstep := h.advance [] (.silent hsilent .nil) hdue howed hkey hoperand hoperand'
  rwa [append_nil] at hstep

lemma not_key (hassign : c.token ≠ .symbol .assign) (hlet : c.token ≠ .keyword .let_)
    (u : Update s.cursor.lexemes) : u.key ≠ c.left := by
  intro hkey
  rcases u.at_key h.reaches hkey with ⟨ht, -⟩ | ⟨himplicit, -⟩
  · exact hassign ht
  · rw [Lexeme.isImplicit, Bool.and_eq_true] at himplicit
    exact hlet (Token.eq_of_isKeyword himplicit.1)

lemma silent (ht : c.token.isOperator = true) {operand : Bool}
    (ho : operand = false → c.token.augmentable = false) : Advances s { w with operand } o made c := by
  obtain ⟨hsilent, hbracket, hassign, hlet⟩ := Token.isOperator_spec ht
  have hnot := isAssign_of_token rfl hassign
  refine h.skip hsilent ?_ (List.Subset.refl _) (fun _ u hu => absurd hu (h.not_key hassign hlet u)) (fun _ => hnot)
    fun hw => ⟨ho hw, hnot⟩
  rw [bracketsOf_current hbracket]
  rfl

lemma operator (ht : c.token = t) (hop : t.isOperator = true) :
    Advances s { w with operand := true } o made c := h.silent (ht ▸ hop) fun hw => absurd hw (by simp)

lemma neutral (ht : c.token = t) (hn : t.isNeutral = true) : Advances s w.settled o made c := by
  rw [← ht, Token.isNeutral, Bool.and_eq_true, Bool.not_eq_true'] at hn
  exact h.silent hn.1 fun _ => hn.2

lemma word {t : Token} (ht : c.token = t) (hp : t.isPayload = true) : Advances s w.settled o (made ++ [.word t]) c := by
  subst ht
  have hnot {t : Token} (hf : t.isPayload = false) : c.token ≠ t := fun he => by rw [he, hf] at hp; contradiction
  have hassign := isAssign_of_token rfl (hnot (t := .symbol .assign) rfl)
  have hplain : c.token.bracket? = none ∧ c.token.augmentable = false := by
    cases ht : c.token <;> first | exact ⟨rfl, rfl⟩ | (rw [ht] at hp; contradiction)
  refine h.advance [.word c.token] (.word hp .nil) ?_ (List.Subset.refl _)
    (fun _ u hu => absurd hu (h.not_key (hnot rfl) (hnot rfl) u)) (fun _ => hassign) fun _ => ⟨hplain.2, hassign⟩
  rw [bracketsOf_current hplain.1]
  rfl

lemma newlines : Travels s w o made c.skipNewlines.1 := by
  obtain ⟨behind, current, ahead⟩ := c
  rw [Cursor.skipNewlines]
  induction ahead generalizing behind current with
  | nil => exact h
  | cons next rest ih =>
    unfold Cursor.skipNewlinesFrom
    split
    · rename_i hn
      have hneutral : current.token.isNeutral = true := by
        cases ht : current.token <;> rw [ht] at hn <;> first | rfl | contradiction
      exact ih _ _ (h.neutral rfl hneutral).travels.unsettle
    · exact h

lemma bracket (ht : c.token = .symbol b) (hb : (Token.symbol b).bracket? = some b)
    {due : List Symbol} (hdue : dueStep w.due b = some due) : Advances s { w with due, operand := false } o made c := by
  have hassign : c.token ≠ .symbol .assign := by
    rw [ht]
    rintro ⟨⟩
    contradiction
  have hnot := isAssign_of_token rfl hassign
  refine h.skip (by rw [ht]; rfl) ?_ (List.Subset.refl _)
    (fun _ u hu => absurd hu (h.not_key hassign (by rw [ht]; simp) u)) (fun _ => hnot) fun _ => ⟨?_, hnot⟩
  · have hbrackets : bracketsOf [c.current] = [b] := filterMap_cons_some ((congrArg Token.bracket? ht).trans hb)
    rw [hbrackets, dueAfter, hdue]
    rfl
  · rw [ht]
    cases b <;> first | rfl | contradiction

lemma opened {closer : Symbol} (ht : c.token = .symbol b) (hb : b.closer? = some closer) :
    Advances s { w with due := closer :: w.due, operand := false } o made c :=
  h.bracket ht (by simp [Token.bracket?, hb]) (by simp [dueStep, hb])

lemma closed {b : Symbol} {due : List Symbol} (ht : c.token = .symbol b)
    (hb : b.isCloser = true) (hdue : w.due = b :: due) : Advances s { w with due, operand := false } o made c :=
  h.bracket ht (by simp [Token.bracket?, hb]) (by simp [dueStep, Symbol.closer?_of_isCloser hb, hdue])

lemma equals (ht : c.token = .symbol .assign) (hw : w.operand = false) :
    Advances s { w with owed := c.left :: w.owed, operand := true } o made c := by
  refine h.skip (by rw [ht]; rfl) ?_ (subset_cons_self _ _) (fun _ _ _ => mem_cons_self)
    (fun ho => absurd (hw.symm.trans ho) (by simp)) fun ho => absurd ho (by simp)
  rw [bracketsOf_current (by rw [ht]; rfl)]
  rfl

lemma step_let (ht : c.token = .keyword .let_) (howed : w.owed ⊆ owed)
    (hkey : s.tracked = true → ∀ u : Update s.cursor.lexemes, u.key = c.left → c.left ∈ owed) :
    Advances s { w with owed, operand := false } o made c := by
  have hnot := isAssign_of_token ht (by simp)
  refine h.skip (by rw [ht]; rfl) ?_ howed hkey (fun _ => hnot) fun _ => ⟨by rw [ht]; rfl, hnot⟩
  rw [bracketsOf_current (by rw [ht]; rfl)]
  rfl

lemma let_ (ht : c.token = .keyword .let_) :
    Advances s { w with owed := c.left :: w.owed, operand := false } o made c :=
  h.step_let ht (subset_cons_self _ _) fun _ _ _ => mem_cons_self

lemma written_let (ht : c.token = .keyword .let_)
    (hb : s.tracked = true → ∃ b ∈ c.behind, b.token.endsStatement = false) : Advances s w.settled o made c := by
  refine h.step_let ht (List.Subset.refl _) fun hs u hu => ?_
  rcases u.at_key h.reaches hu with ⟨ha, -⟩ | ⟨himplicit, -⟩
  · rw [ht] at ha
    contradiction
  · rw [h.reaches.not_implicit hs (hb hs)] at himplicit
    contradiction

lemma append (h' : Travels s {} c more d)
    (hw : w.operand = true → c.current.isAssign = false ∧ d.left < c.left) : Travels s w.settled o
    (made ++ more) d := by
  obtain ⟨between, h⟩ := h
  obtain ⟨between', h'⟩ := h'
  have hlast := h.mayPrecede fun ho => (hw ho).1
  refine ⟨between ++ between', h.start, h.passes.trans h'.passes, ?_, ?_, fun hs u hlt hle => ?_, ?_, fun _ l hl => ?_⟩
  · rw [flatMap_append]
    exact h.covers.append h'.covers
  · rw [bracketsOf_append, dueAfter_append, h.due]
    exact (nested_of_dueAfter h'.due).due_eq
  · by_cases hu : u.key ≤ c.left
    · obtain ⟨m, hm, hhas⟩ := (h'.updates hs u hlt hu).resolve_left not_mem_nil
      exact .inr ⟨m, mem_append_right _ hm, hhas⟩
    · exact (h.updates hs u (by omega) hle).imp_right (Exists.imp fun m hm => ⟨mem_append_left _ hm.1, hm.2⟩)
  · refine isChain_append.2 ⟨h.apart, h'.apart, fun l hl m hm => ?_⟩
    obtain - | ⟨first, tail⟩ := between'
    · contradiction
    · cases hm
      exact (List.cons.inj h'.passes.lexemes).1 ▸ hlast l hl
  · obtain - | ⟨first, tail⟩ := between'
    · have hleft := h'.passes.left
      simp only [length_nil, Nat.zero_add] at hleft
      obtain rfl := h'.passes.eq_of_left hleft.symm
      rw [append_nil] at hl
      cases ho : w.operand with
      | false => exact h.last ho l hl
      | true => exact absurd (hw ho).2 (Nat.lt_irrefl _)
    · rw [getLast?_append_of_ne_nil _ (cons_ne_nil _ _)] at hl
      exact h'.last rfl l hl

lemma trans (h' : Travels s {} c more d) (hw : w.operand = false) :
    Travels s w o (made ++ more) d := (h.append h' fun ho => absurd (hw.symm.trans ho) (by simp)).unsettle

lemma tree {P : Node → Prop} (hn : s.Reads P c n d) :
    Travels s w.settled o (made ++ [.tree n]) d := h.append hn.travels fun _ => ⟨hn.start, hn.travels.lt_left⟩

end

lemma become {m : Portion} (h : Travels s { owed } o made c) (hm : made.flatMap Portion.constituents = m.constituents)
    (hmade : ∀ m' ∈ made, ∀ u : Update s.cursor.lexemes, m'.Has u → m.Has u)
    (howed : ∀ u : Update s.cursor.lexemes, u.key ∈ owed → m.Has u) : Travels s {} o [m] c := by
  obtain ⟨between, h⟩ := h
  refine ⟨between, h.start, h.passes, ?_, h.due, fun hs u hlt hle => .inr ⟨m, mem_singleton_self _, ?_⟩,
    h.apart, h.last⟩
  · rw [flatMap_singleton, ← hm]
    exact h.covers
  · rcases h.updates hs u hlt hle with hu | ⟨m', hm', hhas⟩
    · exact howed u hu
    · exact hmade m' hm' u hhas

lemma frame (h : Travels s { owed } o made c)
    (hcovers : ∀ between, Covers between (made.flatMap Portion.constituents) → o.Passes between c →
      ∀ last, between.getLast? = some last → c.behind = some last → last.isAssign = false → Covers between [.tree n])
    (hlt : c.left < o.left) (hmade : ∀ m ∈ made, ∀ u : Update s.cursor.lexemes, m.Has u → n.Has u)
    (howed : ∀ u : Update s.cursor.lexemes, u.key ∈ owed → n.Performs u) : Travels s {} o [.tree n] c := by
  obtain ⟨between, h⟩ := h
  obtain ⟨tail, last, rfl, hend, hlast⟩ := h.passes.ends hlt
  have hassign := (h.last rfl last hend).2
  refine ⟨_, h.start, h.passes, ?_, h.due, fun hs u hlt hle => .inr ⟨_, mem_singleton_self _, ?_⟩, h.apart, h.last⟩
  · exact hcovers _ h.covers h.passes last hend hlast hassign
  · rcases h.updates hs u hlt hle with hu | ⟨m, hm, hhas⟩
    · exact (howed u hu).has
    · exact hmade m hm u hhas

lemma node (h : Travels s { owed } o made c) (hlt : c.left < o.left) (ho : o.current.isAssign = false)
    (hn : made.flatMap Portion.constituents = n.constituents) (hspan : n.span = c.spanFrom o.here) (hk : n.Keeps made)
    (howed : ∀ u : Update s.cursor.lexemes, u.key ∈ owed → n.Performs u) :
    Travels s {} o [.tree n] c := by
  refine h.frame (fun between hcovers hpass last hend hlast ha => ?_) hlt (fun m hm u hu => ?_) howed
  · obtain ⟨tail, -, rfl, -⟩ := hpass.ends hlt
    refine (hn ▸ hcovers).one ?_
    rw [hspan, Cursor.spanFrom, Cursor.previousEnd, hlast]
    exact .ofEnds ho hend ha
  · exact hu.node hk hm fun k hk => hn ▸ mem_flatMap.2 ⟨m, hm, hk⟩

lemma widen {m : Node} (h : Travels s { owed } o (.tree m :: made) c)
    (hn : n.constituents = .tree m :: made.flatMap Portion.constituents ∨
      n.constituents = m.constituents ++ made.flatMap Portion.constituents)
    (hspan : n.span = c.spanFrom m.span) (hm : ∀ u : Update s.cursor.lexemes, m.Has u → n.Has u) (hk : n.Keeps made)
    (howed : ∀ u : Update s.cursor.lexemes, u.key ∈ owed → n.Performs u) :
    Travels s {} o [.tree n] c := by
  refine h.frame (fun between hcovers hpass last hend hlast ha => ?_) h.lt_left (fun p hp u hu => ?_) howed
  · obtain ⟨front, core, rest, rfl, hfront, hcore, hframe, hrest⟩ := Covers.uncons (n := m) hcovers
    have hinside : Covers (core ++ rest) n.constituents := by
      rcases hn with hn | hn
      · rw [hn]
        exact .tree hcore hframe hrest
      · rw [hn]
        exact hcore.append hrest
    have hne : core ++ rest ≠ [] := by simp [hframe.ne_nil]
    rw [getLast?_append_of_ne_nil _ hne] at hend
    refine hfront.append (hinside.one ?_)
    rw [hspan, Cursor.spanFrom, Cursor.previousEnd, hlast]
    exact hframe.extend hend ha
  · rcases mem_cons.1 hp with rfl | hp
    · exact hm u hu
    · refine hu.node hk hp fun k hk => ?_
      have hmem := mem_flatMap.2 ⟨p, hp, hk⟩
      rcases hn with hn | hn
      · exact hn ▸ mem_cons_of_mem _ hmem
      · exact hn ▸ mem_append_right _ hmem

end Travels

def Parsed.Meets {α : Type} (s : Start) (Q : α → Cursor → Prop) : Parsed α → Prop
  | .ok a after => Q a after
  | .fail f after => s.Reaches after ∧ f.IsAt s.cursor.lexemes

def Reader.Agree {α : Type} (s : Start) (c : Cursor) (r r' : Reader α) (Q : α → Cursor → Prop) : Prop :=
  r c = r' c ∧ (r c).Meets s Q

namespace Reader.Agree

variable {b : Symbol} {rounds rounds' : Nat} {α β : Type} {r r' : Reader α} {f f' : α → Reader β}
  {P P' : α → Cursor → Prop} {Q : β → Cursor → Prop}

lemma ok {a : α} (h : Agree s c r r' P) (hr : r c = .ok a d) : P a d := by
  have hmeets := h.2
  rw [hr] at hmeets
  exact hmeets

lemma pure {a : α} (h : P a c) : Agree s c (Pure.pure a) (Pure.pure a) P := ⟨rfl, h⟩

lemma bind (hr : Agree s c r r' P) (hf : ∀ a d, P a d → Agree s d (f a) (f' a) Q) :
    Agree s c (r >>= f) (r' >>= f') Q := by
  obtain ⟨heq, hmeets⟩ := hr
  rw [Agree, bind_apply, bind_apply, ← heq]
  cases hread : r c with
  | ok a after =>
    rw [hread] at hmeets
    exact hf a after hmeets
  | fail fault after =>
    rw [hread] at hmeets
    exact ⟨rfl, hmeets⟩

lemma imp_ok (h : Agree s c r r' P) (hP : ∀ a d, r c = .ok a d → P a d → P' a d) : Agree s c r r' P' := by
  obtain ⟨heq, hmeets⟩ := h
  refine ⟨heq, ?_⟩
  cases hread : r c with
  | ok a after =>
    rw [hread] at hmeets
    exact hP a after hread hmeets
  | fail fault after =>
    rw [hread] at hmeets
    exact hmeets

lemma weaken (h : Agree s c r r' P) (hP : ∀ a d, P a d → P' a d) : Agree s c r r' P' := h.imp_ok fun a d _ => hP a d

lemma ite {b : Prop} {_ : Decidable b} {q q' : Reader α} (h : b → Agree s c r r' P) (h' : ¬b → Agree s c q q' P) :
    Agree s c (if b then r else q) (if b then r' else q') P := by
  split
  · exact h ‹_›
  · exact h' ‹_›

lemma fail {fault : SyntaxFault} (h : s.Reaches c) (hr : r c = .fail fault c) (hr' : r' c = .fail fault c)
    (hs : fault.span = c.here) (hf : fault.cause.isExhausted = false) : Agree s c r r' P := by
  rw [Agree, hr, hr']
  exact ⟨rfl, h, hf, .inl ⟨c.current, h.suffix.subset mem_cons_self, hs⟩⟩

lemma failHere {cause : SyntaxCause} (h : s.Reaches c) (hf : cause.isExhausted = false) :
    Agree s c (Reader.failHere cause) (Reader.failHere cause) P := fail h rfl rfl rfl hf

lemma unexpected {wanted : List String} (h : s.Reaches c) (hw : wanted ≠ []) :
    Agree s c (Reader.unexpected wanted) (Reader.unexpected wanted) P := by
  refine fail h rfl rfl rfl ?_
  cases wanted with
  | nil => contradiction
  | cons => rfl

lemma bind_here {f f' : Span → Reader β} (k : Agree s c (f c.here) (f' c.here) Q) :
    Agree s c (Reader.here >>= f) (Reader.here >>= f') Q := k

lemma bind_cursor {f f' : Cursor → Reader β} (k : Agree s c (f c) (f' c) Q) :
    Agree s c (Reader.cursor >>= f) (Reader.cursor >>= f') Q := k

lemma bind_spanFrom {f f' : Span → Reader β} {start : Span}
    (k : Agree s c (f (c.spanFrom start)) (f' (c.spanFrom start)) Q) :
    Agree s c (Reader.spanFrom start >>= f) (Reader.spanFrom start >>= f') Q := k

lemma bind_token {f f' : Token → Reader β} (k : ∀ t, c.token = t → Agree s c (f t) (f' t) Q) :
    Agree s c (Reader.token >>= f) (Reader.token >>= f') Q := k c.token rfl

lemma bind_atKeyword {w : Keyword} {f f' : Bool → Reader β}
    (k : ∀ b, c.token.isKeyword w = b → Agree s c (f b) (f' b) Q) :
    Agree s c (Reader.atKeyword w >>= f) (Reader.atKeyword w >>= f') Q := k _ rfl

lemma bind_resume {saved : Cursor} {f f' : Unit → Reader β} (k : Agree s saved (f ()) (f' ()) Q) :
    Agree s c (Reader.resume saved >>= f) (Reader.resume saved >>= f') Q := k

lemma ifSymbol {A A' B B' : Reader β} (h : c.token = .symbol b → Agree s c A A' Q) (h' : Agree s c B B' Q) :
    Agree s c (Reader.atSymbol b >>= fun b => if b = true then A else B)
      (Reader.atSymbol b >>= fun b => if b = true then A' else B') Q := by
  change Agree s c (if c.token.isSymbol b = true then A else B) (if c.token.isSymbol b = true then A' else B') Q
  exact ite (fun ht => h (Token.eq_of_isSymbol ht)) fun _ => h'

lemma ifKeyword {w : Keyword} {A A' B B' : Reader β} (h : c.token = .keyword w → Agree s c A A' Q)
    (h' : Agree s c B B' Q) :
    Agree s c (Reader.atKeyword w >>= fun b => if b = true then A else B)
      (Reader.atKeyword w >>= fun b => if b = true then A' else B') Q := by
  change Agree s c (if c.token.isKeyword w = true then A else B) (if c.token.isKeyword w = true then A' else B') Q
  exact ite (fun ht => h (Token.eq_of_isKeyword ht)) fun _ => h'

lemma bind_step {f f' : Unit → Reader β} (h : Advances s w o made c)
    (k : Travels s w o made c.step → c.step.left + 1 = c.left → Agree s c.step (f ()) (f' ()) Q) :
    Agree s c (Reader.step >>= f) (Reader.step >>= f') Q := k h.travels h.left

lemma bind_skipNewlines {f f' : Nat → Reader β} (h : Travels s w o made c)
    (k : Travels s w o made c.skipNewlines.1 → c.skipNewlines.1.left + c.skipNewlines.2 = c.left →
      Agree s c.skipNewlines.1 (f c.skipNewlines.2) (f' c.skipNewlines.2) Q) :
    Agree s c (Reader.skipNewlines >>= f) (Reader.skipNewlines >>= f') Q := k h.newlines c.left_skipNewlines

lemma expectSymbol (h : s.Reaches c) : Agree s c (Reader.expectSymbol b) (Reader.expectSymbol b)
    fun _ d => d = c.step ∧ c.token = .symbol b := ifSymbol (fun ht => ⟨rfl, rfl, ht⟩) (unexpected h (by simp))

lemma bind_expectSymbol {f f' : Unit → Reader β} (h : s.Reaches c) (ha : c.token = .symbol b → Advances s w o made c)
    (k : c.token = .symbol b → Travels s w o made c.step → c.step.left + 1 = c.left → Agree s c.step (f ()) (f' ()) Q) :
    Agree s c (Reader.expectSymbol b >>= f) (Reader.expectSymbol b >>= f') Q :=
  bind (expectSymbol h) fun _ _ hd => hd.1 ▸ k hd.2 (ha hd.2).travels (ha hd.2).left

lemma expectKeyword {b : Keyword} (h : s.Reaches c) : Agree s c (Reader.expectKeyword b) (Reader.expectKeyword b)
    fun _ d => d = c.step ∧ c.token = .keyword b := ifKeyword (fun ht => ⟨rfl, rfl, ht⟩) (unexpected h (by simp))

lemma bind_expectKeyword {b : Keyword} {f f' : Unit → Reader β} (h : s.Reaches c)
    (ha : c.token = .keyword b → Advances s w o made c)
    (k : c.token = .keyword b → Travels s w o made c.step → c.step.left + 1 = c.left →
      Agree s c.step (f ()) (f' ()) Q) :
    Agree s c (Reader.expectKeyword b >>= f) (Reader.expectKeyword b >>= f') Q :=
  bind (expectKeyword h) fun _ _ hd => hd.1 ▸ k hd.2 (ha hd.2).travels (ha hd.2).left

lemma bind_keyword {b : Keyword} {f f' : Unit → Reader β} (h : Travels s w o made c)
    (hb : (Token.keyword b).isNeutral = true)
    (k : c.token = .keyword b → Travels s w.settled o made c.step → c.step.left + 1 = c.left →
      Agree s c.step (f ()) (f' ()) Q) :
    Agree s c (Reader.expectKeyword b >>= f) (Reader.expectKeyword b >>= f') Q :=
  bind_expectKeyword h.reaches (fun ht => h.neutral ht hb) k

lemma bind_ident {f f' : String → Reader β} (h : Travels s w o made c)
    (k : ∀ name, c.token = .ident name → Travels s w.settled o (made ++ [.word (.ident name)]) c.step →
      c.step.left + 1 = c.left → Agree s c.step (f name) (f' name) Q) :
    Agree s c (Reader.ident >>= f) (Reader.ident >>= f') Q := by
  have hident : Agree s c Reader.ident Reader.ident fun name d => d = c.step ∧ c.token = .ident name := by
    refine bind_token fun t ht => ?_
    split
    · exact bind_step (h.word ht rfl) fun _ _ => pure ⟨rfl, ht⟩
    · exact failHere h.reaches rfl
  refine bind hident fun name d hd => ?_
  have hword := h.word hd.2 rfl
  exact hd.1 ▸ k name hd.2 hword.travels hword.left

lemma bind_tree {F : Node → Prop} {r r' : Reader Node} {f f' : Node → Reader β} (h : Travels s w o made c)
    (hr : Agree s c r r' (s.Reads F c))
    (k : ∀ n d, Travels s w.settled o (made ++ [.tree n]) d → d.left < c.left → F n → Agree s d (f n) (f' n) Q) :
    Agree s c (r >>= f) (r' >>= f') Q :=
  bind hr fun n d hn => k n d (h.tree hn) hn.travels.lt_left hn.shape

lemma bind_part {part : α → List Portion} {S : α → Cursor → Prop} (h : Travels s w o made c) (hw : w.operand = false)
    (hr : Agree s c r r' fun a d => Travels s {} c (part a) d ∧ S a d)
    (k : ∀ a d, Travels s w o (made ++ part a) d → d.left ≤ c.left → S a d → Agree s d (f a) (f' a) Q) :
    Agree s c (r >>= f) (r' >>= f') Q :=
  bind hr fun a d ha => k a d (h.trans ha.1 hw) ha.1.before.left_le ha.2

lemma attempt (hc : s.Reaches c) (h : Agree s c r r' P) : Agree s c (Reader.attempt r) (Reader.attempt r') fun e d =>
    (∀ a, e = .ok a → P a d) ∧ ∀ fault, e = .error fault → d = c ∧ fault.IsAt s.cursor.lexemes := by
  obtain ⟨heq, hmeets⟩ := h
  rw [Agree, Reader.attempt, Reader.attempt, ← heq]
  refine ⟨rfl, ?_⟩
  cases hread : r c with
  | ok a after =>
    rw [hread] at hmeets
    exact ⟨fun _ ha => Except.ok.inj ha ▸ hmeets, by simp⟩
  | fail fault after =>
    rw [hread] at hmeets
    by_cases hleft : after.left = c.left
    · simp only [if_pos hleft]
      refine ⟨by simp, fun fault' hf => ?_⟩
      cases hf
      exact ⟨hc.eq_of_left hmeets.1 hleft, hmeets.2⟩
    · simp only [if_neg hleft]
      exact hmeets

lemma moreNames (h : s.Reaches c) (hr : c.left < rounds) (hr' : c.left < rounds') :
    Agree s c (Reader.moreNames rounds) (Reader.moreNames rounds') fun names d =>
      Travels s {} c (Portion.words names) d ∧ (names = [] → d = c) ∧
        ∀ last ∈ names.getLast?, ∃ l ∈ d.behind, l.token = .ident last := by
  induction rounds generalizing c rounds' with
  | zero => omega
  | succ rounds ih =>
    obtain - | rounds' := rounds'
    · omega
    refine ifSymbol (fun ht => ?_) (pure ⟨.refl h, fun _ => rfl, by simp⟩)
    refine bind_step ((Travels.refl h).neutral ht rfl) fun h1 hlt1 => bind_ident h1 fun name hname h2 hlt2 => ?_
    refine bind_part h2 rfl (ih h2.reaches (by omega) (by omega)) fun rest d h3 _ hrest => pure ⟨h3, by simp, ?_⟩
    intro last hl
    cases rest with
    | nil =>
      cases hl
      rw [hrest.1 rfl]
      exact ⟨c.step.current, (h1.reaches.step (by rw [hname]; simp)).2, hname⟩
    | cons => exact hrest.2 last (by simpa using hl)

lemma names (h : s.Reaches c) (hr : c.left ≤ rounds) (hr' : c.left ≤ rounds') :
    Agree s c (Reader.names rounds) (Reader.names rounds') fun names d =>
      Travels s {} c (Portion.words names) d ∧ names ≠ [] ∧ d.left < c.left := by
  refine bind_ident (.refl h) fun name _ h1 hlt1 => ?_
  refine bind_part h1 rfl (moreNames h1.reaches (by omega) (by omega)) fun names d h2 hle2 _ => ?_
  exact pure ⟨h2, cons_ne_nil _ _, by omega⟩

lemma items {closer : Symbol} {part : α → List Portion} {E : α → Prop} {due : List Symbol}
    (hcl : closer.isCloser = true) (hr : c.left < rounds) (hr' : c.left < rounds')
    (h : Travels s { due := closer :: due } o made c) (hb : ∃ b ∈ c.behind, b.token.endsStatement = false)
    (hi : ∀ d, s.Reaches d → d.left ≤ c.left → (∃ b ∈ d.behind, b.token.endsStatement = false) →
      Agree s d r r' fun a after => Travels s {} d (part a) after ∧ after.left < d.left ∧ E a) :
    Agree s c (Reader.items closer r rounds) (Reader.items closer r' rounds') fun as d =>
      Travels s { due } o (made ++ as.flatMap part) d ∧ d.left < c.left ∧ ∀ a ∈ as, E a := by
  induction rounds generalizing c made rounds' with
  | zero => omega
  | succ rounds ih =>
    obtain - | rounds' := rounds'
    · omega
    refine ifSymbol (fun ht => ?_) ?_
    · refine bind_step (h.closed ht hcl rfl) fun h1 hlt1 => pure ⟨?_, by omega, forall_mem_nil _⟩
      rwa [flatMap_nil, append_nil]
    · refine bind_part h rfl (hi c h.reaches le_rfl hb) fun first c1 h1 hle1 hfirst => ifSymbol (fun ht => ?_) ?_
      · refine bind_step (h1.neutral ht rfl) fun h2 hlt2 => ?_
        have hcomma : ∃ b ∈ c1.step.behind, b.token.endsStatement = false :=
          ⟨c1.current, (h1.reaches.step (by rw [ht]; simp)).2, by rw [show c1.current.token = _ from ht]; rfl⟩
        refine bind (ih (by omega) (by omega) h2 hcomma fun d hd hle => hi d hd (by omega)) fun rest d hrest => ?_
        refine pure ⟨?_, by omega, forall_mem_cons.2 ⟨hfirst.2, hrest.2.2⟩⟩
        simpa using hrest.1
      · refine bind_expectSymbol h1.reaches (fun ht => h1.closed ht hcl rfl) fun _ h2 hlt2 => pure ⟨?_, by omega, ?_⟩
        · simpa using h2
        · exact forall_mem_singleton.2 hfirst.2

end Reader.Agree

end ScriptMachine
