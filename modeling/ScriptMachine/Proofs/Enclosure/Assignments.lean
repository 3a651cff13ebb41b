import ScriptMachine.Proofs.Enclosure.Productions
import ScriptMachine.Proofs.Enclosure.Texts
import ScriptMachine.Proofs.Updates.Programs

/-! An augmented assignment and the assignment that it stands for. -/

namespace ScriptMachine

open List Reader

open Productions

section loop

variable {g : Productions} {c : Cursor} {k : Nat}

lemma statementLoop_rest (h : c.skipNewlines = (c, 0)) : g.statementLoop false (k + 1) c = .ok ⟨[], none⟩ c := by
  rw [statementLoop, bind_apply]
  simp only [skipNewlines, h]
  rfl

lemma statementLoop_first (h : c.skipNewlines = (c, 0)) :
    g.statementLoop true (k + 1) c = match g.anyStatement c with
      | .ok n after => match g.statementLoop false k after with
        | .ok list stop => .ok ⟨n :: list.statements, list.unmatched⟩ stop
        | .fail fault stop => .fail fault stop
      | .fail fault after => if after.left = c.left then .ok ⟨[], some fault⟩ after else .fail fault after := by
  rw [statementLoop, bind_apply]
  simp only [skipNewlines, h, Bool.not_true, Bool.false_and, Bool.false_eq_true, if_false, bind_apply,
    attempt]
  cases g.anyStatement c with
  | ok n after =>
    dsimp only
    rw [bind_apply]
    cases g.statementLoop false k after <;> rfl
  | fail fault after =>
    by_cases hleft : after.left = c.left
    · simp only [hleft, if_true]
      rfl
    · simp only [hleft, if_false]

end loop

section statement

variable {text : String} {m : Module} {n : Node} {c after : Cursor}

abbrev startOf (text : String) : Cursor := (Start.ofText text).cursor

lemma left_eq_zero_iff (h : (startOf text).Before c) : c.token = .eof ↔ c.left = 0 := by
  obtain ⟨between, hpass⟩ := h
  obtain ⟨program, place, horderly, hlexemes⟩ := tokenize_orderly text
  have hall : program.reverse ++ [⟨.eof, place, false⟩] = between ++ c.lexemes := by
    rw [← hlexemes, ← Start.lexemes_ofText, hpass.lexemes]
  obtain ⟨behind, l, ahead⟩ := c
  obtain rfl | ⟨ahead, last, rfl⟩ := eq_nil_or_concat' ahead
  · obtain rfl := (List.cons.inj (append_inj_right' hall rfl)).1
    exact ⟨fun _ => rfl, fun _ => rfl⟩
  · have hprogram : program.reverse = between ++ l :: ahead := by
      rw [Cursor.lexemes, ← cons_append, ← append_assoc] at hall
      exact append_inj_left' hall rfl
    have hl : l :: between.reverse <:+ program := by
      refine ⟨ahead.reverse, ?_⟩
      rw [← reverse_reverse program, hprogram]
      simp
    have heof := (horderly _ _ hl).eof
    simp [Cursor.token, Cursor.left, heof]

lemma Reader.Progresses.before {r : Reader Node} (hr : Progresses c r) (h : r c = .ok n after) : c.Before after := by
  obtain ⟨between, -, -, hpass⟩ := hr.ok n after h
  exact ⟨between, hpass⟩

lemma progress_start (text : String) : (tower ((startOf text).left + 1)).Progress (startOf text) :=
  progress_tower (Start.ofText text).closed (Nat.lt_succ_self _)

section single

variable (hnew : ∀ l ∈ (tokenize text).lexemes, l.token ≠ .newline)
include hnew

lemma isNewline_of_before (h : (startOf text).Before c) : c.token.isNewline = false := by
  obtain ⟨between, hpass⟩ := h
  have hmem := hpass.mem
  rw [Start.lexemes_ofText] at hmem
  exact Token.isNewline_eq_false_iff.2 (hnew _ hmem)

lemma skipNewlines_eq (h : (startOf text).Before c) : c.skipNewlines = (c, 0) :=
  Cursor.skipNewlines_of_token (isNewline_of_before hnew h)

lemma leadingStatements_single :
    leadingStatements (tokenize text).lexemes =
      match (tower ((startOf text).left + 1)).anyStatement (startOf text) with
      | .ok n after => .ok ⟨[n], none⟩ after
      | .fail fault after =>
        if after.left = (startOf text).left then .ok ⟨[], some fault⟩ after else .fail fault after := by
  have hloop : leadingStatements (tokenize text).lexemes = (tower ((startOf text).left + 1)).anyStatements
    (startOf text) :=
    rfl
  rw [hloop, anyStatements, rounds_tower, statementLoop_first (skipNewlines_eq hnew ⟨[], .refl _⟩)]
  cases hread : (tower ((startOf text).left + 1)).anyStatement (startOf text) with
  | ok n after =>
    have hafter := skipNewlines_eq hnew ((progress_start text).statement.before hread)
    dsimp only
    rw [statementLoop_rest hafter]
  | fail fault after => rfl

lemma parseModule_single (h : parseModule text = .ok m) :
    (startOf text).token = .eof ∧ m.statements = [] ∨
      ∃ n after, (tower ((startOf text).left + 1)).anyStatement (startOf text) = .ok n after ∧ after.left = 0 ∧
        m.statements = [n] := by
  obtain ⟨lexemes, htokens, hparsed⟩ := parseModule_ok h
  obtain rfl : (tokenize text).lexemes = lexemes := by rw [htokens]
  obtain ⟨list, stop, hread, rfl, -, heof⟩ := parseLexemes_ok hparsed
  rw [leadingStatements_single hnew] at hread
  cases hfirst : (tower ((startOf text).left + 1)).anyStatement (startOf text) with
  | ok n after =>
    rw [hfirst] at hread
    obtain ⟨rfl, rfl⟩ := Parsed.ok.inj hread
    have hbefore := (progress_start text).statement.before hfirst
    rw [skipNewlines_eq hnew hbefore] at heof
    exact .inr ⟨n, after, rfl, (left_eq_zero_iff hbefore).1 heof, rfl⟩
  | fail fault after =>
    have htried : attempt (tower ((startOf text).left + 1)).anyStatement (startOf text) =
        if after.left = (startOf text).left then .ok (.error fault) after else .fail fault after := by
      rw [attempt, hfirst]
    rw [hfirst] at hread
    dsimp only at hread
    split at hread
    · rename_i hleft
      obtain ⟨rfl, rfl⟩ := Parsed.ok.inj hread
      rw [if_pos hleft] at htried
      obtain rfl := (progress_start text).statement.attempt fault after htried
      rw [skipNewlines_eq hnew ⟨[], .refl _⟩] at heof
      exact .inl ⟨heof, rfl⟩
    · contradiction

lemma parseModule_of_statement (hfault : (tokenize text).fault = none)
    (h : (tower ((startOf text).left + 1)).anyStatement (startOf text) = .ok n after) (hleft : after.left = 0) :
    ∃ m, parseModule text = .ok m ∧ m.statements = [n] := by
  have hbefore := (progress_start text).statement.before h
  have heof := (left_eq_zero_iff hbefore).2 hleft
  have hread := leadingStatements_single hnew
  rw [h] at hread
  refine ⟨⟨[n], after.spanFrom (startOf text).here⟩, ?_, rfl⟩
  have htokens : tokenize text = ⟨(tokenize text).lexemes, none⟩ := by rw [← hfault]
  rw [parseModule, htokens]
  simp only [parseLexemes]
  rw [leadingStatements] at hread
  rw [hread]
  simp only [skipNewlines_eq hnew hbefore, heof, Token.isEof, if_true]
  rfl

end single

end statement

section place

variable {inner inner' rest : List Lexeme} {k k' height height' bound : Nat} {c d : Cursor} {t : Node}

lemma expr_tower (hc : c.Closed) (h : c.left < height) : (tower height).expr c = (tower (c.left + 1)).expr c :=
  ((parallel_towers (.untracked hc) h le_rfl).expr (Start.reaches_cursor _) (Nat.lt_succ_self _)).1

def Cursor.Holds (k : Nat) (c : Cursor) (t : Node) : Prop :=
  ∃ n after, (tower (c.left + 1)).expr c = .ok n after ∧ after.left = k ∧ n.unplaced = t

lemma Cursor.Beside.left (h : c.Beside k k' d) (hc : c.left = k) (hd : d.token ≠ .newline) : d.left = k' := by
  obtain ⟨behind, l, rest⟩ := c
  obtain ⟨behind', m, rest'⟩ := d
  cases h with
  | stop _ hm =>
    cases hm with
    | eof => rfl
    | line hm => contradiction
    | closer _ _ _ hk => exact hk
  | word _ _ hrest => exact absurd hc hrest.lt_length.1.ne'

lemma Cursor.Holds.beside (h : c.Holds k t) (hb : c.Beside k k' d) (hc : c.Closed) (hd : d.Closed)
    (hnew : ∀ l ∈ d.lexemes, l.token ≠ .newline) : d.Holds k' t := by
  obtain ⟨n, after, hread, hleft, rfl⟩ := h
  rw [← expr_tower hc (show c.left < c.left + d.left + 1 by omega)] at hread
  rcases ((carried_tower _).expr c d).beside hb n after hread with hpast | ⟨n', after', hread', hafter, hn⟩
  · -- behind the stop there are fewer lexemes left
    exact absurd hleft hpast.ne
  · have hbefore := ((@carried_tower k k' (c.left + d.left + 1)).expr d d).before
    rw [hread'] at hbefore
    rw [expr_tower hd (by omega)] at hread'
    exact ⟨n', after', hread', hafter.left hleft (hnew _ (hbefore.suffix.subset mem_cons_self)), hn.symm⟩

lemma beside_of_same {rest' : List Lexeme} (h : Forall₂ Lexeme.Same inner inner') (hc : c.lexemes = inner ++ rest)
    (hd : d.lexemes = inner' ++ rest') (hstop : Stops k rest) (hstop' : Stops k' rest') :
    c.Beside k k' d := by
  rw [Cursor.Beside, hc, hd]
  clear hc hd
  induction h with
  | nil => exact .stop hstop hstop'
  | cons hl _ ih => exact .word hl.token hl.augmented ih

lemma newline_of_lexemes (h : c.lexemes = inner ++ rest) (hinner : ∀ l ∈ inner, l.token ≠ .newline)
    (hrest : ∀ l ∈ rest, l.token ≠ .newline) :
    ∀ l ∈ c.lexemes, l.token ≠ .newline := by
  intro l hl
  rw [h] at hl
  exact (mem_append.1 hl).elim (hinner l) (hrest l)

lemma same_symm (h : Forall₂ Lexeme.Same inner inner') : Forall₂ Lexeme.Same inner' inner :=
  h.flip.imp fun _ _ hl => ⟨hl.token.symm, hl.augmented.symm, hl.implicit.symm⟩

end place

section parts

variable {g : Productions} {x : String} {op : BinaryOp} {c after : Cursor} {n : Node}

lemma Reader.spanned_eq_ok_iff {r : Reader Node} {f : Node → Span → Node} {start : Span}
    (hc : c.token.isNewline = false) :
    (skipNewlines >>= fun _ => r >>= fun v => spanFrom start >>= fun span => pure (f v span)) c =
        .ok n after ↔ ∃ v, r c = .ok v after ∧ n = f v (after.spanFrom start) := by
  rw [bind_apply, skipNewlines, Cursor.skipNewlines_of_token hc]
  dsimp only
  rw [bind_apply]
  cases hr : r c with
  | ok v mid =>
    change Parsed.ok (f v (mid.spanFrom start)) mid = .ok n after ↔ _
    constructor
    · intro h
      cases h
      exact ⟨v, rfl, rfl⟩
    · rintro ⟨v', hv, rfl⟩
      cases hv
      rfl
  | fail fault mid => simp

lemma anyStatement_let (hlet : c.token = .keyword .let_) (hname : c.step.token = .ident x)
    (hassign : c.step.step.token = .symbol .assign) (hfirst : c.step.step.step.token.isNewline = false) :
    g.anyStatement c = .ok n after ↔
      ∃ value, g.assignedValue x c.step.step.step = .ok value after ∧ n = .assign x value (after.spanFrom c.here) := by
  have hread : g.anyStatement c = (skipNewlines >>= fun _ => g.assignedValue x >>= fun value =>
      spanFrom c.here >>= fun span => pure (.assign x value span)) c.step.step.step := by
    have hkeyword : expectKeyword .let_ c = .ok () c.step := by
      rw [expectKeyword, bind_apply, atKeyword, hlet]
      rfl
    have hident : ident c.step = .ok x c.step.step := by
      rw [ident, bind_apply, token, hname]
      rfl
    rw [anyStatement_eq_anyExpr (by rw [hlet]; rfl), anyExpr, bind_apply, token, hlet]
    change (expectKeyword .let_ >>= fun _ => ident >>= _) c = _
    rw [bind_apply, hkeyword]
    dsimp only
    rw [bind_apply, hident]
    dsimp only
    rw [bind_apply, token, hassign]
    rfl
  rw [hread]
  exact spanned_eq_ok_iff hfirst

lemma assignedValue_update (hname : c.token = .ident x) (haug : c.next.augmented = true) (hop : c.next.token = op.token)
    (hfirst : c.step.step.token.isNewline = false) :
    g.assignedValue x c = .ok n after ↔
      ∃ right, g.expr c.step.step = .ok right after ∧ n = .binary op (.ident x c.here) right
      (after.spanFrom c.here) := by
  have hupdate : updateOperator x c = some op := by
    have htoken : BinaryOp.ofToken? op.token = some op := by cases op <;> rfl
    simp [updateOperator, hname, haug, hop, htoken]
  rw [assignedValue_apply, hupdate]
  exact @Reader.spanned_eq_ok_iff _ _ _ _ (.binary op (.ident x c.here)) _ hfirst

lemma parenthesized_eq_ok_iff (hfirst : c.step.token.isNewline = false)
    (hstill : ∀ n mid, g.expr c.step = .ok n mid → mid.skipNewlines = (mid, 0)) :
    g.parenthesized c = .ok n after ↔
      ∃ mid, g.expr c.step = .ok n mid ∧ mid.token = .symbol .rightParen ∧ after = mid.step := by
  simp only [parenthesized, bind_apply, step, skipNewlines, Cursor.skipNewlines_of_token hfirst]
  cases hread : g.expr c.step with
  | fail fault mid => simp
  | ok v mid =>
    dsimp only
    rw [hstill v mid hread]
    simp only [expectSymbol, bind_apply, atSymbol]
    cases ht : mid.token.isSymbol .rightParen with
    | true =>
      change Parsed.ok v mid.step = .ok n after ↔ _
      constructor
      · intro h
        cases h
        exact ⟨mid, rfl, Token.eq_of_isSymbol ht, rfl⟩
      · rintro ⟨mid', hmid, -, rfl⟩
        cases hmid
        rfl
    | false =>
      constructor
      · intro h
        simp [unexpected] at h
      · rintro ⟨mid', hmid, htoken, -⟩
        cases hmid
        rw [htoken] at ht
        contradiction

lemma climb_of_extendAbove {level : Precedence} {left : Node} {k : Nat} (ht : c.token = op.token)
    (hlevel : level.rank < op.rank) (hnext : c.step.token.isNewline = false)
    (h : g.extendAbove level (k + 1) left c = .ok n after) : ∃ right mid, g.climb
      (.rightOf op) c.step = .ok right mid := by
  rw [extendAbove, bind_apply, token] at h
  dsimp only at h
  rw [ht, if_pos (by exact hlevel)] at h
  obtain ⟨wider, mid, hwider, -⟩ := ok_of_bind h
  rw [extend_of_op ht, binaryExpr] at hwider
  obtain ⟨_, _, hstep, hwider⟩ := ok_of_bind hwider
  cases hstep
  obtain ⟨_, _, hskip, hwider⟩ := ok_of_bind hwider
  rw [skipNewlines, Cursor.skipNewlines_of_token hnext] at hskip
  cases hskip
  obtain ⟨right, mid, hright, -⟩ := ok_of_bind hwider
  exact ⟨right, mid, hright⟩

lemma operand_leftParen (h : c.token = .symbol .leftParen) : g.operand c = g.parenthesized c := by
  rw [operand, bind_apply, here]
  dsimp only
  rw [bind_apply, token, h]

lemma anyExpr_ident (h : c.token = .ident x) : g.anyExpr c = g.assignable c :=
  anyExpr_eq_assignable (by rw [h]; rfl)

section spelled

variable {height : Nat} (hname : c.token = .ident x) (hop : c.step.token = op.token)
  (hparen : c.step.step.token = .symbol .leftParen) (hfirst : c.step.step.step.token.isNewline = false)
  (hstill : ∀ n mid, (tower height).expr c.step.step.step = .ok n mid → mid.skipNewlines = (mid, 0))
include hname hop hparen hfirst hstill

lemma expr_of_spelled (h : (tower (height + 2)).expr c = .ok n after) : ∃ right mid,
    (tower height).expr c.step.step.step = .ok right mid ∧ mid.token = .symbol .rightParen := by
  have hassignable : (tower (height + 1)).assignable c = .ok n after := (anyExpr_ident hname).symm.trans h
  obtain ⟨node, stop, hclimb, -⟩ := ok_of_bind hassignable
  obtain ⟨left, mid, hoperand, hextend⟩ := ok_of_bind hclimb
  rw [@operand_atom _ _ (.ident x) hname] at hoperand
  cases hoperand
  obtain ⟨right, mid, hright⟩ := climb_of_extendAbove hop op.rank_pos (by rw [hparen]; rfl) hextend
  obtain ⟨inner, mid, hread, -⟩ := ok_of_bind (show (tower height).climbExpr (.rightOf op) _ = _ from hright)
  rw [operand_leftParen hparen] at hread
  obtain ⟨mid, hread, ht, -⟩ := (parenthesized_eq_ok_iff hfirst hstill).1 hread
  exact ⟨inner, mid, hread, ht⟩

lemma spelled_of_expr {right : Node} {mid : Cursor} (h : (tower height).expr c.step.step.step = .ok right mid)
    (ht : mid.token = .symbol .rightParen) (heof : mid.step.token = .eof) :
    (tower (height + 2)).expr c = .ok (.binary op (.ident x c.here) right (mid.step.spanFrom c.here)) mid.step := by
  have hlow (level : Precedence) : (Precedence.ofToken mid.step.token).rank ≤ level.rank := by
    rw [heof]
    exact Nat.zero_le _
  have hclimb : (tower (height + 1)).climb (.rightOf op) c.step.step = .ok right mid.step := by
    have hread := (parenthesized_eq_ok_iff hfirst hstill).2 ⟨mid, h, ht, rfl⟩
    change (tower height).climbExpr _ _ = _
    rw [climbExpr, bind_apply, operand_leftParen hparen, hread]
    exact extendAbove_low (hlow _)
  change (tower (height + 1)).anyExpr c = _
  rw [anyExpr_ident hname, assignable, bind_apply, climbExpr, bind_apply,
    @operand_atom _ _ (.ident x) hname]
  dsimp only
  rw [extendAbove_op hop op.rank_pos (by rw [hparen]; rfl) hclimb, rounds_tower, extendAbove_low (hlow _)]
  dsimp only
  rw [bind_apply, atSymbol, heof]
  rfl

end spelled

end parts

def Cursor.States (c : Cursor) (t : Node) : Prop :=
  ∃ n after, (tower (c.left + 1)).anyStatement c = .ok n after ∧ after.left = 0 ∧ n.unplaced = t

abbrev updated (x : String) (op : BinaryOp) (t : Node) : Node :=
  .assign x (.binary op (.ident x (.point 0)) t (.point 0)) (.point 0)

section words

variable {l : Lexeme} {text : String} {x : String} {s : Symbol} {op : BinaryOp} {inner rest : List Lexeme} {c : Cursor}
  {t : Token} {ts : List Token}

lemma Cursor.step_of_lexemes (h : c.lexemes = l :: rest) (hrest : rest ≠ []) :
    c.current = l ∧ c.step.lexemes = rest ∧ c.Before c.step := by
  obtain ⟨behind, current, ahead⟩ := c
  cases h
  cases ahead with
  | nil => contradiction
  | cons next more => exact ⟨rfl, rfl, [current], rfl, rfl⟩

def Cursor.Spells (c : Cursor) (ts : List Token) (rest : List Lexeme) : Prop :=
  ∃ head, c.lexemes = head ++ rest ∧ Forall₂ Lexeme.Spells head ts

lemma Cursor.Spells.cons (h : c.Spells (t :: ts) rest) (hrest : rest ≠ []) :
    c.current.Spells t ∧ c.step.Spells ts rest ∧ c.Before c.step := by
  obtain ⟨head, hlexemes, hhead⟩ := h
  cases hhead with
  | cons hl hhead =>
    obtain ⟨rfl, hstep, hbefore⟩ := Cursor.step_of_lexemes hlexemes (append_ne_nil_of_right_ne_nil _ hrest)
    exact ⟨hl, ⟨_, hstep, hhead⟩, hbefore⟩

lemma Cursor.Spells.lexemes (h : c.Spells [] rest) : c.lexemes = rest := by
  obtain ⟨head, hlexemes, hhead⟩ := h
  obtain rfl := forall₂_nil_right_iff.1 hhead
  exact hlexemes

lemma Cursor.Before.closed {d : Cursor} (h : c.Before d) (hc : c.Closed) : d.Closed := by
  obtain ⟨between, hpass⟩ := h
  exact hpass.closed hc

lemma IsUpdate.states_iff (h : IsUpdate x s inner (startOf text).lexemes) (hop : op.token = .symbol s)
    (htext : ∀ l ∈ (tokenize text).lexemes, l.token ≠ .newline) :
    (startOf text).token = .keyword .let_ ∧ ∃ (d : Cursor) (stop : Lexeme), d.Closed ∧ d.lexemes = inner ++ [stop] ∧
      stop.Spells .eof ∧ ∀ w, (startOf text).States w ↔ ∃ t, d.Holds 0 t ∧ w = updated x op t := by
  obtain ⟨head, mark, stop, hlexemes, hhead, hmark, haug, hstop⟩ := h
  have hrest : mark :: (inner ++ [stop]) ≠ [] := cons_ne_nil _ _
  obtain ⟨⟨hlet, -⟩, hc₁, hb₁⟩ := Cursor.Spells.cons ⟨head, hlexemes, hhead⟩ hrest
  obtain ⟨⟨hname, -⟩, hc₂, hb₂⟩ := hc₁.cons hrest
  obtain ⟨⟨hassign, -⟩, hc₃, hb₃⟩ := hc₂.cons hrest
  obtain ⟨⟨hcopy, -⟩, hc₄, hb₄⟩ := hc₃.cons hrest
  obtain ⟨rfl, hd, hb₅⟩ := Cursor.step_of_lexemes hc₄.lexemes (by simp)
  have hclosed := (Start.ofText text).closed
  have hthird := hb₁.trans (hb₂.trans hb₃)
  have hbefore := hthird.trans (hb₄.trans hb₅)
  rw [Cursor.Passes.current_step (hthird.closed hclosed) (by rw [Cursor.token, hcopy]; simp)] at hmark haug
  have hplain := isNewline_of_before htext hthird
  have hfirst := isNewline_of_before htext hbefore
  have hread := expr_tower (hbefore.closed hclosed) (hbefore.left_le.trans_lt (Nat.lt_succ_self _))
  refine ⟨hlet, _, stop, hbefore.closed hclosed, hd, hstop, fun w => ?_⟩
  constructor
  · rintro ⟨n, after, hn, hleft, rfl⟩
    obtain ⟨value, hvalue, rfl⟩ := (anyStatement_let hlet hname hassign hplain).1 hn
    obtain ⟨right, hright, rfl⟩ := (assignedValue_update hcopy haug (hmark.trans hop.symm) hfirst).1 hvalue
    exact ⟨right.unplaced, ⟨right, after, hread.symm.trans hright, hleft, rfl⟩, rfl⟩
  · rintro ⟨t, ⟨right, after, hright, hleft, rfl⟩, rfl⟩
    have hvalue := (assignedValue_update hcopy haug (hmark.trans hop.symm) hfirst).2 ⟨right, hread.trans hright, rfl⟩
    exact ⟨_, after, (anyStatement_let hlet hname hassign hplain).2 ⟨_, hvalue, rfl⟩, hleft, rfl⟩

lemma dueAfter_closed {front : List Lexeme} (h : dueAfter [] (bracketsOf front) = some [])
    (hl : l.token = .symbol .rightParen) : dueAfter [] (bracketsOf (front ++ l :: rest)) = none := by
  rw [bracketsOf_append, bracketsOf_close hl rfl, dueAfter_append, h, Option.bind_some]
  exact dueAfter_refuse rfl (by simp)

lemma lexemes_at_closer {d mid : Cursor} {between : List Lexeme} {closer stop : Lexeme} (hpass : d.Passes between mid)
    (hd : d.lexemes = inner ++ [closer, stop]) (hcloser : closer.token = .symbol .rightParen)
    (hinner : dueAfter [] (bracketsOf inner) = some []) (hbetween : dueAfter [] (bracketsOf between) = some [])
    (ht : mid.token = .symbol .rightParen) : mid.lexemes = [closer, stop] := by
  have hall := hd.symm.trans hpass.lexemes
  -- a parenthesis that is closed before or after the last word has no partner
  rcases append_eq_append_iff.1 hall with ⟨more, rfl, hmore⟩ | ⟨more, rfl, hmore⟩
  · cases more with
    | nil => exact hmore.symm
    | cons l more =>
      obtain ⟨rfl, -⟩ := List.cons.inj hmore
      rw [dueAfter_closed hinner hcloser] at hbetween
      contradiction
  · cases more with
    | nil => exact hmore
    | cons l more =>
      obtain ⟨rfl, -⟩ := List.cons.inj hmore
      rw [dueAfter_closed hbetween ht] at hinner
      contradiction

lemma expr_spelled_iff {text : String} {closer stop : Lexeme} {n : Node} {after : Cursor} {height : Nat}
    (hname : c.token = .ident x) (hop : c.step.token = op.token) (hparen : c.step.step.token = .symbol .leftParen)
    (hbefore : (startOf text).Before c.step.step.step) (htext : ∀ l ∈ (tokenize text).lexemes, l.token ≠ .newline)
    (hd : c.step.step.step.lexemes = inner ++ [closer, stop]) (hcloser : closer.token = .symbol .rightParen)
    (hstop : stop.token = .eof) (hnested : dueAfter [] (bracketsOf inner) = some [])
      (hlt : c.step.step.step.left < height) :
    (tower (height + 2)).expr c = .ok n after ↔ ∃ right mid, (tower height).expr c.step.step.step = .ok right mid ∧
      mid.left = 1 ∧ n = .binary op (.ident x c.here) right (after.spanFrom c.here) ∧ after = mid.step := by
  have hreads (n : Node) (mid : Cursor) (hread : (tower height).expr c.step.step.step = .ok n mid) :
      ∃ between, c.step.step.step.Passes between mid ∧ dueAfter [] (bracketsOf between) = some [] := by
    obtain ⟨between, hcrosses⟩ := (((parallel_tower (Start.ofText text) height).expr hbefore hlt).ok hread).1.travels
    exact ⟨between, hcrosses.passes, hcrosses.due⟩
  have hstill (n : Node) (mid : Cursor) (hread : (tower height).expr c.step.step.step = .ok n mid) :
      mid.skipNewlines = (mid, 0) := by
    obtain ⟨between, hpass, -⟩ := hreads n mid hread
    exact skipNewlines_eq htext (hbefore.trans ⟨between, hpass⟩)
  have hfirst := isNewline_of_before htext hbefore
  have hend {mid : Cursor} (hmid : mid.lexemes = [closer, stop]) :
      mid.token = .symbol .rightParen ∧ mid.step.token = .eof ∧ mid.left = 1 := by
    obtain ⟨behind, l, ahead⟩ := mid
    cases hmid
    exact ⟨hcloser, hstop, rfl⟩
  constructor
  · intro hvalue
    obtain ⟨right, mid, hright, ht⟩ := expr_of_spelled hname hop hparen hfirst hstill hvalue
    obtain ⟨between, hpass, hdue⟩ := hreads right mid hright
    obtain ⟨-, heof, hone⟩ := hend (lexemes_at_closer hpass hd hcloser hnested hdue ht)
    rw [spelled_of_expr hname hop hparen hfirst hstill hright ht heof] at hvalue
    cases hvalue
    exact ⟨right, mid, hright, hone, rfl, rfl⟩
  · rintro ⟨right, mid, hright, hone, rfl, rfl⟩
    obtain ⟨between, hpass, -⟩ := hreads right mid hright
    have hmid : mid.lexemes = [closer, stop] := by
      refine (append_inj_right' (hd.symm.trans hpass.lexemes) ?_).symm
      rw [Cursor.length_lexemes, hone]
      rfl
    obtain ⟨ht, heof, -⟩ := hend hmid
    exact spelled_of_expr hname hop hparen hfirst hstill hright ht heof

lemma IsSpelledOut.states_iff (h : IsSpelledOut x s inner (startOf text).lexemes) (hop : op.token = .symbol s)
    (htext : ∀ l ∈ (tokenize text).lexemes, l.token ≠ .newline) (hnested : dueAfter [] (bracketsOf inner) = some []) :
    (startOf text).token = .keyword .let_ ∧ ∃ (d : Cursor) (closer stop : Lexeme), d.Closed ∧
      d.lexemes = inner ++ [closer, stop] ∧ closer.Spells (.symbol .rightParen) ∧ stop.Spells .eof ∧
        ∀ w, (startOf text).States w ↔ ∃ t, d.Holds 1 t ∧ w = updated x op t := by
  obtain ⟨head, closer, stop, hlexemes, hhead, hcloser, hstop⟩ := h
  have hrest : inner ++ [closer, stop] ≠ [] := by simp
  obtain ⟨⟨hlet, -⟩, hc₁, hb₁⟩ := Cursor.Spells.cons ⟨head, hlexemes, hhead⟩ hrest
  obtain ⟨⟨hname, -⟩, hc₂, hb₂⟩ := hc₁.cons hrest
  obtain ⟨⟨hassign, -⟩, hc₃, hb₃⟩ := hc₂.cons hrest
  obtain ⟨⟨hcopy, -⟩, hc₄, hb₄⟩ := hc₃.cons hrest
  obtain ⟨⟨hsymbol, haug⟩, hc₅, hb₅⟩ := hc₄.cons hrest
  obtain ⟨⟨hparen, -⟩, hc₆, hb₆⟩ := hc₅.cons hrest
  have hclosed := (Start.ofText text).closed
  have hthird := hb₁.trans (hb₂.trans hb₃)
  have hbefore := hthird.trans (hb₄.trans (hb₅.trans hb₆))
  rw [Cursor.Passes.current_step (hthird.closed hclosed) (by rw [Cursor.token, hcopy]; simp)] at haug
  have hplain := isNewline_of_before htext hthird
  -- two levels are used up before the parentheses are read
  obtain ⟨height, hheight, hlt⟩ : ∃ height, (startOf text).left + 1 = height + 2 ∧
      (startOf text).step.step.step.step.step.step.left < height := by
    have hlength := congrArg List.length hlexemes
    have hlength' := congrArg List.length hc₆.lexemes
    rw [length_append, hhead.length_eq, Cursor.length_lexemes] at hlength
    rw [Cursor.length_lexemes] at hlength'
    simp only [length_cons, length_nil] at hlength
    exact ⟨(startOf text).left - 1, by omega, by omega⟩
  have hread := expr_tower (hbefore.closed hclosed) hlt
  have hvalue (n : Node) (after : Cursor) := @expr_spelled_iff x op inner _ text closer stop n after height hcopy
    (hsymbol.trans hop.symm) hparen hbefore htext hc₆.lexemes hcloser.1 hstop.1 hnested hlt
  refine ⟨hlet, _, closer, stop, hbefore.closed hclosed, hc₆.lexemes, hcloser, hstop, fun w => ?_⟩
  constructor
  · rintro ⟨n, after, hn, hleft, rfl⟩
    obtain ⟨value, hassigned, rfl⟩ := (anyStatement_let hlet hname hassign hplain).1 hn
    rw [assignedValue_eq haug, hheight] at hassigned
    obtain ⟨right, mid, hright, hone, rfl, rfl⟩ := (hvalue value after).1 hassigned
    exact ⟨right.unplaced, ⟨right, mid, hread.symm.trans hright, hone, rfl⟩, rfl⟩
  · rintro ⟨t, ⟨right, mid, hright, hone, rfl⟩, rfl⟩
    have hassigned := (hvalue _ mid.step).2 ⟨right, mid, hread.trans hright, hone, rfl, rfl⟩
    rw [← hheight, ← assignedValue_eq haug x] at hassigned
    exact ⟨_, mid.step, (anyStatement_let hlet hname hassign hplain).2 ⟨_, hassigned, rfl⟩,
      by rw [Cursor.left_step, hone], rfl⟩

end words

section alone

variable {text : String} {t : Node} {g : Productions} {c after : Cursor} {n : Node}

lemma parseModule_states_iff (hfault : (tokenize text).fault = none)
    (hnew : ∀ l ∈ (tokenize text).lexemes, l.token ≠ .newline) :
    (∃ m, parseModule text = .ok m ∧ unplacedNodes m.statements = [t]) ↔ (startOf text).States t := by
  constructor
  · rintro ⟨m, hm, ht⟩
    rcases parseModule_single hnew hm with ⟨-, hnil⟩ | ⟨n, after, hread, hleft, hn⟩
    · rw [hnil] at ht
      contradiction
    · rw [hn] at ht
      exact ⟨n, after, hread, hleft, (List.cons.inj ht).1⟩
  · rintro ⟨n, after, hread, hleft, rfl⟩
    obtain ⟨m, hm, hn⟩ := parseModule_of_statement hnew hfault hread hleft
    exact ⟨m, hm, by rw [hn]; rfl⟩

lemma Node.isJump_unplaced (n : Node) : n.unplaced.isJump = n.isJump := by
  cases n <;> rfl

lemma isJump_of_anyStatement (h : c.token.isJump = true) (hn : g.anyStatement c = .ok n after) : n.isJump = true := by
  rw [anyStatement, bind_apply, here] at hn
  dsimp only at hn
  rw [bind_apply, token] at hn
  rcases Token.isJump_cases h with ht | ht | ht
  · rw [ht] at hn
    obtain ⟨start, _, -, hn⟩ := ok_of_bind hn
    obtain ⟨_, _, -, hn⟩ := ok_of_bind hn
    obtain ⟨t, _, -, hn⟩ := ok_of_bind hn
    split at hn
    · cases hn
      rfl
    · obtain ⟨value, _, -, hn⟩ := ok_of_bind hn
      cases hn
      rfl
  · rw [ht] at hn
    cases hn
    rfl
  · rw [ht] at hn
    cases hn
    rfl

lemma holds_iff_states (hc : c.Closed) : c.Holds 0 t ↔ c.States t ∧ t.isJump = false := by
  have hread : (tower (c.left + 1)).anyExpr c = (tower (c.left + 1)).expr c :=
    expr_tower hc (by omega : c.left < c.left + 2)
  constructor
  · rintro ⟨n, after, hn, hleft, rfl⟩
    have hjump : c.token.isJump = false := by
      rw [← Bool.not_eq_true]
      intro hjump
      exact anyExpr_ne_ok (.inr hjump) hn
    refine ⟨⟨n, after, ?_, hleft, rfl⟩, ?_⟩
    · rw [anyStatement_eq_anyExpr hjump, hread, hn]
    · rw [Node.isJump_unplaced]
      exact (((parallel_tower (.untracked hc) _).expr (Start.reaches_cursor _) (Nat.lt_succ_self _)).ok hn).1.shape.jump
  · rintro ⟨⟨n, after, hn, hleft, rfl⟩, ht⟩
    rw [Node.isJump_unplaced] at ht
    have hjump : c.token.isJump = false := by
      rw [← Bool.not_eq_true]
      intro hjump
      rw [isJump_of_anyStatement hjump hn] at ht
      contradiction
    rw [anyStatement_eq_anyExpr hjump, hread] at hn
    exact ⟨n, after, hn, hleft, rfl⟩

end alone

/-- A text that is one expression on its own, and its tree. A text that starts with a name and an equals sign is an
assignment there and no expression. -/
def Expresses (e : String) (t : Node) : Prop :=
  (∃ m, parseModule e = .ok m ∧ unplacedNodes m.statements = [t]) ∧ t.isJump = false ∧
    (tokenize e).lexemes.head?.any Lexeme.isImplicit = false

section texts

variable {x e : String} {s : Symbol} {t : Node} {c : Cursor} {inner inner' : List Lexeme}

lemma not_holds_name {name : String} {n q : Lexeme} {rest : List Lexeme} {k : Nat} (h : c.lexemes = n :: q :: rest)
    (hn : n.token = .ident name) (hq : q.token = .symbol .assign) : ¬c.Holds k t := by
  rintro ⟨node, after, hread, -, -⟩
  obtain ⟨rfl, hstep, -⟩ := Cursor.step_of_lexemes h (cons_ne_nil _ _)
  have hassign : c.step.token = .symbol .assign := by
    rw [← hq]
    exact congrArg Lexeme.token (List.cons.inj hstep).1
  have hassignable : (tower c.left).assignable c = .ok node after := (anyExpr_ident hn).symm.trans hread
  rw [assignable, bind_apply, climbExpr, bind_apply, @operand_atom _ _ (.ident name) hn] at hassignable
  dsimp only at hassignable
  rw [extendAbove_low (by rw [hassign]; exact le_rfl)] at hassignable
  dsimp only at hassignable
  rw [bind_apply, atSymbol, hassign] at hassignable
  contradiction

lemma IsUpdate.head_explicit {text : String} (h : IsUpdate x s inner (tokenize text).lexemes)
    (hs : s.augmentable = true) : ∀ l ∈ inner.head?, l.isImplicit = false := by
  obtain ⟨head, op, stop, hlexemes, -, hop, -⟩ := h
  intro l hl
  obtain ⟨more, rfl⟩ := head?_eq_some_iff.1 hl
  have hsplit : (tokenize text).lexemes = (head ++ [op]) ++ l :: (more ++ [stop]) := by
    rw [hlexemes]
    simp
  rcases succeeds_or_end hsplit with hl | ⟨-, hnil⟩
  · rw [← Bool.not_eq_true]
    intro himplicit
    have hends := hl.implicit himplicit op (by simp)
    rw [hop, endsStatement_of_augmentable hs] at hends
    contradiction
  · simp at hnil

lemma Enclosed.expresses_iff {stop : Lexeme} (h : Enclosed e inner inner') (he : Enclosable e) (hc : c.Closed)
    (hlexemes : c.lexemes = inner ++ [stop]) (hstop : stop.Spells .eof)
    (hexplicit : ∀ l ∈ inner.head?, l.isImplicit = false) : Expresses e t ↔ c.Holds 0 t := by
  have hstart := (Start.ofText e).closed
  rw [Expresses, parseModule_states_iff he.fault he.newline, ← and_assoc, ← holds_iff_states hstart]
  rcases h.alone with ⟨own, place, hown, hsame⟩ | ⟨himplicit, n, q, rest, name, rfl, hn, hq⟩
  · have hnew := newline_of_same (same_symm hsame) h.newline
    have hlexemes' := (Start.lexemes_ofText e).trans hown
    have himplicit : (tokenize e).lexemes.head?.any Lexeme.isImplicit = false := by
      rw [hown]
      cases hsame with
      | nil => rfl
      | cons hl _ => exact hl.implicit.trans (hexplicit _ rfl)
    constructor
    · rintro ⟨hholds, -⟩
      refine hholds.beside (beside_of_same hsame hlexemes' hlexemes (.eof rfl rfl) (.eof hstop.1 hstop.2)) hstart hc ?_
      exact newline_of_lexemes hlexemes h.newline (by simp [hstop.1])
    · intro hholds
      refine ⟨hholds.beside ?_ hc hstart (newline_of_lexemes hlexemes' hnew (by simp)), himplicit⟩
      exact beside_of_same (same_symm hsame) hlexemes hlexemes' (.eof hstop.1 hstop.2) (.eof rfl rfl)
  · constructor
    · rintro ⟨-, hexplicit⟩
      rw [himplicit] at hexplicit
      contradiction
    · exact fun hholds => absurd hholds (not_holds_name hlexemes hn hq)

end texts

structure Assigns (text x : String) (op : BinaryOp) (e : String) : Prop where
  fault : (tokenize text).fault = none
  newline : ∀ l ∈ (tokenize text).lexemes, l.token ≠ .newline
  start : (startOf text).token ≠ .eof
  states (w : Node) : (startOf text).States w ↔ ∃ t, Expresses e t ∧ w = updated x op t

section assigns

variable {text x e : String} {op : BinaryOp} {t : Node}

lemma Assigns.ok (h : Assigns text x op e) (ht : Expresses e t) :
    ∃ m, parseModule text = .ok m ∧ unplacedNodes m.statements = [updated x op t] :=
  (parseModule_states_iff h.fault h.newline).2 ((h.states _).2 ⟨t, ht, rfl⟩)

lemma Assigns.error (h : Assigns text x op e) (hnone : ∀ t, ¬Expresses e t) :
    ∃ fault, parseModule text = .error fault := by
  cases hparsed : parseModule text with
  | error fault => exact ⟨fault, rfl⟩
  | ok m =>
    rcases parseModule_single h.newline hparsed with ⟨heof, -⟩ | ⟨n, after, hread, hleft, -⟩
    · exact absurd heof h.start
    · obtain ⟨t, ht, -⟩ := (h.states _).1 ⟨n, after, hread, hleft, rfl⟩
      exact absurd ht (hnone t)

lemma assigns_both {s : Symbol} (hx : isName x = true) (hs : s.augmentable = true) (he : Enclosable e)
    (hop : op.token = .symbol s) : Assigns (updateText x s e) x op e ∧ Assigns (spelledText x s e) x op e := by
  obtain ⟨inner, inner', lexemes, lexemes', htokens, htokens', hupdate, hspelled, henclosed⟩ :=
    tokenize_assignments hx hs he
  obtain rfl : (tokenize (updateText x s e)).lexemes = lexemes := by rw [htokens]
  obtain rfl : (tokenize (spelledText x s e)).lexemes = lexemes' := by rw [htokens']
  have hnew := hupdate.newline henclosed.newline
  have hnew' := hspelled.newline (newline_of_same henclosed.same henclosed.newline)
  have hexplicit := hupdate.head_explicit hs
  rw [← Start.lexemes_ofText] at hupdate hspelled
  obtain ⟨hlet, c, stop, hc, hlexemes, hstop, hstates⟩ := hupdate.states_iff hop hnew
  obtain ⟨hlet', d, closer, stop', hd, hlexemes', hcloser, hstop', hstates'⟩ :=
    hspelled.states_iff hop hnew' henclosed.nested
  have hexpresses (t : Node) : Expresses e t ↔ c.Holds 0 t :=
    henclosed.expresses_iff he hc hlexemes hstop hexplicit
  -- before the end of the text, and before the parenthesis
  have hend : Stops 0 [stop] := .eof hstop.1 hstop.2
  have hclose : Stops 1 [closer, stop'] := .closer hcloser.1 hcloser.2 Nat.one_pos rfl
  have hsame (t : Node) : c.Holds 0 t ↔ d.Holds 1 t := by
    constructor
    · intro h
      refine h.beside (beside_of_same henclosed.same hlexemes hlexemes' hend hclose) hc hd ?_
      exact newline_of_lexemes hlexemes' (newline_of_same henclosed.same henclosed.newline)
        (by simp [hcloser.1, hstop'.1])
    · intro h
      refine h.beside (beside_of_same (same_symm henclosed.same) hlexemes' hlexemes hclose hend) hd hc ?_
      exact newline_of_lexemes hlexemes henclosed.newline (by simp [hstop.1])
  refine ⟨⟨congrArg Tokenized.fault htokens, hnew, by rw [hlet]; simp, fun w => ?_⟩,
    congrArg Tokenized.fault htokens', hnew', by rw [hlet']; simp, fun w => ?_⟩
  · simp only [hstates, hexpresses]
  · simp only [hstates', hexpresses, hsame]

end assigns

/-- An augmented assignment and the assignment that it stands for are both programs, with the same tree, or neither of
them is one. They are if what stands on their right is an expression on its own, and its tree is the
right operand in theirs. -/
theorem augmented_assignment_spelled_out {x e : String} {s : Symbol} (hx : isName x = true) (hs : s.augmentable = true)
    (he : Enclosable e) :
    ∃ op : BinaryOp, op.token = .symbol s ∧
      ((∃ t m m', Expresses e t ∧ parseModule (x ++ " " ++ s.text ++ "= " ++ e) = .ok m ∧
          parseModule (x ++ " = " ++ x ++ " " ++ s.text ++ " (" ++ e ++ ")") = .ok m' ∧
          unplacedNodes m.statements = [.assign x (.binary op (.ident x (.point 0)) t (.point 0)) (.point 0)] ∧
          unplacedNodes m'.statements = unplacedNodes m.statements) ∨
        (∀ t, ¬Expresses e t) ∧ (∃ fault, parseModule (x ++ " " ++ s.text ++ "= " ++ e) = .error fault) ∧
          ∃ fault, parseModule (x ++ " = " ++ x ++ " " ++ s.text ++ " (" ++ e ++ ")") = .error fault) := by
  change ∃ op : BinaryOp, op.token = .symbol s ∧
    ((∃ t m m', Expresses e t ∧ parseModule (updateText x s e) = .ok m ∧ parseModule (spelledText x s e) = .ok m' ∧ _) ∨
      (∀ t, ¬Expresses e t) ∧ (∃ fault, parseModule (updateText x s e) = .error fault) ∧
        ∃ fault, parseModule (spelledText x s e) = .error fault)
  obtain ⟨op, hop⟩ := exists_op_of_augmentable hs
  obtain ⟨hupdate, hspelled⟩ := assigns_both hx hs he hop
  refine ⟨op, hop, ?_⟩
  by_cases h : ∃ t, Expresses e t
  · obtain ⟨t, ht⟩ := h
    obtain ⟨m, hm, hstatements⟩ := hupdate.ok ht
    obtain ⟨m', hm', hstatements'⟩ := hspelled.ok ht
    exact .inl ⟨t, m, m', ht, hm, hm', hstatements, hstatements'.trans hstatements.symm⟩
  · have hnone := not_exists.1 h
    exact .inr ⟨hnone, hupdate.error hnone, hspelled.error hnone⟩

theorem branch_product_spelled_out :
    isName "total" = true ∧ Enclosable "if a > 1 do (b - 1) $ [2,\n3] else '#' + c" ∧ ∃ t m m',
      Expresses "if a > 1 do (b - 1) $ [2,\n3] else '#' + c" t ∧
      parseModule "total *= if a > 1 do (b - 1) $ [2,\n3] else '#' + c" = .ok m ∧
      parseModule "total = total * (if a > 1 do (b - 1) $ [2,\n3] else '#' + c)" = .ok m' ∧
      unplacedNodes m.statements = [.assign "total" (.binary .mul (.ident "total" (.point 0)) t (.point 0))
        (.point 0)] ∧
      unplacedNodes m'.statements = unplacedNodes m.statements := by
  have hx : isName "total" = true := by decide
  have he : Enclosable "if a > 1 do (b - 1) $ [2,\n3] else '#' + c" := by decide +kernel
  have hread : (parseModule "total *= if a > 1 do (b - 1) $ [2,\n3] else '#' + c").isOk = true := by decide +kernel
  refine ⟨hx, he, ?_⟩
  obtain ⟨op, hop, h⟩ := augmented_assignment_spelled_out (s := .star) hx rfl he
  obtain rfl : op = .mul := by cases op <;> first | rfl | simp [BinaryOp.token] at hop
  rcases h with h | ⟨-, ⟨fault, hfault⟩, -⟩
  · exact h
  · have herror : parseModule "total *= if a > 1 do (b - 1) $ [2,\n3] else '#' + c" = .error fault := hfault
    rw [herror] at hread
    contradiction

end ScriptMachine
