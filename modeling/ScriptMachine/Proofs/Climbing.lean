import ScriptMachine.Proofs.Consumption
import ScriptMachine.Proofs.Readable

/-! Precedence climbing. Names and literals with operators between them can be grouped in one way only so that operators
that bind tighter stand deeper, and this is the tree that the parser makes of them. -/

namespace ScriptMachine

open List

namespace BinaryOp

def tightness : BinaryOp → Nat
  | and_ | or_ => 1
  | eq | ne | lt | gt | le | ge => 2
  | add | sub => 3
  | mul | div | floorDiv | mod => 4
  | index => 5
  | pow => 6

def TakesLeft (op o : BinaryOp) : Prop :=
  if op = .pow then op.tightness < o.tightness else op.tightness ≤ o.tightness

def TakesRight (op o : BinaryOp) : Prop :=
  if op = .pow then op.tightness ≤ o.tightness else op.tightness < o.tightness

instance : DecidableRel TakesLeft := fun op o =>
  inferInstanceAs (Decidable (if op = .pow then op.tightness < o.tightness else op.tightness ≤ o.tightness))

variable {op o o' : BinaryOp}

lemma tightness_bound (op : BinaryOp) : if op = .pow then op.tightness = 6 else op.tightness < 6 := by
  cases op <;> decide

def rank (op : BinaryOp) : Nat := (Precedence.ofToken op.token).rank

lemma rank_eq (op : BinaryOp) : op.rank = if op.tightness ≤ 4 then op.tightness else op.tightness + 1 := by
  cases op <;> rfl

lemma rank_rightOf (op : BinaryOp) : (Precedence.rightOf op).rank = if op = .pow then 6 else op.rank := by
  cases op <;> rfl

lemma rank_pos (op : BinaryOp) : Precedence.lowest.rank < op.rank := by
  cases op <;> decide

lemma takesRight_of_not_takesLeft (h : ¬op.TakesLeft o) : o.TakesRight op := by
  have hop := op.tightness_bound
  have ho := o.tightness_bound
  unfold TakesLeft at h
  unfold TakesRight
  split_ifs at * <;> omega

lemma TakesLeft.trans_right (h : op.TakesLeft o) (h' : o.TakesRight o') : op.TakesLeft o' := by
  have ho := o.tightness_bound
  unfold TakesLeft at *
  unfold TakesRight at h'
  split_ifs at * <;> omega

lemma TakesLeft.rank_le (h : op.TakesLeft o) : op.rank ≤ o.rank := by
  rw [rank_eq, rank_eq]
  unfold TakesLeft at h
  split_ifs at * <;> omega

lemma TakesLeft.rank_le_rightOf (h : op.TakesLeft o) : op.rank ≤ (Precedence.rightOf o).rank := by
  have hop := op.tightness_bound
  have ho := o.tightness_bound
  rw [rank_rightOf, rank_eq, rank_eq]
  unfold TakesLeft at h
  split_ifs at * <;> omega

lemma TakesRight.rightOf_lt (h : op.TakesRight o) : (Precedence.rightOf op).rank < o.rank := by
  have hop := op.tightness_bound
  rw [rank_rightOf, rank_eq, rank_eq]
  unfold TakesRight at h
  split_ifs at * <;> omega

end BinaryOp

inductive Atom where
  | ident (name : String)
  | int (value : Nat)
  | str (value : String)

namespace Atom

def token : Atom → Token
  | ident name => .ident name
  | int value => .int value
  | str value => .str value

def node (span : Span) : Atom → Node
  | ident name => .ident name span
  | int value => .int value span
  | str value => .str value span

end Atom

inductive OpTree where
  | leaf (a : Atom)
  | node (op : BinaryOp) (left right : OpTree)

namespace OpTree

def inorder : OpTree → List Token
  | leaf a => [a.token]
  | node op left right => left.inorder ++ op.token :: right.inorder

def toNode : OpTree → Node
  | leaf a => a.node (.point 0)
  | node op left right => .binary op left.toNode right.toNode (.point 0)

def top? : OpTree → Option BinaryOp
  | leaf _ => none
  | node op _ _ => some op

def Grouped : OpTree → Prop
  | leaf _ => True
  | node op left right => (∀ o ∈ left.top?, op.TakesLeft o) ∧ (∀ o ∈ right.top?, op.TakesRight o) ∧
      left.Grouped ∧ right.Grouped

lemma toNode_injective : Function.Injective toNode := by
  intro t u h
  induction t generalizing u with
  | leaf a =>
    cases u with
    | leaf b => cases a <;> cases b <;> simp_all [toNode, Atom.node]
    | node => cases a <;> simp [toNode, Atom.node] at h
  | node op left right ihl ihr =>
    cases u with
    | leaf b => cases b <;> simp [toNode, Atom.node] at h
    | node op' left' right' =>
      obtain ⟨rfl, hl, hr, -⟩ := Node.binary.inj h
      rw [ihl hl, ihr hr]

/-! Every sequence can be grouped: a new operator goes as far down the right edge as it must. -/

def graft (op : BinaryOp) (a : Atom) : OpTree → OpTree
  | leaf b => node op (leaf b) (leaf a)
  | node o left right =>
    if op.TakesLeft o then node op (node o left right) (leaf a) else node o left (graft op a right)

lemma inorder_head (t : OpTree) : ∃ a ts, t.inorder = Atom.token a :: ts := by
  induction t with
  | leaf a => exact ⟨a, [], rfl⟩
  | node op left right ih _ =>
    obtain ⟨a, ts, h⟩ := ih
    exact ⟨a, ts ++ op.token :: right.inorder, by rw [inorder, h, cons_append]⟩

variable {op : BinaryOp} {a : Atom} {t : OpTree}

lemma top?_graft {o : BinaryOp} (h : o ∈ (t.graft op a).top?) : o = op ∨ o ∈ t.top? := by
  cases t with
  | leaf b => exact .inl (Option.some.inj h).symm
  | node o' left right =>
    rw [graft] at h
    split at h
    · exact .inl (Option.some.inj h).symm
    · exact .inr h

lemma inorder_graft (op : BinaryOp) (a : Atom) (t : OpTree) :
    (t.graft op a).inorder = t.inorder ++ [op.token, a.token] := by
  induction t with
  | leaf b => rfl
  | node o left right _ ih =>
    rw [graft]
    split
    · rfl
    · rw [inorder, ih, inorder, append_assoc, cons_append]

lemma Grouped.graft (h : t.Grouped) : (t.graft op a).Grouped := by
  induction t with
  | leaf b => exact ⟨fun _ ho => (nomatch ho), fun _ ho => (nomatch ho), trivial, trivial⟩
  | node o left right _ ih =>
    rw [OpTree.graft]
    split
    · rename_i hop
      exact ⟨fun o' ho' => Option.some.inj ho' ▸ hop, fun _ ho => (nomatch ho), h, trivial⟩
    · rename_i hop
      obtain ⟨hl, hr, hleft, hright⟩ := h
      refine ⟨hl, fun o' ho' => ?_, hleft, ih hright⟩
      rcases top?_graft ho' with rfl | ho'
      · exact BinaryOp.takesRight_of_not_takesLeft hop
      · exact hr o' ho'

end OpTree

def chain (first : Atom) (tail : List (BinaryOp × Atom)) : List Token :=
  first.token :: tail.flatMap fun p => [p.1.token, p.2.token]

lemma exists_grouped (first : Atom) (tail : List (BinaryOp × Atom)) :
    ∃ t : OpTree, t.Grouped ∧ t.inorder = chain first tail := by
  induction tail using reverseRecOn with
  | nil => exact ⟨.leaf first, trivial, rfl⟩
  | append_singleton tail p ih =>
    obtain ⟨t, hgrouped, horder⟩ := ih
    refine ⟨t.graft p.1 p.2, hgrouped.graft, ?_⟩
    rw [OpTree.inorder_graft, horder, chain, chain, flatMap_append, cons_append]
    rfl

namespace OpTree

def ClosedAt (rank : Nat) : OpTree → Prop
  | leaf _ => True
  | node op _ right => rank ≤ (Precedence.rightOf op).rank ∧ right.ClosedAt rank

lemma closedAt_zero (t : OpTree) : t.ClosedAt 0 := by
  induction t with
  | leaf => trivial
  | node op left right _ ih => exact ⟨Nat.zero_le _, ih⟩

lemma Grouped.closedAt {op : BinaryOp} {t : OpTree} (h : t.Grouped) (hop : ∀ o ∈ t.top?, op.TakesLeft o) :
    t.ClosedAt op.rank := by
  induction t with
  | leaf => trivial
  | node o left right _ ih =>
    have ho := hop o rfl
    exact ⟨ho.rank_le_rightOf, ih h.2.2.2 fun o' ho' => ho.trans_right (h.2.1 o' ho')⟩

end OpTree

namespace Cursor

def GoesOver (c : Cursor) (ts : List Token) (after : Cursor) : Prop :=
  ∃ between, c.Passes between after ∧ between.map Lexeme.token = ts

variable {c d e : Cursor} {t u : Token} {ts us : List Token}

lemma GoesOver.trans (h : c.GoesOver ts d) (h' : d.GoesOver us e) : c.GoesOver (ts ++ us) e := by
  obtain ⟨between, hpass, rfl⟩ := h
  obtain ⟨more, hpass', rfl⟩ := h'
  exact ⟨between ++ more, hpass.trans hpass', map_append⟩

lemma GoesOver.left (h : c.GoesOver ts d) : c.left = ts.length + d.left := by
  obtain ⟨between, hpass, rfl⟩ := h
  rw [hpass.left, length_map]

lemma GoesOver.tokens (h : c.GoesOver ts d) (hc : c.lexemes.map Lexeme.token = ts ++ us) :
    d.lexemes.map Lexeme.token = us := by
  obtain ⟨between, hpass, rfl⟩ := h
  rw [hpass.lexemes, map_append] at hc
  exact append_cancel_left hc

lemma token_of_tokens (h : c.lexemes.map Lexeme.token = t :: ts) : c.token = t := (List.cons.inj h).1

lemma goesOver_step (h : c.lexemes.map Lexeme.token = t :: u :: ts) : c.GoesOver [t] c.step := by
  obtain ⟨behind, current, ahead⟩ := c
  obtain ⟨rfl, hahead⟩ := List.cons.inj h
  cases ahead with
  | nil => contradiction
  | cons next rest => exact ⟨[current], ⟨rfl, rfl⟩, rfl⟩

lemma skipNewlines_of_token (h : c.token.isNewline = false) : c.skipNewlines = (c, 0) := by
  obtain ⟨behind, current, ahead⟩ := c
  cases ahead with
  | nil => rfl
  | cons next rest =>
    rw [Cursor.skipNewlines, Cursor.skipNewlinesFrom, show current.token.isNewline = false from h]
    rfl

end Cursor

namespace Productions

variable {g : Productions} {level : Precedence} {c d : Cursor} {n right : Node} {k : Nat}

lemma operand_atom {a : Atom} (h : c.token = a.token) : g.operand c = .ok (a.node c.here) c.step := by
  rw [operand, Reader.bind_apply, Reader.here]
  dsimp only
  rw [Reader.bind_apply, Reader.token, h]
  cases a <;> rfl

lemma extendAbove_low (h : (Precedence.ofToken c.token).rank ≤ level.rank) :
    g.extendAbove level (k + 1) n c = .ok n c := by
  rw [extendAbove, Reader.bind_apply, Reader.token]
  dsimp only
  rw [if_neg (by omega)]
  rfl

lemma extendAbove_op {op : BinaryOp} (ht : c.token = op.token) (hlevel : level.rank < op.rank)
    (hnext : c.step.token.isNewline = false) (hright : g.climb (.rightOf op) c.step = .ok right d) :
    g.extendAbove level (k + 1) n c = g.extendAbove level k (.binary op n right (d.spanFrom n.span)) d := by
  have hextend : g.extend n c = g.binaryExpr op n c := by
    rw [extend, Reader.bind_apply, Reader.token, ht]
    cases op <;> rfl
  have hbinary : g.binaryExpr op n c = .ok (.binary op n right (d.spanFrom n.span)) d := by
    simp only [binaryExpr, Reader.bind_apply, Reader.step, Reader.skipNewlines, Cursor.skipNewlines_of_token hnext,
      hright]
    rfl
  rw [extendAbove, Reader.bind_apply, Reader.token]
  dsimp only
  rw [ht, if_pos (by exact hlevel), Reader.bind_apply, hextend, hbinary]

lemma climbExpr_inorder {t : OpTree} (hg : t.Grouped) {height : Nat} {next : Token} {rest : List Token}
    (hlevel : ∀ o ∈ t.top?, level.rank < o.rank) (hclosed : t.ClosedAt (Precedence.ofToken next).rank)
    (hc : c.lexemes.map Lexeme.token = t.inorder ++ next :: rest) (hheight : c.left ≤ height) :
    ∃ n after k, (tower height).climbExpr level c = (tower height).extendAbove level (k + 1) n after ∧
      n.unplaced = t.toNode ∧ c.GoesOver t.inorder after ∧ height ≤ k + t.inorder.length := by
  induction t generalizing height level c next rest with
  | leaf a =>
    refine ⟨a.node c.here, c.step, height, ?_, ?_, Cursor.goesOver_step hc, Nat.le_succ _⟩
    · rw [climbExpr, Reader.bind_apply, operand_atom (Cursor.token_of_tokens hc), rounds_tower]
    · cases a <;> rfl
  | node op left right ihl ihr =>
    obtain ⟨hl, hr, hleft, hright⟩ := hg
    rw [OpTree.inorder, append_assoc, cons_append] at hc
    obtain ⟨n, d, k, hclimb, hn, hover, hk⟩ := ihl hleft
      (fun o ho => (hlevel op rfl).trans_le (hl o ho).rank_le) (hleft.closedAt hl) hc hheight
    -- the operator and its right operand, which is read one level down
    have hd := hover.tokens hc
    obtain ⟨first, more, hfirst⟩ := right.inorder_head
    have hstep : d.GoesOver [op.token] d.step := Cursor.goesOver_step (hfirst ▸ hd)
    have hd' := hstep.tokens hd
    have hcount := hover.left
    have hcount' := hstep.left
    rw [length_singleton] at hcount'
    obtain - | height := height
    · omega
    obtain ⟨m, after, j, hclimb', hm, hover', -⟩ := ihr hright (fun o ho => (hr o ho).rightOf_lt) hclosed.2 hd'
      (show d.step.left ≤ height by omega)
    have hafter := Cursor.token_of_tokens (hover'.tokens hd')
    have hread : (tower (height + 1)).climb (.rightOf op) d.step = .ok m after := by
      rw [show (tower (height + 1)).climb = (tower height).climbExpr from rfl, hclimb']
      exact extendAbove_low (by rw [hafter]; exact hclosed.1)
    have hnext : d.step.token.isNewline = false := by
      rw [hfirst] at hd'
      rw [Cursor.token_of_tokens hd']
      cases first <;> rfl
    have hcount'' := hover'.left
    rw [hfirst, length_cons] at hcount''
    obtain - | k := k
    · omega
    refine ⟨.binary op n m (after.spanFrom n.span), after, k, ?_, ?_, ?_, ?_⟩
    · rw [hclimb, extendAbove_op (Cursor.token_of_tokens hd) (hlevel op rfl) hnext hread]
    · rw [Node.unplaced, hn, hm, OpTree.toNode]
    · exact hover.trans (hstep.trans hover')
    · rw [OpTree.inorder, length_append, length_cons]
      omega

end Productions

/-- Atoms with operators between them are read as a whole, up to a token of the lowest precedence, and the tree that is
made of them is the only one that has them in this order and in which every operator may stand where it stands. -/
theorem climbing_groups_by_precedence (first : Atom) (tail : List (BinaryOp × Atom)) {c : Cursor} {next : Token}
    {rest : List Token} {height : Nat} (hnext : Precedence.ofToken next = .lowest)
    (hc : c.lexemes.map Lexeme.token = chain first tail ++ next :: rest) (hheight : c.left ≤ height) :
    ∃ t n after, (Productions.tower height).climbExpr .lowest c = .ok n after ∧ n.unplaced = OpTree.toNode t ∧
      c.GoesOver (chain first tail) after ∧ ∀ u : OpTree, u.Grouped ∧ u.inorder = chain first tail ↔ u = t := by
  -- each grouped tree of the sequence is what is read, so there is no second one
  have hread (u : OpTree) (hu : u.Grouped) (horder : u.inorder = chain first tail) :
      ∃ n after, (Productions.tower height).climbExpr .lowest c = .ok n after ∧ n.unplaced = u.toNode ∧
        c.GoesOver (chain first tail) after := by
    rw [← horder] at hc
    obtain ⟨n, after, k, hclimb, hn, hover, -⟩ := Productions.climbExpr_inorder hu
      (fun o _ => o.rank_pos) (by rw [hnext]; exact u.closedAt_zero) hc hheight
    have hafter := Cursor.token_of_tokens (hover.tokens hc)
    refine ⟨n, after, ?_, hn, horder ▸ hover⟩
    rw [hclimb]
    exact Productions.extendAbove_low (by rw [hafter, hnext])
  obtain ⟨t, ht, horder⟩ := exists_grouped first tail
  obtain ⟨n, after, hclimb, hn, hover⟩ := hread t ht horder
  refine ⟨t, n, after, hclimb, hn, hover, fun u => ⟨fun ⟨hu, hu'⟩ => ?_, fun hu => hu ▸ ⟨ht, horder⟩⟩⟩
  obtain ⟨m, after', hclimb', hm, -⟩ := hread u hu hu'
  rw [hclimb] at hclimb'
  cases hclimb'
  exact OpTree.toNode_injective (hm.symm.trans hn)

def mixedTail : List (BinaryOp × Atom) :=
  [(.sub, .ident "b"), (.sub, .int 2), (.mul, .ident "c"), (.pow, .ident "d"), (.pow, .str "s"), (.index, .ident "e"),
    (.eq, .ident "f"), (.and_, .ident "g")]

def mixedTree : OpTree :=
  let power : OpTree := .node .pow (.leaf (.ident "c")) (.node .pow (.leaf (.ident "d")) (.leaf (.str "s")))
  let product : OpTree := .node .mul (.leaf (.int 2)) (.node .index power (.leaf (.ident "e")))
  let sum : OpTree := .node .sub (.node .sub (.leaf (.ident "a")) (.leaf (.ident "b"))) product
  .node .and_ (.node .eq sum (.leaf (.ident "f"))) (.leaf (.ident "g"))

def mixedStart : Cursor :=
  .ofLexemes ((chain (.ident "a") mixedTail ++ [Token.eof]).map fun t => ⟨t, .point 0, false⟩)

theorem climbing_groups_mixed_operators : ∃ n after,
    (Productions.tower 17).climbExpr .lowest mixedStart = .ok n after ∧ n.unplaced = mixedTree.toNode ∧
      after.token = .eof := by
  have hgrouped : mixedTree.Grouped := by
    simp [mixedTree, OpTree.Grouped, OpTree.top?, BinaryOp.TakesLeft, BinaryOp.TakesRight, BinaryOp.tightness]
  have hstart : mixedStart.lexemes.map Lexeme.token = chain (.ident "a") mixedTail ++ Token.eof :: [] := rfl
  have hheight : mixedStart.left ≤ 17 := by decide
  obtain ⟨t, n, after, hread, hn, hover, honly⟩ :=
    climbing_groups_by_precedence (.ident "a") mixedTail rfl hstart hheight
  rw [← (honly mixedTree).1 ⟨hgrouped, rfl⟩] at hn
  exact ⟨n, after, hread, hn, Cursor.token_of_tokens (hover.tokens hstart)⟩

end ScriptMachine
