import ScriptMachine.Proofs.Climbing
import ScriptMachine.Proofs.Shapes
import ScriptMachine.Proofs.Updates

/-! What each production reads: the shape of its trees, the lexemes that they are made of and the augmented assignments
among them. -/

namespace ScriptMachine

open List

def Reader.Makes {α : Type} (p : α → Prop) (r : Reader α) : Prop := ∀ c a after, r c = .ok a after → p a

namespace Reader.Makes

variable {α β : Type} {p : α → Prop} {q : β → Prop} {r : Reader α} {f : α → Reader β}

lemma ok {c after : Cursor} {a : α} (hr : r.Makes p) (h : r c = .ok a after) : p a := hr c a after h

lemma any : r.Makes fun _ => True := fun _ _ _ _ => trivial

lemma fail {fault : Cursor → SyntaxFault} : Makes p fun c => .fail (fault c) c := fun _ _ _ h => nomatch h

lemma pure {a : α} (h : p a) : Makes p (Pure.pure a) := by
  intro c b after hread
  cases hread
  exact h

lemma bind (hr : r.Makes p) (hf : ∀ a, p a → (f a).Makes q) : (r >>= f).Makes q := by
  intro c b after hread
  rw [Reader.bind_apply] at hread
  cases hfirst : r c with
  | ok a mid =>
    rw [hfirst] at hread
    exact (hf a (hr.ok hfirst)).ok hread
  | fail fault mid =>
    rw [hfirst] at hread
    contradiction

lemma ite {b : Prop} {_ : Decidable b} {r' : Reader α} (h : b → r.Makes p) (h' : ¬b → r'.Makes p) :
    Makes p (if b then r else r') := by
  split
  · exact h ‹_›
  · exact h' ‹_›

end Reader.Makes

namespace Productions

open Reader

variable {left n : Node} {g : Productions} {c d : Cursor} {op : BinaryOp} {all : List Lexeme} {u : Update all}

lemma binaryExpr_ok (h : g.binaryExpr op left c = .ok n d) :
    ∃ right, g.climb (.rightOf op) c.step.skipNewlines.1 = .ok right d ∧
      n = .binary op left right (d.spanFrom left.span) := by
  simp only [binaryExpr, Reader.bind_apply, Reader.step, Reader.skipNewlines] at h
  split at h
  · rename_i right after hright
    cases h
    exact ⟨right, hright, rfl⟩
  · contradiction

lemma makes_extend_leads (hl : u.Leads left) : Makes u.Leads (g.extend left) := by
  refine .bind .any fun t _ => ?_
  split
  · exact .bind .any fun _ _ => .bind .any fun _ _ => .bind .any fun _ _ => .pure hl.call
  · exact .bind .any fun _ _ => .bind .any fun _ _ => .bind .any fun _ _ => .pure hl.member
  · split
    · intro c n after hread
      obtain ⟨right, -, rfl⟩ := binaryExpr_ok hread
      exact hl.binary
    · exact .fail

lemma makes_extendAbove_leads {level : Precedence} (rounds : Nat) (hl : u.Leads left) :
    Makes u.Leads (g.extendAbove level rounds left) := by
  induction rounds generalizing left with
  | zero => exact .fail
  | succ rounds ih =>
    refine .bind .any fun _ _ => .ite (fun _ => ?_) fun _ => .pure hl
    exact .bind (makes_extend_leads hl) fun wider hwider => ih hwider

lemma extend_of_op (ht : c.token = op.token) : g.extend left c = g.binaryExpr op left c := by
  rw [extend, Reader.bind_apply, Reader.token, ht]
  cases op <;> rfl

/-- The name of an augmented assignment with its operator behind it. -/
structure StartsAt (u : Update all) (g : Productions) (c : Cursor) : Prop where
  name : c.token = .ident u.name
  place : c.here = u.place
  operator : c.step.token = u.op.token
  takes {read : Productions → Reader Node} {right after} :
    read g c.step.step.skipNewlines.1 = .ok right after → u.Takes read right

lemma StartsAt.climbExpr (hc : StartsAt u g c) (h : g.climbExpr .lowest c = .ok n d) : u.Leads n := by
  have hoperand : g.operand c = .ok (.ident u.name c.here) c.step := operand_atom (a := .ident u.name) hc.name
  have hrank : Precedence.lowest.rank < (Precedence.ofToken u.op.token).rank := BinaryOp.rank_pos u.op
  rw [Productions.climbExpr, Reader.bind_apply, hoperand] at h
  dsimp only at h
  rw [extendAbove, Reader.bind_apply, Reader.token] at h
  dsimp only at h
  rw [hc.operator, if_pos hrank, Reader.bind_apply, extend_of_op hc.operator] at h
  split at h
  · rename_i wider after hread
    obtain ⟨right, hright, rfl⟩ := binaryExpr_ok hread
    rw [hc.place] at h
    exact (makes_extendAbove_leads g.rounds (.here (hc.takes hright))).ok h
  · contradiction

lemma StartsAt.anyExpr (hc : StartsAt u g c) (h : g.anyExpr c = .ok n d) : u.Leads n := by
  have hassignable : g.assignable c = .ok n d := by
    rw [Productions.anyExpr, Reader.bind_apply, Reader.token, hc.name] at h
    exact h
  have hindex : u.op ≠ .index := fun hop => absurd (hop ▸ u.augmentable) (by decide)
  rw [assignable, Reader.bind_apply] at hassignable
  split at hassignable
  · rename_i node after hread
    have hnode := hc.climbExpr hread
    have hvalue {target index : Node} {span : Span} (ht : u.Leads target) :
      Makes u.Leads
        (do
          Reader.step
          let _ ← skipNewlines
          let value ← g.expr
          return .indexAssign target index value (← spanFrom span)) :=
      .bind .any fun _ _ => .bind .any fun _ _ => .bind .any fun _ _ => .bind .any fun _ _ => .pure ht.indexAssign
    refine Makes.ok ?_ hassignable
    refine .bind .any fun _ _ => .ite (fun _ => ?_) fun _ => .pure hnode
    split
    · rename_i target index span
      generalize hn : Node.binary .index target index span = n at hnode
      cases hnode with
      | here => exact absurd (Node.binary.inj hn).1.symm hindex
      | binary ht =>
        cases hn
        exact hvalue ht
      | _ => contradiction
    · exact .fail
  · contradiction

end Productions

attribute [local simp] Node.constituents Portion.constituents nameWords Node.Keeps

lemma not_assign {c : Cursor} {t : Token} (ht : c.token = t) (h : t.isSymbol .assign = false) :
    c.current.isAssign = false := by
  rw [Lexeme.isAssign, show c.current.token = t from ht]
  exact h

namespace Start

variable {s : Start} {o c d : Cursor} {value : Node} {u : Update s.cursor.lexemes}

lemma skipNewlines_after_equals (h : s.Reaches c) (ht : c.token = .symbol .assign) (hleft : c.left = u.left) :
    c.step.skipNewlines.1 = c.step ∧ c.step.left + 1 = u.left := by
  have hstep := h.step (by rw [ht]; simp)
  have hnext : s.Reaches c.step := h.trans ⟨_, Cursor.Passes.step h.closed (by rw [ht]; simp)⟩
  have hlexemes := u.after_equals hnext (by omega)
  have hword : c.step.token = .ident u.name := congrArg Lexeme.token (List.cons.inj hlexemes).1
  rw [Cursor.skipNewlines_of_token (by rw [hword]; rfl)]
  exact ⟨rfl, by omega⟩

lemma inside_of_key (h : s.Reaches c) (ht : c.token = .symbol .assign) (hkey : u.key = c.left)
    (hv : s.IsValue c.step value ∨ s.IsValue c.step.skipNewlines.1 value) : u.Inside value ∧ c.left = u.left := by
  obtain ⟨hinside, hleft⟩ := u.of_key_equals h ht hkey
  obtain ⟨hskip, hstep⟩ := skipNewlines_after_equals h ht hleft
  rw [hskip, or_self] at hv
  exact ⟨⟨hv u hstep, hinside⟩, hleft⟩

structure Lists (s : Start) (c : Cursor) (list : StatementList) (d : Cursor) : Prop where
  travels : Travels s {} c (list.statements.map .tree) d
  lt : c.token = .newline → d.left < c.left
  unmatched : ∀ f ∈ list.unmatched, f.IsAt s.cursor.lexemes
  shape : ∀ n ∈ list.statements, n.IsStatement

abbrev ReadsBody (s : Start) (c : Cursor) (b : Node × Bool) : Cursor → Prop :=
  s.Reads (fun n => Node.IsBody (n, b.2)) c b.1

lemma Lists.block {list : StatementList} (h : s.Lists c list d) (ht : c.token = .newline) :
    s.ReadsBody c (.block list.statements (d.spanFrom c.here), true) d := by
  refine ⟨h.travels.node (h.lt ht) (not_assign ht rfl) ?_ rfl ?_ (by simp), not_assign ht rfl, rfl, ?_⟩
  · exact Portion.constituents_trees _
  · simp
  · exact Node.everywhere_of_parts (forall_mem_nil _) h.shape (forall_mem_nil _) trivial

structure Continues (s : Start) (c : Cursor) (left n : Node) (d : Cursor) : Prop where
  travels : ∃ more, Travels s {} c more d ∧ n.constituents = .tree left :: more.flatMap Portion.constituents ∧
    n.Keeps more
  lt : d.left < c.left
  span : n.span = d.spanFrom left.span
  shape : left.IsExpression → n.IsExpression

lemma Continues.reads {left n : Node} (h : s.Continues c left n d) (hl : s.Reads Node.IsExpression o left c) :
    s.Reads Node.IsExpression o n d := by
  obtain ⟨more, htravels, hn, hk⟩ := h.travels
  refine ⟨(hl.travels.trans htravels rfl).widen (.inl hn) h.span (fun u hu => ?_) hk (by simp), hl.start,
    h.shape hl.shape⟩
  exact hu.child (Node.tree_mem_iff.1 (hn ▸ mem_cons_self))

end Start

namespace Productions

open Reader

variable {height : Nat} {β : Type} {s : Start} {bound : Nat} {g g' : Productions} {c d o : Cursor} {made : List Portion}

lemma isOperator_of_ofToken? {t : Token} {op : BinaryOp} (h : BinaryOp.ofToken? t = some op) : t.isOperator = true := by
  unfold BinaryOp.ofToken? at h
  split at h <;> first | rfl | contradiction

lemma spanFrom_here (h : d.behind = some c.current) : d.spanFrom c.here = c.here := by
  simp only [Cursor.spanFrom, Cursor.previousEnd, h, Cursor.here, max_self]

lemma agree_node {node : Span → Node} {F : Node → Prop} {owed : List Nat} (h : Travels s { owed } o made c)
    (hlt : c.left < o.left) (ho : o.current.isAssign = false) (hshape : F (node (c.spanFrom o.here)))
    (hn : made.flatMap Portion.constituents = (node (c.spanFrom o.here)).constituents)
    (hspan : (node (c.spanFrom o.here)).span = c.spanFrom o.here) (hk : (node (c.spanFrom o.here)).Keeps made)
    (howed : ∀ u : Update s.cursor.lexemes, u.key ∈ owed → (node (c.spanFrom o.here)).Performs u) :
    Agree s c (do let span ← spanFrom o.here; pure (node span)) (do let span ← spanFrom o.here; pure (node span))
      (s.Reads F o) := .bind_spanFrom (.pure ⟨h.node hlt ho hn hspan hk howed, ho, hshape⟩)

structure Parallel (s : Start) (bound : Nat) (g g' : Productions) : Prop where
  rounds : bound ≤ g.rounds ∧ bound ≤ g'.rounds
  built : ∃ height, bound ≤ height ∧ g' = tower height
  expr {c : Cursor} : s.Reaches c → c.left < bound →
    Agree s c g.expr g'.expr fun n d => s.Reads Node.IsExpression c n d ∧ s.IsValue c n
  climb (level : Precedence) {c : Cursor} : s.Reaches c → c.left < bound →
    Agree s c (g.climb level) (g'.climb level) (s.Reads Node.IsExpression c)
  statement {c : Cursor} : s.Reaches c → c.left < bound →
    Agree s c g.statement g'.statement (s.Reads Node.IsStatement c)
  statements {c : Cursor} : s.Reaches c → c.left < bound → Agree s c g.statements g'.statements (s.Lists c)

structure IfChain.Uniform (chain : IfChain) : Prop where
  cases_ : chain.cases_ ≠ []
  conditions : ∀ p ∈ chain.cases_, p.1.IsExpression
  bodies : ∀ body ∈ chain.cases_.map Prod.snd ++ chain.otherwise.toList, Node.IsBody (body, chain.multiline)

def IfChain.portions (chain : IfChain) : List Portion :=
  Portion.pairs chain.cases_ ++ chain.otherwise.toList.map .tree

lemma IfChain.Uniform.isExpression {chain : IfChain} {span : Span} (h : chain.Uniform) :
    (Node.branch chain.cases_ chain.otherwise chain.multiline span).IsExpression := by
  obtain ⟨hne, hconditions, hbodies⟩ := h
  refine .of rfl (forall_mem_map.2 hconditions) (forall_mem_nil _) (fun k hk => (hbodies k hk).within)
    ⟨hne, fun hm body hbody => (hbodies body hbody).block.trans hm, fun hall => ?_⟩
  -- a chain has a body, so that "all are blocks" is not said of none
  obtain ⟨first, hfirst⟩ := exists_mem_of_ne_nil _ hne
  have hbody := mem_append_left chain.otherwise.toList (mem_map_of_mem (f := Prod.snd) hfirst)
  exact (hbodies _ hbody).block.symm.trans (hall _ hbody)

lemma paramFault?_spec {seen : ParamsSeen} {params : List (Param × Span)} {fault : SyntaxFault}
    (h : paramFault? seen params = some fault) :
    fault.cause.isParameterFault = true ∧ ∃ p ∈ params, fault.span = p.2 := by
  induction params generalizing seen with
  | nil => contradiction
  | cons p params ih =>
    obtain ⟨param, span⟩ := p
    have hrest {seen : ParamsSeen} (h : paramFault? seen params = some fault) :
        fault.cause.isParameterFault = true ∧ ∃ p ∈ (param, span) :: params, fault.span = p.2 := by
      obtain ⟨hcause, p, hp, hspan⟩ := ih h
      exact ⟨hcause, p, mem_cons_of_mem _ hp, hspan⟩
    have hhere {cause : SyntaxCause} (hc : cause.isParameterFault = true) (h : some ⟨cause, span⟩ = some fault) :
        fault.cause.isParameterFault = true ∧ ∃ p ∈ (param, span) :: params, fault.span = p.2 := by
      cases h
      exact ⟨hc, (param, span), mem_cons_self, rfl⟩
    rw [paramFault?] at h
    split at h
    · exact hhere rfl h
    · dsimp only at h
      cases param with
      | required | rest | keywords =>
        dsimp only at h
        split at h
        · exact hhere rfl h
        · exact hrest h
      | optional => exact hrest h

lemma startsWith_lead {path : String} {kind : LoadKind} (h : loadKind? path = some kind) :
    path.startsWith kind.lead = true := by
  unfold loadKind? at h
  split at h
  · rename_i hlibs
    exact Option.some.inj h ▸ hlibs
  · split at h
    · rename_i hlocal
      exact Option.some.inj h ▸ hlocal
    · contradiction

lemma bind_closeBlock {w : Pending} {f f' : Unit → Reader β} {Q : β → Cursor → Prop} (h : Travels s w o made c)
    (k : ∀ d, Travels s w.settled o made d → d.left < c.left → Agree s d (f ()) (f' ()) Q) :
    Agree s c (closeBlock >>= f) (closeBlock >>= f') Q := by
  have hclose : Agree s c closeBlock closeBlock fun _ d => Travels s w.settled o made d ∧ d.left < c.left := by
    refine .bind_skipNewlines h fun h1 hlt1 => (Agree.expectKeyword h1.reaches).weaken fun _ d hd => ?_
    have hdone := h1.neutral hd.2 rfl
    have := hdone.left
    exact hd.1 ▸ ⟨hdone.travels, by omega⟩
  exact .bind hclose fun _ d hd => k d hd.1 hd.2

lemma agree_loadExpr (h : s.Reaches c) : Agree s c loadExpr loadExpr (s.Reads Node.IsExpression c) := by
  refine .bind_here (.bind_keyword (.refl h) rfl fun ht h1 hlt1 => .bind_token fun t ht1 => ?_)
  split
  · split
    · rename_i hkind
      refine .bind_step (h1.word ht1 rfl) fun h2 hlt2 => ?_
      exact agree_node h2 (by omega) (not_assign ht rfl)
        (.simple rfl rfl (startsWith_lead hkind) (forall_mem_nil _)) rfl rfl (by simp) (by simp)
    · exact .failHere h1.reaches rfl
  · exact .failHere h1.reaches rfl

lemma bind_keywordName {f f' : String → Reader β} {Q : β → Cursor → Prop} (h : Travels s {} o made c)
    (k : ∀ name d, Travels s { owed := [d.left + 1], operand := true } o (made ++ [.word (.ident name)]) d →
      d.left < c.left → (∀ value, s.IsValue d value → ∀ u : Update s.cursor.lexemes, u.key = d.left + 1 →
      u.Inside value ∧ u.name = name) → Agree s d (f name) (f' name) Q) :
    Agree s c (keywordName >>= f) (keywordName >>= f') Q := by
  have hname : Agree s c keywordName keywordName fun name d =>
      Travels s { owed := [d.left + 1], operand := true } o (made ++ [.word (.ident name)]) d ∧ d.left < c.left ∧
        ∀ value, s.IsValue d value → ∀ u : Update s.cursor.lexemes, u.key = d.left + 1 →
          u.Inside value ∧ u.name = name := by
    refine .bind_ident h fun name hname h1 hlt1 => ?_
    have hbehind := (h.reaches.step (by rw [hname]; simp)).2
    refine .bind_expectSymbol h1.reaches (fun ht => h1.equals ht rfl) fun ht h2 hlt2 => .pure ⟨?_, by omega, ?_⟩
    · rw [hlt2]
      exact h2
    · intro value hvalue u hu
      obtain ⟨hinside, hu⟩ := Start.inside_of_key h1.reaches ht (hu.trans hlt2) (.inl hvalue)
      exact ⟨hinside, u.name_of_behind h1.reaches hu ⟨_, hbehind, hname⟩⟩
  exact .bind hname fun name d hd => k name d hd.1 hd.2.1 hd.2.2

lemma bind_functionName {f f' : Option String → Reader β} {Q : β → Cursor → Prop} (h : Travels s {} o made c)
    (k : ∀ name d, Travels s {} o (made ++ Portion.words name.toList) d → d.left ≤ c.left → Agree s d (f name)
      (f' name) Q) :
    Agree s c (functionName >>= f) (functionName >>= f') Q := by
  have hname : Agree s c functionName functionName fun name d =>
      Travels s {} o (made ++ Portion.words name.toList) d ∧ d.left ≤ c.left := by
    refine .bind_token fun t ht => ?_
    split
    · exact .bind_step (h.word ht rfl) fun h1 hlt1 => .pure ⟨h1, by omega⟩
    · exact .pure ⟨by simpa using h, le_rfl⟩
  exact .bind hname fun name d hd => k name d hd.1 hd.2

lemma agree_checkForm {seen : Option Bool} {block : Bool} (h : s.Reaches c) :
    Agree s c (checkForm seen block) (checkForm seen block) fun _ d => d = c ∧ ∀ b, seen = some b → b = block := by
  refine .ite (fun _ => .failHere h rfl) fun hseen => .pure ⟨rfl, fun b hb => ?_⟩
  rw [hb] at hseen
  simpa using hseen

lemma bind_items {α : Type} {item item' : Reader α} {f f' : List α → Reader β} {Q : β → Cursor → Prop}
    {b closer : Symbol} {part : α → List Portion} {E : α → Prop} {rounds rounds' : Nat} (h : Travels s {} o made c)
    (ht : c.token = .symbol b) (hb : b.closer? = some closer) (hr : c.left ≤ rounds) (hr' : c.left ≤ rounds')
    (hi : ∀ d, s.Reaches d → d.left < c.left → (∃ l ∈ d.behind, l.token.endsStatement = false) →
      Agree s d item item' fun a after => Travels s {} d (part a) after ∧ after.left < d.left ∧ E a)
    (k : ∀ as d, Travels s {} o (made ++ as.flatMap part) d → d.left < c.left → (∀ a ∈ as, E a) → Agree s d (f as)
      (f' as) Q) :
    Agree s c.step (items closer item rounds >>= f) (items closer item' rounds' >>= f') Q := by
  have hcloser : closer.isCloser = true := by cases b <;> simp [Symbol.closer?] at hb <;> subst hb <;> rfl
  have hopened := h.opened ht hb
  have hlt := hopened.left
  have hbehind : ∃ l ∈ c.step.behind, l.token.endsStatement = false := by
    refine ⟨c.current, (h.reaches.step (by rw [ht]; simp)).2, ?_⟩
    rw [show c.current.token = _ from ht]
    cases b <;> first | rfl | contradiction
  refine .bind (.items hcloser (by omega) (by omega) hopened.travels hbehind fun d hd hle => hi d hd (by omega)) ?_
  exact fun as d has => k as d has.1 (by have := has.2.1; omega) has.2.2

namespace Parallel

variable {β : Type} {rounds rounds' : Nat} {w : Pending} {level : Precedence} {left : Node} {var : String}
  (hg : Parallel s bound g g')
include hg

lemma tree (h : s.Reaches c) (hc : c.left < bound) : Agree s c g.expr g'.expr (s.Reads Node.IsExpression c) :=
  (hg.expr h hc).weaken fun _ _ hn => hn.1

lemma bind_value {f f' : Node → Reader β} {Q : β → Cursor → Prop} (h : Travels s w o made c) (hc : c.left < bound)
    (k : ∀ n d, Travels s w.settled o (made ++ [.tree n]) d → d.left < c.left → n.IsExpression → s.IsValue c n →
      Agree s d (f n) (f' n) Q) : Agree s c (g.expr >>= f) (g'.expr >>= f') Q :=
  .bind (hg.expr h.reaches hc) fun n d hn => k n d (h.tree hn.1) hn.1.travels.lt_left hn.1.shape hn.2

lemma bind_expr {f f' : Node → Reader β} {Q : β → Cursor → Prop} (h : Travels s w o made c) (hc : c.left < bound)
    (k : ∀ n d, Travels s w.settled o (made ++ [.tree n]) d → d.left < c.left → n.IsExpression →
      Agree s d (f n) (f' n) Q) : Agree s c (g.expr >>= f) (g'.expr >>= f') Q :=
  .bind_tree h (hg.tree h.reaches hc) k

lemma startsAt {u : Update s.cursor.lexemes} (h : s.Reaches c) (hc : c.left ≤ bound) (hu : c.left + 1 = u.left) :
    StartsAt u g' c := by
  have hlexemes := u.after_equals h hu
  have hcurrent := (List.cons.inj hlexemes).1
  have hname : c.token = .ident u.name := congrArg Lexeme.token hcurrent
  have hpass := Cursor.Passes.step h.closed (by rw [hname]; simp)
  have hrest := (List.cons.inj (hpass.lexemes.symm.trans hlexemes)).2
  have hoperator := (List.cons.inj hrest).1
  have hop : c.step.token = u.op.token := congrArg Lexeme.token hoperator
  have hpass' := Cursor.Passes.step (hpass.closed h.closed) (by rw [hop]; cases u.op <;> simp [BinaryOp.token])
  refine ⟨hname, congrArg Lexeme.span hcurrent, hop, fun hread => ?_⟩
  obtain ⟨height, hle, rfl⟩ := hg.built
  refine ⟨height, _, _, ?_, (List.cons.inj (hpass'.lexemes.symm.trans hrest)).2,
    hpass'.behind.trans (congrArg some hoperator), hread⟩
  unfold Update.left at hu
  omega

omit hg in
lemma bind_body {r r' : Reader (Node × Bool)} {f f' : Node × Bool → Reader β} {Q : β → Cursor → Prop}
    (h : Travels s w o made c) (hr : Agree s c r r' (s.ReadsBody c))
    (k : ∀ b d, Travels s w.settled o (made ++ [.tree b.1]) d → d.left < c.left → Node.IsBody b →
      Agree s d (f b) (f' b) Q) : Agree s c (r >>= f) (r' >>= f') Q :=
  .bind hr fun b d hb => k b d (h.tree hb) hb.travels.lt_left hb.shape

section

variable (h : s.Reaches c) (hc : c.left < bound)
include h hc

lemma assignedValue {name : String} :
    Agree s c (g.assignedValue name) (g'.assignedValue name) fun n d => s.Reads Node.IsExpression c n d ∧
      ∀ u : Update s.cursor.lexemes, c.left + 1 = u.left → u.name = name →
        ∃ right span, u.Takes Productions.expr right ∧ n = .binary u.op (.ident u.name u.place) right span := by
  have hnext (u : Update s.cursor.lexemes) (hu : c.left + 1 = u.left) : c.next = ⟨u.op.token, u.operator, true⟩ := by
    rw [Cursor.next, (List.cons.inj (u.after_equals h hu)).2]
    rfl
  refine .bind_cursor ?_
  dsimp only
  split
  · rename_i hop
    refine (hg.tree h hc).weaken fun n d hn => ⟨hn, fun u hu hname => ?_⟩
    rw [(hg.startsAt h hc.le hu).name, hnext u hu] at hop
    simp [hname, BinaryOp.ofToken?_token] at hop
  · rename_i op hop
    obtain ⟨hword, hop⟩ : c.token = .ident name ∧ BinaryOp.ofToken? c.next.token = some op := by
      split at hop
      · rename_i word hword
        split at hop
        · rename_i hsame
          exact ⟨hword.trans (congrArg Token.ident hsame.1), hop⟩
        · contradiction
      · contradiction
    have hne : c.token ≠ .eof := by rw [hword]; simp
    have hstep : c.step.token = c.next.token := congrArg Lexeme.token (Cursor.Passes.current_step h.closed hne)
    refine .bind_step ((Travels.refl h).word hword rfl) fun h1 hlt1 => ?_
    have hleft : Travels s {} c [.tree (.ident name c.here)] c.step :=
      h1.node (by omega) (not_assign hword rfl) rfl (spanFrom_here (h.step hne).2).symm (by simp) (by simp)
    refine .bind_step (hleft.operator hstep (isOperator_of_ofToken? hop)) fun h2 hlt2 => ?_
    refine .bind_skipNewlines h2 fun h3 hlt3 => ?_
    have hexpr := hg.tree h3.reaches (by omega)
    have hread : Agree s c.step.step.skipNewlines.1 g.expr g'.expr
        (s.Reads (fun n => n.IsExpression ∧ ∃ e, g'.expr c.step.step.skipNewlines.1 = .ok n e) _) :=
      hexpr.imp_ok fun n e hread hn => ⟨hn.travels, hn.start, hn.shape, e, hexpr.1.symm.trans hread⟩
    refine .bind_tree h3 hread fun right d h4 hlt4 ⟨hright, _, hread⟩ => ?_
    have hshape {span : Span} : (Node.binary op (.ident name c.here) right span).IsExpression :=
      .simple rfl rfl trivial (forall_mem_cons.2
        ⟨.simple rfl rfl trivial (forall_mem_nil _), forall_mem_singleton.2 hright⟩)
    refine (agree_node h4 (by omega) (not_assign hword rfl) hshape rfl rfl (by simp) (by simp)).imp_ok
      fun n d' hn hreads => ⟨hreads, fun u hu hname => ?_⟩
    cases hn
    have hstarts := hg.startsAt h hc.le hu
    rw [hnext u hu, BinaryOp.ofToken?_token] at hop
    rw [Option.some.inj hop, hname, hstarts.place]
    exact ⟨_, _, hstarts.takes hread, rfl⟩

lemma clauseBody : Agree s c g.clauseBody g'.clauseBody (s.ReadsBody c) := by
  refine .bind_token fun t ht => ?_
  split
  · exact .bind_here (.bind (hg.statements h hc) fun list d hlist => .bind_spanFrom (.pure (hlist.block ht)))
  · exact .bind (hg.statement h hc) fun n d hn => .pure ⟨hn.travels, hn.start, hn.shape.isBody⟩

lemma loopBody : Agree s c g.loopBody g'.loopBody (s.ReadsBody c) := by
  refine .bind (hg.clauseBody h hc) fun b d hb => .ite (fun _ => ?_) fun _ => .pure hb
  exact bind_closeBlock hb.travels fun d hd _ => .pure ⟨hd, hb.start, hb.shape⟩

lemma ifChain {seen : Option Bool} (hr : c.left < rounds) (hr' : c.left < rounds') :
    Agree s c (g.ifChain seen rounds) (g'.ifChain seen rounds') fun chain d =>
      Travels s {} c chain.portions d ∧ d.left < c.left ∧ chain.Uniform ∧ ∀ b, seen = some b → b = chain.multiline := by
  induction rounds generalizing c seen rounds' with
  | zero => omega
  | succ rounds ih =>
    obtain - | rounds' := rounds'
    · omega
    refine hg.bind_expr (.refl h) hc fun condition c1 h1 hlt1 hcondition => .bind_keyword h1 rfl fun _ h2 hlt2 => ?_
    refine bind_body h2 (hg.clauseBody h2.reaches (by omega)) fun body c3 h3 hlt3 hbody => ?_
    refine .bind (agree_checkForm h3.reaches) fun _ c3' hform => ?_
    obtain ⟨rfl, hform⟩ := hform
    have hsingle : IfChain.Uniform ⟨[(condition, body.1)], none, body.2⟩ :=
      ⟨cons_ne_nil _ _, forall_mem_singleton.2 hcondition, forall_mem_singleton.2 hbody⟩
    refine .bind_cursor (.bind_skipNewlines h3 fun h4 hlt4 => .bind_token fun t ht4 => ?_)
    split
    · refine .bind_step (h4.neutral ht4 rfl) fun h5 hlt5 => ?_
      refine .bind_part h5 rfl (ih h5.reaches (by omega) (by omega) (by omega)) fun chain d h6 hle6 hchain => ?_
      obtain ⟨-, huniform, hsame⟩ := hchain
      refine .pure ⟨h6, by omega, ⟨cons_ne_nil _ _, ?_, ?_⟩, fun b hb => (hform b hb).trans (hsame _ rfl)⟩
      · exact forall_mem_cons.2 ⟨hcondition, huniform.conditions⟩
      · exact forall_mem_cons.2 ⟨hsame _ rfl ▸ hbody, huniform.bodies⟩
    · refine .bind_step (h4.neutral ht4 rfl) fun h5 hlt5 => ?_
      refine bind_body h5 (hg.clauseBody h5.reaches (by omega)) fun last c6 h6 hlt6 hlast => ?_
      refine .bind (agree_checkForm h6.reaches) fun _ c6' hsame => ?_
      obtain ⟨rfl, hsame⟩ := hsame
      have hboth : IfChain.Uniform ⟨[(condition, body.1)], some last.1, body.2⟩ :=
        ⟨cons_ne_nil _ _, forall_mem_singleton.2 hcondition,
          forall_mem_cons.2 ⟨hbody, forall_mem_singleton.2 (hsame _ rfl ▸ hlast)⟩⟩
      refine .ite (fun _ => ?_) fun _ => .pure ⟨h6, by omega, hboth, hform⟩
      exact bind_closeBlock h6 fun d h7 hlt7 => .pure ⟨h7, by omega, hboth, hform⟩
    · refine .ite (fun _ => ?_) fun _ => .bind_resume (.pure ⟨h3, by omega, hsingle, hform⟩)
      exact .bind_step (h4.neutral ht4 rfl) fun h5 hlt5 => .pure ⟨h5, by omega, hsingle, hform⟩
    · refine .ite (fun _ => .unexpected h4.reaches (by simp)) fun _ => ?_
      exact .bind_resume (.pure ⟨h3, by omega, hsingle, hform⟩)

lemma stepClause : Agree s c g.stepClause g'.stepClause fun step d =>
    Travels s {} c (step.toList.map .tree) d ∧ ∀ n ∈ step.toList, n.IsExpression := by
  refine .ifKeyword (fun ht => ?_) (.pure ⟨.refl h, forall_mem_nil _⟩)
  refine .bind_step ((Travels.refl h).neutral ht rfl) fun h1 hlt1 => ?_
  exact hg.bind_expr h1 (by omega) fun value d h2 _ hvalue => .pure ⟨h2, forall_mem_singleton.2 hvalue⟩

lemma mapEntry : Agree s c g.mapEntry g'.mapEntry fun e d =>
    Travels s {} c [.tree e.1, .tree e.2] d ∧ d.left < c.left ∧ e.1.IsExpression ∧ e.2.IsExpression := by
  refine hg.bind_expr (.refl h) hc fun key c1 h1 hlt1 hkey => ?_
  refine .bind_expectSymbol h1.reaches (fun ht => h1.neutral ht rfl) fun _ h2 hlt2 => ?_
  exact hg.bind_expr h2 (by omega) fun value c3 h3 hlt3 hvalue => .pure ⟨h3, by omega, hkey, hvalue⟩

lemma argument (hb : s.tracked = true → ∃ l ∈ c.behind, l.token.endsStatement = false) :
    Agree s c g.argument g'.argument fun a d =>
      Travels s {} c [.arg a] d ∧ d.left < c.left ∧ (State.argumentNode a).IsExpression := by
  have hplain {a : Arg} {value : Node} {d : Cursor} (hd : Travels s {} c [.tree value] d)
      (ha : a.constituents = [.tree value]) (hv : State.argumentNode a = value) : Travels s {} c [.arg a] d :=
    hd.become ha.symm (forall_mem_singleton.2 fun u hu => .inl (hv ▸ hu)) (by simp)
  have hpositional : Agree s c (do return .positional (← g.expr)) (do return .positional (← g'.expr)) fun a d =>
      Travels s {} c [.arg a] d ∧ d.left < c.left ∧ (State.argumentNode a).IsExpression :=
    hg.bind_expr (.refl h) hc fun value d hd hlt hvalue => .pure ⟨hplain hd rfl rfl, hlt, hvalue⟩
  have hkeyword {d : Cursor} (hd : Travels s {} c [] d) (hle : d.left ≤ c.left) : Agree s d
      (do let name ← keywordName; return Arg.keyword name (← g.expr))
      (do let name ← keywordName; return Arg.keyword name (← g'.expr)) fun a d =>
        Travels s {} c [.arg a] d ∧ d.left < c.left ∧ (State.argumentNode a).IsExpression := by
    refine bind_keywordName hd fun name c1 h1 hlt1 howed =>
      hg.bind_value h1 (by omega) fun value c2 h2 hlt2 hv hvalue => ?_
    refine .pure ⟨h2.become rfl (by simp +contextual [Portion.Has, Arg.Has, State.argumentNode]) fun u hu => .inr
      ⟨value, ?_⟩,
      by omega, hv⟩
    obtain ⟨hinside, rfl⟩ := howed value hvalue u (mem_singleton.1 hu)
    exact ⟨rfl, hinside⟩
  refine .bind_cursor ?_
  split
  · rename_i ht
    refine .bind_step ((Travels.refl h).operator ht rfl) fun h1 hlt1 => ?_
    exact hg.bind_expr h1 (by omega) fun value d h2 hlt2 hvalue => .pure ⟨hplain h2 rfl rfl, by omega, hvalue⟩
  · rename_i ht
    refine .bind_step ((Travels.refl h).operator ht rfl) fun h1 hlt1 => ?_
    exact hg.bind_expr h1 (by omega) fun value d h2 hlt2 hvalue => .pure ⟨hplain h2 rfl rfl, by omega, hvalue⟩
  · rename_i ht
    exact .bind_step ((Travels.refl h).written_let ht hb) fun h1 hlt1 => hkeyword h1 (by omega)
  · exact .ite (fun _ => hkeyword (.refl h) le_rfl) fun _ => hpositional
  · exact hpositional

lemma parameter (hb : s.tracked = true → ∃ l ∈ c.behind, l.token.endsStatement = false) :
    Agree s c g.parameter g'.parameter fun p d =>
      Travels s {} c [.param p] d ∧ d.left < c.left ∧ ∀ n ∈ p.default?, n.IsExpression := by
  have hkeyword {d : Cursor} (hd : Travels s {} c [] d) (hle : d.left ≤ c.left) : Agree s d
      (do let name ← keywordName; return Param.optional name (← g.expr))
      (do let name ← keywordName; return Param.optional name (← g'.expr)) fun p d =>
        Travels s {} c [.param p] d ∧ d.left < c.left ∧ ∀ n ∈ p.default?, n.IsExpression := by
    refine bind_keywordName hd fun name c1 h1 hlt1 howed =>
      hg.bind_value h1 (by omega) fun value c2 h2 hlt2 hv hvalue => ?_
    refine .pure ⟨h2.become rfl (by simp +contextual [Portion.Has, Param.Has, Param.default?]) fun u hu => .inr
      ⟨value, ?_⟩,
      by omega, by simpa [Param.default?] using hv⟩
    obtain ⟨hinside, rfl⟩ := howed value hvalue u (mem_singleton.1 hu)
    exact ⟨rfl, hinside⟩
  have hcollector {p : String → Param} {d : Cursor} (hd : Travels s { operand := true } c [] d) (hlt : d.left < c.left)
      (hp : ∀ name, (p name).constituents = [.word (.ident name)] ∧ (p name).default? = none) : Agree s d
      (do return p (← ident)) (do return p (← ident)) fun p d =>
        Travels s {} c [.param p] d ∧ d.left < c.left ∧ ∀ n ∈ p.default?, n.IsExpression := by
    refine .bind_ident hd fun name _ h1 hlt1 => .pure ⟨h1.become (hp name).1.symm ?_ (by simp), by omega, ?_⟩
    · simp [Portion.Has]
    · simp [(hp name).2]
  refine .bind_token fun t ht => ?_
  split
  · exact .bind_step ((Travels.refl h).operator ht rfl) fun h1 hlt1 => hcollector h1 (by omega) fun _ => ⟨rfl, rfl⟩
  · exact .bind_step ((Travels.refl h).operator ht rfl) fun h1 hlt1 => hcollector h1 (by omega) fun _ => ⟨rfl, rfl⟩
  · exact .bind_step ((Travels.refl h).written_let ht hb) fun h1 hlt1 => hkeyword h1 (by omega)
  · refine .bind_ident (.refl h) fun name hname h1 hlt1 => .ifSymbol (fun hassign => ?_) (.pure ⟨?_, by omega, ?_⟩)
    · have hbehind := (h.step (by rw [hname]; simp)).2
      refine .bind_step (h1.equals hassign rfl) fun h2 hlt2 =>
        hg.bind_value h2 (by omega) fun value d h3 hlt3 hv hvalue => ?_
      refine .pure ⟨h3.become rfl (by simp +contextual [Portion.Has, Param.Has, Param.default?]) fun u hu => .inr
        ⟨value, ?_⟩,
        by omega, by simpa [Param.default?] using hv⟩
      obtain ⟨hinside, hu⟩ := Start.inside_of_key h1.reaches hassign (mem_singleton.1 hu) (.inl hvalue)
      obtain rfl := u.name_of_behind h1.reaches hu ⟨_, hbehind, hname⟩
      exact ⟨rfl, hinside⟩
    · exact h1.become rfl (by simp [Portion.Has]) (by simp)
    · simp [Param.default?]

lemma placedParameter (hb : s.tracked = true → ∃ l ∈ c.behind, l.token.endsStatement = false) :
    Agree s c g.placedParameter g'.placedParameter fun p d => Travels s {} c [.param p.1] d ∧ d.left < c.left ∧
      (∀ n ∈ p.1.default?, n.IsExpression) ∧ ∃ range, range <:+: s.cursor.lexemes ∧ p.2.OfRange range := by
  refine .bind_here (.bind (hg.parameter h hc hb) fun param d hp => .bind_spanFrom (.pure ⟨hp.1, hp.2.1, hp.2.2, ?_⟩))
  obtain ⟨range, hpass⟩ := hp.1.before
  exact ⟨range, .trans ⟨[], d.lexemes, hpass.lexemes.symm⟩ h.suffix.isInfix, hpass.ofRange hp.2.1⟩

lemma functionBody :
    Agree s c g.functionBody g'.functionBody fun r d => Travels s {} c [.tree r.1] d ∧ Node.IsBody (r.1, !r.2) := by
  refine .bind_token fun t ht => ?_
  split
  · refine .bind_step ((Travels.refl h).neutral ht rfl) fun h1 hlt1 => .bind_skipNewlines h1 fun h2 hlt2 => ?_
    exact hg.bind_expr h2 (by omega) fun body d h3 _ hbody => .pure ⟨h3, hbody.isStatement.isBody⟩
  · refine .bind_here (.bind (hg.statements h hc) fun list c1 hlist => .bind_spanFrom ?_)
    have hblock := hlist.block ht
    exact bind_closeBlock hblock.travels fun d h2 _ => .pure ⟨h2, hblock.shape⟩
  · exact .unexpected h (by simp)

end

lemma forRangeExpr (ho : o.current.isAssign = false) (hb : o.left ≤ bound) (h : Travels s {} o [.word (.ident var)] c)
    (hlt : c.left < o.left) (ht : c.token = .symbol .assign) (hvar : ∃ l ∈ c.behind, l.token = .ident var) :
    Agree s c (g.forRangeExpr o.here var) (g'.forRangeExpr o.here var) (s.Reads Node.IsExpression o) := by
  refine .bind_step (h.equals ht rfl) fun h1 hlt1 =>
    hg.bind_value h1 (by omega) fun first c2 h2 hlt2 hshape hfirst => ?_
  refine .bind_keyword h2 rfl fun _ h3 hlt3 => hg.bind_expr h3 (by omega) fun last c4 h4 hlt4 hlast => ?_
  refine .bind_part h4 rfl (hg.stepClause h4.reaches (by omega)) fun step c5 h5 hle5 hstep => ?_
  refine .bind_keyword h5 rfl fun _ h6 hlt6 => ?_
  refine bind_body h6 (hg.loopBody h6.reaches (by omega)) fun body c7 h7 hlt7 hbody => ?_
  have hoperands := forall_mem_cons.2 ⟨hshape, forall_mem_cons.2 ⟨hlast, hstep⟩⟩
  refine agree_node h7 (by omega) ho (.of rfl hoperands (forall_mem_nil _)
    (forall_mem_singleton.2 hbody.within) (by rw [Node.FormOk, hbody.block])) (by simp) rfl (by simp) fun u hu => ?_
  obtain ⟨hinside, hu⟩ := Start.inside_of_key h.reaches ht (mem_singleton.1 hu) (.inl hfirst)
  obtain rfl := u.name_of_behind h.reaches hu hvar
  exact .range hinside

lemma forInExpr (ho : o.current.isAssign = false) (hb : o.left ≤ bound) (h : Travels s {} o [.word (.ident var)] c)
    (hlt : c.left < o.left) :
    Agree s c (g.forInExpr o.here var) (g'.forInExpr o.here var) (s.Reads Node.IsExpression o) := by
  have := hg.rounds
  refine .bind_part h rfl (.moreNames h.reaches (by omega) (by omega)) fun others c1 h1 hle1 _ => ?_
  refine .ifKeyword (fun ht => ?_) (.unexpected h1.reaches (by simp))
  refine .bind_step (h1.neutral ht rfl) fun h2 hlt2 => hg.bind_expr h2 (by omega) fun iterable c3 h3 hlt3 hshape => ?_
  refine .bind_keyword h3 rfl fun _ h4 hlt4 => ?_
  refine bind_body h4 (hg.loopBody h4.reaches (by omega)) fun body c5 h5 hlt5 hbody => ?_
  exact agree_node h5 (by omega) ho (.of rfl (forall_mem_singleton.2 hshape) (forall_mem_nil _)
    (forall_mem_singleton.2 hbody.within) (by rw [Node.FormOk, hbody.block])) (by simp) rfl (by simp) (by simp)

lemma bind_parameters {f f' : List Param → Reader β} {Q : β → Cursor → Prop} (h : Travels s {} o made c)
    (hc : c.left ≤ bound)
    (k : ∀ ps d, Travels s {} o (made ++ ps.map .param) d → d.left < c.left →
      (∀ n ∈ ps.filterMap Param.default?, n.IsExpression) → Declarable (ps.map fun p => (p.name, p.slot)) →
      Agree s d (f ps) (f' ps) Q) : Agree s c (g.parameters >>= f) (g'.parameters >>= f') Q := by
  have := hg.rounds
  have hparameters : Agree s c g.parameters g'.parameters fun ps d => Travels s {} o (made ++ ps.map .param) d ∧
      d.left < c.left ∧ (∀ n ∈ ps.filterMap Param.default?, n.IsExpression) ∧
        Declarable (ps.map fun p => (p.name, p.slot)) := by
    refine .bind (.expectSymbol h.reaches) fun _ c1 hc1 => ?_
    obtain ⟨rfl, ht⟩ := hc1
    refine bind_items h ht rfl (by omega) (by omega) (fun d hd hlt hb => hg.placedParameter hd (by omega) fun _ => hb)
      fun params d h2 hlt2 hparams => ?_
    split
    · rename_i fault hfault
      obtain ⟨hcause, p, hp, hspan⟩ := paramFault?_spec hfault
      obtain ⟨-, range, hrange, hof⟩ := hparams p hp
      have hexhausted : fault.cause.isExhausted = false := by
        cases hf : fault.cause <;> first | rfl | (rw [hf] at hcause; contradiction)
      exact ⟨rfl, h2.reaches, hexhausted, .inr ⟨hcause, range, hrange, hspan ▸ hof⟩⟩
    · rename_i hfault
      refine .pure ⟨?_, hlt2, fun n hn => ?_, ?_⟩
      · rw [map_map, map_eq_flatMap]
        exact h2
      · obtain ⟨p, hp, hdefault⟩ := mem_filterMap.1 hn
        obtain ⟨placed, hmem, rfl⟩ := mem_map.1 hp
        exact (hparams placed hmem).1 n hdefault
      · rw [map_map]
        exact (declarable_of_paramFault? hfault).2
  exact .bind hparameters fun ps d hps => k ps d hps.1 hps.2.1 hps.2.2.1 hps.2.2.2

omit hg in
lemma leaf {n : Node} {F : Node → Prop} (h : s.Reaches c) (ha : Advances s {} c made c)
    (ho : c.current.isAssign = false) (hn : made.flatMap Portion.constituents = n.constituents)
    (hspan : n.span = c.here)
    (hk : n.Keeps made) (hshape : F n) :
    Agree s c (do Reader.step; return n) (do Reader.step; return n) (s.Reads F c) := by
  refine .bind_step ha fun h1 hlt1 => .pure ⟨h1.node (by omega) ho hn ?_ hk (by simp), ho, hshape⟩
  rw [hspan, spanFrom_here (h.step ha.eof).2]

omit hg in
lemma memberExpr {object : Node} (h : s.Reaches c) (ht : c.token = .symbol .dot) :
    Agree s c (Productions.memberExpr object) (Productions.memberExpr object) (s.Continues c object) := by
  refine .bind_step ((Travels.refl h).neutral ht rfl) fun h1 hlt1 => .bind_ident h1 fun name _ h2 hlt2 => ?_
  exact .bind_spanFrom (.pure ⟨⟨_, h2, rfl, by simp⟩, by omega, rfl, fun hobject =>
    .simple rfl rfl trivial (forall_mem_singleton.2 hobject)⟩)

section

variable (h : s.Reaches c) (hc : c.left ≤ bound)
include h hc

lemma usingExpr : Agree s c g.usingExpr g'.usingExpr (s.Reads Node.IsExpression c) := by
  have := hg.rounds
  refine .bind_here (.bind_keyword (.refl h) rfl fun ht h1 hlt1 => .bind_atKeyword fun parent hparent => ?_)
  have hnames {d : Cursor} (hd : Travels s {} c [] d) (hlt : d.left < c.left) : Agree s d
      (do let names ← Reader.names g.rounds; return .using_ names parent (← spanFrom c.here))
      (do let names ← Reader.names g'.rounds; return .using_ names parent (← spanFrom c.here))
      (s.Reads Node.IsExpression c) := by
    refine .bind_part hd rfl (.names hd.reaches (by omega) (by omega)) fun names d2 h2 hle2 hnames => ?_
    exact agree_node h2 (by omega) (not_assign ht rfl) (.simple rfl rfl hnames.1 (forall_mem_nil _)) (by simp) rfl
      (by simp) (by simp)
  refine .ite (fun hp => ?_) fun _ => hnames h1 (by omega)
  have ht1 := Token.eq_of_isKeyword (hparent.trans hp)
  exact .bind_step (h1.neutral ht1 rfl) fun h2 hlt2 => hnames h2 (by omega)

lemma delExpr : Agree s c g.delExpr g'.delExpr (s.Reads Node.IsExpression c) := by
  have := hg.rounds
  refine .bind_here (.bind_keyword (.refl h) rfl fun ht h1 hlt1 => ?_)
  refine .bind_part h1 rfl (.names h1.reaches (by omega) (by omega)) fun names d h2 hle2 hnames => ?_
  exact agree_node h2 (by omega) (not_assign ht rfl) (.simple rfl rfl hnames.1 (forall_mem_nil _)) (by simp) rfl
    (by simp) (by simp)

lemma letExpr : Agree s c g.letExpr g'.letExpr (s.Reads Node.IsExpression c) := by
  have := hg.rounds
  refine .bind_here (.bind_expectKeyword h (Travels.refl h).let_ fun ht h1 hlt1 =>
    .bind_ident h1 fun name hname h2 hlt2 => ?_)
  have hbehind2 := (h1.reaches.step (by rw [hname]; simp)).2
  -- an augmented assignment that is decided at the `let` has its equals sign here
  have hhere (u : Update s.cursor.lexemes) (hu : u.key = c.left) : c.step.step.left = u.left := by
    have := u.of_key_let h ht hu
    omega
  have helsewhere (u : Update s.cursor.lexemes) (hu : u.key = c.left) : c.step.step.token = .symbol .assign := by
    rw [Cursor.token, (u.at_equals h2.reaches (hhere u hu)).1]
    exact u.isAssign
  refine .bind_token fun t ht2 => ?_
  split
  · refine .bind_step (h2.equals ht2 rfl) fun h3 hlt3 => .bind_skipNewlines h3 fun h4 hlt4 => ?_
    refine .bind (hg.assignedValue h4.reaches (by omega)) fun value d hvalue => ?_
    have hlt := hvalue.1.travels.lt_left
    refine agree_node (h4.tree hvalue.1) (by omega) (not_assign ht rfl)
      (.simple rfl rfl trivial (forall_mem_singleton.2 hvalue.1.shape)) rfl rfl (by simp) fun u hu => ?_
    have hu' : c.step.step.left = u.left := by
      rcases mem_cons.1 hu with hu | hu
      · exact (u.of_key_equals h2.reaches ht2 hu).2
      · exact hhere u (mem_singleton.1 hu)
    obtain ⟨hskip, hleft3⟩ := Start.skipNewlines_after_equals h2.reaches ht2 hu'
    obtain rfl := u.name_of_behind h2.reaches hu' ⟨_, hbehind2, hname⟩
    obtain ⟨right, span, htakes, rfl⟩ := hvalue.2 u (by rw [hskip]; exact hleft3) rfl
    exact .assign htakes
  · refine .bind_step (h2.neutral ht2 rfl) fun h3 hlt3 => .bind_ident h3 fun newName hnew h4 hlt4 => ?_
    refine agree_node h4 (by omega) (not_assign ht rfl) (.simple rfl rfl trivial (forall_mem_nil _)) rfl rfl (by simp)
      fun u hu => ?_
    have hassign := helsewhere u (mem_singleton.1 hu)
    rw [ht2] at hassign
    contradiction
  · refine .bind_part h2 rfl (.moreNames h2.reaches (by omega) (by omega)) fun others c3 h3 hle3 hnames => ?_
    refine .bind_expectSymbol h3.reaches (fun ht3 => h3.equals ht3 rfl) fun ht3 h4 hlt4 =>
      .bind_skipNewlines h4 fun h5 hlt5 => hg.bind_value h5 (by omega) fun value d h6 hlt6 hshape hvalue => ?_
    have hne : others ≠ [] := by
      intro hnil
      rw [hnames.1 hnil, ht2] at ht3
      cases ht3
    refine agree_node h6 (by omega) (not_assign ht rfl) (.simple rfl rfl (Nat.succ_le_succ (length_pos_of_ne_nil hne))
      (forall_mem_singleton.2 hshape)) (by simp) rfl (by simp) fun u hu => ?_
    rcases mem_cons.1 hu with hu | hu
    · obtain ⟨hinside, hu⟩ := Start.inside_of_key h3.reaches ht3 hu (.inr hvalue)
      refine .names hinside ?_
      rw [getLast?_cons_of_ne_nil hne, getLast?_eq_getLast_of_ne_nil hne]
      exact congrArg some (u.name_of_behind h3.reaches hu (hnames.2 _ (getLast?_eq_getLast_of_ne_nil hne))).symm
    · have hassign := helsewhere u (mem_singleton.1 hu)
      rw [ht2] at hassign
      cases hassign
  · exact .unexpected h2.reaches (by simp)

lemma ifExpr : Agree s c g.ifExpr g'.ifExpr (s.Reads Node.IsExpression c) := by
  have := hg.rounds
  refine .bind_here (.bind_keyword (.refl h) rfl fun ht h1 hlt1 => ?_)
  refine .bind_part h1 rfl (hg.ifChain h1.reaches (by omega) (by omega) (by omega)) fun chain d h2 hle2 hchain => ?_
  unfold IfChain.portions at h2
  exact agree_node h2 (by omega) (not_assign ht rfl) hchain.2.1.isExpression (by simp) rfl (by simp) (by simp)

lemma forExpr : Agree s c g.forExpr g'.forExpr (s.Reads Node.IsExpression c) := by
  refine .bind_here (.bind_keyword (.refl h) rfl fun ht h1 hlt1 => ?_)
  have ho := not_assign ht rfl
  have hloop {d : Cursor} (hd : Travels s {} c [] d) (hlt : d.left < c.left) : Agree s d
      (do let first ← ident; if ← atSymbol .assign then g.forRangeExpr c.here first else g.forInExpr c.here first)
      (do let first ← ident; if ← atSymbol .assign then g'.forRangeExpr c.here first else g'.forInExpr c.here first)
      (s.Reads Node.IsExpression c) := by
    refine .bind_ident hd fun var hvar h2 hlt2 => .ifSymbol (fun ht2 => ?_) (hg.forInExpr ho hc h2 (by omega))
    have hbehind := (hd.reaches.step (by rw [hvar]; simp)).2
    exact hg.forRangeExpr ho hc h2 (by omega) ht2 ⟨_, hbehind, hvar⟩
  refine .ifKeyword (fun hlet => .bind_step (h1.written_let hlet fun _ => ?_) fun h2 hlt2 => hloop h2 (by omega))
    (hloop h1 (by omega))
  exact ⟨c.current, (h.step (by rw [ht]; simp)).2, by rw [show c.current.token = _ from ht]; rfl⟩

lemma whileExpr : Agree s c g.whileExpr g'.whileExpr (s.Reads Node.IsExpression c) := by
  refine .bind_here (.bind_keyword (.refl h) rfl fun ht h1 hlt1 => ?_)
  refine hg.bind_expr h1 (by omega) fun condition c2 h2 hlt2 hcondition => .bind_keyword h2 rfl fun _ h3 hlt3 => ?_
  refine bind_body h3 (hg.loopBody h3.reaches (by omega)) fun body c4 h4 hlt4 hbody => ?_
  exact agree_node h4 (by omega) (not_assign ht rfl) (.of rfl (forall_mem_singleton.2 hcondition)
    (forall_mem_nil _) (forall_mem_singleton.2 hbody.within) (by rw [Node.FormOk, hbody.block])) rfl rfl (by simp)
      (by simp)

lemma namespaceExpr : Agree s c g.namespaceExpr g'.namespaceExpr (s.Reads Node.IsExpression c) := by
  refine .bind_here (.bind_keyword (.refl h) rfl fun ht h1 hlt1 => .bind_ident h1 fun name _ h2 hlt2 => ?_)
  refine .bind_token fun t ht2 => ?_
  split
  · refine .bind (hg.statements h2.reaches (by omega)) fun list c3 hlist => ?_
    have hlt3 := hlist.lt ht2
    refine bind_closeBlock (h2.trans hlist.travels rfl) fun d h4 hlt4 => ?_
    exact agree_node h4 (by omega) (not_assign ht rfl)
      (.of rfl (forall_mem_nil _) hlist.shape (forall_mem_nil _) trivial) (by simp) rfl (by simp) (by simp)
  · exact .unexpected h2.reaches (by simp)

lemma listExpr : Agree s c g.listExpr g'.listExpr (s.Reads Node.IsExpression c) := by
  have := hg.rounds
  refine .bind_here (.bind (.expectSymbol h) fun _ c1 hc1 => ?_)
  obtain ⟨rfl, ht⟩ := hc1
  refine bind_items (.refl h) ht rfl (by omega) (by omega) (fun d hd hlt _ => (hg.tree hd (by omega)).weaken
    fun n _ hn => ⟨hn.travels, hn.travels.lt_left, hn.shape⟩) fun elements d h2 hlt2 helements => ?_
  rw [← map_eq_flatMap] at h2
  exact agree_node h2 hlt2 (not_assign ht rfl) (.simple rfl rfl trivial helements) (by simp) rfl (by simp) (by simp)

lemma mapExpr : Agree s c g.mapExpr g'.mapExpr (s.Reads Node.IsExpression c) := by
  have := hg.rounds
  refine .bind_here (.bind (.expectSymbol h) fun _ c1 hc1 => ?_)
  obtain ⟨rfl, ht⟩ := hc1
  refine bind_items (.refl h) ht rfl (by omega) (by omega) (fun d hd hlt _ => hg.mapEntry hd (by omega))
    fun entries d h2 hlt2 hentries => ?_
  refine agree_node h2 hlt2 (not_assign ht rfl) (.simple rfl rfl trivial fun k hk => ?_) (by simp) rfl (by simp)
    (by simp)
  rcases mem_append.1 hk with hk | hk
  · exact forall_mem_map.2 (fun e he => (hentries e he).1) k hk
  · exact forall_mem_map.2 (fun e he => (hentries e he).2) k hk

lemma decorators (hr : c.left < rounds) (hr' : c.left < rounds') :
    Agree s c (g.decorators rounds) (g'.decorators rounds') fun ds d =>
      Travels s {} c (ds.map .tree) d ∧ (c.current.isAssign = true → d = c) ∧ ∀ n ∈ ds, n.IsExpression := by
  induction rounds generalizing c rounds' with
  | zero => omega
  | succ rounds ih =>
    obtain - | rounds' := rounds'
    · omega
    refine .ifSymbol (fun ht => ?_) (.pure ⟨.refl h, fun _ => rfl, forall_mem_nil _⟩)
    refine .bind_step ((Travels.refl h).neutral ht rfl) fun h1 hlt1 => ?_
    refine .bind_tree h1 (hg.climb _ h1.reaches (by omega)) fun first c2 h2 hlt2 hfirst => ?_
    refine .bind_skipNewlines h2 fun h3 hlt3 => .ite (fun _ => .unexpected h3.reaches (by simp)) fun _ => ?_
    refine .bind_part h3 rfl (ih h3.reaches (by omega) (by omega) (by omega)) fun rest d h4 _ hrest => ?_
    refine .pure ⟨h4, fun ha => ?_, forall_mem_cons.2 ⟨hfirst, hrest.2⟩⟩
    rw [not_assign ht rfl] at ha
    contradiction

lemma functionExpr : Agree s c g.functionExpr g'.functionExpr (s.Reads Node.IsExpression c) := by
  have := hg.rounds
  refine .bind_here (.bind_part (.refl h) rfl (hg.decorators h hc (by omega) (by omega)) fun decorators c1 h1
    hle1 hds =>
    .bind_atKeyword fun isAsync hasync => ?_)
  have hkeyword {w : Keyword} (ht : c1.token = .keyword w) : c.current.isAssign = false := by
    by_contra hassign
    rw [hds.1 (by simpa using hassign)] at ht
    exact hassign (not_assign ht rfl)
  have hrest {d : Cursor} (hd : Travels s {} c (decorators.map .tree) d) (hle : d.left ≤ c1.left)
      (hstart : d.token = .keyword .defun → c.current.isAssign = false) : Agree s d (do
        expectKeyword .defun
        let name ← functionName
        let params ← g.parameters
        let r ← g.functionBody
        return .function name params r.1 r.2 isAsync decorators (← spanFrom c.here)) (do
        expectKeyword .defun
        let name ← functionName
        let params ← g'.parameters
        let r ← g'.functionBody
        return .function name params r.1 r.2 isAsync decorators (← spanFrom c.here)) (s.Reads Node.IsExpression c) := by
    refine .bind_keyword hd rfl fun ht h2 hlt2 => bind_functionName h2 fun name c3 h3 hle3 => ?_
    refine hg.bind_parameters h3 (by omega) fun params c4 h4 hlt4 hdefaults hdeclarable => ?_
    refine .bind_part h4 rfl (hg.functionBody h4.reaches (by omega)) fun body c5 h5 hle5 hbody => ?_
    refine agree_node h5 (by omega) (hstart ht) (.of rfl (fun k hk => ?_) (forall_mem_nil _)
      (forall_mem_singleton.2 hbody.within) ⟨by simp [hbody.block], hdeclarable⟩) (by simp) rfl (by simp) (by simp)
    exact (mem_append.1 hk).elim (hdefaults k) (hds.2 k)
  refine .ite (fun ha => ?_) fun _ => hrest h1 le_rfl hkeyword
  have ht1 := Token.eq_of_isKeyword (hasync.trans ha)
  exact .bind_step (h1.neutral ht1 rfl) fun h2 hlt2 => hrest h2 (by omega) fun _ => hkeyword ht1

lemma unaryExpr {op : UnaryOp} {t : Token} (ht : c.token = t) (hop : t.isOperator = true) :
    Agree s c (g.unaryExpr op level) (g'.unaryExpr op level) (s.Reads Node.IsExpression c) := by
  refine .bind_here (.bind_step ((Travels.refl h).operator ht hop) fun h1 hlt1 => ?_)
  refine .bind_tree h1 (hg.climb _ h1.reaches (by omega)) fun operand d h2 hlt2 hoperand => ?_
  exact agree_node h2 (by omega) (Travels.isAssign_of_token ht (Token.isOperator_spec hop).2.2.1)
    (.simple rfl rfl trivial (forall_mem_singleton.2 hoperand)) rfl rfl (by simp) (by simp)

lemma parenthesized (ht : c.token = .symbol .leftParen) :
    Agree s c g.parenthesized g'.parenthesized (s.Reads Node.IsExpression c) := by
  refine .bind_step ((Travels.refl h).opened ht rfl) fun h1 hlt1 => .bind_skipNewlines h1 fun h2 hlt2 => ?_
  refine hg.bind_expr h2 (by omega) fun node c3 h3 hlt3 hnode => .bind_skipNewlines h3 fun h4 hlt4 => ?_
  exact .bind_expectSymbol h4.reaches (fun ht4 => h4.closed ht4 rfl rfl) fun _ h5 _ =>
    .pure ⟨h5, not_assign ht rfl, hnode⟩

lemma awaitExpr (ht : c.token = .keyword .await) :
    Agree s c g.awaitExpr g'.awaitExpr (s.Reads Node.IsExpression c) := by
  refine .bind_here (.bind_step ((Travels.refl h).neutral ht rfl) fun h1 hlt1 => ?_)
  refine .bind_tree h1 (hg.climb _ h1.reaches (by omega)) fun value d h2 hlt2 hvalue => ?_
  exact agree_node h2 (by omega) (not_assign ht rfl) (.simple rfl rfl trivial (forall_mem_singleton.2 hvalue)) rfl rfl
    (by simp) (by simp)

lemma operand : Agree s c g.operand g'.operand (s.Reads Node.IsExpression c) := by
  refine .bind_here (.bind_token fun t ht => ?_)
  split
  iterate 4
    exact leaf h ((Travels.refl h).word ht rfl) (not_assign ht rfl) rfl rfl (by simp)
      (.simple rfl rfl trivial (forall_mem_nil _))
  iterate 3 exact hg.unaryExpr h hc ht rfl
  · exact hg.parenthesized h hc ht
  · exact hg.listExpr h hc
  · exact hg.mapExpr h hc
  · exact hg.ifExpr h hc
  · exact hg.forExpr h hc
  · exact hg.whileExpr h hc
  iterate 3 exact hg.functionExpr h hc
  · exact hg.namespaceExpr h hc
  · exact hg.awaitExpr h hc ht
  · exact hg.letExpr h hc
  · exact agree_loadExpr h
  · exact hg.usingExpr h hc
  · exact hg.delExpr h hc
  · exact .unexpected h (by simp [expressionStart])

lemma callExpr {callee : Node} (ht : c.token = .symbol .leftParen) :
    Agree s c (g.callExpr callee) (g'.callExpr callee) (s.Continues c callee) := by
  have := hg.rounds
  have hitem (d : Cursor) (hd : s.Reaches d) (hlt : d.left < c.left)
      (hb : ∃ l ∈ d.behind, l.token.endsStatement = false) := hg.argument hd (by omega) fun _ => hb
  refine .bind_step ((Travels.refl h).opened ht rfl) fun _ _ => bind_items (.refl h) ht rfl (by omega) (by omega) hitem
    fun args d h2 hlt2 hargs => .bind_spanFrom (.pure ⟨⟨_, h2, ?_, ?_⟩, hlt2, rfl, fun hcallee => ?_⟩)
  · simp [flatMap_assoc]
  · simp
  · exact .simple rfl rfl trivial (forall_mem_cons.2 ⟨hcallee, forall_mem_map.2 hargs⟩)

lemma binaryExpr {op : BinaryOp} {t : Token} (ht : c.token = t) (hop : t.isOperator = true) :
    Agree s c (g.binaryExpr op left) (g'.binaryExpr op left) (s.Continues c left) := by
  refine .bind_step ((Travels.refl h).operator ht hop) fun h1 hlt1 => .bind_skipNewlines h1 fun h2 hlt2 => ?_
  refine .bind_tree h2 (hg.climb _ h2.reaches (by omega)) fun right d h3 hlt3 hright => ?_
  exact .bind_spanFrom (.pure ⟨⟨_, h3, rfl, by simp⟩, by omega, rfl, fun hleft =>
    .simple rfl rfl trivial (forall_mem_cons.2 ⟨hleft, forall_mem_singleton.2 hright⟩)⟩)

lemma extend : Agree s c (g.extend left) (g'.extend left) (s.Continues c left) := by
  refine .bind_token fun t ht => ?_
  split
  · exact hg.callExpr h hc ht
  · exact memberExpr h ht
  · split
    · rename_i hop
      exact hg.binaryExpr h hc ht (isOperator_of_ofToken? hop)
    · exact .unexpected h (by simp)

omit h in
lemma extendAbove (hl : s.Reads Node.IsExpression o left c) (hr : c.left < rounds) (hr' : c.left < rounds') :
    Agree s c (g.extendAbove level rounds left) (g'.extendAbove level rounds' left) (s.Reads Node.IsExpression o) := by
  induction rounds generalizing c left rounds' with
  | zero => omega
  | succ rounds ih =>
    obtain - | rounds' := rounds'
    · omega
    refine .bind_token fun t _ => .ite (fun _ => ?_) fun _ => .pure hl
    refine .bind (hg.extend hl.travels.reaches hc) fun wider d hw => ?_
    have hlt := hw.lt
    exact ih (by omega) (hw.reads hl) (by omega) (by omega)

lemma climbExpr : Agree s c (g.climbExpr level) (g'.climbExpr level) (s.Reads Node.IsExpression c) := by
  have := hg.rounds
  refine .bind (hg.operand h hc) fun left d hl => ?_
  have hlt := hl.travels.lt_left
  exact hg.extendAbove (by omega) hl (by omega) (by omega)

lemma assignable : Agree s c g.assignable g'.assignable (s.Reads Node.IsExpression c) := by
  refine .bind (hg.climbExpr h hc) fun node c1 h1 => .ifSymbol (fun ht => ?_) (.pure h1)
  have hlt := h1.travels.lt_left
  split
  · rename_i target index span
    refine .bind_step (h1.travels.equals ht rfl) fun h2 hlt2 => .bind_skipNewlines h2 fun h3 hlt3 =>
      hg.bind_value h3 (by omega) fun value d h4 hlt4 hshape hvalue => .bind_spanFrom (.pure ⟨?_, h1.start, ?_⟩)
    · refine h4.widen (.inr rfl) rfl (fun u hu => ?_) (by simp) fun u hu => ?_
      · obtain ⟨k, hk, hhas⟩ := hu.inside (by rintro ⟨⟩)
        exact hhas.child (mem_append_left [value] hk)
      · exact .element (Start.inside_of_key h1.travels.reaches ht (mem_singleton.1 hu) (.inr hvalue)).1
    · have hoperand {k : Node} (hk : k ∈ [target, index]) : k.IsExpression := h1.shape.operand hk
      exact .simple rfl rfl trivial (forall_mem_cons.2 ⟨hoperand (by simp), forall_mem_cons.2
        ⟨hoperand (by simp), forall_mem_singleton.2 hshape⟩⟩)
  · exact .failHere h1.travels.reaches rfl

lemma anyExpr : Agree s c g.anyExpr g'.anyExpr fun n d => s.Reads Node.IsExpression c n d ∧ s.IsValue c n := by
  have hreads : Agree s c g.anyExpr g'.anyExpr (s.Reads Node.IsExpression c) := by
    refine .bind_token fun t _ => ?_
    split
    · exact hg.letExpr h hc
    · exact agree_loadExpr h
    · exact hg.usingExpr h hc
    · exact hg.delExpr h hc
    · exact hg.assignable h hc
  exact hreads.imp_ok fun n d hread hn => ⟨hn, fun u hu => (hg.startsAt h hc hu).anyExpr (hreads.1.symm.trans hread)⟩

lemma returnStatement (ht : c.token = .keyword .return_) :
    Agree s c g.returnStatement g'.returnStatement (s.Reads Node.IsStatement c) := by
  have hreturn {value : Option Node} {span : Span} (hv : ∀ k ∈ value.toList, k.IsExpression) :
      (Node.return_ value span).IsStatement :=
    ⟨rfl, Node.everywhere_of_parts hv (forall_mem_nil _) (forall_mem_nil _) trivial⟩
  refine .bind_here (.bind_step ((Travels.refl h).neutral ht rfl) fun h1 hlt1 => .bind_token fun t _ => ?_)
  refine .ite (fun _ => agree_node h1 (by omega) (not_assign ht rfl) (hreturn (forall_mem_nil _)) rfl rfl (by simp)
    (by simp)) fun _ => ?_
  exact hg.bind_expr h1 (by omega) fun value d h2 hlt2 hvalue => agree_node h2 (by omega) (not_assign ht rfl)
    (hreturn (forall_mem_singleton.2 hvalue)) rfl rfl (by simp) (by simp)

lemma anyStatement : Agree s c g.anyStatement g'.anyStatement (s.Reads Node.IsStatement c) := by
  refine .bind_here (.bind_token fun t ht => ?_)
  split
  · exact hg.returnStatement h hc ht
  iterate 2
    exact leaf h ((Travels.refl h).neutral ht rfl) (not_assign ht rfl) rfl rfl (by simp)
      ⟨rfl, Node.everywhere_of_parts (forall_mem_nil _) (forall_mem_nil _) (forall_mem_nil _) trivial⟩
  · exact (hg.anyExpr h hc).weaken fun _ _ hn => ⟨hn.1.travels, hn.1.start, hn.1.shape.isStatement⟩

lemma statementLoop {first : Bool} (hr : c.left < rounds) (hr' : c.left < rounds') :
    Agree s c (g.statementLoop first rounds) (g'.statementLoop first rounds') (s.Lists c) := by
  induction rounds generalizing c first rounds' with
  | zero => omega
  | succ rounds ih =>
    obtain - | rounds' := rounds'
    · omega
    refine .bind_skipNewlines (.refl h) fun h1 hlt1 => ?_
    have hlt (ht : c.token = .newline) : c.skipNewlines.1.left < c.left := by
      have := Cursor.Passes.skipNewlines_ne_zero h.closed ht
      omega
    refine .ite (fun _ => .pure ⟨h1, hlt, by simp, forall_mem_nil _⟩) fun _ => ?_
    refine .bind (.attempt h1.reaches (hg.anyStatement h1.reaches (by omega))) fun attempted c2 htried => ?_
    split
    · rename_i statement
      have hstatement := htried.1 statement rfl
      have hlt2 := hstatement.travels.lt_left
      have h2 := h1.tree hstatement
      refine .bind (ih h2.reaches (by omega) (by omega) (by omega)) fun list d hlist => .pure ?_
      have hle := hlist.travels.before.left_le
      exact ⟨h2.trans hlist.travels rfl, fun _ => by omega, hlist.unmatched,
        forall_mem_cons.2 ⟨hstatement.shape, hlist.shape⟩⟩
    · rename_i fault
      obtain ⟨rfl, hat⟩ := htried.2 fault rfl
      refine .pure ⟨h1, hlt, fun f hf => ?_, forall_mem_nil _⟩
      exact Option.some.inj hf ▸ hat

end

lemma raise : Parallel s (bound + 1) g.raise g'.raise where
  rounds := hg.rounds.imp Nat.succ_le_succ Nat.succ_le_succ
  built := by
    obtain ⟨height, hle, rfl⟩ := hg.built
    exact ⟨height + 1, Nat.succ_le_succ hle, rfl⟩
  expr h hc := hg.anyExpr h (Nat.le_of_lt_succ hc)
  climb _ _ h hc := hg.climbExpr h (Nat.le_of_lt_succ hc)
  statement h hc := hg.anyStatement h (Nat.le_of_lt_succ hc)
  statements h hc := by
    have := hg.rounds
    exact hg.statementLoop h (Nat.le_of_lt_succ hc) (by omega) (by omega)

end Parallel

lemma parallel_iterate (s : Start) (base : Productions) (h : bound ≤ height) :
    Parallel s bound (raise^[bound] base) (tower height) := by
  induction bound generalizing height with
  | zero =>
    -- no place has fewer than no lexemes left
    have hnone {c : Cursor} {p : Prop} (h : c.left < 0) : p := absurd h (Nat.not_lt_zero _)
    exact ⟨⟨Nat.zero_le _, Nat.zero_le _⟩, ⟨height, h, rfl⟩, fun _ => hnone, fun _ _ _ => hnone, fun _ => hnone,
      fun _ => hnone⟩
  | succ bound ih =>
    obtain - | height := height
    · exact absurd h (Nat.not_succ_le_zero _)
    rw [Function.iterate_succ_apply']
    exact (ih (Nat.le_of_succ_le_succ h)).raise

lemma tower_eq (height : Nat) : tower height = raise^[height] ground := by
  induction height with
  | zero => rfl
  | succ height ih => rw [tower, ih, Function.iterate_succ_apply']

lemma parallel_towers (s : Start) {height' : Nat} (h : bound ≤ height) (h' : bound ≤ height') :
    Parallel s bound (tower height) (tower height') := by
  rw [tower_eq height, ← Nat.add_sub_cancel' h, Function.iterate_add_apply]
  exact parallel_iterate s _ h'

lemma parallel_tower (s : Start) (height : Nat) : Parallel s height (tower height) (tower height) :=
  parallel_towers s le_rfl le_rfl

end Productions

end ScriptMachine
