import ScriptMachine.Proofs.Enclosure

/-! Every production reads the same words in the same way, whatever its stop is. -/

namespace ScriptMachine

open List

open Reader

lemma Token.isJump_cases {t : Token} (h : t.isJump = true) :
    t = .keyword .return_ ∨ t = .keyword .continue_ ∨ t = .keyword .break_ := by
  rw [isJump, Bool.or_eq_true, Bool.or_eq_true, or_assoc] at h
  exact h.imp eq_of_isKeyword (.imp eq_of_isKeyword eq_of_isKeyword)

structure Cursor.Stuck (c : Cursor) : Prop where
  newline : c.token.isNewline = false
  closer : endsBlock c.token = false

lemma Cursor.Stuck.of_stops {k : Nat} {c : Cursor} (h : Stops k c.lexemes) (hn : c.token.isNewline = false) :
    c.Stuck where
  newline := hn
  closer := by rcases Token.isStop_cases (isStop_of_stops h) with ht | ht | ht <;> rw [ht] <;> rfl

namespace Productions

variable {after : Cursor} {t : Token} {seen : Option Bool} {block : Bool}

structure Carried (k k' : Nat) (g : Productions) : Prop where
  expr : Carries k k' g.expr g.expr Node.unplaced
  climb (level : Precedence) : Carries k k' (g.climb level) (g.climb level) Node.unplaced
  statement : Carries k k' g.statement g.statement Node.unplaced
  stopped {c : Cursor} {n : Node} {after : Cursor} : c.token.isStop = true → g.expr c ≠ .ok n after
  idle {c : Cursor} {n : Node} {after : Cursor} : c.token.isStop = true → g.statement c ≠ .ok n after
  before (c : Cursor) : c.Before (g.statements c).place
  statements {c d : Cursor} {list : StatementList} {after : Cursor} : c.Beside k k' d →
    g.statements c = .ok list after →
    after.Stuck ∧ after.token.isStop = false ∨ after.left < k ∨ ∃ list' after', g.statements d = .ok list' after' ∧
      after.Beside k k' after' ∧ unplacedNodes list.statements = unplacedNodes list'.statements
  halted {c : Cursor} {list : StatementList} {after : Cursor} : Stops k c.lexemes → g.statements c = .ok list after →
    after.Stuck

abbrev bodyUnplaced (b : Node × Bool) : Node × Bool := (b.1.unplaced, b.2)

abbrev IfChain.unplaced (chain : IfChain) : IfChain :=
  ⟨unplacedPairs chain.cases_, unplacedOption chain.otherwise, chain.multiline⟩

def updateOperator (name : String) (c : Cursor) : Option BinaryOp :=
  match c.token with
  | .ident word => if word = name ∧ c.next.augmented then BinaryOp.ofToken? c.next.token else none
  | _ => none

def valueWith (g : Productions) (name : String) (start : Span) : Option BinaryOp → Reader Node
  | none => g.expr
  | some op => do
    step
    step
    let _ ← skipNewlines
    let right ← g.expr
    return .binary op (.ident name start) right (← spanFrom start)

lemma unplacedArgs_eq_map (args : List Arg) : unplacedArgs args = args.map Arg.unplaced := by
  induction args with
  | nil => rfl
  | cons a rest ih => rw [unplacedArgs, ih, map_cons]

def argumentAt (g : Productions) (t : Token) (named : Bool) : Reader Arg :=
  match t with
  | .symbol .star => do
    step
    return .spread (← g.expr)
  | .symbol .doubleStar => do
    step
    return .spreadKeywords (← g.expr)
  | .keyword .let_ => do
    step
    let name ← keywordName
    return .keyword name (← g.expr)
  | .ident _ =>
    if named then do
      let name ← keywordName
      return .keyword name (← g.expr)
    else do
      return .positional (← g.expr)
  | _ => do return .positional (← g.expr)

def bodyAt (g : Productions) : Token → Reader (Node × Bool)
  | .newline => do
    let start ← here
    let list ← g.statements
    return (.block list.statements (← spanFrom start), true)
  | _ => do
    let body ← g.statement
    return (body, false)

def nextClause? (g : Productions) (more : Reader IfChain) (condition : Node) (b : Node × Bool) : Token →
    Option (Reader IfChain)
  | .keyword .elif => some do
    step
    let chain ← more
    return ⟨(condition, b.1) :: chain.cases_, chain.otherwise, chain.multiline⟩
  | .keyword .else_ => some do
    step
    let l ← g.clauseBody
    checkForm (some b.2) l.2
    if l.2 then closeBlock
    return ⟨[(condition, b.1)], some l.1, b.2⟩
  | .keyword .done => if b.2 then some (do step; return ⟨[(condition, b.1)], none, b.2⟩) else none
  | _ => if b.2 then some (unexpected ["'elif'", "'else'", "'done'"]) else none

def afterClause (g : Productions) (more : Reader IfChain) (condition : Node) (b : Node × Bool) :
    Reader IfChain := fun c =>
  match g.nextClause? more condition b c.skipNewlines.1.token with
  | some r => r c.skipNewlines.1
  | none => .ok ⟨[(condition, b.1)], none, b.2⟩ c

def loopRest (g : Productions) (first : Bool) (rounds newlines : Nat) : Reader StatementList :=
  if !first && newlines = 0 then pure ⟨[], none⟩ else do
    match ← attempt g.anyStatement with
    | .ok statement =>
      let list ← statementLoop g false rounds
      return { list with statements := statement :: list.statements }
    | .error fault => return ⟨[], some fault⟩

variable {k k' : Nat} {g : Productions}

lemma ifChain_succ (seen : Option Bool) (rounds : Nat) : g.ifChain seen (rounds + 1) = (do
    let condition ← g.expr
    expectKeyword .do_
    let b ← g.clauseBody
    checkForm seen b.2
    g.afterClause (g.ifChain (some b.2) rounds) condition b) := by
  rw [ifChain]
  refine congrArg (g.expr >>= ·) (funext fun condition => congrArg (expectKeyword .do_ >>= ·) (funext fun _ => ?_))
  refine congrArg (g.clauseBody >>= ·) (funext fun b => ?_)
  obtain ⟨body, block⟩ := b
  refine congrArg (checkForm seen block >>= ·) (funext fun _ => funext fun c => ?_)
  rw [afterClause, bind_apply, cursor]
  dsimp only
  rw [bind_apply, skipNewlines]
  dsimp only
  rw [bind_apply, token]
  dsimp only
  cases c.skipNewlines.1.token with
  | keyword w => cases w <;> cases block <;> rfl
  | _ => cases block <;> rfl

lemma argumentAt_of_isStop (h : t.isStop = true) (named : Bool) :
    g.argumentAt t named = (do return .positional (← g.expr)) := by
  rcases Token.isStop_cases h with rfl | rfl | rfl <;> rfl

lemma assignedValue_apply (name : String) (c : Cursor) :
    g.assignedValue name c = g.valueWith name c.here (updateOperator name c) c := by
  rw [assignedValue, bind_apply, updateOperator.eq_def, valueWith.eq_def]
  rfl

lemma updateOperator_of_beside {c d : Cursor} (h : c.Beside k k' d) (name : String) :
    updateOperator name c = updateOperator name d := by
  rcases h.cases with ⟨hc, hd⟩ | hword
  · have hnone {k : Nat} {c : Cursor} (hc : Stops k c.lexemes) : updateOperator name c = none := by
      rw [updateOperator]
      rcases Token.isStop_cases (Cursor.isStop_of_stops hc) with hc | hc | hc <;> rw [hc]
    rw [hnone hc, hnone hd]
  · rw [updateOperator, updateOperator, ← hword.token, ← hword.augmented]
    split
    · split
      · rename_i haug
        rw [hword.operator haug.2]
      · rfl
    · rfl

lemma carries_loadExpr : Carries k k' loadExpr loadExpr Node.unplaced := by
  intro c d
  refine .bind_here fun start start' => .pass .expectKeyword fun _ c d => .bind_token ⟨rfl, rfl⟩ fun t ht => ?_
  split
  · split
    · exact .bind_step ht rfl fun c d => .node fun _ _ => rfl
    · exact .failHere
  · exact .failHere

lemma carries_usingExpr : Carries k k' g.usingExpr g.usingExpr Node.unplaced := by
  intro c d
  refine .bind_here fun start start' => .pass .expectKeyword fun _ c d => .bind_atKeyword fun parent hp => ?_
  have hnames (c d : Cursor) : CarriesAt k k' c d
      (do let names ← Reader.names g.rounds; return .using_ names parent (← spanFrom start))
      (do let names ← Reader.names g.rounds; return .using_ names parent (← spanFrom start')) Node.unplaced :=
    .pass .names fun names c d => .node fun _ _ => rfl
  exact .ite (fun h => .bind_step (hp h) rfl hnames) fun _ => hnames c d

lemma carries_delExpr : Carries k k' g.delExpr g.delExpr Node.unplaced := by
  intro c d
  refine .bind_here fun start start' => .pass .expectKeyword fun _ c d => .pass .names
    fun names c d => .node fun _ _ => rfl

lemma carries_closeBlock : Carries k k' closeBlock closeBlock id :=
  fun _ _ => .bind_skipNewlines fun _ _ => .expectKeyword

lemma closeBlock_ne_ok {c : Cursor} {a : Unit} (h : c.Stuck) : closeBlock c ≠ .ok a after := by
  intro hread
  obtain ⟨hdone, -⟩ := Bool.or_eq_false_iff.1 h.closer
  obtain ⟨_, mid, hskip, hread⟩ := ok_of_bind hread
  rw [skipNewlines, Cursor.skipNewlines_of_token h.newline] at hskip
  cases hskip
  rw [expectKeyword, bind_apply, atKeyword, hdone] at hread
  contradiction

lemma checkForm_ok {c : Cursor} {a : Unit} (h : checkForm seen block c = .ok a after) : after = c := by
  unfold checkForm at h
  split at h
  · contradiction
  · exact (Parsed.ok.inj h).2.symm

lemma bodyAt_line {β : Type} {F : Node × Bool → Reader β} {c : Cursor} : (g.bodyAt .newline >>= F) c =
    (g.statements >>= fun list => spanFrom c.here >>= fun span => F (.block list.statements span, true)) c := by
  change ((g.statements >>= fun list => spanFrom c.here >>= fun span => pure (Node.block list.statements span,
    true)) >>= F) c = _
  rw [bind_assoc]
  rfl

lemma bodyAt_word (h : t ≠ .newline) : g.bodyAt t = do
    let body ← g.statement
    return (body, false) := by
  cases t with
  | newline => contradiction
  | _ => rfl

section clauses

variable {more : Reader IfChain} {condition : Node}

lemma nextClause?_of_isStop {b : Node × Bool} (h : t.isStop = true) :
    g.nextClause? more condition b t = g.nextClause? more condition b .eof := by
  rcases Token.isStop_cases h with rfl | rfl | rfl <;> rfl

lemma nextClause?_of_stuck {body : Node} (h : endsBlock t = false) :
    g.nextClause? more condition (body, true) t = some (unexpected ["'elif'", "'else'", "'done'"]) := by
  cases t with
  | keyword w => cases w <;> first | contradiction | rfl
  | _ => rfl

end clauses

lemma carries_checkForm : Carries k k' (checkForm seen block) (checkForm seen block) id :=
  fun _ _ => .ite (fun _ => .failHere) fun _ => .pure rfl

lemma carries_keywordName : Carries k k' keywordName keywordName id :=
  fun _ _ => .pass .ident fun _ _ _ => .pass .expectSymbol fun _ _ _ => .pure rfl

lemma carries_functionName : Carries k k' functionName functionName id := by
  intro c d
  refine .bind_token ⟨rfl, rfl⟩ fun t ht => ?_
  split
  · exact .bind_step ht rfl fun _ _ => .pure rfl
  · exact .pure rfl

lemma carries_memberExpr {object object' : Node} (ho : object.unplaced = object'.unplaced) {c d : Cursor}
    (ht : c.token = .symbol .dot) : CarriesAt k k' c d (memberExpr object) (memberExpr object') Node.unplaced := by
  refine .bind_step ht rfl fun c d => .pass .ident fun name c d =>
    .node fun _ _ => ?_
  rw [Node.unplaced, Node.unplaced, ho]

lemma isIdle_of_isStop (h : t.isStop = true) : isIdle t = true := by
  rcases Token.isStop_cases h with rfl | rfl | rfl <;> rfl

lemma anyExpr_ne_ok {c : Cursor} {n : Node} (h : isIdle c.token = true ∨ c.token.isJump = true) :
    g.anyExpr c ≠ .ok n after := by
  obtain ⟨fault, hfail⟩ := anyExpr_fail (g := g) h
  rw [hfail]
  exact nofun

lemma anyStatement_ne_ok {c : Cursor} {n : Node} (h : isIdle c.token = true) : g.anyStatement c ≠ .ok n after := by
  obtain ⟨fault, hattempt⟩ := attempt_anyStatement (g := g) h
  intro hread
  rw [attempt, hread] at hattempt
  obtain ⟨hresult, -⟩ := Parsed.ok.inj hattempt
  contradiction

lemma updateOperator_isSome {name : String} {c : Cursor} {op : BinaryOp} (h : updateOperator name c = some op) :
    c.token.isSolid = true ∧ c.next.token.isSolid = true := by
  rw [updateOperator] at h
  split at h
  · rename_i hc
    refine ⟨by rw [hc]; rfl, ?_⟩
    split at h
    · cases ht : c.next.token with
      | eof | newline => rw [ht] at h; contradiction
      | _ => rfl
    · contradiction
  · contradiction

namespace Carried

variable {rounds newlines : Nat} {after mid : Cursor} {first : Bool} {start start' : Span} {var : String}
  {list : StatementList} (hg : g.Carried k k')
include hg

lemma assignedValue (name : String) : Carries k k' (g.assignedValue name) (g.assignedValue name) Node.unplaced := by
  intro c d
  have hvalue : CarriesAt k k' c d (g.valueWith name c.here (updateOperator name c))
      (g.valueWith name d.here (updateOperator name c)) Node.unplaced := by
    cases hop : updateOperator name c with
    | none => exact hg.expr c d
    | some op =>
      obtain ⟨hhere, hnext⟩ := updateOperator_isSome hop
      refine .bind_stepTo hhere (.bind_step c.token_step hnext fun _ _ => .bind_skipNewlines fun c d => ?_)
      refine .bind (hg.expr c d) fun right right' hright c d => .node fun _ _ => ?_
      simp only [Node.unplaced, hright]
  refine hvalue.congr (assignedValue_apply name c) fun hb => ?_
  rw [assignedValue_apply, updateOperator_of_beside hb]

lemma letExpr : Carries k k' g.letExpr g.letExpr Node.unplaced := by
  intro c d
  refine .bind_here fun start start' => .pass .expectKeyword fun _ c d => .pass .ident
    fun name c d => .bind_token ⟨rfl, rfl⟩ fun t ht => ?_
  split
  · refine .bind_step ht rfl fun _ _ => .bind_skipNewlines fun c d =>
      .bind (hg.assignedValue name c d) fun value value' hvalue c d => .node fun _ _ => ?_
    rw [Node.unplaced, Node.unplaced, hvalue]
  · refine .bind_step ht rfl fun c d => .pass .ident fun new c d =>
      .node fun _ _ => rfl
  · refine .pass .moreNames fun others c d => .pass .expectSymbol fun _ c d =>
      .bind_skipNewlines fun c d => .bind (hg.expr c d) fun value value' hvalue c d => .node fun _ _ => ?_
    rw [Node.unplaced, Node.unplaced, hvalue]
  · exact .unexpected

section blocks

variable {β δ : Type} {v : β → δ} {c d : Cursor}

lemma statements_ne_ok {F : StatementList → Reader β}
    (hstuck : ∀ list mid, mid.Stuck → ∀ b after, F list mid ≠ .ok b after)
    (h : Stops k c.lexemes) (b : β) (after : Cursor) : (g.statements >>= F) c ≠ .ok b after := by
  intro hread
  obtain ⟨list, mid, hlist, hrest⟩ := ok_of_bind hread
  exact hstuck list mid (hg.halted h hlist) b after hrest

lemma bind_statements {F F' : StatementList → Reader β}
    (hF : ∀ list list', unplacedNodes list.statements = unplacedNodes list'.statements →
      Carries k k' (F list) (F' list') v)
    (hstuck : ∀ list mid, mid.Stuck → ∀ b after, F list mid ≠ .ok b after) :
    CarriesAt k k' c d (g.statements >>= F) (g.statements >>= F') v where
  before := before_bind (hg.before c) fun list mid => (hF list list rfl mid mid).before
  beside hb b after hread := by
    obtain ⟨list, mid, hlist, hrest⟩ := ok_of_bind hread
    rcases hg.statements hb hlist with ⟨hmid, -⟩ | hpast | ⟨list', mid', hlist', hmid, hsame⟩
    · exact absurd hrest (hstuck list mid hmid b after)
    · exact .inl (left_lt_of_before (hF list list rfl mid mid).before hrest hpast)
    · rw [bind_apply, hlist']
      exact (hF list list' hsame mid mid').beside hmid b after hrest

lemma bind_clauseBody {F F' : Node × Bool → Reader β}
    (hF : ∀ b b', bodyUnplaced b = bodyUnplaced b' → Carries k k' (F b) (F' b') v)
    (hstuck : ∀ body mid, mid.Stuck → ∀ b after, F (body, true) mid ≠ .ok b after) :
    CarriesAt k k' c d (g.clauseBody >>= F) (g.clauseBody >>= F') v := by
  have hstuck' (start : Span) (list : StatementList) (mid : Cursor) (hmid : mid.Stuck) (b : β) (after : Cursor) :
      (spanFrom start >>= fun span => F (.block list.statements span, true)) mid ≠ .ok b after :=
    hstuck _ mid hmid b after
  change CarriesAt k k' c d (token >>= fun t => g.bodyAt t >>= F) (token >>= fun t => g.bodyAt t >>= F') v
  refine .bind_token_word (fun hc b after hread => ?_) fun t ht => ?_
  · by_cases hline : c.token = .newline
    · rw [hline, bodyAt_line] at hread
      exact hg.statements_ne_ok (hstuck' c.here) hc b after hread
    · rw [bodyAt_word hline] at hread
      obtain ⟨_, _, hread, -⟩ := ok_of_bind hread
      obtain ⟨_, _, hread, -⟩ := ok_of_bind hread
      exact hg.idle (Cursor.isStop_of_stops hc) hread
  · by_cases hline : t = .newline
    · subst hline
      refine (hg.bind_statements (fun list list' hlist c d => .bind_spanFrom fun _ _ => hF _ _ ?_ c d)
        (hstuck' c.here)).congr bodyAt_line fun _ => bodyAt_line
      simp only [bodyUnplaced, Node.unplaced, hlist]
    · rw [bodyAt_word hline]
      exact .bind (.bind (hg.statement c d) fun body body' hbody c d => .pure (congrArg (·, false) hbody)) hF

lemma loopBody : Carries k k' g.loopBody g.loopBody bodyUnplaced := by
  intro c d
  refine hg.bind_clauseBody (fun b b' hb c d => ?_) fun body mid hmid b after hread => ?_
  · obtain ⟨body, block⟩ := b
    obtain ⟨body', block'⟩ := b'
    obtain rfl : block = block' := congrArg Prod.snd hb
    exact .ite (fun _ => .pass (carries_closeBlock c d) fun _ c d => .pure hb) fun _ => .pure hb
  · obtain ⟨_, _, hclose, -⟩ := ok_of_bind (show (closeBlock >>= fun _ => pure (body, true)) mid = .ok b after
      from hread)
    exact closeBlock_ne_ok hmid hclose

lemma nextClause {more : Reader IfChain} {condition condition' : Node} {b b' : Node × Bool} {t : Token}
    (hmore : Carries k k' more more IfChain.unplaced) (hcondition : condition.unplaced = condition'.unplaced)
    (hb : bodyUnplaced b = bodyUnplaced b') (ht : c.token = t) :
    Option.Rel (fun r r' => CarriesAt k k' c d r r' IfChain.unplaced) (g.nextClause? more condition b t)
      (g.nextClause? more condition' b' t) := by
  obtain ⟨body, block⟩ := b
  obtain ⟨body', block'⟩ := b'
  obtain ⟨hbody, rfl⟩ := Prod.mk.inj hb
  have hsingle : IfChain.unplaced ⟨[(condition, body)], none, block⟩ =
      IfChain.unplaced ⟨[(condition', body')], none, block⟩ := by
    simp only [IfChain.unplaced, unplacedPairs, hcondition, hbody]
  rw [nextClause?.eq_def, nextClause?.eq_def]
  split
  · refine .some (.bind_step ht rfl fun c d => .bind (hmore c d) fun chain chain' hchain c d => .pure ?_)
    simp only [IfChain.unplaced, IfChain.mk.injEq] at hchain
    simp only [IfChain.unplaced, unplacedPairs, hcondition, hbody, hchain]
  · refine .some (.bind_step ht rfl fun c d => hg.bind_clauseBody (fun l l' hl c d => ?_)
      fun last mid hmid chain after hread => ?_)
    · obtain ⟨last, lastBlock⟩ := l
      obtain ⟨last', lastBlock'⟩ := l'
      obtain ⟨hlast, rfl⟩ := Prod.mk.inj hl
      have hboth : IfChain.unplaced ⟨[(condition, body)], some last, block⟩ =
          IfChain.unplaced ⟨[(condition', body')], some last', block⟩ := by
        simp only [IfChain.unplaced, unplacedPairs, unplacedOption, hcondition, hbody, hlast]
      refine .pass (carries_checkForm c d) fun _ c d => .ite (fun _ => ?_) fun _ => .pure hboth
      exact .pass (carries_closeBlock c d) fun _ c d => .pure hboth
    · obtain ⟨_, _, hform, hread⟩ := ok_of_bind hread
      rw [checkForm_ok hform] at hread
      obtain ⟨_, _, hclose, -⟩ := ok_of_bind (show (closeBlock >>= fun _ => pure _) mid = .ok chain after from hread)
      exact closeBlock_ne_ok hmid hclose
  · dsimp only
    split
    · exact .some (.bind_step ht rfl fun c d => .pure hsingle)
    · exact .none
  · dsimp only
    split
    · exact .some .unexpected
    · exact .none

lemma afterClause {more : Reader IfChain} {condition condition' : Node} {b b' : Node × Bool}
    (hmore : Carries k k' more more IfChain.unplaced) (hcondition : condition.unplaced = condition'.unplaced)
    (hb : bodyUnplaced b = bodyUnplaced b') :
    Carries k k' (g.afterClause more condition b) (g.afterClause more condition' b') IfChain.unplaced := by
  refine fun c d => ⟨?_, fun hbeside chain after hread => ?_⟩
  · have hnext := @nextClause _ _ _ hg c.skipNewlines.1 c.skipNewlines.1 _ _ _ _ _ _ hmore hcondition hb rfl
    rw [Productions.afterClause]
    generalize g.nextClause? more condition' b' c.skipNewlines.1.token = next' at hnext
    generalize g.nextClause? more condition b c.skipNewlines.1.token = next at hnext
    cases hnext with
    | none => exact .refl c
    | some h => exact c.before_skipNewlines.trans h.before
  · have hskip := hbeside.skipNewlines.1
    have hnext := @nextClause _ _ _ hg c.skipNewlines.1 d.skipNewlines.1 _ _ _ _ _ _ hmore hcondition hb rfl
    have hsame : g.nextClause? more condition' b' d.skipNewlines.1.token =
        g.nextClause? more condition' b' c.skipNewlines.1.token := by
      rcases hskip.cases with ⟨hc, hd⟩ | hword
      · rw [nextClause?_of_isStop (Cursor.isStop_of_stops hc), nextClause?_of_isStop (Cursor.isStop_of_stops hd)]
      · rw [hword.token]
    rw [Productions.afterClause] at hread ⊢
    rw [hsame]
    generalize g.nextClause? more condition' b' c.skipNewlines.1.token = next' at hnext
    generalize g.nextClause? more condition b c.skipNewlines.1.token = next at hnext hread
    cases hnext with
    | some h => exact h.beside hskip chain after hread
    | none =>
      cases hread
      obtain ⟨hbody, hblock⟩ := Prod.mk.inj hb
      refine .inr ⟨_, d, rfl, hbeside, ?_⟩
      simp only [IfChain.unplaced, unplacedPairs, hcondition, hbody, hblock]

lemma ifChain (seen : Option Bool) (rounds : Nat) :
    Carries k k' (g.ifChain seen rounds) (g.ifChain seen rounds) IfChain.unplaced := by
  induction rounds generalizing seen with
  | zero => exact fun _ _ => .unexpected
  | succ rounds ih =>
    intro c d
    rw [ifChain_succ]
    refine .bind (hg.expr c d) fun condition condition' hcondition c d => .pass .expectKeyword fun _ c d =>
      hg.bind_clauseBody (fun b b' hb c d => ?_) fun body mid hmid chain after hread => ?_
    · have hblock : b.2 = b'.2 := (Prod.mk.inj hb).2
      rw [hblock]
      exact .pass (carries_checkForm c d) fun _ => hg.afterClause (ih _) hcondition hb
    · obtain ⟨_, _, hform, hread⟩ := ok_of_bind hread
      rw [checkForm_ok hform, Productions.afterClause, Cursor.skipNewlines_of_token hmid.newline,
        nextClause?_of_stuck hmid.closer] at hread
      contradiction

end blocks

lemma ifExpr : Carries k k' g.ifExpr g.ifExpr Node.unplaced := by
  intro c d
  refine .bind_here fun start start' => .pass .expectKeyword fun _ c d => .bind (hg.ifChain _ _ c d)
    fun chain chain' hchain c d => .node fun _ _ => ?_
  simp only [IfChain.unplaced, IfChain.mk.injEq] at hchain
  simp only [Node.unplaced, hchain]

lemma stepClause : Carries k k' g.stepClause g.stepClause unplacedOption := by
  intro c d
  refine .ifKeyword (fun ht => .bind_step ht rfl fun c d => ?_) (.pure rfl)
  exact .bind (hg.expr c d) fun value value' hvalue c d => .pure (congrArg some hvalue)

lemma forRangeExpr {c d : Cursor} (ht : c.token = .symbol .assign) :
    CarriesAt k k' c d (g.forRangeExpr start var) (g.forRangeExpr start' var) Node.unplaced := by
  refine .bind_step ht rfl fun c d => .bind (hg.expr c d) fun first first' hfirst c d =>
    .pass .expectKeyword fun _ c d => .bind (hg.expr c d) fun last last' hlast c d =>
    .bind (hg.stepClause c d) fun step step' hstep c d => .pass .expectKeyword fun _ c d =>
    .bind (hg.loopBody c d) fun b b' hb c d => ?_
  obtain ⟨hbody, hblock⟩ := Prod.mk.inj hb
  refine .node fun _ _ => ?_
  simp only [Node.unplaced, hfirst, hlast, hstep, hbody, hblock]

lemma forInExpr : Carries k k' (g.forInExpr start var) (g.forInExpr start' var) Node.unplaced := by
  intro c d
  refine .pass .moreNames fun others c d => .ifKeyword (fun ht => ?_) .unexpected
  refine .bind_step ht rfl fun c d => .bind (hg.expr c d) fun iterable iterable' hiterable c d =>
    .pass .expectKeyword fun _ c d => .bind (hg.loopBody c d) fun b b' hb c d => ?_
  obtain ⟨hbody, hblock⟩ := Prod.mk.inj hb
  refine .node fun _ _ => ?_
  simp only [Node.unplaced, hiterable, hbody, hblock]

lemma forExpr : Carries k k' g.forExpr g.forExpr Node.unplaced := by
  intro c d
  refine .bind_here fun start start' => .pass .expectKeyword fun _ c d => ?_
  have hloop (c d : Cursor) : CarriesAt k k' c d
      (do let first ← ident; if ← atSymbol .assign then g.forRangeExpr start first else g.forInExpr start first)
      (do let first ← ident; if ← atSymbol .assign then g.forRangeExpr start' first else g.forInExpr start' first)
      Node.unplaced := by
    refine .pass .ident fun name c d => ?_
    exact .ifSymbol nofun (fun ht => hg.forRangeExpr ht) (hg.forInExpr c d)
  exact .ifKeyword (fun ht => .bind_step ht rfl hloop) (hloop c d)

lemma whileExpr : Carries k k' g.whileExpr g.whileExpr Node.unplaced := by
  intro c d
  refine .bind_here fun start start' => .pass .expectKeyword fun _ c d => .bind (hg.expr c d)
    fun condition condition' hcondition c d => .pass .expectKeyword fun _ c d =>
    .bind (hg.loopBody c d) fun b b' hb c d => ?_
  obtain ⟨hbody, hblock⟩ := Prod.mk.inj hb
  refine .node fun _ _ => ?_
  simp only [Node.unplaced, hcondition, hbody, hblock]

lemma namespaceExpr : Carries k k' g.namespaceExpr g.namespaceExpr Node.unplaced := by
  intro c d
  refine .bind_here fun start start' => .pass .expectKeyword fun _ c d =>
    .pass .ident fun name c d => ?_
  have hstuck (list : StatementList) (mid : Cursor) (hmid : mid.Stuck) (n : Node) (after : Cursor) :
      (do closeBlock; return Node.namespace_ name list.statements (← spanFrom start)) mid ≠ .ok n after := by
    intro hread
    obtain ⟨_, _, hclose, -⟩ := ok_of_bind hread
    exact closeBlock_ne_ok hmid hclose
  refine .bind_token_word (fun hc n after hread => ?_) fun t ht => ?_
  · rcases Token.isStop_cases (Cursor.isStop_of_stops hc) with ht | ht | ht <;> rw [ht] at hread
    · contradiction
    · exact hg.statements_ne_ok hstuck hc n after hread
    · contradiction
  · split
    · refine hg.bind_statements (fun list list' hlist c d => .pass (carries_closeBlock c d) fun _ c d =>
        .node fun _ _ => ?_) hstuck
      simp only [Node.unplaced, hlist]
    · exact .unexpected

lemma listExpr : Carries k k' g.listExpr g.listExpr Node.unplaced := by
  intro c d
  refine .bind_here fun start start' => .pass .expectSymbol fun _ c d => .bind (.items hg.expr nofun)
    fun elements elements' helements c d => .node fun _ _ => ?_
  simp only [Node.unplaced, unplacedNodes_eq_map, helements]

lemma mapEntry : Carries k k' g.mapEntry g.mapEntry fun e => (e.1.unplaced, e.2.unplaced) := by
  intro c d
  exact .bind (hg.expr c d) fun key key' hkey c d => .pass .expectSymbol fun _ c d => .bind (hg.expr c d)
    fun value value' hvalue c d => .pure (congrArg₂ Prod.mk hkey hvalue)

lemma mapExpr : Carries k k' g.mapExpr g.mapExpr Node.unplaced := by
  intro c d
  refine .bind_here fun start start' => .pass .expectSymbol fun _ c d => .bind (.items hg.mapEntry nofun)
    fun entries entries' hentries c d => .node fun _ _ => ?_
  simp only [Node.unplaced, unplacedPairs_eq_map, hentries]

lemma keywordArgument {c d : Cursor} : CarriesAt k k' c d (do let name ← keywordName; return .keyword name (← g.expr))
    (do let name ← keywordName; return .keyword name (← g.expr)) Arg.unplaced := by
  refine .pass (carries_keywordName c d) fun name c d => .bind (hg.expr c d) fun value value' hvalue c d =>
    .pure ?_
  rw [Arg.unplaced, Arg.unplaced, hvalue]

lemma argument : Carries k k' g.argument g.argument Arg.unplaced := by
  intro c d
  have hpositional (c d : Cursor) : CarriesAt k k' c d (do return .positional (← g.expr))
      (do return .positional (← g.expr)) Arg.unplaced :=
    .bind (hg.expr c d) fun value value' hvalue c d => .pure (congrArg Arg.positional hvalue)
  have hread : CarriesAt k k' c d (argumentAt g c.token (c.next.token.isSymbol .assign))
      (argumentAt g c.token (c.next.token.isSymbol .assign)) Arg.unplaced := by
    generalize ht : c.token = t
    rw [argumentAt.eq_def]
    split
    · exact .bind_step ht rfl fun c d => .bind (hg.expr c d) fun value value' hvalue c d =>
        .pure (congrArg Arg.spread hvalue)
    · exact .bind_step ht rfl fun c d => .bind (hg.expr c d) fun value value' hvalue c d =>
        .pure (congrArg Arg.spreadKeywords hvalue)
    · exact .bind_step ht rfl fun c d => hg.keywordArgument
    · exact .ite (fun _ => hg.keywordArgument) fun _ => hpositional c d
    · exact hpositional c d
  refine hread.congr rfl fun hb => ?_
  rw [show g.argument d = argumentAt g d.token (d.next.token.isSymbol .assign) d from rfl]
  rcases hb.cases with ⟨hc, hd⟩ | hword
  · rw [argumentAt_of_isStop (Cursor.isStop_of_stops hc), argumentAt_of_isStop (Cursor.isStop_of_stops hd)]
  · rw [hword.token, hword.isAssign]

omit hg in
lemma parameter_stopped {c : Cursor} {a : Param × Span} (h : c.token.isStop = true) :
    g.placedParameter c ≠ .ok a after := by
  have hparameter : g.parameter c = .fail ⟨.expectedIdent, c.here⟩ c := by
    simp only [Productions.parameter, bind_apply, token]
    rcases Token.isStop_cases h with h | h | h <;> simp only [h, bind_apply, ident, token, failHere]
  intro hread
  simp only [Productions.placedParameter, bind_apply, here, hparameter] at hread
  contradiction

lemma parameter : Carries k k' g.parameter g.parameter Param.unplaced := by
  intro c d
  refine .bind_token ⟨rfl, rfl⟩ fun t ht => ?_
  split
  · exact .bind_step ht rfl fun c d => .pass .ident fun name c d =>
      .pure rfl
  · exact .bind_step ht rfl fun c d => .pass .ident fun name c d =>
      .pure rfl
  · refine .bind_step ht rfl fun c d => .pass (carries_keywordName c d) fun name c d =>
      .bind (hg.expr c d) fun value value' hvalue c d => .pure ?_
    rw [Param.unplaced, Param.unplaced, hvalue]
  · refine .pass .ident fun name c d =>
      .ifSymbol nofun (fun ht => ?_) (.pure rfl)
    refine .bind_step ht rfl fun c d => .bind (hg.expr c d) fun value value' hvalue c d => .pure ?_
    rw [Param.unplaced, Param.unplaced, hvalue]

lemma placedParameter : Carries k k' g.placedParameter g.placedParameter fun p => p.1.unplaced :=
  fun c d => .bind_here fun _ _ => .bind (hg.parameter c d) fun _ _ hparam _ _ => .node fun _ _ => hparam

omit hg in
lemma paramFault?_of_unplaced {seen : ParamsSeen} {params params' : List (Param × Span)}
    (h : params.map (·.1.unplaced) = params'.map (·.1.unplaced)) (hnone : paramFault? seen params = none) :
    paramFault? seen params' = none := by
  induction params generalizing seen params' with
  | nil =>
    obtain rfl : params' = [] := by simpa using h.symm
    rfl
  | cons p rest ih =>
    obtain ⟨⟨param', span'⟩, rest', rfl, hparam, hrest⟩ := map_eq_cons_iff.1 h.symm
    obtain ⟨param, span⟩ := p
    have hpass {b : Prop} {_ : Decidable b} {fault fault' : SyntaxFault} {later later' : Option SyntaxFault}
        (h : (if b then some fault else later) = none) (hlater : later = none → later' = none) :
        (if b then some fault' else later') = none := by
      split at h
      · contradiction
      · rename_i hb
        rw [if_neg hb]
        exact hlater h
    rw [paramFault?] at hnone ⊢
    cases param with
    | optional name value =>
      cases param' with
      | optional name' value' =>
        obtain ⟨rfl, -⟩ := Param.optional.inj hparam
        exact hpass hnone fun h => ih hrest.symm h
      | _ => contradiction
    | _ =>
      cases param' <;> cases hparam
      exact hpass hnone fun h => hpass h fun h => ih hrest.symm h

lemma parameters : Carries k k' g.parameters g.parameters (List.map Param.unplaced) := by
  intro c d
  refine .pass .expectSymbol fun _ c d => .bind (.items hg.placedParameter fun _ _ _ _ h => parameter_stopped h)
    fun params params' hparams c d => ?_
  cases hfault : paramFault? {} params with
  | some fault => exact .failAt
  | none =>
    rw [paramFault?_of_unplaced hparams hfault]
    refine .pure ?_
    rw [map_map, map_map]
    exact hparams

omit hg in
lemma decorators_bind {β : Type} {K : List Node → Reader β} (rounds : Nat) : g.decorators (rounds + 1) >>= K = (do
    if ← atSymbol .at_ then
      step
      let first ← g.climb .power
      let newlines ← skipNewlines
      if newlines = 0 then unexpected ["newline"] else
        let rest ← g.decorators rounds
        K (first :: rest)
    else K []) := by
  rw [Productions.decorators, bind_assoc]
  refine congrArg (atSymbol .at_ >>= ·) (funext fun b => ?_)
  cases b with
  | false => rfl
  | true =>
    simp only [if_true, bind_assoc]
    refine congrArg (step >>= ·) (funext fun _ => congrArg (g.climb .power >>= ·) (funext fun first => ?_))
    refine congrArg (skipNewlines >>= ·) (funext fun newlines => ?_)
    split
    · rfl
    · rw [bind_assoc]
      rfl

omit hg in
lemma decorators_of_isStop {c : Cursor} {ds : List Node} (h : c.token.isStop = true)
    (hread : g.decorators rounds c = .ok ds mid) : mid = c := by
  cases rounds with
  | zero => contradiction
  | succ rounds =>
    rw [Productions.decorators, bind_apply, atSymbol, CarriesAt.isSymbol_of_isStop (s := .at_) h (by simp)] at hread
    exact (Parsed.ok.inj hread).2.symm

lemma bind_decorators {β δ : Type} {v : β → δ} {K K' : List Node → Reader β} (rounds : Nat)
    (hK : ∀ ds ds', unplacedNodes ds = unplacedNodes ds' → Carries k k' (K ds) (K' ds') v)
    (hstop : ∀ ds mid, mid.token.isStop = true → ∀ b after, K ds mid ≠ .ok b after) :
    Carries k k' (g.decorators rounds >>= K) (g.decorators rounds >>= K') v := by
  induction rounds generalizing K K' with
  | zero => exact fun _ _ => .fail rfl
  | succ rounds ih =>
    intro c d
    rw [decorators_bind, decorators_bind]
    refine .ifSymbol nofun (fun ht => .bind_step ht rfl fun c d => ?_) (hK [] [] rfl c d)
    refine .bind (hg.climb _ c d) fun first first' hfirst c d => ?_
    have hrest := @ih (fun rest => K (first :: rest)) (fun rest => K' (first' :: rest))
      (fun ds ds' hds => hK _ _ (congrArg₂ List.cons hfirst hds)) fun ds => hstop (first :: ds)
    refine ⟨before_bind c.before_skipNewlines fun newlines mid => ?_, fun hb b after hread => ?_⟩
    · split
      · exact .refl _
      · exact (hrest mid mid).before
    · obtain ⟨hskip, -, hcount⟩ := hb.skipNewlines
      change (if c.skipNewlines.2 = 0 then _ else _ : Reader β) c.skipNewlines.1 = .ok b after at hread
      change _ ∨ ∃ b' after', (if d.skipNewlines.2 = 0 then _ else _ : Reader β) d.skipNewlines.1 = .ok b' after' ∧ _
      split at hread
      · contradiction
      · rename_i hne
        rcases hcount with heq | ⟨hc, -⟩
        · rw [if_neg (heq ▸ hne)]
          exact (hrest _ _).beside hskip b after hread
        · -- nothing is decorated at the end of a text
          obtain ⟨rest, mid, hdecorators, hread⟩ := ok_of_bind hread
          obtain rfl := decorators_of_isStop (Cursor.isStop_of_stops hc) hdecorators
          exact absurd hread (hstop _ _ (Cursor.isStop_of_stops hc) b after)

lemma functionBody : Carries k k' g.functionBody g.functionBody bodyUnplaced := by
  intro c d
  have hstuck (list : StatementList) (mid : Cursor) (hmid : mid.Stuck) (b : Node × Bool) (after : Cursor) :
      (do
        let span ← spanFrom c.here
        closeBlock
        return (Node.block list.statements span, false)) mid ≠ .ok b after := by
    intro hread
    obtain ⟨_, _, hclose, -⟩ := ok_of_bind (show (closeBlock >>= fun _ => pure _) mid = .ok b after from hread)
    exact closeBlock_ne_ok hmid hclose
  refine .bind_token_word (fun hc b after hread => ?_) fun t ht => ?_
  · rcases Token.isStop_cases (Cursor.isStop_of_stops hc) with ht | ht | ht <;> rw [ht] at hread
    · contradiction
    · exact hg.statements_ne_ok hstuck hc b after hread
    · contradiction
  · split
    · exact .bind_step ht rfl fun _ _ => .bind_skipNewlines fun c d =>
        .bind (hg.expr c d) fun body body' hbody c d => .pure (congrArg (·, true) hbody)
    · refine CarriesAt.congr (hg.bind_statements (fun list list' hlist c d => .bind_spanFrom fun _ _ =>
        .pass (carries_closeBlock c d) fun _ c d => .pure ?_) hstuck) rfl fun _ => rfl
      simp only [bodyUnplaced, Node.unplaced, hlist]
    · exact .unexpected

lemma functionExpr : Carries k k' g.functionExpr g.functionExpr Node.unplaced := by
  intro c d
  let rest (isAsync : Bool) (start : Span) (decorators : List Node) : Reader Node := do
    expectKeyword .defun
    let name ← functionName
    let params ← g.parameters
    let r ← g.functionBody
    return .function name params r.1 r.2 isAsync decorators (← spanFrom start)
  refine .bind_here fun start start' => hg.bind_decorators _ (fun decorators decorators' hdecorators c d => ?_)
    (fun decorators mid hmid n after hread => ?_) c d
  · refine .bind_atKeyword fun isAsync ha => ?_
    have hrest : Carries k k' (rest isAsync start decorators) (rest isAsync start' decorators') Node.unplaced := by
      intro c d
      refine .pass .expectKeyword fun _ c d => .pass (carries_functionName c d) fun name c d =>
        .bind (hg.parameters c d) fun params params' hparams c d => .bind (hg.functionBody c d) fun b b' hb c d => ?_
      obtain ⟨hbody, hreturn⟩ := Prod.mk.inj hb
      refine .node fun _ _ => ?_
      simp only [Node.unplaced, unplacedParams_eq_map, hparams, hbody, hreturn,
        hdecorators]
    exact .ite (fun hb => .bind_step (ha hb) rfl hrest) fun _ => hrest c d
  · have hread : rest false start decorators mid = .ok n after := by
      rw [bind_apply, atKeyword, CarriesAt.isKeyword_of_isStop hmid] at hread
      exact hread
    obtain ⟨_, _, hdefun, -⟩ := ok_of_bind hread
    rw [expectKeyword, bind_apply, atKeyword, CarriesAt.isKeyword_of_isStop hmid] at hdefun
    contradiction

lemma unaryExpr {op : UnaryOp} {level : Precedence} {c d : Cursor} (ht : c.token.isSolid = true) :
    CarriesAt k k' c d (g.unaryExpr op level) (g.unaryExpr op level) Node.unplaced := by
  refine .bind_here fun start start' => .bind_step rfl ht fun c d =>
    .bind (hg.climb _ c d) fun value value' hvalue c d => .node fun _ _ => ?_
  rw [Node.unplaced, Node.unplaced, hvalue]

lemma parenthesized {c d : Cursor} (ht : c.token.isSolid = true) :
    CarriesAt k k' c d g.parenthesized g.parenthesized Node.unplaced :=
  .bind_step rfl ht fun _ _ => .bind_skipNewlines fun c d => .bind (hg.expr c d) fun _ _ hnode _ _ =>
    .bind_skipNewlines fun _ _ => .pass .expectSymbol fun _ _ _ => .pure hnode

lemma awaitExpr {c d : Cursor} (ht : c.token.isSolid = true) :
    CarriesAt k k' c d g.awaitExpr g.awaitExpr Node.unplaced := by
  refine .bind_here fun start start' => .bind_step rfl ht fun c d =>
    .bind (hg.climb _ c d) fun value value' hvalue c d => .node fun _ _ => ?_
  rw [Node.unplaced, Node.unplaced, hvalue]

lemma operand : Carries k k' g.operand g.operand Node.unplaced := by
  intro c d
  refine .bind_here fun start start' => .bind_token ⟨rfl, rfl⟩ fun t ht => ?_
  split
  iterate 4 exact .bind_step ht rfl fun _ _ => .pure rfl
  iterate 3 exact hg.unaryExpr (by rw [ht]; rfl)
  · exact hg.parenthesized (by rw [ht]; rfl)
  · exact hg.listExpr c d
  · exact hg.mapExpr c d
  · exact hg.ifExpr c d
  · exact hg.forExpr c d
  · exact hg.whileExpr c d
  iterate 3 exact hg.functionExpr c d
  · exact hg.namespaceExpr c d
  · exact hg.awaitExpr (by rw [ht]; rfl)
  · exact hg.letExpr c d
  · exact carries_loadExpr c d
  · exact carries_usingExpr c d
  · exact carries_delExpr c d
  · exact .unexpected

section operators

variable {c d : Cursor} {left left' : Node} (hl : left.unplaced = left'.unplaced)
include hl

lemma callExpr (ht : c.token = .symbol .leftParen) :
    CarriesAt k k' c d (g.callExpr left) (g.callExpr left') Node.unplaced := by
  have hstopped {c : Cursor} {a : Arg} {after : Cursor} (hc : c.token.isStop = true) : g.argument c ≠ .ok a after := by
    intro hread
    rw [show g.argument c = argumentAt g c.token (c.next.token.isSymbol .assign) c from rfl,
      argumentAt_of_isStop hc] at hread
    obtain ⟨n, mid, hexpr, -⟩ := ok_of_bind hread
    exact hg.stopped hc hexpr
  refine .bind_step ht rfl fun c d => .bind (.items hg.argument fun _ _ _ _ h => hstopped h)
    fun args args' hargs c d => .node fun _ _ => ?_
  simp only [Node.unplaced, hl, unplacedArgs_eq_map, hargs]

lemma binaryExpr {op : BinaryOp} (ht : c.token.isSolid = true) :
    CarriesAt k k' c d (g.binaryExpr op left) (g.binaryExpr op left') Node.unplaced := by
  refine .bind_step rfl ht fun _ _ => .bind_skipNewlines fun c d =>
    .bind (hg.climb _ c d) fun right right' hright c d => .node fun _ _ => ?_
  rw [Node.unplaced, Node.unplaced, hl, hright]

lemma extend : Carries k k' (g.extend left) (g.extend left') Node.unplaced := by
  intro c d
  refine .bind_token ⟨rfl, rfl⟩ fun t ht => ?_
  split
  · exact hg.callExpr hl ht
  · exact carries_memberExpr hl ht
  · cases hop : BinaryOp.ofToken? t with
    | none => exact .unexpected
    | some op =>
      refine hg.binaryExpr hl ?_
      cases t with
      | eof | newline => contradiction
      | _ => rw [ht]; rfl

lemma extendAbove {level : Precedence} (rounds : Nat) :
    Carries k k' (g.extendAbove level rounds left) (g.extendAbove level rounds left') Node.unplaced := by
  induction rounds generalizing left left' with
  | zero => exact fun _ _ => .unexpected
  | succ rounds ih =>
    intro c d
    refine .bind_token ⟨rfl, rfl⟩ fun t ht => .ite (fun _ => ?_) fun _ => .pure hl
    exact .bind (hg.extend hl c d) fun wider wider' hwider => ih hwider

end operators

lemma climbExpr (level : Precedence) : Carries k k' (g.climbExpr level) (g.climbExpr level) Node.unplaced :=
  fun c d => .bind (hg.operand c d) fun _ _ hleft => hg.extendAbove hleft _

lemma assignable : Carries k k' g.assignable g.assignable Node.unplaced := by
  intro c d
  refine .bind (hg.climbExpr _ c d) fun node node' hnode c d => .ifSymbol nofun (fun ht => ?_) (.pure hnode)
  split
  · rename_i target index span
    -- a tree that is alike is an element, too
    obtain ⟨target', index', span', rfl, htarget, hindex⟩ : ∃ target' index' span',
        node' = .binary .index target' index' span' ∧ target.unplaced = target'.unplaced ∧
          index.unplaced = index'.unplaced := by
      cases node' <;> simp [Node.unplaced] at hnode
      obtain ⟨rfl, htarget, hindex⟩ := hnode
      exact ⟨_, _, _, rfl, htarget, hindex⟩
    refine .bind_step ht rfl fun _ _ => .bind_skipNewlines fun c d => .bind (hg.expr c d)
      fun value value' hvalue c d => .node fun _ _ => ?_
    simp only [Node.unplaced, htarget, hindex, hvalue]
  · exact .failHere

lemma anyExpr : Carries k k' g.anyExpr g.anyExpr Node.unplaced := by
  intro c d
  refine .bind_token ⟨rfl, rfl⟩ fun t ht => ?_
  split
  · exact hg.letExpr c d
  · exact carries_loadExpr c d
  · exact carries_usingExpr c d
  · exact carries_delExpr c d
  · exact hg.assignable c d

lemma returnStatement {c d : Cursor} (ht : c.token = .keyword .return_) :
    CarriesAt k k' c d g.returnStatement g.returnStatement Node.unplaced := by
  refine .bind_here fun start start' => .bind_step ht rfl fun c d => .bind_token ⟨rfl, rfl⟩ fun t ht => ?_
  refine .ite (fun _ => .node fun _ _ => rfl) fun _ => ?_
  refine .bind (hg.expr c d) fun value value' hvalue c d => .node fun _ _ => ?_
  simp only [Node.unplaced, unplacedOption, hvalue]

lemma anyStatement : Carries k k' g.anyStatement g.anyStatement Node.unplaced := by
  intro c d
  refine .bind_here fun start start' => .bind_token ⟨rfl, rfl⟩ fun t ht => ?_
  split
  · exact hg.returnStatement ht
  · exact .bind_step ht rfl fun _ _ => .pure rfl
  · exact .bind_step ht rfl fun _ _ => .pure rfl
  · exact hg.anyExpr c d

omit hg in
lemma loopRest_of_isIdle {first : Bool} {rounds newlines : Nat} {c : Cursor} (h : isIdle c.token = true) :
    ∃ unmatched, g.loopRest first rounds newlines c = .ok ⟨[], unmatched⟩ c := by
  unfold loopRest
  split
  · exact ⟨none, rfl⟩
  · obtain ⟨fault, hattempt⟩ := attempt_anyStatement (g := g) h
    exact ⟨some fault, by rw [bind_apply, hattempt]; rfl⟩

lemma loopRest_ok {c : Cursor} (h : g.loopRest first rounds newlines c = .ok list after) :
    list.statements = [] ∧ after = c ∨ ∃ n mid rest, (!first && newlines = 0) = false ∧ g.anyStatement c = .ok n mid ∧
      g.statementLoop false rounds mid = .ok rest after ∧ list.statements = n :: rest.statements := by
  unfold loopRest at h
  split at h
  · cases h
    exact .inl ⟨rfl, rfl⟩
  · rename_i hgo
    have hbefore := (hg.anyStatement c c).before
    rw [bind_apply, attempt] at h
    cases hread : g.anyStatement c with
    | ok n mid =>
      rw [hread] at h
      obtain ⟨rest, stop, hrest, h⟩ := ok_of_bind h
      cases h
      exact .inr ⟨n, mid, rest, Bool.eq_false_iff.2 hgo, rfl, hrest, rfl⟩
    | fail fault mid =>
      rw [hread] at h hbefore
      obtain ⟨between, hpass⟩ := hbefore
      by_cases hleft : mid.left = c.left
      · simp only [if_pos hleft] at h
        cases h
        exact .inl ⟨rfl, hpass.eq_of_left hleft⟩
      · simp only [if_neg hleft] at h
        contradiction

omit hg in
lemma loopRest_of_statement {c : Cursor} {n : Node} {rest : StatementList} (hgo : (!first && newlines = 0) = false)
    (hn : g.anyStatement c = .ok n mid) (hrest : g.statementLoop false rounds mid = .ok rest after) :
    g.loopRest first rounds newlines c = .ok ⟨n :: rest.statements, rest.unmatched⟩ after := by
  rw [loopRest, hgo]
  simp only [Bool.false_eq_true, if_false, bind_apply, attempt, hn, hrest]
  rfl

lemma before_statementLoop (c : Cursor) : c.Before (g.statementLoop first rounds c).place := by
  induction rounds generalizing first c with
  | zero => exact .refl c
  | succ rounds ih =>
    refine c.before_skipNewlines.trans ?_
    change Cursor.Before _ (g.loopRest first rounds c.skipNewlines.2 c.skipNewlines.1).place
    generalize c.skipNewlines.1 = c
    unfold loopRest
    split
    · exact .refl c
    · refine before_bind (before_attempt (hg.anyStatement c c).before) fun attempted mid => ?_
      cases attempted with
      | ok statement => exact before_bind (ih mid) fun _ mid => .refl mid
      | error => exact .refl mid

lemma statementLoop {c d : Cursor} (hb : c.Beside k k' d) (h : g.statementLoop first rounds c = .ok list after) :
    after.Stuck ∧ after.token.isStop = false ∨ after.left < k ∨
    ∃ list' after', g.statementLoop first rounds d = .ok list' after' ∧
      after.Beside k k' after' ∧ unplacedNodes list.statements = unplacedNodes list'.statements := by
  induction rounds generalizing first c d list with
  | zero => contradiction
  | succ rounds ih =>
    obtain ⟨hskip, hnew, hcount⟩ := hb.skipNewlines
    change g.loopRest first rounds c.skipNewlines.2 c.skipNewlines.1 = .ok list after at h
    change _ ∨ _ ∨ ∃ list' after', g.loopRest first rounds d.skipNewlines.2 d.skipNewlines.1 = .ok list' after' ∧ _
    rcases hg.loopRest_ok h with ⟨hnil, rfl⟩ | ⟨n, mid, rest, hgo, hn, hrest, hlist⟩
    · by_cases hidle : isIdle c.skipNewlines.1.token = true
      · have hidle' : isIdle d.skipNewlines.1.token = true := by
          rcases hskip.cases with ⟨-, hd⟩ | hword
          · exact isIdle_of_isStop (Cursor.isStop_of_stops hd)
          · rwa [← hword.token]
        obtain ⟨unmatched, hread⟩ := @loopRest_of_isIdle g first rounds d.skipNewlines.2 _ hidle'
        exact .inr (.inr ⟨_, _, hread, hskip, by rw [hnil]⟩)
      · exact .inl ⟨⟨hnew, Bool.eq_false_iff.2 (mt isIdle_of_endsBlock hidle)⟩,
          Bool.eq_false_iff.2 (mt isIdle_of_isStop hidle)⟩
    · have hgo' : (!first && d.skipNewlines.2 = 0) = false := by
        rcases hcount with heq | ⟨hc, -⟩
        · rwa [← heq]
        · exact absurd hn (anyStatement_ne_ok (isIdle_of_isStop (Cursor.isStop_of_stops hc)))
      rcases (hg.anyStatement _ _).beside hskip n mid hn with hpast | ⟨n', mid', hn', hmid, hsame⟩
      · exact .inr (.inl (left_lt_of_before (hg.before_statementLoop mid) hrest hpast))
      · refine (ih hmid hrest).imp_right (.imp_right ?_)
        rintro ⟨rest', after', hrest', hafter, htrees⟩
        refine ⟨_, after', loopRest_of_statement hgo' hn' hrest', hafter, ?_⟩
        rw [hlist]
        exact congrArg₂ List.cons hsame htrees

lemma raise : g.raise.Carried k k' where
  expr := hg.anyExpr
  climb := hg.climbExpr
  statement := hg.anyStatement
  stopped h := anyExpr_ne_ok (.inl (isIdle_of_isStop h))
  idle h := anyStatement_ne_ok (isIdle_of_isStop h)
  before := hg.before_statementLoop
  statements := hg.statementLoop
  halted {c} list after hc h := by
    obtain ⟨hstop, hnew⟩ := Cursor.stops_skipNewlines hc
    obtain ⟨unmatched, hread⟩ := @loopRest_of_isIdle g true (g.rounds + 1) c.skipNewlines.2 _
      (isIdle_of_isStop (Cursor.isStop_of_stops hstop))
    obtain ⟨-, rfl⟩ := Parsed.ok.inj (hread.symm.trans h)
    exact .of_stops hstop hnew

end Carried

lemma carried_tower (height : Nat) : (tower height).Carried k k' := by
  induction height with
  | zero => exact ⟨fun _ _ => .unexpected, fun _ _ _ => .unexpected, fun _ _ => .unexpected, fun _ => nofun,
      fun _ => nofun,
      .refl, fun _ => nofun, fun _ => nofun⟩
  | succ height ih => exact ih.raise

end Productions

end ScriptMachine
