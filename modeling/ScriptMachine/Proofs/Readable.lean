import ScriptMachine.Proofs.Grammar

/-! The parser reads back the spelling of every legible tree. -/

namespace ScriptMachine

open List

variable {r : Role} {b : Bool}

lemma leading_append {ts : List Token} (h : ts ≠ []) (us : List Token) : leading (ts ++ us) = leading ts := by
  cases ts with
  | nil => contradiction
  | cons t ts => rfl

lemma Legible.isOpen {f : Follow} {n : Node} (h : Legible r b f n) (hr : r ≠ .body true) : n.Opens := h.opens hr

lemma Node.Opens.ne_nil {n : Node} (h : n.Opens) : n.spelling ≠ [] := by
  obtain ⟨t, ts, hs, -⟩ := h
  simp [hs]

def Role.Leads : Role → Node → Prop
  | .primary, n => Productions.climbs (leading n.spelling) = true ∧ (leading n.spelling).isJump = false
  | .operand, n | .expr, n =>
    (leading n.spelling).isJump = false ∧ (n.isLet || !(leading n.spelling).isKeyword .let_) = true ∧
      (n.isClosed → Productions.climbs (leading n.spelling) = true)
  | _, _ => True

lemma Legible.leads {f : Follow} {n : Node} (h : Legible r b f n) : r.Leads n := by
  induction h with
  | call hc ha hv ih _ =>
    rw [Role.Leads, Node.spelling, leading_append (hc.isOpen (by simp)).ne_nil]
    exact ih
  | member ho hn ih =>
    rw [Role.Leads, Node.spelling, leading_append (ho.isOpen (by simp)).ne_nil]
    exact ih
  | closed hn h ih => exact ⟨ih.2.2 hn, ih.1⟩
  | @operand b f n h ih =>
    obtain ⟨hcl, hj⟩ := ih
    refine ⟨hj, ?_, fun _ => hcl⟩
    cases ht : leading n.spelling with
    | keyword k =>
      rw [ht] at hcl
      cases k <;> first | contradiction | simp [Token.isKeyword]
    | _ => simp [Token.isKeyword]
  | expr h ih => exact ih
  | @branchElse b f cases_ last multiline span hne =>
    obtain ⟨⟨condition, body⟩, rest, rfl⟩ := exists_cons_of_ne_nil hne
    rw [Role.Leads, branch_spelling, casePart_cons]
    exact ⟨rfl, rfl, fun _ => rfl⟩
  | @branchOpen b f cases_ condition body multiline span =>
    obtain - | ⟨⟨c, d⟩, rest⟩ := cases_ <;> rw [Role.Leads, branch_spelling]
    · rw [nil_append, casePart_cons]
      exact ⟨rfl, rfl, fun _ => rfl⟩
    · rw [cons_append, casePart_cons]
      exact ⟨rfl, rfl, fun _ => rfl⟩
  | @forRange b f var start stop step body multiline span => cases step <;> exact ⟨rfl, rfl, fun _ => rfl⟩
  | @arrow b f name params body isAsync decorators span | @function b f name params body isAsync decorators span =>
    obtain - | ⟨d, decorators⟩ := decorators <;> cases isAsync <;> exact ⟨rfl, rfl, fun _ => rfl⟩
  | @using_ b f names parent span => cases parent <;> exact ⟨rfl, rfl, by simp [Node.isClosed]⟩
  | int | float | str | ident | list | map | binary | unary | await => exact ⟨rfl, rfl⟩
  | assign | multiAssign | alias_ | load | del => exact ⟨rfl, rfl, by simp [Node.isClosed]⟩
  | forIn | while_ | namespace_ | indexAssign => exact ⟨rfl, rfl, fun _ => rfl⟩
  | _ => trivial

lemma Legible.standsAlone {n : Node} (h : Legible .expr true .separator n) (hn : n.isLet = false) {rest : List Token}
    (hf : Follow.separator.Holds rest) : Productions.standsAlone n rest := by
  refine ⟨?_, fun name ts hs => ?_⟩
  · have hl := h.leads.2.1
    rw [leading_append (h.isOpen (by simp)).ne_nil]
    simpa [hn] using hl
  · obtain - | ⟨u, us⟩ := ts
    · exact (Follow.allows_spec hf.first).2.1
    · obtain ⟨q, -, hq⟩ := h.settles (by simp) .line [.rightParen] rfl
      rw [hs] at hq
      by_contra hu
      have hassign : u = .symbol .assign := by
        cases u with
        | symbol s => simpa [Token.isSymbol] using hu
        | _ => simp [Token.isSymbol] at hu
      simp [hassign, settle, settleToken, Pause.after] at hq

namespace Productions

variable {g : Productions} {r : Reader Node} {statements : List Node}

@[simp] lemma rounds_tower (h : Nat) : (tower h).rounds = h := by
  induction h with
  | zero => rfl
  | succ h ih => rw [tower, raise, ih]

def compound? (g : Productions) : Token → Option (Reader Node)
  | .keyword .if_ => some g.ifExpr
  | .keyword .for_ => some g.forExpr
  | .keyword .while_ => some g.whileExpr
  | .symbol .at_ | .keyword .async | .keyword .defun => some g.functionExpr
  | .keyword .namespace_ => some g.namespaceExpr
  | .keyword .let_ => some g.letExpr
  | .keyword .load => some loadExpr
  | .keyword .using_ => some g.usingExpr
  | .keyword .del => some g.delExpr
  | _ => none

lemma operand_of_compound {c : Cursor} (h : g.compound? c.token = some r) :
    g.operand c = r c ∧ (g.anyExpr c = r c ∨ climbs c.token = true) := by
  obtain ⟨behind, ⟨t, span, a⟩, ahead⟩ := c
  change g.compound? t = some r at h
  rw [compound?.eq_def] at h
  split at h
  all_goals first
    | contradiction
    | (obtain rfl := Option.some.inj h; first | exact ⟨rfl, .inl rfl⟩ | exact ⟨rfl, .inr rfl⟩)

variable {f : Follow} {n : Node}

lemma takes_of_compound (ht : g.compound? (leading n.spelling) = some r) (h : TakesForm r f n) :
    (∀ level, Takes (g.climbExpr level) f n) ∧ Takes g.anyExpr f n ∧ TakesForm g.operand f n := by
  have hne : n.spelling ≠ [] := by
    intro hnil
    rw [hnil] at ht
    contradiction
  have hoperand : TakesForm g.operand f n := by
    intro c rest hf hc
    rw [Reads, (operand_of_compound (by rwa [hc.token, leading_append hne])).1]
    exact h c rest hf hc
  have hclimb : ∀ level, Takes (g.climbExpr level) f n := fun _ c rest hf hc =>
    reads_climbExpr_of_operand (hoperand c rest (fun _ => hf) hc) (Follow.allows_spec hf.first).1
  refine ⟨hclimb, fun c rest hf hc => ?_, hoperand⟩
  have htoken : c.token = leading n.spelling := by rw [hc.token, leading_append hne]
  rcases (operand_of_compound (c := c) (htoken ▸ ht)).2 with hany | hcl
  · rw [Reads, hany]
    exact h c rest (fun _ => hf) hc
  · exact reads_anyExpr hc (hc.token ▸ hcl) (hclimb .lowest c rest hf hc) (Follow.allows_spec hf.first).2.1

def ReadsClosed (n : Node) : Prop :=
  n.isClosed = true → ∀ h, n.spelling.length ≤ h → ∀ c rest, c.At (n.spelling ++ rest) →
    Reads c (tower h).operand n.Like rest

def Readable : Role → Follow → Node → Prop
  | .primary, _, n =>
    (∀ h level, n.spelling.length ≤ h → level.rank < Precedence.call.rank → Climbs (tower h) level n) ∧ ReadsClosed n
  | .operand, f, n =>
    (∀ h, n.spelling.length ≤ h →
      (∀ level, level.rank < Precedence.call.rank → Takes ((tower h).climbExpr level) f n) ∧
        Takes (tower h).anyExpr f n) ∧ ReadsClosed n
  | .expr, f, n => ∀ h, n.spelling.length ≤ h → Takes (tower h).anyExpr f n
  | .statement, f, n => ∀ h, n.spelling.length ≤ h → Takes (tower h).anyStatement f n
  | .body m, f, n => ∀ h, n.spelling.length ≤ h →
      TakesBody (tower (h + 1)).clauseBody m f n ∧ (m = true → TakesBlock (tower h).anyStatements f n)

lemma readable_of_compound {r : Productions → Reader Node} (ht : ∀ g, compound? g (leading n.spelling) = some (r g))
    (h : ∀ h, n.spelling.length ≤ h + 1 → TakesForm (r (tower (h + 1))) f n) : Readable .operand f n := by
  have hforms : ∀ k, n.spelling.length ≤ k → (∀ level, Takes ((tower k).climbExpr level) f n) ∧
      Takes (tower k).anyExpr f n ∧ TakesForm (tower k).operand f n := by
    intro k hk
    obtain - | k := k
    · have hnil : n.spelling = [] := length_eq_zero_iff.1 (Nat.le_zero.1 hk)
      have hnone := ht (tower 0)
      rw [hnil] at hnone
      contradiction
    · exact takes_of_compound (ht _) (h k hk)
  refine ⟨fun k hk => ⟨fun level _ => (hforms k hk).1 level, (hforms k hk).2.1⟩, fun hn k hk c rest hc => ?_⟩
  exact (hforms k hk).2.2 c rest (by simp [hn]) hc

lemma rightOf_rank (op : BinaryOp) : (Precedence.rightOf op).rank < Precedence.call.rank := by
  cases op <;> decide

section brackets

variable {span : Span} {c : Cursor} {rest : List Token} {h : Nat}

lemma reads_operand_binary {op : BinaryOp} {left right : Node} (hleft : climbs (leading left.spelling) = true)
    (hl : left.Opens) (hr : right.Opens) (ihl : Readable .primary .finish left) (ihr : Readable .operand .finish right)
    (hlen : (Node.binary op left right span).spelling.length ≤ h)
    (hc : c.At ((Node.binary op left right span).spelling ++ rest)) :
    Reads c (tower h).operand (Node.binary op left right span).Like rest := by
  simp only [Node.spelling, length_cons, length_append, length_nil] at hlen
  have hat : c.At (.symbol .leftParen ::
    ((left.spelling ++ op.token :: right.spelling) ++ .symbol .rightParen :: rest)) := by
    simpa [Node.spelling] using hc
  obtain ⟨h, rfl⟩ : ∃ k, h = k + 2 := ⟨h - 2, by omega⟩
  have hlead : ∀ us, leading ((left.spelling ++ op.token :: right.spelling) ++ us) = leading left.spelling := by
    intro us
    rw [append_assoc, leading_append hl.ne_nil]
  refine .bind_here fun start => .bind_token hat (reads_parenthesized (fun us => ?_) (fun c1 h1 => ?_) hat)
  · rw [hlead, ← leading_append hl.ne_nil []]
    exact hl.noNewline []
  · refine reads_anyExpr h1 ?_ ?_ rfl
    · rwa [hlead]
    · refine reads_binary (ihl.1 _ _ (by omega) (by decide)) (by simp; omega) hr ?_ (by simpa using h1)
      exact (ihr.1 h (by omega)).1 _ (rightOf_rank op)

lemma reads_operand_unary {op : UnaryOp} {operand : Node} (ih : Readable .operand .finish operand)
    (hlen : (Node.unary op operand span).spelling.length ≤ h)
    (hc : c.At ((Node.unary op operand span).spelling ++ rest)) :
    Reads c (tower h).operand (Node.unary op operand span).Like rest := by
  simp only [Node.spelling, length_cons, length_append, length_nil] at hlen
  have hat : c.At (.symbol .leftParen :: ((op.token :: operand.spelling) ++ .symbol .rightParen :: rest)) := by
    simpa [Node.spelling] using hc
  obtain ⟨h, rfl⟩ : ∃ k, h = k + 2 := ⟨h - 2, by omega⟩
  have htakes : ∀ level, level.rank < Precedence.call.rank → Takes ((tower (h + 1)).climb level) .finish operand :=
    (ih.1 h (by omega)).1
  refine .bind_here fun start => .bind_token hat (reads_parenthesized (fun us => ?_) (fun c1 h1 => ?_) hat)
  · cases op <;> rfl
  · refine reads_anyExpr h1 (by cases op <;> rfl) (reads_climbExpr_of_operand ?_ rfl) rfl
    refine .bind_here fun start => .bind_token h1 ?_
    cases op with
    | plus | minus => exact reads_unary (htakes .sign (by decide)) .paren h1
    | not_ => exact reads_unary (htakes .logic (by decide)) .paren h1

lemma reads_operand_await {value : Node} (ih : Readable .operand .finish value)
    (hlen : (Node.await value span).spelling.length ≤ h) (hc : c.At ((Node.await value span).spelling ++ rest)) :
    Reads c (tower h).operand (Node.await value span).Like rest := by
  simp only [Node.spelling, length_cons, length_append, length_nil] at hlen
  have hat : c.At (.symbol .leftParen :: ((.keyword .await :: value.spelling) ++ .symbol .rightParen :: rest)) := by
    simpa [Node.spelling] using hc
  obtain ⟨h, rfl⟩ : ∃ k, h = k + 2 := ⟨h - 2, by omega⟩
  refine .bind_here fun start => .bind_token hat (reads_parenthesized (fun us => rfl) (fun c1 h1 => ?_) hat)
  refine reads_anyExpr h1 rfl (reads_climbExpr_of_operand (.bind_here fun start => .bind_token h1 ?_) rfl) rfl
  exact reads_await ((ih.1 h (by omega)).1 .power (by decide)) h1

end brackets

lemma newline_statementSpelling (statements : List Node) (ts : List Token) :
    .newline :: (statementSpelling statements ++ ts) = lineTail statements ++ .newline :: ts := by
  induction statements with
  | nil => rfl
  | cons s statements ih =>
    simp only [statementSpelling, lineTail, flatMap_cons, append_assoc, cons_append] at ih ⊢
    rw [ih]

lemma newline_bodyLines (statements : List Node) (span : Span) (ts : List Token) :
    .newline :: (bodyLinesSpelling (.block statements span) (Node.block statements span).spelling ++ ts) =
      lineTail statements ++ .newline :: ts := by
  rw [Node.spelling]
  induction statements with
  | nil => rfl
  | cons s statements ih =>
    cases statements with
    | nil => simp [bodyLinesSpelling, Node.isEmptyBlock, nodeSpellings, joined, lineTail]
    | cons t statements =>
      simp only [bodyLinesSpelling, Node.isEmptyBlock, nodeSpellings, joined, lineTail, flatMap_cons,
        Bool.false_eq_true, if_false, append_assoc, cons_append, nil_append] at ih ⊢
      rw [ih]

lemma takesBlock_block {h : Nat} {span : Span} (hr : statements.length ≤ h) (ho : ∀ s ∈ statements, s.Opens)
    (hs : ∀ s ∈ statements.dropLast, Takes (tower h).anyStatement .finish s)
    (hlast : ∀ s ∈ statements.getLast?, Takes (tower h).anyStatement f s) :
    TakesBlock (tower h).anyStatements f (.block statements span) := by
  intro c rest hf hend hc
  rw [newline_bodyLines] at hc
  have hpast : pastLines (.newline :: rest) = rest := by
    rw [pastLines_newline, pastLines_of_leading]
    cases ht : leading rest with
    | newline => rw [ht] at hend; contradiction
    | _ => rfl
  have hread : Reads c ((tower h).statementLoop true (h + 2)) _ (pastLines (.newline :: rest)) :=
    reads_statementLoop (by omega) ho hs hlast (fun _ => hf) (isIdle_of_endsBlock (by rwa [hpast])) hc
  rw [hpast] at hread
  rw [anyStatements, rounds_tower]
  refine hread.weaken fun list hl span => ?_
  simp only [Node.Like, Node.unplaced, unplacedNodes_of_like hl]

lemma length_spelling_le_bodyLines (body : Node) :
    body.spelling.length ≤ (bodyLinesSpelling body body.spelling).length := by
  unfold bodyLinesSpelling
  split
  · rename_i h
    cases body with
    | block statements span =>
      cases statements with
      | nil => simp [Node.spelling, nodeSpellings, joined]
      | cons s statements => contradiction
    | _ => contradiction
  · simp

lemma length_spelling_le_bodyPart (m : Bool) (body : Node) : body.spelling.length ≤ (bodyPart m body).length := by
  have h := length_spelling_le_bodyLines body
  cases m with
  | true => simp only [bodyPart, if_true, length_cons]; omega
  | false => simp [bodyPart]

lemma length_spelling_le_bodySpelling (m : Bool) (body : Node) :
    body.spelling.length ≤ (bodySpelling body body.spelling m).length := by
  have h := length_spelling_le_bodyLines body
  cases m with
  | true => simp only [bodySpelling, if_true, length_cons, length_append]; omega
  | false => simp [bodySpelling]

lemma length_casePart (m : Bool) (k : Keyword) (cases_ : List (Node × Node)) :
    cases_.length ≤ (casePart m k cases_).length ∧ ∀ p ∈ cases_,
      p.1.spelling.length < (casePart m k cases_).length ∧ p.2.spelling.length < (casePart m k cases_).length := by
  induction cases_ generalizing k with
  | nil => simp
  | cons p cases_ ih =>
    have hbody := length_spelling_le_bodyPart m p.2
    obtain ⟨hlen, hmem⟩ := ih .elif
    rw [casePart_cons]
    simp only [length_cons, length_append]
    refine ⟨by omega, fun q hq => ?_⟩
    rcases mem_cons.1 hq with rfl | hq
    · omega
    · have := hmem q hq
      omega

lemma length_names (names : List String) : names.length ≤ (nameSpelling names).length :=
  length_le_joined _ fun _ _ => by simp

lemma length_decorators (ds : List Node) :
    ds.length ≤ (decoratorSpelling ds).length ∧ ∀ d ∈ ds, d.spelling.length < (decoratorSpelling ds).length := by
  induction ds with
  | nil => simp
  | cons d ds ih =>
    simp only [decoratorSpelling, length_cons, length_append]
    refine ⟨by omega, fun e he => ?_⟩
    rcases mem_cons.1 he with rfl | he
    · omega
    · have := ih.2 e he
      omega

lemma length_statements (ss : List Node) :
    ss.length ≤ (statementSpelling ss).length ∧ ∀ s ∈ ss, s.spelling.length < (statementSpelling ss).length := by
  induction ss with
  | nil => simp
  | cons s ss ih =>
    simp only [statementSpelling, length_cons, length_append]
    refine ⟨by omega, fun t ht => ?_⟩
    rcases mem_cons.1 ht with rfl | ht
    · omega
    · have := ih.2 t ht
      omega

section compound

variable {body : Node} {span : Span}

lemma readable_branch {cases_ : List (Node × Node)} {last : Option Node} {m : Bool} (hne : cases_ ≠ [])
    (hcond : ∀ p ∈ cases_, Readable .expr .separator p.1)
    (hbody : ∀ p ∈ cases_.dropLast, Readable (.body m) .clause p.2)
    (hlast : match last with
      | some last => Readable (.body m) .clause (cases_.getLast hne).2 ∧ Readable (.body m) (f.ofBody m) last
      | none => Readable (.body m) (f.ofBody m) (cases_.getLast hne).2 ∧ (m = false → f ≠ .clause)) :
    Readable .operand f (.branch cases_ last m span) := by
  have hlead : leading (Node.branch cases_ last m span).spelling = .keyword .if_ := by
    obtain ⟨⟨condition, body⟩, cases_, rfl⟩ := exists_cons_of_ne_nil hne
    rw [branch_spelling, casePart_cons]
    rfl
  refine readable_of_compound (r := ifExpr) (fun g => by rw [hlead]; rfl) fun h hlen => ?_
  rw [branch_spelling, length_append] at hlen
  obtain ⟨hcount, hmem⟩ := length_casePart m .if_ cases_
  have hget := hmem _ (getLast_mem hne)
  refine takes_branch hne (fun p hp => hcond p hp h ?_) (fun p hp => (hbody p hp h ?_).1) ?_ (by simp; omega)
  · have := hmem p hp
    omega
  · have := hmem p (dropLast_subset _ hp)
    omega
  · cases last with
    | none => exact ⟨(hlast.1 h (by omega)).1, hlast.2⟩
    | some last =>
      have hl := length_spelling_le_bodySpelling m last
      simp only [elsePart, length_cons] at hlen
      exact ⟨(hlast.1 h (by omega)).1, (hlast.2 h (by omega)).1⟩

lemma readable_forRange {var : String} {start stop : Node} {step : Option Node} {m : Bool}
    (hstart : Readable .expr .separator start) (hstop : Readable .expr .separator stop)
    (hstep : ∀ s ∈ step, Readable .expr .separator s) (hbody : Readable (.body m) (f.ofBody m) body) :
    Readable .operand f (.forRange var start stop step body m span) := by
  have hb := length_spelling_le_bodySpelling m body
  refine readable_of_compound (r := forExpr) (fun g => by cases step <;> rfl) fun h hlen => ?_
  have hlens : start.spelling.length ≤ h ∧ stop.spelling.length ≤ h ∧ (∀ s ∈ step, s.spelling.length ≤ h) ∧
      body.spelling.length ≤ h := by
    cases step with
    | none =>
      simp only [Node.spelling, length_cons, length_append] at hlen
      exact ⟨by omega, by omega, by simp, by omega⟩
    | some step =>
      simp only [Node.spelling, length_cons, length_append] at hlen
      refine ⟨by omega, by omega, ?_, by omega⟩
      rintro _ ⟨⟩
      omega
  obtain ⟨h1, h2, h3, h4⟩ := hlens
  exact takes_forRange (hstart h h1) (hstop h h2) (fun s hs => hstep s hs h (h3 s hs)) (hbody h h4).1

lemma readable_function {name : Option String} {params : List Param} {autoReturn isAsync : Bool} {ds : List Node}
    (hfit : paramsFit params = true) (hv : ∀ p ∈ params, ∀ d ∈ p.default?, Readable .expr .separator d)
    (hd : ∀ d ∈ ds, Readable .operand .finish d) (ho : autoReturn = true → body.Opens)
    (he : autoReturn = true → Readable .expr f body) (hb : autoReturn = false → Readable (.body true) .finish body) :
    Readable .operand f (.function name params body autoReturn isAsync ds span) := by
  refine readable_of_compound (r := functionExpr) (fun g => ?_) fun h hlen => ?_
  · rw [function_spelling]
    obtain - | ⟨d, ds⟩ := ds <;> cases isAsync <;> rfl
  · have hbody := length_spelling_le_bodySpelling true body
    have htail : body.spelling.length ≤ (if autoReturn = true then .symbol .arrow :: body.spelling else
        bodySpelling body body.spelling true).length := by
      cases autoReturn with
      | true => simp
      | false => exact hbody
    have hcount : params.length ≤ (joined (.symbol .comma) (params.map Param.spelling)).length :=
      length_le_joined _ fun p _ => by cases p <;> simp [Param.spelling]
    obtain ⟨hdcount, hdmem⟩ := length_decorators ds
    rw [function_spelling, paramSpellings_eq_map] at hlen
    simp only [length_append, length_cons] at hlen
    refine takes_function hfit (by simp; omega) (fun p hp d hdm => hv p hp d hdm h ?_) (by simp; omega)
      (fun d hdm => ((hd d hdm).1 h ?_).1 .power (by decide)) ho (fun ha => he ha h (by omega)) fun ha =>
        (hb ha h (by omega)).2 rfl
    · have hp' : p.spelling.length ≤ (joined (.symbol .comma) (params.map Param.spelling)).length :=
        length_le_of_mem _ _ hp
      have hd' : d.spelling.length ≤ p.spelling.length := by
        cases p with
        | optional name value =>
          obtain rfl : value = d := by simpa [Param.default?] using hdm
          simp only [Param.spelling, length_cons]
          omega
        | _ => simp [Param.default?] at hdm
      omega
    · have := hdmem d hdm
      omega

end compound

lemma readable_namespace {name : String} {body : List Node} {span : Span} (ho : ∀ s ∈ body, s.Opens)
    (hb : ∀ s ∈ body, Readable .statement .finish s) : Readable .operand f (.namespace_ name body span) := by
  refine readable_of_compound (r := namespaceExpr) (fun g => rfl) fun h hlen => takes_namespace fun c rest hc => ?_
  obtain ⟨hcount, hmem⟩ := length_statements body
  simp only [Node.spelling, length_cons, length_append, length_nil] at hlen
  have htakes : ∀ s ∈ body, Takes (tower h).anyStatement .finish s := fun s hs => hb s hs h (by
    have := hmem s hs
    omega)
  rw [newline_statementSpelling] at hc
  change Reads c ((tower h).statementLoop true ((tower h).rounds + 2)) _
    (pastLines (.newline :: .keyword .done :: rest))
  exact reads_statementLoop (by simp; omega) ho (fun s hs => htakes s (dropLast_subset _ hs))
    (fun s hs => htakes s (mem_of_getLast? hs)) (fun _ => .line rfl rfl) rfl hc

lemma readable_block {last : Node} {span : Span} (ho : ∀ s ∈ statements ++ [last], s.Opens)
    (hs : ∀ s ∈ statements, Readable .statement .finish s) (hl : Readable .statement f last) :
    Readable (.body true) f (.block (statements ++ [last]) span) := by
  intro h hlen
  rw [Node.spelling, nodeSpellings_eq_map] at hlen
  have hcount : (statements ++ [last]).length ≤ (joined .newline ((statements ++ [last]).map Node.spelling)).length :=
    length_le_joined _ fun s hs => (ho s hs).ne_nil
  have hmem : ∀ s ∈ statements ++ [last], s.spelling.length ≤ h := fun s hs =>
    (length_le_of_mem .newline _ hs).trans hlen
  have hblock : TakesBlock (tower h).anyStatements f (.block (statements ++ [last]) span) := by
    refine takesBlock_block (by omega) ho (fun s hsm => ?_) fun s hsm => ?_
    · rw [dropLast_concat] at hsm
      exact hs s hsm h (hmem s (by simp [hsm]))
    · obtain rfl : last = s := by simpa using hsm
      exact hl h (hmem last (by simp))
  exact ⟨takesBody_block hblock, fun _ => hblock⟩

end Productions

open Productions in
lemma readable_of_operand {f : Follow} {n : Node} (hn : n.isClosed = false) (hne : n.spelling ≠ [])
    (hr : ∀ h c rest, n.spelling.length ≤ h → c.At (n.spelling ++ rest) → Reads c (tower h).operand n.Like rest) :
    Readable .primary f n :=
  ⟨fun h _ hlen _ => climbs_of_operand hne fun c rest hc => hr h c rest hlen hc, fun hclosed => by simp [hn] at hclosed⟩

open Productions in
theorem Legible.readable {f : Follow} {n : Node} (h : Legible r b f n) : Readable r f n := by
  induction h with
  | int | float | str | ident =>
    exact readable_of_operand rfl (by simp [Node.spelling]) fun h c rest hlen hc => .bind_here fun start =>
      .bind_token hc (.bind_step hc fun c1 h1 => .ret h1 rfl)
  | @list b f elements span he ih =>
    refine ⟨fun h level hlen _ => ?_, by simp [ReadsClosed, Node.isClosed]⟩
    simp only [Node.spelling, nodeSpellings_eq_map, length_cons, length_append, length_nil] at hlen
    obtain ⟨h, rfl⟩ : ∃ k, h = k + 1 := ⟨h - 1, by omega⟩
    have hcount : elements.length ≤ (joined (.symbol .comma) (elements.map Node.spelling)).length :=
      length_le_joined _ fun e hem => ((he e hem).isOpen (by simp)).ne_nil
    refine climbs_of_operand (by simp [Node.spelling]) fun c rest hc => .bind_here fun start => .bind_token hc ?_
    refine takes_list (by simp; omega) (fun e hem => (he e hem).isOpen (by simp)) (fun e hem => ih e hem h ?_) hc
    have hmem : e.spelling.length ≤ (joined (.symbol .comma) (elements.map Node.spelling)).length :=
      length_le_of_mem _ _ hem
    omega
  | @map b f entries span hk hv ihk ihv =>
    refine ⟨fun h level hlen _ => ?_, by simp [ReadsClosed, Node.isClosed]⟩
    simp only [Node.spelling, entrySpellings_eq_map, length_cons, length_append, length_nil] at hlen
    obtain ⟨h, rfl⟩ : ∃ k, h = k + 1 := ⟨h - 1, by omega⟩
    have hcount : entries.length ≤ (joined (.symbol .comma)
        (entries.map fun e => e.1.spelling ++ .symbol .colon :: e.2.spelling)).length :=
      length_le_joined _ fun e _ => by simp
    have hmem : ∀ e ∈ entries, e.1.spelling.length ≤ h ∧ e.2.spelling.length ≤ h := by
      intro e he
      have hentry := length_le_of_mem (.symbol .comma)
        (fun e : Node × Node => e.1.spelling ++ .symbol .colon :: e.2.spelling) he
      simp only [length_append, length_cons] at hentry
      omega
    refine climbs_of_operand (by simp [Node.spelling]) fun c rest hc => .bind_here fun start => .bind_token hc ?_
    exact takes_map (by simp; omega) (fun e he => (hk e he).isOpen (by simp)) (fun e he => ihk e he h (hmem e he).1)
      (fun e he => ihv e he h (hmem e he).2) hc
  | binary hl hr ihl ihr =>
    exact readable_of_operand rfl (by simp [Node.spelling]) fun h c rest hlen hc =>
      reads_operand_binary hl.leads.1 (hl.isOpen (by simp)) (hr.isOpen (by simp)) ihl ihr hlen hc
  | unary ho ih =>
    exact readable_of_operand rfl (by simp [Node.spelling]) fun h c rest hlen hc => reads_operand_unary ih hlen hc
  | await hv ih =>
    exact readable_of_operand rfl (by simp [Node.spelling]) fun h c rest hlen hc => reads_operand_await ih hlen hc
  | @call b f callee args span hc ha hv ihc ihv =>
    refine ⟨fun h level hlen hlevel => ?_, by simp [ReadsClosed, Node.isClosed]⟩
    have hlen' := hlen
    simp only [Node.spelling, argSpellings_eq_map, length_cons, length_append, length_nil] at hlen'
    obtain ⟨h, rfl⟩ : ∃ k, h = k + 1 := ⟨h - 1, by omega⟩
    refine climbs_call hlevel (ihc.1 _ level (by omega) hlevel) (by simpa using hlen)
      (fun a ham => (hv a ham).isOpen (by simp))
      (fun a ham v rest hav hf => ?_) fun a ham => ihv a ham h ?_
    · subst hav
      exact (hv _ ham).standsAlone (by simpa [Arg.isProper, Arg.value] using ha _ ham) hf
    · have hmem : a.spelling.length ≤ (joined (.symbol .comma) (args.map Arg.spelling)).length :=
        length_le_of_mem _ _ ham
      have hval : a.value.spelling.length ≤ a.spelling.length := by
        cases a <;> simp [Arg.value, Arg.spelling]
        omega
      omega
  | member ho hn ih =>
    refine ⟨fun h level hlen hlevel => ?_, by simp [ReadsClosed, Node.isClosed]⟩
    have hlen' := hlen
    simp only [Node.spelling, length_cons, length_append, length_nil] at hlen'
    exact climbs_member hlevel (ih.1 h level (by omega) hlevel) (by simpa using hlen)
  | @closed b f n hn hl ih =>
    refine ⟨fun h level hlen _ => climbs_of_operand (hl.isOpen (by simp)).ne_nil (ih.2 hn h hlen), ih.2⟩
  | @operand b f n hn ih =>
    refine ⟨fun h hlen => ?_, ih.2⟩
    have hclimb : ∀ level, level.rank < Precedence.call.rank → Takes ((tower h).climbExpr level) f n :=
      fun level hlevel => takes_climbExpr (ih.1 h level hlen hlevel) (by simpa using hlen)
    refine ⟨hclimb, fun c rest hf hc => ?_⟩
    refine reads_anyExpr hc ?_ (hclimb .lowest (by decide) c rest hf hc) (Follow.allows_spec hf.first).2.1
    rw [leading_append (hn.isOpen (by simp)).ne_nil]
    exact hn.leads.1
  | assign hn hv ih =>
    refine readable_of_compound (r := letExpr) (fun g => rfl) fun h hlen => ?_
    simp only [Node.spelling, length_cons] at hlen
    exact .ofTakes rfl (takes_assign (hv.isOpen (by simp)) (ih h (by omega)))
  | @multiAssign b f names value span hl hn hv ih =>
    refine readable_of_compound (r := letExpr) (fun g => rfl) fun h hlen => ?_
    have hcount := length_names names
    simp only [Node.spelling, length_cons, length_append] at hlen
    exact .ofTakes rfl (takes_multiAssign hl (by simp; omega) (hv.isOpen (by simp)) (ih h (by omega)))
  | alias_ => exact readable_of_compound (r := letExpr) (fun g => rfl) fun h hlen => .ofTakes rfl takes_alias
  | load hk =>
    exact readable_of_compound (r := fun _ => loadExpr) (fun g => rfl) fun h hlen => .ofTakes rfl (takes_load hk)
  | @del b f names span hf hne hn =>
    refine readable_of_compound (r := delExpr) (fun g => rfl) fun h hlen => .ofTakes rfl (takes_del hf hne ?_)
    have hcount := length_names names
    simp only [Node.spelling, length_cons] at hlen
    simp
    omega
  | @using_ b f names parent span hf hne hn =>
    refine readable_of_compound (r := usingExpr) (fun g => by cases parent <;> rfl) fun h hlen =>
      .ofTakes rfl (takes_using hf hne ?_)
    have hcount := length_names names
    cases parent <;> simp only [Node.spelling, length_cons] at hlen <;> simp <;> omega
  | @branchElse b f cases_ last m span hne hc hb hl ihc ihb ihl =>
    exact readable_branch hne ihc (fun p hp => ihb p (dropLast_subset _ hp))
      ⟨ihb _ (getLast_mem hne), ihl⟩
  | @branchOpen b f cases_ condition body m span hf hc hb hcond hbody ihc ihb ihcond ihbody =>
    refine readable_branch (by simp) (fun p hp => ?_) (fun p hp => ?_) ⟨?_, hf⟩
    · rcases mem_append.1 hp with hp | hp
      · exact ihc p hp
      · obtain rfl := mem_singleton.1 hp
        exact ihcond
    · rw [dropLast_concat] at hp
      exact ihb p hp
    · rw [getLast_concat]
      exact ihbody
  | forRange hv hstart hstop hstep hbody ihstart ihstop ihstep ihbody =>
    exact readable_forRange ihstart ihstop ihstep ihbody
  | @forIn b f vars iterable body m span hne hn hi hbody ihi ihbody =>
    refine readable_of_compound (r := forExpr) (fun g => rfl) fun h hlen => ?_
    have hcount := length_names vars
    have hb := length_spelling_le_bodySpelling m body
    simp only [Node.spelling, length_cons, length_append] at hlen
    exact takes_forIn hne (by simp; omega) (ihi h (by omega)) (ihbody h (by omega)).1
  | @while_ b f condition body m span hc hbody ihc ihbody =>
    refine readable_of_compound (r := whileExpr) (fun g => rfl) fun h hlen => ?_
    have hb := length_spelling_le_bodySpelling m body
    simp only [Node.spelling, length_cons, length_append] at hlen
    exact takes_while (ihc h (by omega)) (ihbody h (by omega)).1
  | arrow hn hp hfit hv hd hds hb ihv ihds ihb =>
    exact readable_function hfit ihv ihds (fun _ => hb.isOpen (by simp)) (fun _ => ihb) (by simp)
  | function hn hp hfit hv hd hds hb ihv ihds ihb =>
    exact readable_function hfit ihv ihds (by simp) (by simp) fun _ => ihb
  | namespace_ hn hb ih => exact readable_namespace (fun s hs => (hb s hs).isOpen (by simp)) ih
  | expr hn ih => exact fun h hlen => (ih.1 h hlen).2
  | @indexAssign b f target index value span ht hi hv iht ihi ihv =>
    intro h hlen c rest hf hc
    simp only [Node.spelling, length_cons, length_append] at hlen
    obtain ⟨h, rfl⟩ : ∃ k, h = k + 1 := ⟨h - 1, by omega⟩
    rw [Reads, anyExpr_eq_assignable (by rw [hc.token]; rfl)]
    refine takes_indexAssign (hv.isOpen (by simp)) (fun c rest hc => ?_) (ihv h (by omega)) c rest hf hc
    refine reads_operand_binary ht.leads.1 (ht.isOpen (by simp)) (hi.isOpen (by simp)) iht ihi ?_ hc
    simp only [Node.spelling, length_cons, length_append, length_nil]
    omega
  | @statement b f n hn ih =>
    intro h hlen c rest hf hc
    have hj : c.token.isJump = false := by
      rw [hc.token, leading_append (hn.isOpen (by simp)).ne_nil]
      exact hn.leads.1
    rw [Reads, anyStatement_eq_anyExpr hj]
    exact ih h hlen c rest hf hc
  | returnNone hf =>
    intro h hlen c rest hh hc
    refine .bind_here fun start => .bind_token hc ?_
    exact takes_return (fun _ => hf) (by simp) (by simp) c rest hh hc
  | @return_ b f value span hv ih =>
    intro h hlen c rest hh hc
    simp only [Node.spelling, length_cons] at hlen
    obtain ⟨h, rfl⟩ : ∃ k, h = k + 1 := ⟨h - 1, by omega⟩
    refine .bind_here fun start => .bind_token hc ?_
    refine takes_return (by simp) (fun v hvm => ?_) (fun v hvm => ?_) c rest hh hc
    · obtain rfl : value = v := by simpa using hvm
      exact hv.isOpen (by simp)
    · obtain rfl : value = v := by simpa using hvm
      exact ih h (by omega)
  | continue_ | break_ =>
    intro h hlen c rest hh hc
    exact .bind_here fun start => .bind_token hc (.bind_step hc fun c1 h1 => .ret h1 rfl)
  | inline hn ih =>
    exact fun h hlen => ⟨takesBody_inline (hn.isOpen (by simp)) (ih h hlen), by simp⟩
  | @emptyBlock f span =>
    intro h hlen
    have hblock : TakesBlock (tower h).anyStatements f (.block [] span) :=
      takesBlock_block (by simp) (by simp) (by simp) (by simp)
    exact ⟨takesBody_block hblock, fun _ => hblock⟩
  | @block f statements last span hs hl ihs ihl =>
    refine readable_block (fun s hsm => ?_) ihs ihl
    rcases mem_append.1 hsm with hsm | hsm
    · exact (hs s hsm).isOpen (by simp)
    · obtain rfl := mem_singleton.1 hsm
      exact hl.isOpen (by simp)

end ScriptMachine
