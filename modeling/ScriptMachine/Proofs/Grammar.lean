import ScriptMachine.Proofs.Reading

/-! Each production of the grammar reads the spelling of its form. -/

namespace ScriptMachine

open List

abbrev Node.Like (n m : Node) : Prop := m.unplaced = n.unplaced

abbrev Param.Like (p q : Param) : Prop := q.unplaced = p.unplaced

abbrev Arg.Like (a b : Arg) : Prop := b.unplaced = a.unplaced

lemma unplacedNodes_of_like {ns ms : List Node} (h : Forall₂ Node.Like ns ms) :
    unplacedNodes ms = unplacedNodes ns := by
  induction h with
  | nil => rfl
  | cons hn _ ih => rw [unplacedNodes, unplacedNodes, ih, hn]

lemma unplacedPairs_of_like {ps qs : List (Node × Node)}
    (h : Forall₂ (fun p q => p.1.Like q.1 ∧ p.2.Like q.2) ps qs) : unplacedPairs qs = unplacedPairs ps := by
  induction h with
  | nil => rfl
  | cons hp _ ih => rw [unplacedPairs, unplacedPairs, ih, hp.1, hp.2]

lemma unplacedParams_of_like {ps qs : List Param} (h : Forall₂ Param.Like ps qs) :
    unplacedParams qs = unplacedParams ps := by
  induction h with
  | nil => rfl
  | cons hp _ ih => rw [unplacedParams, unplacedParams, ih, hp]

lemma unplacedArgs_of_like {as bs : List Arg} (h : Forall₂ Arg.Like as bs) :
    unplacedArgs bs = unplacedArgs as := by
  induction h with
  | nil => rfl
  | cons ha _ ih => rw [unplacedArgs, unplacedArgs, ih, ha]

lemma unplacedOption_of_like {n m : Option Node} (h : Option.Rel Node.Like n m) :
    unplacedOption m = unplacedOption n := by
  cases h with
  | none => rfl
  | some h => rw [unplacedOption, unplacedOption, h]

def opensClause (t : Token) : Bool := t.isKeyword .elif || t.isKeyword .else_

namespace Follow

def allows : Follow → Token → Bool
  | finish, .newline | finish, .eof | finish, .symbol .rightParen => true
  | clause, .newline | clause, .keyword .elif | clause, .keyword .else_ => true
  | separator, .symbol .comma | separator, .symbol .colon | separator, .symbol .rightSquare
  | separator, .symbol .rightBrace | separator, .symbol .rightParen | separator, .keyword .do_
  | separator, .keyword .to_ | separator, .keyword .step => true
  | _, _ => false

structure Holds (f : Follow) (rest : List Token) : Prop where
  first : f.allows (leading rest) = true
  past : f ≠ clause → opensClause (leading (pastLines rest)) = false

variable {f : Follow} {t : Token} {ts : List Token}

lemma allows_spec (h : f.allows t = true) :
    (Precedence.ofToken t).rank = 0 ∧ t.isSymbol .assign = false ∧
      (f ≠ separator → t.isSymbol .comma = false ∧ Productions.endsReturn t = true) := by
  rw [allows.eq_def] at h
  split at h
  all_goals first
    | exact ⟨rfl, rfl, fun _ => ⟨rfl, rfl⟩⟩
    | exact ⟨rfl, rfl, fun hf => absurd rfl hf⟩
    | contradiction

lemma Holds.separator (h : Follow.separator.allows t = true) : Follow.separator.Holds (t :: ts) := by
  refine ⟨h, fun _ => ?_⟩
  rw [allows.eq_def] at h
  split at h <;> first | contradiction | rfl

lemma Holds.paren : Follow.finish.Holds (.symbol .rightParen :: ts) := ⟨rfl, fun _ => rfl⟩

lemma Holds.clause (h : Follow.clause.allows t = true) : Follow.clause.Holds (t :: ts) :=
  ⟨h, fun h => absurd rfl h⟩

lemma Holds.line (ht : (leading ts).isNewline = false) (hc : opensClause (leading ts) = false) :
    Follow.finish.Holds (.newline :: ts) :=
  ⟨rfl, fun _ => by rwa [pastLines_newline, pastLines_of_leading ht]⟩

end Follow

def Takes (r : Reader Node) (f : Follow) (n : Node) : Prop :=
  ∀ c rest, f.Holds rest → c.At (n.spelling ++ rest) → Reads c r n.Like rest

def TakesForm (r : Reader Node) (f : Follow) (n : Node) : Prop :=
  ∀ c rest, (n.isClosed = false → f.Holds rest) → c.At (n.spelling ++ rest) → Reads c r n.Like rest

lemma TakesForm.ofTakes {r : Reader Node} {f : Follow} {n : Node} (hn : n.isClosed = false) (h : Takes r f n) :
    TakesForm r f n := fun c rest hf hc => h c rest (hf hn) hc

namespace Reads

variable {rounds : Nat} {α β : Type} {c : Cursor} {rest : List Token}

lemma items {closer : Symbol} {item : Reader α} {xs : List β} (spell : β → List Token) (P : β → α → Prop)
    (hcl : closer.isCloser = true) (hopen : ∀ x ∈ xs, ∀ ts, (leading (spell x ++ ts)).isSymbol closer = false)
    (hitem : ∀ x ∈ xs, ∀ c rest, Follow.separator.Holds rest → c.At (spell x ++ rest) → Reads c item (P x) rest)
    (hr : xs.length < rounds) (hc : c.At (joined (.symbol .comma) (xs.map spell) ++ .symbol closer :: rest)) :
    Reads c (Reader.items closer item rounds) (Forall₂ P xs) rest := by
  induction xs generalizing c rounds with
  | nil =>
    obtain - | rounds := rounds
    · exact absurd hr (by simp)
    refine ifSymbol hc (by simp [joined, Token.isSymbol]) ?_
    exact bind_step hc fun c' hc' => ret hc' .nil
  | cons x xs ih =>
    obtain - | rounds := rounds
    · exact absurd hr (by simp)
    have hx := hitem x (by simp) c
    cases xs with
    | nil =>
      simp only [List.map, joined] at hc
      have hafter : Follow.separator.allows (.symbol closer) = true ∧
        (Token.symbol closer).isSymbol .comma = false := by
        cases closer <;> first | contradiction | exact ⟨rfl, rfl⟩
      refine unlessSymbol hc (hopen x (by simp) _) ?_
      refine (hx _ (.separator hafter.1) hc).bind fun a c1 ha h1 => ?_
      refine unlessSymbol h1 hafter.2 ?_
      exact bind_expectSymbol h1 fun c2 h2 => ret h2 (.cons ha .nil)
    | cons y xs =>
      simp only [List.map, joined, append_assoc] at hc
      refine unlessSymbol hc (hopen x (by simp) _) ?_
      refine (hx _ (.separator rfl) hc).bind fun a c1 ha h1 => ?_
      refine ifSymbol h1 rfl ?_
      refine bind_step h1 fun c2 h2 => ?_
      have hrest := ih (fun z hz => hopen z (by simp [hz])) (fun z hz => hitem z (by simp [hz]))
        (Nat.lt_of_succ_lt_succ hr) h2
      exact hrest.bind fun as c3 has h3 => ret h3 (.cons ha has)

lemma moreNames {names : List String} (hr : names.length < rounds) (ht : (leading rest).isSymbol .comma = false)
    (hc : c.At ((names.flatMap fun name => [.symbol .comma, .ident name]) ++ rest)) :
    Reads c (Reader.moreNames rounds) (fun ns => ns = names) rest := by
  induction names generalizing c rounds with
  | nil =>
    obtain - | rounds := rounds
    · exact absurd hr (by simp)
    exact unlessSymbol hc ht (ret hc rfl)
  | cons name names ih =>
    obtain - | rounds := rounds
    · exact absurd hr (by simp)
    refine ifSymbol hc rfl ?_
    refine bind_step hc fun c1 h1 => bind_ident h1 fun c2 h2 => ?_
    refine (ih (Nat.lt_of_succ_lt_succ hr) h2).bind ?_
    rintro _ c3 rfl h3
    exact ret h3 rfl


end Reads

def Node.Opens (n : Node) : Prop := ∃ t ts, n.spelling = t :: ts ∧ t.opens = true

lemma Node.Opens.leading {n : Node} (h : n.Opens) (ts : List Token) : (leading (n.spelling ++ ts)).opens = true := by
  obtain ⟨t, us, hs, ht⟩ := h
  rw [hs]
  exact ht

lemma Token.opens_spec {t : Token} (h : t.opens = true) :
    t.isNewline = false ∧ opensClause t = false ∧ ∀ s : Symbol, s.isCloser = true → t.isSymbol s = false := by
  cases t with
  | newline => contradiction
  | symbol s =>
    refine ⟨rfl, rfl, fun s' hs' => ?_⟩
    cases s <;> first | contradiction | (cases s' <;> first | contradiction | rfl)
  | keyword k => cases k <;> first | contradiction | exact ⟨rfl, rfl, fun _ _ => rfl⟩
  | _ => exact ⟨rfl, rfl, fun _ _ => rfl⟩

lemma Node.Opens.noNewline {n : Node} (h : n.Opens) (ts : List Token) :
    (ScriptMachine.leading (n.spelling ++ ts)).isNewline = false := (Token.opens_spec (h.leading ts)).1

lemma Arg.spelling_ne_nil {a : Arg} (h : a.value.Opens) : a.spelling ≠ [] := by
  obtain ⟨t, ts, hs, -⟩ := h
  cases a with
  | positional value => exact fun hnil => by simp_all [Arg.spelling, Arg.value]
  | _ => simp [Arg.spelling]

lemma length_le_joined {α : Type} (t : Token) {spell : α → List Token} {xs : List α} (h : ∀ x ∈ xs, spell x ≠ []) :
    xs.length ≤ (joined t (xs.map spell)).length := by
  induction xs with
  | nil => simp
  | cons x xs ih =>
    have hx := length_pos_of_ne_nil (h x (by simp))
    have hxs := ih fun y hy => h y (by simp [hy])
    cases xs with
    | nil => exact hx
    | cons y xs =>
      simp only [map_cons, joined, length_append, length_cons] at hxs ⊢
      omega

lemma length_le_of_mem {α : Type} (t : Token) (spell : α → List Token) {xs : List α} {x : α} (h : x ∈ xs) :
    (spell x).length ≤ (joined t (xs.map spell)).length := by
  induction xs with
  | nil => simp at h
  | cons y xs ih =>
    cases xs with
    | nil =>
      obtain rfl := mem_singleton.1 h
      exact le_rfl
    | cons z xs =>
      simp only [map_cons, joined, length_append, length_cons] at ih ⊢
      rcases mem_cons.1 h with rfl | h
      · omega
      · have := ih h
        omega

namespace Productions

variable {span : Span} {names : List String} {name : String} {value : Node} {g : Productions} {f : Follow} {c : Cursor}
  {rest : List Token}

lemma assignedValue_eq (h : c.next.augmented = false) (name : String) : g.assignedValue name c = g.expr c := by
  rw [assignedValue, Reader.bind_apply]
  simp only [Reader.cursor, h, Bool.false_eq_true, and_false, if_false]
  cases c.token <;> rfl

lemma takes_assign (ho : value.Opens) (hv : Takes g.expr f value) : Takes g.letExpr f (.assign name value span) := by
  intro c rest hf hc
  simp only [Node.spelling, cons_append] at hc
  refine .bind_here fun start => .bind_expectKeyword hc fun c1 h1 => .bind_ident h1 fun c2 h2 => .bind_token h2 ?_
  refine .bind_step h2 fun c3 h3 => .bind_noNewlines h3 (ho.noNewline rest) fun c4 h4 => ?_
  have hvalue : Reads c4 (g.assignedValue name) value.Like rest := by
    rw [Reads, assignedValue_eq h4.next_augmented]
    exact hv c4 rest hf h4
  refine hvalue.bind fun v c5 hl h5 => .bind_spanFrom fun span => .ret h5 ?_
  simp only [Node.Like, Node.unplaced, hl]

lemma takes_alias {newName : String} : Takes g.letExpr f (.alias_ name newName span) := by
  intro c rest hf hc
  simp only [Node.spelling, cons_append] at hc
  refine .bind_here fun start => .bind_expectKeyword hc fun c1 h1 => .bind_ident h1 fun c2 h2 => .bind_token h2 ?_
  exact .bind_step h2 fun c3 h3 => .bind_ident h3 fun c4 h4 => .bind_spanFrom fun span => .ret h4 rfl

lemma nameSpelling_cons (name : String) (names : List String) :
    nameSpelling (name :: names) = .ident name :: names.flatMap fun name => [.symbol .comma, .ident name] := by
  induction names generalizing name with
  | nil => rfl
  | cons other names ih =>
    have h : nameSpelling (name :: other :: names) = .ident name :: .symbol .comma :: nameSpelling
      (other :: names) := rfl
    rw [h, ih]
    rfl

lemma takes_multiAssign (hn : 2 ≤ names.length) (hr : names.length ≤ g.rounds) (ho : value.Opens)
    (hv : Takes g.expr f value) :
    Takes g.letExpr f (.multiAssign names value span) := by
  intro c rest hf hc
  obtain - | ⟨name, names⟩ := names
  · contradiction
  simp only [Node.spelling, nameSpelling_cons, cons_append, append_assoc] at hc
  refine .bind_here fun start => .bind_expectKeyword hc fun c1 h1 => .bind_ident h1 fun c2 h2 => .bind_token h2 ?_
  obtain - | ⟨other, names⟩ := names
  · contradiction
  refine (Reads.moreNames hr rfl h2).bind ?_
  rintro _ c3 rfl h3
  refine .bind_expectSymbol h3 fun c4 h4 => .bind_noNewlines h4 (ho.noNewline rest) fun c5 h5 => ?_
  refine (hv c5 rest hf h5).bind fun v c6 hl h6 => .bind_spanFrom fun span => .ret h6 ?_
  simp only [Node.Like, Node.unplaced, hl]

lemma takes_load {path : String} {kind : LoadKind} (hk : loadKind? path = some kind) :
    Takes loadExpr f (.load path kind span) := by
  intro c rest hf hc
  simp only [Node.spelling, cons_append] at hc
  refine .bind_here fun start => .bind_expectKeyword hc fun c1 h1 => .bind_token h1 ?_
  simp only [leading_cons, hk]
  exact .bind_step h1 fun c2 h2 => .bind_spanFrom fun span => .ret h2 rfl

lemma reads_names (hne : names ≠ []) (hr : names.length ≤ g.rounds) (ht : (leading rest).isSymbol .comma = false)
    (hc : c.At (nameSpelling names ++ rest)) :
    Reads c (Reader.names g.rounds) (fun ns => ns = names) rest := by
  obtain ⟨name, names, rfl⟩ := exists_cons_of_ne_nil hne
  rw [nameSpelling_cons] at hc
  refine .bind_ident hc fun c1 h1 => (Reads.moreNames hr ht h1).bind ?_
  rintro _ c2 rfl h2
  exact .ret h2 rfl

lemma takes_del (hf : f ≠ .separator) (hne : names ≠ []) (hr : names.length ≤ g.rounds) :
    Takes g.delExpr f (.del names span) := by
  intro c rest hh hc
  have ht := ((Follow.allows_spec hh.first).2.2 hf).1
  simp only [Node.spelling, cons_append] at hc
  refine .bind_here fun start => .bind_expectKeyword hc fun c1 h1 => (reads_names hne hr ht h1).bind ?_
  rintro _ c2 rfl h2
  exact .bind_spanFrom fun span => .ret h2 rfl

lemma takes_using {parent : Bool} (hf : f ≠ .separator) (hne : names ≠ []) (hr : names.length ≤ g.rounds) :
    Takes g.usingExpr f (.using_ names parent span) := by
  intro c rest hh hc
  have ht := ((Follow.allows_spec hh.first).2.2 hf).1
  cases parent with
  | true =>
    simp only [Node.spelling, cons_append] at hc
    refine .bind_here fun start => .bind_expectKeyword hc fun c1 h1 => .bind_atKeyword h1 ?_
    refine .bind_step h1 fun c2 h2 => ?_
    refine (reads_names hne hr ht h2).bind ?_
    rintro _ c3 rfl h3
    exact .bind_spanFrom fun span => .ret h3 rfl
  | false =>
    obtain ⟨name, names, rfl⟩ := exists_cons_of_ne_nil hne
    simp only [Node.spelling, cons_append] at hc
    refine .bind_here fun start => .bind_expectKeyword hc fun c1 h1 => .bind_atKeyword h1 ?_
    have hp : (leading (nameSpelling (name :: names) ++ rest)).isKeyword .parent = false := by
      rw [nameSpelling_cons]; rfl
    rw [hp]
    refine (reads_names hne hr ht h1).bind ?_
    rintro _ c3 rfl h3
    exact .bind_spanFrom fun span => .ret h3 rfl

end Productions

def bodyPart (multiline : Bool) (body : Node) : List Token :=
  if multiline then .newline :: bodyLinesSpelling body body.spelling else body.spelling

def endsBlock (t : Token) : Bool := t.isKeyword .done || opensClause t

def Token.isJump (t : Token) : Bool := t.isKeyword .return_ || t.isKeyword .continue_ || t.isKeyword .break_

def Follow.Closes (f : Follow) (multiline : Bool) (rest : List Token) : Prop :=
  if multiline then f.Holds (.newline :: rest) ∧ endsBlock (leading rest) = true else f.Holds rest

def TakesBody (r : Reader (Node × Bool)) (multiline : Bool) (f : Follow) (n : Node) : Prop :=
  ∀ c rest, f.Closes multiline rest → c.At (bodyPart multiline n ++ rest) →
    Reads c r (fun p => n.Like p.1 ∧ p.2 = multiline) rest

def TakesBlock (r : Reader StatementList) (f : Follow) (n : Node) : Prop :=
  ∀ c rest, f.Holds (.newline :: rest) → endsBlock (leading rest) = true →
    c.At (.newline :: (bodyLinesSpelling n n.spelling ++ rest)) →
    Reads c r (fun list => ∀ span, n.Like (.block list.statements span)) rest

namespace Productions

variable {g : Productions} {f : Follow} {c : Cursor} {rest : List Token}

lemma takesBody_inline {n : Node} (ho : n.Opens) (h : Takes g.statement f n) : TakesBody g.clauseBody false f n := by
  intro c rest hf hc
  have hn := ho.noNewline rest
  have hs := h c rest hf hc
  refine .bind_token hc ?_
  simp only [bodyPart, Bool.false_eq_true, if_false]
  cases ht : leading (n.spelling ++ rest) with
  | newline => simp [ht, Token.isNewline] at hn
  | _ => exact hs.bind fun v c1 hl h1 => .ret h1 ⟨hl, rfl⟩

lemma takesBody_block {n : Node} (h : TakesBlock g.statements f n) : TakesBody g.clauseBody true f n := by
  intro c rest hf hc
  refine .bind_token hc (.bind_here fun start => ?_)
  refine (h c rest hf.1 hf.2 hc).bind fun list c1 hl h1 => .bind_spanFrom fun span => ?_
  exact .ret h1 ⟨hl span, rfl⟩

lemma reads_closeBlock (hc : c.At (.keyword .done :: rest)) : Reads c closeBlock (fun _ => True) rest :=
  .bind_noNewlines hc rfl fun _ h1 => .expectKeyword h1

lemma reads_loopBody {multiline : Bool} {body : Node} (h : TakesBody g.clauseBody multiline (f.ofBody multiline) body)
    (hf : multiline = false → f.Holds rest) (hc : c.At (bodySpelling body body.spelling multiline ++ rest)) :
    Reads c g.loopBody (fun p => body.Like p.1 ∧ p.2 = multiline) rest := by
  cases multiline with
  | true =>
    have hat : c.At (bodyPart true body ++ .keyword .done :: rest) := by simpa [bodySpelling, bodyPart] using hc
    refine (h c _ ⟨.line rfl rfl, rfl⟩ hat).bind ?_
    rintro ⟨b, m⟩ c1 ⟨hl, rfl⟩ h1
    exact (reads_closeBlock h1).bind fun _ c2 _ h2 => .ret h2 ⟨hl, rfl⟩
  | false =>
    have hat : c.At (bodyPart false body ++ rest) := by simpa [bodySpelling, bodyPart] using hc
    refine (h c _ (hf rfl) hat).bind ?_
    rintro ⟨b, m⟩ c1 ⟨hl, rfl⟩ h1
    exact .ret h1 ⟨hl, rfl⟩

end Productions

def casePart (multiline : Bool) (k : Keyword) (cases_ : List (Node × Node)) : List Token :=
  if multiline then caseLinesSpelling k cases_ else caseSpelling k cases_

lemma casePart_cons (multiline : Bool) (k : Keyword) (condition body : Node) (cases_ : List (Node × Node)) :
    casePart multiline k ((condition, body) :: cases_) = .keyword k :: (condition.spelling ++ .keyword .do_ ::
      (bodyPart multiline body ++ casePart multiline .elif cases_)) := by
  cases multiline <;> simp [casePart, bodyPart, caseLinesSpelling, caseSpelling]

def elsePart (multiline : Bool) : Option Node → List Token
  | none => if multiline then [.keyword .done] else []
  | some last => .keyword .else_ :: bodySpelling last last.spelling multiline

lemma branch_spelling (cases_ : List (Node × Node)) (last : Option Node) (multiline : Bool) (span : Span) :
    (Node.branch cases_ last multiline span).spelling = casePart multiline .if_ cases_ ++ elsePart multiline last := by
  cases last <;> cases multiline <;> simp [Node.spelling, casePart, elsePart, bodySpelling]

namespace Productions

variable {span : Span} {Q : Node → Prop} {value : Node} {cases_ : List (Node × Node)} {last step : Option Node}
  {name : String} {params : List Param} {ds : List Node} {autoReturn : Bool} {ts : List Token} {g : Productions}
  {f : Follow} {c : Cursor} {rest : List Token}

def IfChain.Like (cases_ : List (Node × Node)) (last : Option Node) (multiline : Bool) (chain : IfChain) : Prop :=
  Forall₂ (fun p q => p.1.Like q.1 ∧ p.2.Like q.2) cases_ chain.cases_ ∧
    Option.Rel Node.Like last chain.otherwise ∧ chain.multiline = multiline

section ifChain

variable {m : Bool} {seen : Option Bool} {condition body : Node} {rounds : Nat}

lemma reads_checkForm (hs : seen ≠ some (!m)) (hc : c.At rest) : Reads c (checkForm seen m) (fun _ => True) rest := by
  rw [checkForm, if_neg hs]
  exact .ret hc trivial

variable (hs : seen ≠ some (!m)) (hcond : Takes g.expr .separator condition)
include hs hcond

lemma reads_ifChain_elif (hbody : TakesBody g.clauseBody m .clause body)
    (hk : ∀ c', c'.At ts → Reads c' (g.ifChain (some m) rounds) (IfChain.Like cases_ last m) rest)
    (hc : c.At (condition.spelling ++ .keyword .do_ :: (bodyPart m body ++ .keyword .elif :: ts))) :
    Reads c (g.ifChain seen (rounds + 1)) (IfChain.Like ((condition, body) :: cases_) last m) rest := by
  have hcl : Follow.clause.Closes m (.keyword .elif :: ts) := by
    cases m with
    | true => exact ⟨.clause rfl, rfl⟩
    | false => exact .clause rfl
  refine (hcond c _ (.separator rfl) hc).bind fun condition' c1 hl1 h1 => .bind_expectKeyword h1 fun c2 h2 => ?_
  refine (hbody c2 _ hcl h2).bind ?_
  rintro ⟨body', m'⟩ c3 ⟨hl3, rfl⟩ h3
  refine (reads_checkForm hs h3).bind fun _ c4 _ h4 => .bind_cursor (.bind_noNewlines h4 rfl fun c5 h5 => ?_)
  refine .bind_token h5 (.bind_step h5 fun c6 h6 => (hk c6 h6).bind fun chain c7 hl7 h7 => .ret h7 ?_)
  exact ⟨.cons ⟨hl1, hl3⟩ hl7.1, hl7.2.1, hl7.2.2⟩

lemma reads_ifChain_else (hbody : TakesBody g.clauseBody m .clause body) {last : Node}
    (hlast : TakesBody g.clauseBody m (f.ofBody m) last) (hf : m = false → f.Holds rest)
    (hc : c.At (condition.spelling ++ .keyword .do_ :: (bodyPart m body ++ (elsePart m (some last) ++ rest)))) :
    Reads c (g.ifChain seen (rounds + 1)) (IfChain.Like [(condition, body)] (some last) m) rest := by
  rw [elsePart, cons_append] at hc
  have hcl : Follow.clause.Closes m (.keyword .else_ :: (bodySpelling last last.spelling m ++ rest)) := by
    cases m with
    | true => exact ⟨.clause rfl, rfl⟩
    | false => exact .clause rfl
  refine (hcond c _ (.separator rfl) hc).bind fun condition' c1 hl1 h1 => .bind_expectKeyword h1 fun c2 h2 => ?_
  refine (hbody c2 _ hcl h2).bind ?_
  rintro ⟨body', m'⟩ c3 ⟨hl3, hm3⟩ h3
  obtain rfl : m = m' := hm3.symm
  refine (reads_checkForm hs h3).bind fun _ c4 _ h4 => .bind_cursor (.bind_noNewlines h4 rfl fun c5 h5 => ?_)
  refine .bind_token h5 (.bind_step h5 fun c6 h6 => ?_)
  cases m with
  | true =>
    have hat : c6.At (bodyPart true last ++ .keyword .done :: rest) := by simpa [bodySpelling, bodyPart] using h6
    refine (hlast c6 _ ⟨.line rfl rfl, rfl⟩ hat).bind ?_
    rintro ⟨last', m'⟩ c7 ⟨hl7, rfl⟩ h7
    refine (reads_checkForm (by simp) h7).bind fun _ c8 _ h8 => (reads_closeBlock h8).bind fun _ c9 _ h9 => ?_
    exact .ret h9 ⟨.cons ⟨hl1, hl3⟩ .nil, .some hl7, rfl⟩
  | false =>
    have hat : c6.At (bodyPart false last ++ rest) := by simpa [bodySpelling, bodyPart] using h6
    refine (hlast c6 _ (hf rfl) hat).bind ?_
    rintro ⟨last', m'⟩ c7 ⟨hl7, rfl⟩ h7
    refine (reads_checkForm (by simp) h7).bind fun _ c8 _ h8 => ?_
    exact .ret h8 ⟨.cons ⟨hl1, hl3⟩ .nil, .some hl7, rfl⟩

lemma reads_ifChain_open (hbody : TakesBody g.clauseBody m (f.ofBody m) body) (hm : m = false → f ≠ .clause)
    (hf : m = false → f.Holds rest)
    (hc : c.At (condition.spelling ++ .keyword .do_ :: (bodyPart m body ++ (elsePart m none ++ rest)))) :
    Reads c (g.ifChain seen (rounds + 1)) (IfChain.Like [(condition, body)] none m) rest := by
  have hcl : (f.ofBody m).Closes m (elsePart m none ++ rest) := by
    cases m with
    | true => exact ⟨.line rfl rfl, rfl⟩
    | false => exact hf rfl
  refine (hcond c _ (.separator rfl) hc).bind fun condition' c1 hl1 h1 => .bind_expectKeyword h1 fun c2 h2 => ?_
  refine (hbody c2 _ hcl h2).bind ?_
  rintro ⟨body', m'⟩ c3 ⟨hl3, hm3⟩ h3
  obtain rfl : m = m' := hm3.symm
  refine (reads_checkForm hs h3).bind fun _ c4 _ h4 => .bind_cursor ?_
  cases m with
  | true =>
    refine .bind_noNewlines h4 rfl fun c5 h5 => .bind_token h5 (.bind_step h5 fun c6 h6 => ?_)
    exact .ret h6 ⟨.cons ⟨hl1, hl3⟩ .nil, .none, rfl⟩
  | false =>
    have hpast := (hf rfl).past (hm rfl)
    refine .bind_skipNewlines h4 fun c5 n h5 _ => .bind_token h5 ?_
    have hret : Reads c4 (pure ⟨[(condition', body')], none, false⟩)
        (IfChain.Like [(condition, body)] none false) rest := .ret h4 ⟨.cons ⟨hl1, hl3⟩ .nil, .none, rfl⟩
    change opensClause (leading (pastLines (elsePart false none ++ rest))) = false at hpast
    cases ht : leading (pastLines (elsePart false none ++ rest)) with
    | keyword k =>
      rw [ht] at hpast
      cases k <;> first | contradiction | exact .bind_resume hret
    | _ => exact .bind_resume hret

end ifChain

abbrev TakesEnd (g : Productions) (m : Bool) (f : Follow) (body : Node) : Option Node → Prop
  | some last => TakesBody g.clauseBody m .clause body ∧ TakesBody g.clauseBody m (f.ofBody m) last
  | none => TakesBody g.clauseBody m (f.ofBody m) body ∧ (m = false → f ≠ .clause)

lemma reads_ifChain {m : Bool} {seen : Option Bool} {case : Node × Node} {rounds : Nat} (hs : seen ≠ some (!m))
    (hcond : ∀ p ∈ case :: cases_, Takes g.expr .separator p.1)
    (hbody : ∀ p ∈ (case :: cases_).dropLast, TakesBody g.clauseBody m .clause p.2)
    (hlast : g.TakesEnd m f ((case :: cases_).getLast (by simp)).2 last)
    (hr : cases_.length < rounds) (hf : m = false → f.Holds rest)
    (hc : c.At (case.1.spelling ++ .keyword .do_ ::
      (bodyPart m case.2 ++ (casePart m .elif cases_ ++ (elsePart m last ++ rest))))) :
    Reads c (g.ifChain seen rounds) (IfChain.Like (case :: cases_) last m) rest := by
  induction cases_ generalizing c seen case rounds with
  | nil =>
    obtain - | rounds := rounds
    · contradiction
    have hnil : casePart m .elif [] = [] := by cases m <;> rfl
    rw [hnil, nil_append] at hc
    cases last with
    | none => exact reads_ifChain_open hs (hcond case (by simp)) hlast.1 hlast.2 hf hc
    | some last => exact reads_ifChain_else hs (hcond case (by simp)) hlast.1 hlast.2 hf hc
  | cons next cases_ ih =>
    obtain - | rounds := rounds
    · contradiction
    rw [casePart_cons, cons_append] at hc
    refine reads_ifChain_elif hs (hcond case (by simp)) (hbody case (by simp)) (fun c' hc' => ?_) hc
    refine ih (by simp) (fun p hp => hcond p (by simp [hp])) (fun p hp => hbody p ?_) hlast
      (Nat.lt_of_succ_lt_succ hr) (by simpa using hc')
    exact mem_cons_of_mem _ hp

lemma takes_branch {m : Bool} (hne : cases_ ≠ []) (hcond : ∀ p ∈ cases_, Takes g.expr .separator p.1)
    (hbody : ∀ p ∈ cases_.dropLast, TakesBody g.clauseBody m .clause p.2)
    (hlast : g.TakesEnd m f (cases_.getLast hne).2 last)
    (hr : cases_.length ≤ g.rounds) : TakesForm g.ifExpr f (.branch cases_ last m span) := by
  intro c rest hf hc
  obtain ⟨case, cases_, rfl⟩ := exists_cons_of_ne_nil hne
  rw [branch_spelling, casePart_cons] at hc
  refine .bind_here fun start => .bind_expectKeyword (by simpa using hc) fun c1 h1 => ?_
  refine (reads_ifChain (by simp) hcond hbody hlast hr hf h1).bind fun chain c2 hl h2 => .bind_spanFrom fun span => ?_
  refine .ret h2 ?_
  simp only [Node.Like, Node.unplaced, unplacedPairs_of_like hl.1, unplacedOption_of_like hl.2.1, hl.2.2]

def stepPart : Option Node → List Token
  | some step => .keyword .step :: step.spelling
  | none => []

lemma reads_stepClause (hstep : ∀ s ∈ step, Takes g.expr .separator s)
    (hc : c.At (stepPart step ++ .keyword .do_ :: rest)) :
    Reads c g.stepClause (Option.Rel Node.Like step) (.keyword .do_ :: rest) := by
  cases step with
  | none => exact .unlessKeyword hc rfl (.ret hc .none)
  | some step =>
    refine .ifKeyword hc rfl (.bind_step hc fun c1 h1 => ?_)
    exact (hstep step rfl c1 _ (.separator rfl) h1).bind fun v c2 hl h2 => .ret h2 (.some hl)

lemma takes_forRange {var : String} {start stop : Node} {body : Node} {m : Bool}
    (hstart : Takes g.expr .separator start) (hstop : Takes g.expr .separator stop)
    (hstep : ∀ s ∈ step, Takes g.expr .separator s) (hbody : TakesBody g.clauseBody m (f.ofBody m) body) :
    TakesForm g.forExpr f (.forRange var start stop step body m span) := by
  intro c rest hf hc
  have hat : c.At (.keyword .for_ :: .ident var :: .symbol .assign :: (start.spelling ++ .keyword .to_ ::
      (stop.spelling ++ (stepPart step ++ .keyword .do_ :: (bodySpelling body body.spelling m ++ rest))))) := by
    cases step <;> simpa [Node.spelling, stepPart] using hc
  refine .bind_here fun span => .bind_expectKeyword hat fun c1 h1 => .unlessKeyword h1 rfl ?_
  refine .bind_ident h1 fun c2 h2 => .ifSymbol h2 rfl (.bind_step h2 fun c3 h3 => ?_)
  refine (hstart c3 _ (.separator rfl) h3).bind fun start' c4 hl4 h4 => .bind_expectKeyword h4 fun c5 h5 => ?_
  have hsep : Follow.separator.Holds
    (stepPart step ++ .keyword .do_ :: (bodySpelling body body.spelling m ++ rest)) := by
    cases step <;> exact .separator rfl
  refine (hstop c5 _ hsep h5).bind fun stop' c6 hl6 h6 => (reads_stepClause hstep h6).bind fun step' c7 hl7 h7 => ?_
  refine .bind_expectKeyword h7 fun c8 h8 => (reads_loopBody hbody hf h8).bind ?_
  rintro ⟨body', m'⟩ c9 ⟨hl9, rfl⟩ h9
  refine .bind_spanFrom fun span => .ret h9 ?_
  simp only [Node.Like, Node.unplaced, hl4, hl6, unplacedOption_of_like hl7, hl9]

lemma takes_forIn {vars : List String} {iterable body : Node} {m : Bool} (hne : vars ≠ []) (hr : vars.length ≤ g.rounds)
    (hi : Takes g.expr .separator iterable) (hbody : TakesBody g.clauseBody m (f.ofBody m) body) :
    TakesForm g.forExpr f (.forIn vars iterable body m span) := by
  intro c rest hf hc
  obtain ⟨var, vars, rfl⟩ := exists_cons_of_ne_nil hne
  simp only [Node.spelling, nameSpelling_cons, cons_append, append_assoc] at hc
  refine .bind_here fun span => .bind_expectKeyword hc fun c1 h1 => .unlessKeyword h1 rfl ?_
  refine .bind_ident h1 fun c2 h2 => .unlessSymbol h2 (by cases vars <;> rfl) ?_
  refine (Reads.moreNames hr rfl h2).bind ?_
  rintro _ c3 rfl h3
  refine .ifKeyword h3 rfl (.bind_step h3 fun c4 h4 => ?_)
  refine (hi c4 _ (.separator rfl) h4).bind fun iterable' c5 hl5 h5 => .bind_expectKeyword h5 fun c6 h6 => ?_
  refine (reads_loopBody hbody hf h6).bind ?_
  rintro ⟨body', m'⟩ c7 ⟨hl7, rfl⟩ h7
  refine .bind_spanFrom fun span => .ret h7 ?_
  simp only [Node.Like, Node.unplaced, hl5, hl7]

lemma takes_while {condition body : Node} {m : Bool} (hcond : Takes g.expr .separator condition)
    (hbody : TakesBody g.clauseBody m (f.ofBody m) body) : TakesForm g.whileExpr f (.while_ condition body m span) := by
  intro c rest hf hc
  simp only [Node.spelling, cons_append, append_assoc] at hc
  refine .bind_here fun span => .bind_expectKeyword hc fun c1 h1 => ?_
  refine (hcond c1 _ (.separator rfl) h1).bind fun condition' c2 hl2 h2 => .bind_expectKeyword h2 fun c3 h3 => ?_
  refine (reads_loopBody hbody hf h3).bind ?_
  rintro ⟨body', m'⟩ c4 ⟨hl4, rfl⟩ h4
  refine .bind_spanFrom fun span => .ret h4 ?_
  simp only [Node.Like, Node.unplaced, hl2, hl4]

lemma takes_namespace {body : List Node}
    (h : ∀ c rest, c.At (.newline :: (statementSpelling body ++ .keyword .done :: rest)) → Reads c g.statements
      (fun list => Forall₂ Node.Like body list.statements) (.keyword .done :: rest)) :
    TakesForm g.namespaceExpr f (.namespace_ name body span) := by
  intro c rest hf hc
  simp only [Node.spelling, cons_append, append_assoc, nil_append] at hc
  refine .bind_here fun span => .bind_expectKeyword hc fun c1 h1 => .bind_ident h1 fun c2 h2 => .bind_token h2 ?_
  refine (h c2 rest h2).bind fun list c3 hl3 h3 => (reads_closeBlock h3).bind fun _ c4 _ h4 => ?_
  refine .bind_spanFrom fun span => .ret h4 ?_
  simp only [Node.Like, Node.unplaced, unplacedNodes_of_like hl3]

lemma reads_list {α : Type} {xs : List α} (spell : α → List Token) (node : α → Node) (hr : xs.length < g.rounds)
    (ho : ∀ x ∈ xs, ∀ ts, (leading (spell x ++ ts)).isSymbol .rightSquare = false)
    (he : ∀ x ∈ xs, ∀ c rest, Follow.separator.Holds rest → c.At (spell x ++ rest) → Reads c g.expr (node x).Like rest)
    (hc : c.At (.symbol .leftSquare :: (joined (.symbol .comma) (xs.map spell) ++ .symbol .rightSquare :: rest))) :
    Reads c g.listExpr (Node.list (xs.map node) span).Like rest := by
  refine .bind_here fun start => .bind_expectSymbol hc fun c1 h1 => ?_
  refine (Reads.items spell (fun x => (node x).Like) rfl ho he hr h1).bind fun es c2 hl2 h2 => ?_
  refine .bind_spanFrom fun span => .ret h2 ?_
  simp only [Node.Like, Node.unplaced, unplacedNodes_of_like (forall₂_map_left_iff.2 hl2)]

lemma takes_list {elements : List Node} (hr : elements.length < g.rounds) (ho : ∀ e ∈ elements, e.Opens)
    (he : ∀ e ∈ elements, Takes g.expr .separator e) (hc : c.At ((Node.list elements span).spelling ++ rest)) :
    Reads c g.listExpr (Node.list elements span).Like rest := by
  simp only [Node.spelling, nodeSpellings_eq_map, cons_append, append_assoc, nil_append] at hc
  have hopen : ∀ e ∈ elements, ∀ ts, (leading (e.spelling ++ ts)).isSymbol .rightSquare = false :=
    fun e hem ts => (Token.opens_spec ((ho e hem).leading ts)).2.2 _ rfl
  have h : Reads c g.listExpr (Node.list (elements.map id) span).Like rest :=
    reads_list Node.spelling id hr hopen he hc
  simpa using h

lemma reads_map {α : Type} {xs : List α} (spellKey spellValue : α → List Token) (node : α → Node × Node)
    (hr : xs.length < g.rounds) (ho : ∀ x ∈ xs, ∀ ts, (leading (spellKey x ++ ts)).isSymbol .rightBrace = false)
    (hk : ∀ x ∈ xs, ∀ c rest, Follow.separator.Holds rest → c.At (spellKey x ++ rest) →
      Reads c g.expr (node x).1.Like rest)
    (hv : ∀ x ∈ xs, ∀ c rest, Follow.separator.Holds rest → c.At (spellValue x ++ rest) →
      Reads c g.expr (node x).2.Like rest)
    (hc : c.At (.symbol .leftBrace :: (joined (.symbol .comma)
      (xs.map fun x => spellKey x ++ .symbol .colon :: spellValue x) ++ .symbol .rightBrace :: rest))) :
    Reads c g.mapExpr (Node.map (xs.map node) span).Like rest := by
  have hentry : ∀ x ∈ xs, ∀ c rest, Follow.separator.Holds rest →
      c.At ((spellKey x ++ .symbol .colon :: spellValue x) ++ rest) →
      Reads c g.mapEntry (fun p => (node x).1.Like p.1 ∧ (node x).2.Like p.2) rest := by
    intro x hx c rest hf hc
    rw [append_assoc] at hc
    refine (hk x hx c _ (.separator rfl) hc).bind fun k c1 hl1 h1 => .bind_expectSymbol h1 fun c2 h2 => ?_
    exact (hv x hx c2 rest hf h2).bind fun v c3 hl3 h3 => .ret h3 ⟨hl1, hl3⟩
  refine .bind_here fun start => .bind_expectSymbol hc fun c1 h1 => ?_
  refine (Reads.items _ _ rfl (fun x hx ts => ?_) hentry hr h1).bind fun es c2 hl2 h2 => ?_
  · rw [append_assoc]
    exact ho x hx _
  refine .bind_spanFrom fun span => .ret h2 ?_
  simp only [Node.Like, Node.unplaced, unplacedPairs_of_like (forall₂_map_left_iff.2 hl2)]

lemma takes_map {entries : List (Node × Node)} (hr : entries.length < g.rounds) (ho : ∀ e ∈ entries, e.1.Opens)
    (hk : ∀ e ∈ entries, Takes g.expr .separator e.1) (hv : ∀ e ∈ entries, Takes g.expr .separator e.2)
    (hc : c.At ((Node.map entries span).spelling ++ rest)) :
    Reads c g.mapExpr (Node.map entries span).Like rest := by
  simp only [Node.spelling, entrySpellings_eq_map, cons_append, append_assoc, nil_append] at hc
  have hopen : ∀ e ∈ entries, ∀ ts, (leading (e.1.spelling ++ ts)).isSymbol .rightBrace = false :=
    fun e hem ts => (Token.opens_spec ((ho e hem).leading ts)).2.2 _ rfl
  have h : Reads c g.mapExpr (Node.map (entries.map id) span).Like rest :=
    reads_map (fun e : Node × Node => e.1.spelling) (fun e => e.2.spelling) id hr hopen hk hv hc
  simpa using h

lemma reads_keywordName (hc : c.At (.ident name :: .symbol .assign :: rest)) :
    Reads c keywordName (fun n => n = name) rest :=
  .bind_ident hc fun _ h1 => .bind_expectSymbol h1 fun _ h2 => .ret h2 rfl

def standsAlone (n : Node) (rest : List Token) : Prop :=
  (leading (n.spelling ++ rest)).isKeyword .let_ = false ∧
    ∀ name ts, n.spelling = .ident name :: ts → (leading (ts ++ rest)).isSymbol .assign = false

lemma reads_positional (ho : value.Opens) (ha : standsAlone value rest) (hv : Takes g.expr .separator value)
    (hf : Follow.separator.Holds rest) (hc : c.At (value.spelling ++ rest)) :
    Reads c g.argument (Arg.positional value).Like rest := by
  have hread := (hv c rest hf hc).bind (f := fun v => pure (Arg.positional v)) (R := (Arg.positional value).Like)
    fun v c1 hl h1 => .ret h1 (by simp only [Arg.Like, Arg.unplaced, hl])
  obtain ⟨t, ts, hs, ht⟩ := ho
  rw [hs] at hc
  refine .bind_cursor ?_
  rw [hc.token, cons_append, leading_cons]
  cases t with
  | symbol s => cases s <;> first | contradiction | exact hread
  | keyword k =>
    have hlet := ha.1
    rw [hs] at hlet
    cases k <;> first | contradiction | exact hread
  | ident name =>
    have hnext : c.next.token.isSymbol .assign = false := by
      rw [hc.next]
      exact ha.2 name ts hs
    simp only [hnext]
    exact hread
  | _ => exact hread

lemma reads_argument {a : Arg} (ho : a.value.Opens) (ha : ∀ v, a = .positional v → standsAlone v rest)
    (hv : Takes g.expr .separator a.value) (hf : Follow.separator.Holds rest) (hc : c.At (a.spelling ++ rest)) :
    Reads c g.argument a.Like rest := by
  cases a with
  | positional value => exact reads_positional ho (ha value rfl) hv hf hc
  | keyword name value =>
    simp only [Arg.spelling, cons_append] at hc
    refine .bind_cursor ?_
    rw [hc.token, leading_cons]
    refine .bind_step hc fun c1 h1 => (reads_keywordName h1).bind ?_
    rintro _ c2 rfl h2
    refine (hv c2 rest hf h2).bind fun v c3 hl h3 => .ret h3 ?_
    simp only [Arg.Like, Arg.unplaced, hl, Arg.value]
  | spread value | spreadKeywords value =>
    simp only [Arg.spelling, cons_append] at hc
    refine .bind_cursor ?_
    rw [hc.token, leading_cons]
    refine .bind_step hc fun c1 h1 => (hv c1 rest hf h1).bind fun v c2 hl h2 => .ret h2 ?_
    simp only [Arg.Like, Arg.unplaced, hl, Arg.value]

lemma reads_parameter {p : Param} (hd : ∀ d ∈ p.default?, Takes g.expr .separator d)
    (hf : Follow.separator.Holds rest) (hc : c.At (p.spelling ++ rest)) : Reads c g.parameter p.Like rest := by
  cases p with
  | required name =>
    refine .bind_token hc (.bind_ident hc fun c1 h1 => ?_)
    exact .unlessSymbol h1 (Follow.allows_spec hf.first).2.1 (.ret h1 rfl)
  | optional name value =>
    refine .bind_token hc (.bind_step hc fun c1 h1 => (reads_keywordName h1).bind ?_)
    rintro _ c2 rfl h2
    refine (hd value rfl c2 rest hf h2).bind fun v c3 hl h3 => .ret h3 ?_
    simp only [Param.Like, Param.unplaced, hl]
  | rest name | keywords name =>
    exact .bind_token hc (.bind_step hc fun c1 h1 => .bind_ident h1 fun c2 h2 => .ret h2 rfl)

lemma paramFault?_isNone {ps qs : List (Param × Span)} (h : Forall₂ (fun p q => p.1.Like q.1) ps qs)
    (seen : ParamsSeen) : (paramFault? seen qs).isNone = (paramFault? seen ps).isNone := by
  induction h generalizing seen with
  | nil => rfl
  | @cons p q ps qs hp _ ih =>
    obtain ⟨p, _⟩ := p
    obtain ⟨q, _⟩ := q
    have hname : q.name = p.name := by
      cases p <;> cases q <;> simp_all [Param.Like, Param.unplaced, Param.name]
    rw [paramFault?, paramFault?, hname]
    by_cases hm : p.name ∈ seen.names
    · simp [hm]
    · rw [if_neg hm, if_neg hm]
      cases p <;> cases q <;> simp only [Param.Like, Param.unplaced, reduceCtorEq] at hp
      all_goals first
        | exact ih _
        | (dsimp only; split <;> first | rfl | exact ih _)

lemma reads_parameters (hfit : paramsFit params = true) (hr : params.length < g.rounds)
    (hd : ∀ p ∈ params, ∀ d ∈ p.default?, Takes g.expr .separator d)
    (hc : c.At (.symbol .leftParen ::
      (joined (.symbol .comma) (paramSpellings params) ++ .symbol .rightParen :: rest))) :
    Reads c g.parameters (Forall₂ Param.Like params) rest := by
  rw [paramSpellings_eq_map] at hc
  have hitem : ∀ p ∈ params, ∀ c rest, Follow.separator.Holds rest → c.At (p.spelling ++ rest) →
      Reads c g.placedParameter (fun q => p.Like q.1) rest := by
    intro p hp c rest hf hc
    refine .bind_here fun start => (reads_parameter (hd p hp) hf hc).bind fun q c1 hl h1 => ?_
    exact .bind_spanFrom fun span => .ret h1 hl
  refine .bind_expectSymbol hc fun c1 h1 => ?_
  refine (Reads.items Param.spelling _ rfl (fun p _ ts => by cases p <;> rfl) hitem hr h1).bind fun qs c2 hl h2 => ?_
  have hplaced : Forall₂ (fun p q => p.1.Like q.1) (params.map fun p => (p, Span.point 0)) qs := by
    rw [forall₂_map_left_iff]
    exact hl
  have hnone : paramFault? {} qs = none := by
    rw [← Option.isNone_iff_eq_none, paramFault?_isNone hplaced]
    exact hfit
  rw [hnone]
  refine .ret h2 ?_
  rw [forall₂_map_right_iff]
  exact hl

lemma reads_decorators (hd : ∀ d ∈ ds, Takes (g.climb .power) .finish d) {rounds : Nat} (hr : ds.length < rounds)
    (ht : leading rest = .keyword .async ∨ leading rest = .keyword .defun) (hc : c.At (decoratorSpelling ds ++ rest)) :
    Reads c (g.decorators rounds) (Forall₂ Node.Like ds) rest := by
  induction ds generalizing c rounds with
  | nil =>
    obtain - | rounds := rounds
    · contradiction
    refine .unlessSymbol hc ?_ (.ret hc .nil)
    rcases ht with ht | ht <;> simp [decoratorSpelling, ht, Token.isSymbol]
  | cons d ds ih =>
    obtain - | rounds := rounds
    · contradiction
    simp only [decoratorSpelling, cons_append, append_assoc] at hc
    have hnext : (leading (decoratorSpelling ds ++ rest)).isNewline = false ∧
        opensClause (leading (decoratorSpelling ds ++ rest)) = false := by
      cases ds with
      | nil => rcases ht with ht | ht <;> simp [decoratorSpelling, ht, Token.isNewline, opensClause, Token.isKeyword]
      | cons e ds => exact ⟨rfl, rfl⟩
    refine .ifSymbol hc rfl (.bind_step hc fun c1 h1 => ?_)
    refine (hd d (by simp) c1 _ (.line hnext.1 hnext.2) h1).bind fun e c2 hl h2 => ?_
    refine .bind_skipNewlines h2 fun c3 n h3 hn => ?_
    have hn0 : n ≠ 0 := fun h => by simpa [Token.isNewline] using hn.1 h
    rw [pastLines_newline, pastLines_of_leading hnext.1] at h3
    rw [if_neg hn0]
    refine (ih (fun e he => hd e (by simp [he])) (Nat.lt_of_succ_lt_succ hr) h3).bind fun es c4 hl4 h4 => ?_
    exact .ret h4 (.cons hl hl4)

lemma reads_functionBody {body : Node} (ho : autoReturn = true → body.Opens)
    (he : autoReturn = true → Takes g.expr f body) (hb : autoReturn = false → TakesBlock g.statements .finish body)
    (hf : autoReturn = true → f.Holds rest)
    (hc : c.At ((if autoReturn then .symbol .arrow :: body.spelling else bodySpelling body body.spelling true) ++
      rest)) :
    Reads c g.functionBody (fun p => body.Like p.1 ∧ p.2 = autoReturn) rest := by
  cases autoReturn with
  | true =>
    refine .bind_token hc (.bind_step hc fun c1 h1 => .bind_noNewlines h1 ((ho rfl).noNewline rest) fun c2 h2 => ?_)
    exact (he rfl c2 rest (hf rfl) h2).bind fun b c3 hl h3 => .ret h3 ⟨hl, rfl⟩
  | false =>
    have hat : c.At (.newline :: (bodyLinesSpelling body body.spelling ++ .keyword .done :: rest)) := by
      simpa [bodySpelling] using hc
    refine .bind_token hat (.bind_here fun start => ?_)
    refine (hb rfl c _ (.line rfl rfl) rfl hat).bind fun list c1 hl h1 => .bind_spanFrom fun span => ?_
    exact (reads_closeBlock h1).bind fun _ c2 _ h2 => .ret h2 ⟨hl span, rfl⟩

lemma function_spelling (name : Option String) (params : List Param) (body : Node) (autoReturn isAsync : Bool)
    (ds : List Node) (span : Span) :
    (Node.function name params body autoReturn isAsync ds span).spelling = decoratorSpelling ds ++
      ((if isAsync then [.keyword .async] else []) ++ .keyword .defun :: ((name.map Token.ident).toList ++
        .symbol .leftParen :: (joined (.symbol .comma) (paramSpellings params) ++ .symbol .rightParen ::
          if autoReturn then .symbol .arrow :: body.spelling else bodySpelling body body.spelling true))) := by
  cases name <;> rfl

lemma reads_functionName {name : Option String}
    (hc : c.At ((name.map Token.ident).toList ++ .symbol .leftParen :: rest)) :
    Reads c functionName (fun n => n = name) (.symbol .leftParen :: rest) := by
  cases name with
  | none => exact .bind_token hc (.ret hc rfl)
  | some name => exact .bind_token hc (.bind_step hc fun c1 h1 => .ret h1 rfl)

lemma takes_function {name : Option String} {body : Node} {isAsync : Bool} (hfit : paramsFit params = true)
    (hr : params.length < g.rounds) (hv : ∀ p ∈ params, ∀ d ∈ p.default?, Takes g.expr .separator d)
    (hds : ds.length ≤ g.rounds) (hd : ∀ d ∈ ds, Takes (g.climb .power) .finish d) (ho : autoReturn = true → body.Opens)
    (he : autoReturn = true → Takes g.expr f body) (hb : autoReturn = false → TakesBlock g.statements .finish body) :
    TakesForm g.functionExpr f (.function name params body autoReturn isAsync ds span) := by
  intro c rest hf hc
  simp only [function_spelling, append_assoc, cons_append] at hc
  have hlead : leading ((if isAsync then [.keyword .async] else []) ++ .keyword .defun ::
      ((name.map Token.ident).toList ++ .symbol .leftParen :: (joined (.symbol .comma) (paramSpellings params) ++
        .symbol .rightParen :: ((if autoReturn then .symbol .arrow :: body.spelling else
          bodySpelling body body.spelling true) ++ rest)))) = .keyword (if isAsync then .async else .defun) := by
    cases isAsync <;> rfl
  refine .bind_here fun start => ?_
  refine (reads_decorators hd (Nat.lt_succ_of_le hds) ?_ hc).bind fun ds' c1 hl1 h1 => .bind_atKeyword h1 ?_
  · rw [hlead]
    cases isAsync <;> simp
  rw [hlead]
  have htail : ∀ c2, c2.At (.keyword .defun :: ((name.map Token.ident).toList ++ .symbol .leftParen ::
      (joined (.symbol .comma) (paramSpellings params) ++ .symbol .rightParen ::
        ((if autoReturn then .symbol .arrow :: body.spelling else bodySpelling body body.spelling true) ++ rest)))) →
      Reads c2 (do
        Reader.expectKeyword .defun
        let name ← functionName
        let params ← g.parameters
        let r ← g.functionBody
        return .function name params r.1 r.2 isAsync ds' (← Reader.spanFrom start))
        (Node.function name params body autoReturn isAsync ds span).Like rest := by
    intro c2 h2
    refine .bind_expectKeyword h2 fun c3 h3 => (reads_functionName h3).bind ?_
    rintro _ c4 rfl h4
    refine (reads_parameters hfit hr hv h4).bind fun params' c5 hl5 h5 => ?_
    refine (reads_functionBody ho he hb (fun h => hf (by simp [Node.isClosed, h])) h5).bind ?_
    rintro ⟨body', autoReturn'⟩ c6 ⟨hl6, rfl⟩ h6
    refine .bind_spanFrom fun span => .ret h6 ?_
    simp only [Node.Like, Node.unplaced, unplacedParams_of_like hl5, hl6, unplacedNodes_of_like hl1]
  cases isAsync with
  | true => exact .bind_step h1 fun c2 h2 => htail c2 h2
  | false => exact htail c1 h1

lemma reads_parenthesized (ht : ∀ us, (leading (ts ++ us)).isNewline = false)
    (he : ∀ c, c.At (ts ++ .symbol .rightParen :: rest) → Reads c g.expr Q (.symbol .rightParen :: rest))
    (hc : c.At (.symbol .leftParen :: (ts ++ .symbol .rightParen :: rest))) : Reads c g.parenthesized Q rest := by
  refine .bind_step hc fun c1 h1 => .bind_noNewlines h1 (ht _) fun c2 h2 => ?_
  refine (he c2 h2).bind fun v c3 hl h3 => .bind_noNewlines h3 rfl fun c4 h4 => ?_
  exact .bind_expectSymbol h4 fun c5 h5 => .ret h5 hl

def Climbs (g : Productions) (level : Precedence) (n : Node) : Prop :=
  ∀ c rest, c.At (n.spelling ++ rest) → ∃ m c' k, g.climbExpr level c = g.extendAbove level k m c' ∧ n.Like m ∧
    c'.At rest ∧ g.rounds + 2 ≤ k + n.spelling.length

section climbing

variable {Q : Node → Prop} {span : Span} {level : Precedence} {n : Node}

lemma climbExpr_of_reads (level : Precedence) (h : Reads c g.operand Q rest) :
    ∃ m c', g.climbExpr level c = g.extendAbove level (g.rounds + 1) m c' ∧ Q m ∧ c'.At rest := by
  obtain ⟨m, c', hr, hq, hc⟩ := h
  exact ⟨m, c', by rw [climbExpr, Reader.bind_apply, hr], hq, hc⟩

lemma climbs_of_operand (hl : n.spelling ≠ [])
    (h : ∀ c rest, c.At (n.spelling ++ rest) → Reads c g.operand n.Like rest) : Climbs g level n := by
  intro c rest hc
  obtain ⟨m, c', hr, hq, hc'⟩ := climbExpr_of_reads level (h c rest hc)
  have := length_pos_of_ne_nil hl
  exact ⟨m, c', _, hr, hq, hc', by omega⟩

lemma extendAbove_stop {k : Nat} (hc : c.At rest) (ht : (Precedence.ofToken (leading rest)).rank = 0) (hk : 0 < k) :
    g.extendAbove level k n c = .ok n c := by
  obtain - | k := k
  · contradiction
  rw [extendAbove, Reader.bind_apply, Reader.token]
  simp [hc.token, ht, Reader.pure_apply]

lemma extendAbove_of_reads {k : Nat} (hc : c.At rest) {mid : List Token}
    (ht : level.rank < (Precedence.ofToken (leading rest)).rank) (h : Reads c (g.extend n) Q mid) :
    ∃ m c', g.extendAbove level (k + 1) n c = g.extendAbove level k m c' ∧ Q m ∧ c'.At mid := by
  obtain ⟨m, c', hr, hq, hc'⟩ := h
  refine ⟨m, c', ?_, hq, hc'⟩
  rw [extendAbove, Reader.bind_apply, Reader.token, hc.token]
  dsimp only
  rw [if_pos ht, Reader.bind_apply, hr]

lemma climbs_call {callee : Node} {args : List Arg} (hlevel : level.rank < Precedence.call.rank)
    (h : Climbs g level callee) (hr : (Node.call callee args span).spelling.length ≤ g.rounds)
    (ho : ∀ a ∈ args, a.value.Opens)
    (ha : ∀ a ∈ args, ∀ v rest, a = .positional v → Follow.separator.Holds rest → standsAlone v rest)
    (hv : ∀ a ∈ args, Takes g.expr .separator a.value) : Climbs g level (.call callee args span) := by
  intro c rest hc
  have hlen : args.length ≤ (joined (.symbol .comma) (args.map Arg.spelling)).length :=
    length_le_joined _ fun a ham => Arg.spelling_ne_nil (ho a ham)
  simp only [Node.spelling, argSpellings_eq_map, length_append, length_cons, length_nil] at hr
  simp only [Node.spelling, argSpellings_eq_map, append_assoc, cons_append, nil_append] at hc
  obtain ⟨m, c1, k, hr1, hl1, h1, hk⟩ := h c _ hc
  obtain - | k := k
  · omega
  have hextend : Reads c1 (g.extend m) (Node.call callee args span).Like rest := by
    refine .bind_token h1 (.bind_step h1 fun c2 h2 => ?_)
    refine (Reads.items Arg.spelling Arg.Like rfl (fun a ham ts => ?_) (fun a ham c rest hf hc => ?_)
      (by omega) h2).bind
      fun args' c3 hl3 h3 => .bind_spanFrom fun span => .ret h3 ?_
    · have hleading := (Token.opens_spec ((ho a ham).leading ts)).2.2 .rightParen rfl
      cases a <;> first | rfl | exact hleading
    · exact reads_argument (ho a ham) (fun v hv => ha a ham v rest hv hf) (hv a ham) hf hc
    · simp only [Node.Like, Node.unplaced, hl1, unplacedArgs_of_like hl3]
  obtain ⟨m', c', hr2, hl2, h2⟩ := extendAbove_of_reads (k := k) h1 hlevel hextend
  refine ⟨m', c', k, hr1.trans hr2, hl2, h2, ?_⟩
  simp only [Node.spelling, argSpellings_eq_map, length_append, length_cons, length_nil]
  omega

lemma climbs_member {object : Node} (hlevel : level.rank < Precedence.call.rank) (h : Climbs g level object)
    (hr : (Node.member object name span).spelling.length ≤ g.rounds) :
    Climbs g level (.member object name span) := by
  intro c rest hc
  simp only [Node.spelling, length_append, length_cons, length_nil] at hr
  simp only [Node.spelling, append_assoc, cons_append, nil_append] at hc
  obtain ⟨m, c1, k, hr1, hl1, h1, hk⟩ := h c _ hc
  obtain - | k := k
  · omega
  have hextend : Reads c1 (g.extend m) (Node.member object name span).Like rest := by
    refine .bind_token h1 (.bind_step h1 fun c2 h2 => .bind_ident h2 fun c3 h3 => .bind_spanFrom fun span => ?_)
    refine .ret h3 ?_
    simp only [Node.Like, Node.unplaced, hl1]
  obtain ⟨m', c', hr2, hl2, h2⟩ := extendAbove_of_reads (k := k) h1 hlevel hextend
  refine ⟨m', c', k, hr1.trans hr2, hl2, h2, ?_⟩
  simp only [Node.spelling, length_append, length_cons, length_nil]
  omega

lemma takes_climbExpr (h : Climbs g level n) (hl : n.spelling.length ≤ g.rounds) : Takes (g.climbExpr level) f n := by
  intro c rest hf hc
  obtain ⟨m, c', k, hr, hq, hc', hk⟩ := h c rest hc
  have hstop : g.extendAbove level k m c' = .ok m c' :=
    extendAbove_stop hc' (Follow.allows_spec hf.first).1 (by omega)
  exact ⟨m, c', hr.trans hstop, hq, hc'⟩

end climbing

def climbs (t : Token) : Bool :=
  match t with
  | .keyword .let_ | .keyword .load | .keyword .using_ | .keyword .del => false
  | _ => true

lemma anyExpr_eq_assignable (h : climbs c.token = true) : g.anyExpr c = g.assignable c := by
  rw [anyExpr, Reader.bind_apply, Reader.token]
  dsimp only
  cases ht : c.token with
  | keyword k =>
    rw [ht] at h
    cases k <;> first | contradiction | rfl
  | _ => rfl

lemma reads_assignable (h : Reads c (g.climbExpr .lowest) Q rest) (ht : (leading rest).isSymbol .assign = false) :
    Reads c g.assignable Q rest :=
  h.bind fun _ _ hq hc => .unlessSymbol hc ht (.ret hc hq)

lemma reads_anyExpr (hc : c.At ts) (hcl : climbs (leading ts) = true) (h : Reads c (g.climbExpr .lowest) Q rest)
    (ht : (leading rest).isSymbol .assign = false) :
    Reads c g.anyExpr Q rest := by
  rw [Reads, anyExpr_eq_assignable (hc.token ▸ hcl)]
  exact reads_assignable h ht

lemma reads_unary {op : UnaryOp} {level : Precedence} {operand : Node} (ho : Takes (g.climb level) f operand)
    (hf : f.Holds rest) (hc : c.At (op.token :: (operand.spelling ++ rest))) :
    Reads c (g.unaryExpr op level) (Node.unary op operand span).Like rest := by
  refine .bind_here fun start => .bind_step hc fun c1 h1 => ?_
  refine (ho c1 _ hf h1).bind fun v c2 hl h2 => .bind_spanFrom fun span => .ret h2 ?_
  simp only [Node.Like, Node.unplaced, hl]

lemma reads_await (hv : Takes (g.climb .power) .finish value)
    (hc : c.At (.keyword .await :: (value.spelling ++ .symbol .rightParen :: rest))) :
    Reads c g.awaitExpr (Node.await value span).Like (.symbol .rightParen :: rest) := by
  refine .bind_here fun start => .bind_step hc fun c1 h1 => ?_
  refine (hv c1 _ .paren h1).bind fun v c2 hl h2 => .bind_spanFrom fun span => .ret h2 ?_
  simp only [Node.Like, Node.unplaced, hl]

lemma reads_climbExpr_of_operand {level : Precedence} (h : Reads c g.operand Q rest)
    (ht : (Precedence.ofToken (leading rest)).rank = 0) : Reads c (g.climbExpr level) Q rest := by
  obtain ⟨m, c', hr, hq, hc'⟩ := climbExpr_of_reads level h
  exact ⟨m, c', hr.trans (extendAbove_stop hc' ht (by omega)), hq, hc'⟩

lemma reads_binary {op : BinaryOp} {left right : Node} (hl : Climbs g .lowest left)
    (hlen : left.spelling.length < g.rounds) (hr : right.Opens) (hright : Takes (g.climb (.rightOf op)) .finish right)
    (hc : c.At (left.spelling ++ op.token :: (right.spelling ++ .symbol .rightParen :: rest))) :
    Reads c (g.climbExpr .lowest) (Node.binary op left right span).Like (.symbol .rightParen :: rest) := by
  obtain ⟨m, c1, k, hr1, hl1, h1, hk⟩ := hl c _ hc
  obtain - | k := k
  · omega
  have hrank : Precedence.lowest.rank < (Precedence.ofToken op.token).rank := by cases op <;> decide
  have hextend : Reads c1 (g.extend m) (Node.binary op left right span).Like (.symbol .rightParen :: rest) := by
    have hop : g.extend m c1 = g.binaryExpr op m c1 := by
      rw [extend, Reader.bind_apply, Reader.token, h1.token]
      cases op <;> rfl
    rw [Reads, hop]
    refine Reads.bind_step h1 fun c2 h2 => .bind_noNewlines h2 (hr.noNewline _) fun c3 h3 => ?_
    refine (hright c3 _ .paren h3).bind fun r c4 hl4 h4 => .bind_spanFrom fun span => .ret h4 ?_
    simp only [Node.Like, Node.unplaced, hl1, hl4]
  obtain ⟨m', c', hr2, hl2, h2⟩ := extendAbove_of_reads (k := k) h1 hrank hextend
  exact ⟨m', c', (hr1.trans hr2).trans (extendAbove_stop h2 rfl (by omega)), hl2, h2⟩

lemma takes_indexAssign {target index : Node} (ho : value.Opens)
    (hb : ∀ c rest, c.At ((Node.binary .index target index span).spelling ++ rest) →
      Reads c g.operand (Node.binary .index target index span).Like rest)
    (hv : Takes g.expr f value) : Takes g.assignable f (.indexAssign target index value span) := by
  intro c rest hf hc
  have hat : c.At ((Node.binary .index target index span).spelling ++ .symbol .assign :: (value.spelling ++ rest)) := by
    simpa [Node.spelling, BinaryOp.token] using hc
  refine (reads_climbExpr_of_operand (hb c _ hat) rfl).bind fun m c1 hl1 h1 => .ifSymbol h1 rfl ?_
  cases m with
  | binary op target' index' span' =>
    simp only [Node.Like, Node.unplaced, Node.binary.injEq] at hl1
    obtain ⟨rfl, ht, hi, -⟩ := hl1
    refine .bind_step h1 fun c2 h2 => .bind_noNewlines h2 (ho.noNewline rest) fun c3 h3 => ?_
    refine (hv c3 rest hf h3).bind fun v c4 hl4 h4 => .bind_spanFrom fun span => .ret h4 ?_
    simp only [Node.Like, Node.unplaced, ht, hi, hl4]
  | _ => simp [Node.Like, Node.unplaced] at hl1

lemma takes_return {value : Option Node} (hf : value = none → f ≠ .separator) (ho : ∀ v ∈ value, v.Opens)
    (hv : ∀ v ∈ value, Takes g.expr f v) :
    Takes g.returnStatement f (.return_ value span) := by
  intro c rest hh hc
  cases value with
  | none =>
    simp only [Node.spelling, cons_append, nil_append] at hc
    refine .bind_here fun start => .bind_step hc fun c1 h1 => .bind_token h1 ?_
    rw [if_pos ((Follow.allows_spec hh.first).2.2 (hf rfl)).2]
    exact .bind_spanFrom fun span => .ret h1 rfl
  | some value =>
    simp only [Node.spelling, cons_append] at hc
    refine .bind_here fun start => .bind_step hc fun c1 h1 => .bind_token h1 ?_
    have hends : endsReturn (leading (value.spelling ++ rest)) = false := by
      have hopens := (ho value rfl).leading rest
      cases ht : leading (value.spelling ++ rest) with
      | symbol s => rw [ht] at hopens; cases s <;> first | contradiction | rfl
      | keyword k => rw [ht] at hopens; cases k <;> first | contradiction | rfl
      | newline | eof => rw [ht] at hopens; contradiction
      | _ => rfl
    rw [hends]
    refine (hv value rfl c1 rest hh h1).bind fun v c2 hl h2 => .bind_spanFrom fun span => .ret h2 ?_
    simp only [Node.Like, Node.unplaced, unplacedOption, hl]

def isIdle : Token → Bool
  | .eof | .newline | .symbol .rightParen => true
  | t => endsBlock t

lemma isIdle_of_endsBlock {t : Token} (h : endsBlock t = true) : isIdle t = true := by
  unfold isIdle
  split
  · rfl
  · rfl
  · rfl
  · exact h

lemma anyExpr_fail (h : isIdle c.token = true ∨ c.token.isJump = true) : ∃ fault, g.anyExpr c = .fail fault c := by
  obtain ⟨hclimbs, fault, hoperand⟩ : climbs c.token = true ∧ ∃ fault, g.operand c = .fail fault c := by
    obtain ⟨behind, ⟨t, span, a⟩, ahead⟩ := c
    change isIdle t = true ∨ t.isJump = true at h
    cases t with
    | keyword k => cases k <;> first | exact ⟨rfl, _, rfl⟩ | (rcases h with h | h <;> contradiction)
    | symbol s => cases s <;> first | (rcases h with h | h <;> contradiction) | exact ⟨rfl, _, rfl⟩
    | eof | newline => exact ⟨rfl, _, rfl⟩
    | _ => rcases h with h | h <;> contradiction
  refine ⟨fault, ?_⟩
  rw [anyExpr_eq_assignable hclimbs, assignable, Reader.bind_apply, climbExpr, Reader.bind_apply, hoperand]

lemma anyStatement_eq_anyExpr (h : c.token.isJump = false) : g.anyStatement c = g.anyExpr c := by
  obtain ⟨behind, ⟨t, span, a⟩, ahead⟩ := c
  change t.isJump = false at h
  cases t with
  | keyword k => cases k <;> first | contradiction | rfl
  | _ => rfl

lemma attempt_anyStatement (h : isIdle c.token = true) : ∃ fault, Reader.attempt g.anyStatement c = .ok
    (.error fault) c := by
  have hjump : c.token.isJump = false := by
    cases ht : c.token with
    | keyword k => rw [ht] at h; cases k <;> first | contradiction | rfl
    | _ => rfl
  obtain ⟨fault, hfail⟩ := anyExpr_fail (g := g) (.inl h)
  refine ⟨fault, ?_⟩
  rw [Reader.attempt, anyStatement_eq_anyExpr hjump, hfail]
  exact if_pos rfl

def lineTail (statements : List Node) : List Token := statements.flatMap fun s => .newline :: s.spelling

lemma reads_statementLoop {statements : List Node} {first : Bool} {rounds : Nat} (hr : statements.length < rounds)
    (ho : ∀ s ∈ statements, s.Opens) (hs : ∀ s ∈ statements.dropLast, Takes g.anyStatement .finish s)
    (hlast : ∀ s ∈ statements.getLast?, Takes g.anyStatement f s) (hf : statements ≠ [] → f.Holds rest)
    (hstop : isIdle (leading (pastLines rest)) = true) (hc : c.At (lineTail statements ++ rest)) :
    Reads c (g.statementLoop first rounds) (fun list => Forall₂ Node.Like statements list.statements)
      (pastLines rest) := by
  induction statements generalizing c first rounds with
  | nil =>
    obtain - | rounds := rounds
    · contradiction
    refine .bind_skipNewlines hc fun c1 n h1 hn => ?_
    obtain ⟨fault, hattempt⟩ := attempt_anyStatement (g := g) (h1.token ▸ hstop)
    split
    · exact .ret h1 .nil
    · exact ⟨⟨[], some fault⟩, c1, by rw [Reader.bind_apply, hattempt]; rfl, .nil, h1⟩
  | cons s statements ih =>
    obtain - | rounds := rounds
    · contradiction
    have hopen := ho s (by simp)
    have hat : c.At (.newline :: (s.spelling ++ (lineTail statements ++ rest))) := by simpa [lineTail] using hc
    refine .bind_skipNewlines hat fun c1 n h1 hn => ?_
    rw [pastLines_newline, pastLines_of_leading (hopen.noNewline _)] at h1
    have hn0 : n ≠ 0 := fun h => by simpa [Token.isNewline] using hn.1 h
    rw [if_neg (by simp [hn0])]
    have hread : Reads c1 g.anyStatement s.Like (lineTail statements ++ rest) := by
      cases statements with
      | nil => exact hlast s rfl c1 _ (hf (by simp)) h1
      | cons t statements =>
        have hnext := Token.opens_spec ((ho t (by simp)).leading (lineTail statements ++ rest))
        refine hs s (by simp) c1 _ ?_ h1
        simpa [lineTail] using Follow.Holds.line hnext.1 hnext.2.1
    refine hread.attempt.bind ?_
    rintro _ c2 ⟨m, rfl, hl⟩ h2
    refine (ih (Nat.lt_of_succ_lt_succ hr) (fun t ht => ho t (by simp [ht])) (fun t ht => hs t ?_)
      (fun t ht => hlast t ?_) (fun _ => hf (by simp)) h2).bind fun list c3 hl3 h3 => .ret h3 (.cons hl hl3)
    · cases statements with
      | nil => simp at ht
      | cons u statements => exact mem_cons_of_mem _ ht
    · cases statements with
      | nil => simp at ht
      | cons u statements => exact ht

end Productions

end ScriptMachine
