import ScriptMachine.Proofs.Readable

/-! Printing a program and reading it again gives the same program, wherever the text of each part can be
read back where it stands. -/

namespace ScriptMachine

open List

open Productions

variable {statements : List Node} {ts : List Token} {c : Cursor}

lemma joined_newline (s : Node) (statements : List Node) :
    joined .newline (nodeSpellings (s :: statements)) = s.spelling ++ lineTail statements := by
  induction statements generalizing s with
  | nil => simp [nodeSpellings, joined, lineTail]
  | cons t statements ih =>
    have h : joined .newline (nodeSpellings (s :: t :: statements)) =
        s.spelling ++ .newline :: joined .newline (nodeSpellings (t :: statements)) := rfl
    rw [h, ih]
    rfl

lemma holds_end : Follow.finish.Holds [] := ⟨rfl, fun _ => rfl⟩

lemma reads_program {Q : Node → Prop} (ht : (leading (ts ++ lineTail statements)).isNewline = false)
    (hc : c.At (ts ++ lineTail statements))
    (hfirst : ∀ c1 : Cursor, c1.At (ts ++ lineTail statements) →
      Reads c1 (tower (c.left + 1)).anyStatement Q (lineTail statements))
    (hcount : statements.length ≤ c.left) (ho : ∀ s ∈ statements, s.Opens)
    (hs : ∀ s ∈ statements, Takes (tower (c.left + 1)).anyStatement .finish s) :
    Reads c (tower (c.left + 2)).statements
      (fun list => ∃ n ns, list.statements = n :: ns ∧ Q n ∧ Forall₂ Node.Like statements ns) [] := by
  change Reads c ((tower (c.left + 1)).statementLoop true ((tower (c.left + 1)).rounds + 2)) _ _
  rw [rounds_tower]
  refine .bind_noNewlines hc ht fun c1 h1 => ?_
  rw [if_neg (by simp)]
  refine (hfirst c1 h1).attempt.bind ?_
  rintro _ c2 ⟨m, rfl, hm⟩ h2
  have hread : Reads c2 ((tower (c.left + 1)).statementLoop false (c.left + 2)) _ (pastLines []) :=
    reads_statementLoop (by omega) ho (fun t ht => hs t (dropLast_subset _ ht))
      (fun t ht => hs t (mem_of_getLast? ht)) (fun _ => holds_end) rfl (by simpa using h2)
  exact hread.bind fun list c3 hlist h3 => .ret h3 ⟨m, _, rfl, hm, hlist⟩

lemma reads_statements (hl : ∀ s ∈ statements, Legible .statement false .finish s)
    (hc : c.At (joined .newline (nodeSpellings statements))) :
    Reads c (tower (c.left + 2)).statements (fun list => Forall₂ Node.Like statements list.statements) [] := by
  have hheight := hc.left
  have ho : ∀ s ∈ statements, s.Opens := fun s hs => (hl s hs).isOpen (by simp)
  have hcount : statements.length ≤ c.left := by
    rw [hheight, nodeSpellings_eq_map]
    exact length_le_joined _ fun s hs => (ho s hs).ne_nil
  have htakes : ∀ s ∈ statements, Takes (tower (c.left + 1)).anyStatement .finish s := by
    intro s hs
    refine (hl s hs).readable _ ?_
    rw [hheight, nodeSpellings_eq_map]
    exact (length_le_of_mem _ _ hs).trans (Nat.le_succ _)
  cases statements with
  | nil =>
    change Reads c ((tower (c.left + 1)).statementLoop true ((tower (c.left + 1)).rounds + 2)) _ _
    exact reads_statementLoop (by simp) (by simp) (by simp) (by simp) (fun _ => holds_end) rfl hc
  | cons s statements =>
    rw [joined_newline] at hc
    have hfollow : Follow.finish.Holds (lineTail statements) := by
      cases statements with
      | nil => exact holds_end
      | cons t statements =>
        have hnext := Token.opens_spec ((ho t (by simp)).leading (lineTail statements))
        simpa [lineTail] using Follow.Holds.line hnext.1 hnext.2.1
    refine (reads_program ((ho s (by simp)).noNewline _) hc (fun c1 h1 => htakes s (by simp) c1 _ hfollow h1)
      (by simp at hcount; omega) (fun t ht => ho t (by simp [ht])) fun t ht => htakes t (by simp [ht])).weaken ?_
    rintro list ⟨n, ns, hlist, hn, hns⟩
    rw [hlist]
    exact .cons hn hns

lemma ofLexemes_of_spells {l : Lexeme} {rest : List Lexeme}
    (h : Forall₂ Lexeme.Spells (l :: rest) (ts ++ [.eof])) : Cursor.ofLexemes (l :: rest) = ⟨none, l, rest⟩ := by
  have hlast : ∀ (ls : List Lexeme), Forall₂ Lexeme.Spells ls (ts ++ [.eof]) →
      ∃ before e, ls = before ++ [e] ∧ e.token = .eof := by
    clear h
    induction ts with
    | nil =>
      intro ls h
      cases h with
      | cons he h =>
        cases h
        exact ⟨[], _, rfl, he.1⟩
    | cons t ts ih =>
      intro ls h
      cases h with
      | cons _ h =>
        obtain ⟨before, e, rfl, he⟩ := ih _ h
        exact ⟨_ :: before, e, rfl, he⟩
  obtain ⟨before, ⟨t, span, a⟩, hls, rfl⟩ := hlast _ h
  rw [Cursor.ofLexemes, hls, getLast?_concat, ← hls]

lemma parseModule_of_reads {text : String} {Q : List Node → Prop} {q : Pause} (hscan : scanTokens text.toList = some ts)
    (hsettle : settle .line [] ts = some (q, []))
    (hread : ∀ c : Cursor, c.At ts → Reads c (tower (c.left + 2)).statements (fun list => Q list.statements) []) :
    ∃ m, parseModule text = .ok m ∧ Q m.statements := by
  obtain ⟨lexemes, htokens, hspells⟩ := tokenize_of_settle hscan hsettle
  obtain - | ⟨l, rest⟩ := lexemes
  · simp at hspells
  obtain ⟨list, after, hr, hlist, hafter⟩ := hread ⟨none, l, rest⟩ hspells
  have heof : after.skipNewlines.1.token = .eof := hafter.skipNewlines.1.token
  refine ⟨⟨list.statements, after.skipNewlines.1.spanFrom l.span⟩, ?_, hlist⟩
  rw [parseModule, htokens]
  simp only [parseLexemes, ofLexemes_of_spells hspells, hr, heof, Token.isEof, if_true]
  rfl

theorem parseModule_text {span : Span} (hl : ∀ s ∈ statements, Legible .statement false .finish s) :
    ∃ m, parseModule (Module.text ⟨statements, span⟩) = .ok m ∧
      unplacedNodes m.statements = unplacedNodes statements := by
  have hscan : scanTokens (Module.text ⟨statements, span⟩).toList =
    some (joined .newline (nodeSpellings statements)) := by
    have h := Scans.lines (fun s hs => (hl s hs).scans) [] rfl
    simpa [Module.text, scanTokens, scanFrom] using h
  obtain ⟨q, hsettle⟩ : ∃ q, settle .line [] (joined .newline (nodeSpellings statements)) = some (q, []) := by
    by_cases hne : statements = []
    · exact ⟨.line, by rw [hne]; rfl⟩
    · obtain ⟨q, -, hq⟩ := Settles.lines (fun s hs => (hl s hs).settles (by simp)) hne .line [] rfl
      exact ⟨q, hq⟩
  obtain ⟨m, hm, hlike⟩ := parseModule_of_reads hscan hsettle fun c hc => reads_statements hl hc
  exact ⟨m, hm, unplacedNodes_of_like hlike⟩

namespace Arg

def isNamed : Arg → Bool
  | keyword name _ => isName name
  | _ => true

end Arg

inductive Stratum where
  | expression
  | statement
  | block
deriving DecidableEq

/-- The language in strata: expressions hold expressions only, statements hold expressions and blocks, and every
`if`, `for` and `while` is written over several lines. -/
inductive Stratified : Stratum → Node → Prop where
  | int {value span} : value < Number.wordBound → Stratified .expression (.int value span)
  | str {value span} : Stratified .expression (.str value span)
  | ident {name span} : isName name → Stratified .expression (.ident name span)
  | list {elements span} : (∀ e ∈ elements, Stratified .expression e) → Stratified .expression (.list elements span)
  | map {entries span} : (∀ e ∈ entries, Stratified .expression e.1) → (∀ e ∈ entries, Stratified .expression e.2) →
      Stratified .expression (.map entries span)
  | binary {op left right span} : Stratified .expression left → Stratified .expression right →
      Stratified .expression (.binary op left right span)
  | unary {op operand span} : Stratified .expression operand → Stratified .expression (.unary op operand span)
  | member {object name span} : Stratified .expression object → isName name →
      Stratified .expression (.member object name span)
  | await {value span} : Stratified .expression value → Stratified .expression (.await value span)
  | call {callee args span} : Stratified .expression callee → (∀ a ∈ args, a.isNamed) →
      (∀ a ∈ args, Stratified .expression a.value) → Stratified .expression (.call callee args span)
  | expression {n} : Stratified .expression n → Stratified .statement n
  | assign {name value span} : isName name → Stratified .expression value →
      Stratified .statement (.assign name value span)
  | multiAssign {names value span} : 2 ≤ names.length → (∀ name ∈ names, isName name) → Stratified .expression value →
      Stratified .statement (.multiAssign names value span)
  | alias_ {name newName span} : isName name → isName newName → Stratified .statement (.alias_ name newName span)
  | del {names span} : names ≠ [] → (∀ name ∈ names, isName name) → Stratified .statement (.del names span)
  | using_ {names parent span} : names ≠ [] → (∀ name ∈ names, isName name) →
      Stratified .statement (.using_ names parent span)
  | indexAssign {target index value span} : Stratified .expression target → Stratified .expression index →
      Stratified .expression value → Stratified .statement (.indexAssign target index value span)
  | return_ {value span} : (∀ v ∈ value, Stratified .expression v) → Stratified .statement (.return_ value span)
  | break_ {span} : Stratified .statement (.break_ span)
  | continue_ {span} : Stratified .statement (.continue_ span)
  | load {path kind span} : loadKind? path = some kind → Stratified .statement (.load path kind span)
  | namespace_ {name body span} : isName name → (∀ s ∈ body, Stratified .statement s) →
      Stratified .statement (.namespace_ name body span)
  | branch {cases_ last span} : cases_ ≠ [] → (∀ c ∈ cases_, Stratified .expression c.1) →
      (∀ c ∈ cases_, Stratified .block c.2) → (∀ b ∈ last, Stratified .block b) →
      Stratified .statement (.branch cases_ last true span)
  | forRange {var start stop step body span} : isName var → Stratified .expression start →
      Stratified .expression stop → (∀ s ∈ step, Stratified .expression s) → Stratified .block body →
      Stratified .statement (.forRange var start stop step body true span)
  | forIn {vars iterable body span} : vars ≠ [] → (∀ name ∈ vars, isName name) → Stratified .expression iterable →
      Stratified .block body → Stratified .statement (.forIn vars iterable body true span)
  | while_ {condition body span} : Stratified .expression condition → Stratified .block body →
      Stratified .statement (.while_ condition body true span)
  | function {name params body autoReturn isAsync decorators span} : (∀ n ∈ name, isName n) →
      (∀ p ∈ params, isName p.name) → paramsFit params →
      (∀ p ∈ params, ∀ d ∈ p.default?, Stratified .expression d) → (∀ d ∈ decorators, Stratified .expression d) →
      Stratified (if autoReturn then .expression else .block) body →
      Stratified .statement (.function name params body autoReturn isAsync decorators span)
  | block {statements span} : (∀ s ∈ statements, Stratified .statement s) → Stratified .block (.block statements span)

namespace Stratified

variable {n : Node}

lemma isLet (h : Stratified .expression n) : n.isLet = false := by
  cases h <;> rfl

def Placed : Stratum → Node → Prop
  | .expression, n => ∀ b f, Legible .primary b f n
  | .statement, n => ∀ f ≠ Follow.separator, Legible .statement false f n
  | .block, n => ∀ f ≠ Follow.separator, Legible (.body true) false f n

lemma Placed.expr (h : Placed .expression n) (b : Bool) (f : Follow) : Legible .expr b f n :=
  .expr (.operand (h b f))

lemma placed {t : Stratum} (h : Stratified t n) : Placed t n := by
  induction h with
  | int h => exact fun _ _ => .int h
  | str => exact fun _ _ => .str
  | ident h => exact fun _ _ => .ident h
  | list _ ih => exact fun _ _ => .list fun e he => (ih e he).expr ..
  | map _ _ ihk ihv => exact fun _ _ => .map (fun e he => (ihk e he).expr ..) fun e he => (ihv e he).expr ..
  | binary _ _ ihl ihr => exact fun _ _ => .binary (ihl ..) (.operand (ihr ..))
  | unary _ ih => exact fun _ _ => .unary (.operand (ih ..))
  | member _ hn ih => exact fun b f => .member (ih b f) hn
  | await _ ih => exact fun _ _ => .await (.operand (ih ..))
  | call _ hn hv ihc ihv =>
    refine fun b f => .call (ihc b f) (fun a ha => ?_) fun a ha => (ihv a ha).expr ..
    cases a with
    | positional value => simpa [Arg.isProper, Arg.value] using (hv _ ha).isLet
    | keyword name value => exact hn _ ha
    | spread value | spreadKeywords value => rfl
  | expression _ ih => exact fun f _ => .statement (Placed.expr ih ..)
  | assign hn _ ih => exact fun f _ => .statement (.expr (.assign hn (Placed.expr ih ..)))
  | multiAssign hl hn _ ih => exact fun f _ => .statement (.expr (.multiAssign hl hn (Placed.expr ih ..)))
  | alias_ hn hm => exact fun f _ => .statement (.expr (.alias_ hn hm))
  | del hne hn => exact fun f hf => .statement (.expr (.del hf hne hn))
  | using_ hne hn => exact fun f hf => .statement (.expr (.using_ hf hne hn))
  | indexAssign _ _ _ iht ihi ihv =>
    exact fun f _ => .statement (.indexAssign (iht ..) (.operand (ihi ..)) (Placed.expr ihv ..))
  | @return_ value span _ ih =>
    intro f hf
    cases value with
    | none => exact .returnNone hf
    | some value => exact .return_ ((ih value rfl).expr ..)
  | break_ => exact fun _ _ => .break_
  | continue_ => exact fun _ _ => .continue_
  | load hk => exact fun f _ => .statement (.expr (.load hk))
  | namespace_ hn _ ih => exact fun f _ => .statement (.expr (.namespace_ hn fun s hs => ih s hs .finish (by simp)))
  | @branch cases_ last span hne _ _ _ ihc ihb ihl =>
    intro f hf
    cases last with
    | some last =>
      exact .statement (.expr (.branchElse hne (fun c hc => (ihc c hc).expr ..) (fun c hc => ihb c hc .clause (by simp))
        (ihl last rfl .finish (by simp))))
    | none =>
      obtain ⟨before, ⟨condition, body⟩, rfl⟩ := (eq_nil_or_concat' cases_).resolve_left hne
      refine .statement (.expr (.branchOpen (by simp) (fun c hc => (ihc c (by simp [hc])).expr ..)
        (fun c hc => ihb c (by simp [hc]) .clause (by simp)) ?_ ?_))
      · exact (ihc (condition, body) (by simp)).expr ..
      · exact ihb (condition, body) (by simp) .finish (by simp)
  | forRange hn _ _ _ _ ihstart ihstop ihstep ihbody =>
    exact fun f _ => .statement (.expr (.forRange hn (Placed.expr ihstart ..) (Placed.expr ihstop ..)
      (fun s hs => (ihstep s hs).expr ..) (ihbody .finish (by simp))))
  | forIn hne hn _ _ ihi ihbody =>
    exact fun f _ => .statement (.expr (.forIn hne hn (Placed.expr ihi ..) (ihbody .finish (by simp))))
  | while_ _ _ ihc ihbody =>
    exact fun f _ => .statement (.expr (.while_ (Placed.expr ihc ..) (ihbody .finish (by simp))))
  | @function name params body autoReturn isAsync decorators span hn hp hfit _ _ _ ihv ihd ihb =>
    intro f hf
    have hv : ∀ p ∈ params, ∀ d ∈ p.default?, Legible .expr true .separator d := fun p hpm d hd =>
      (ihv p hpm d hd).expr ..
    have hd : ∀ d ∈ decorators, Legible .operand false .finish d := fun d hd => .operand (ihd d hd ..)
    cases autoReturn with
    | true => exact .statement (.expr (.arrow hn hp hfit hv (fun _ => rfl) hd (Placed.expr ihb ..)))
    | false => exact .statement (.expr (.function hn hp hfit hv (fun _ => rfl) hd (ihb .finish (by simp))))
  | @block statements span _ ih =>
    intro f hf
    rcases eq_nil_or_concat' statements with rfl | ⟨before, last, rfl⟩
    · exact .emptyBlock
    · exact .block (fun s hs => ih s (by simp [hs]) .finish (by simp)) (ih last (by simp) f hf)

end Stratified

/-- The parser inverts the printer on the whole stratified language. -/
theorem parse_print_stratified (statements : List Node) (span : Span)
    (h : ∀ s ∈ statements, Stratified .statement s) :
    ∃ m, parseModule (Module.text ⟨statements, span⟩) = .ok m ∧
      unplacedNodes m.statements = unplacedNodes statements :=
  parseModule_text fun s hs => (h s hs).placed .finish (by simp)

/-- A decorated `async defun f(x, let y = (-1))` whose body holds an `if` with an empty `else`, and a namespace. -/
theorem parse_print_decorated_function :
    let p := Span.point 0
    let statements : List Node := [
      .function (some "f") [.required "x", .optional "y" (.unary .minus (.int 1 p) p)]
        (.block [.branch [(.binary .lt (.ident "x" p) (.ident "y" p) p, .block [.return_ (some (.str "\"\n" p)) p] p)]
          (some (.block [] p)) true p] p)
        false true [.call (.member (.ident "d" p) "e" p) [.keyword "k" (.list [] p)] p] p,
      .namespace_ "n" [.del ["x", "y"] p] p]
    (∀ s ∈ statements, Stratified .statement s) ∧ ∃ m, parseModule (Module.text ⟨statements, p⟩) = .ok m ∧
      unplacedNodes m.statements = unplacedNodes statements := by
  intro p statements
  have hx : isName "x" := by decide
  have hy : isName "y" := by decide
  have hbranch : Stratified .statement (.branch [(.binary .lt (.ident "x" p) (.ident "y" p) p,
      .block [.return_ (some (.str "\"\n" p)) p] p)] (some (.block [] p)) true p) := by
    refine .branch (by simp) ?_ ?_ ?_
    · simpa using .binary (.ident hx) (.ident hy)
    · simpa using .block (by simpa using .return_ (by simpa using .str))
    · simpa using .block (by simp)
  have hdecorator : Stratified .expression
      (.call (.member (.ident "d" p) "e" p) [.keyword "k" (.list [] p)] p) := by
    refine .call (.member (.ident (by decide)) (by decide)) (by decide) ?_
    simpa [Arg.value] using .list (by simp)
  have hall : ∀ s ∈ statements, Stratified .statement s := by
    simp only [statements, forall_mem_cons, not_mem_nil, false_imp_iff, implies_true, and_true]
    refine ⟨.function (by decide) (by decide) (by decide) ?_ (by simpa using hdecorator) ?_, .namespace_ (by decide) ?_⟩
    · simpa [Param.default?] using .unary (.int (by decide))
    · exact .block (by simpa using hbranch)
    · simpa using .del (by simp) (by simp [hx, hy])
  exact ⟨hall, parse_print_stratified statements p hall⟩

lemma any_isLet_of_unplaced {nodes nodes' : List Node} (h : unplacedNodes nodes = unplacedNodes nodes') :
    nodes.any Node.isLet = nodes'.any Node.isLet := by
  have hlet : ∀ n : Node, n.unplaced.isLet = n.isLet := fun n => by cases n <;> rfl
  have hany : ∀ ns : List Node, (unplacedNodes ns).any Node.isLet = ns.any Node.isLet := by
    intro ns
    rw [unplacedNodes_eq_map, any_map]
    exact congrArg ns.any (funext hlet)
  rw [← hany, h, hany]

/-- Wherever the text of each part can be read back where it stands, a program is printed and read as itself, and is
printed in the same way again. -/
theorem print_read_print (m : Module) (h : ∀ s ∈ m.statements, Legible .statement false .finish s) :
    ∃ m', parseModule m.text = .ok m' ∧ unplacedNodes m'.statements = unplacedNodes m.statements ∧
    m'.text = m.text := by
  obtain ⟨m', hm', hsame⟩ := parseModule_text h
  refine ⟨m', hm', hsame, ?_⟩
  rw [Module.text, Module.text, ← (nodeTexts_unplaced m'.statements).1, hsame, (nodeTexts_unplaced m.statements).1]

/-- A list that holds `if a do 1 else let b = 2`. -/
theorem print_read_print_branch :
    let p := Span.point 0
    let m : Module := ⟨[.list [.branch [(.ident "a" p, .int 1 p)] (some (.assign "b" (.int 2 p) p)) false p] p], p⟩
    (∀ s ∈ m.statements, Legible .statement false .finish s) ∧ ∃ m', parseModule m.text = .ok m' ∧
      unplacedNodes m'.statements = unplacedNodes m.statements ∧ m'.text = m.text := by
  intro p m
  have hcondition : Legible .expr true .separator (.ident "a" p) := .expr (.operand (.ident (by decide)))
  have hone : Legible .statement true .clause (.int 1 p) := .statement (.expr (.operand (.int (by decide))))
  have hlast : Legible .expr true .separator (.assign "b" (.int 2 p) p) :=
    .expr (.assign (by decide) (.expr (.operand (.int (by decide)))))
  have hall : ∀ s ∈ m.statements, Legible .statement false .finish s := by
    refine forall_mem_singleton.2 (.statement (.expr (.operand (.list (forall_mem_singleton.2 (.expr ?_))))))
    exact .branchElse (by simp) (forall_mem_singleton.2 hcondition) (forall_mem_singleton.2 (.inline hone))
      (.inline (.statement hlast))
  exact ⟨hall, print_read_print m hall⟩

/-- An assignment on the left of an operator is printed without parentheses, and then takes the operation
for its value. -/
theorem print_let_operand_read_otherwise :
    ∃ m m', parseModule "(let x = 1) + 2" = .ok m ∧ parseModule m.text = .ok m' ∧
      unplacedNodes m'.statements ≠ unplacedNodes m.statements := by
  have hread : (match parseModule "(let x = 1) + 2" with
      | .error _ => false
      | .ok m =>
        match parseModule m.text with
        | .error _ => false
        | .ok m' => !m.statements.any Node.isLet && m'.statements.any Node.isLet) = true := by
    decide +kernel
  split at hread
  · contradiction
  · rename_i m hm
    split at hread
    · contradiction
    · rename_i m' hm'
      rw [Bool.and_eq_true, Bool.not_eq_true'] at hread
      refine ⟨m, m', hm, hm', fun hsame => ?_⟩
      rw [← any_isLet_of_unplaced hsame, hread.2] at hread
      simp at hread

end ScriptMachine
