import ScriptMachine.Proofs.Scanning
import ScriptMachine.Proofs.Turns

/-! The layout leaves the spelling of a tree as it is: no name in it lacks its `let`, no operator is joined to an
equals sign, and line breaks stand alone and outside of brackets. -/

namespace ScriptMachine

open List

variable {f : Follow}

inductive Pause where
  | line
  | clause
  | name
  | operator
  | plain
deriving DecidableEq

namespace Pause

def after (p : Pause) : Token → Pause
  | .newline => line
  | .keyword .do_ | .keyword .else_ | .symbol .arrow => clause
  | .ident _ => if p = line ∨ p = clause then name else plain
  | .symbol s => if s.augmentable then operator else plain
  | _ => plain

def Fits : Pause → List Lexeme → Prop
  | line, _ => True
  | clause, program => ∃ l before, program = l :: before ∧ l.token.isNewline = false
  | name, program | operator, program => ∃ l before, program = l :: before ∧ l.token.endsStatement = false
  | plain, program =>
    (∃ l before, program = l :: before ∧ l.token.endsStatement = false) ∧ insertLet program = program

end Pause

def settleToken (p : Pause) (due : List Symbol) : Token → Option (List Symbol)
  | .newline => if due = [] ∧ p ≠ .line then some due else none
  | .symbol .assign => if p = .plain then some due else none
  | .symbol s =>
    match s.closer? with
    | some closer => some (closer :: due)
    | none => if s.isCloser then (if due.head? = some s then some due.tail else none) else some due
  | _ => some due

def settle (p : Pause) (due : List Symbol) : List Token → Option (Pause × List Symbol)
  | [] => some (p, due)
  | t :: ts => (settleToken p due t).bind fun due => settle (p.after t) due ts

lemma settle_append (p : Pause) (due : List Symbol) (ts us : List Token) :
    settle p due (ts ++ us) = (settle p due ts).bind fun s => settle s.1 s.2 us := by
  induction ts generalizing p due with
  | nil => rfl
  | cons t ts ih =>
    rw [cons_append, settle, settle]
    cases settleToken p due t with
    | none => rfl
    | some due => exact ih _ _

namespace Pause

lemma Fits.newline {p : Pause} {program : List Lexeme} (h : p.Fits program) (hp : p ≠ line) :
    program.head?.any (·.token.isNewline) = false := by
  have hne : ∀ t : Token, t.endsStatement = false → t.isNewline = false := by
    intro t ht
    cases t with
    | newline => simp [Token.endsStatement] at ht
    | _ => rfl
  cases p with
  | line => exact absurd rfl hp
  | clause =>
    obtain ⟨l, before, rfl, hl⟩ := h
    simp [hl]
  | name | operator =>
    obtain ⟨l, before, rfl, hl⟩ := h
    simp [hne _ hl]
  | plain =>
    obtain ⟨⟨l, before, rfl, hl⟩, -⟩ := h
    simp [hne _ hl]

lemma Fits.after {p : Pause} {program : List Lexeme} (h : p.Fits program) (l : Lexeme) :
    (p.after l.token).Fits (l :: program) := by
  obtain ⟨t, span, a⟩ := l
  cases t with
  | newline => trivial
  | int value | float value | str value | eof => exact ⟨⟨_, _, rfl, rfl⟩, rfl⟩
  | keyword k => cases k <;> first | exact ⟨_, _, rfl, rfl⟩ | exact ⟨⟨_, _, rfl, rfl⟩, rfl⟩
  | symbol s => cases s <;> first | exact ⟨_, _, rfl, rfl⟩ | exact ⟨⟨_, _, rfl, rfl⟩, rfl⟩
  | ident name =>
    have hkept : ∀ l before, l.token.endsStatement = false →
        Fits plain (⟨.ident name, span, a⟩ :: l :: before) := fun l before hl =>
      ⟨⟨_, _, rfl, rfl⟩, by simp [insertLet, hl]⟩
    cases p with
    | line | clause => exact ⟨_, _, rfl, rfl⟩
    | name | operator =>
      obtain ⟨l, before, rfl, hl⟩ := h
      exact hkept l before hl
    | plain =>
      obtain ⟨⟨l, before, rfl, hl⟩, -⟩ := h
      exact hkept l before hl

end Pause

lemma settleToken_symbol {s : Symbol} (hs : s ≠ .assign) (p : Pause) (due : List Symbol) :
    settleToken p due (.symbol s) = match s.closer? with
      | some closer => some (closer :: due)
      | none => if s.isCloser then (if due.head? = some s then some due.tail else none) else some due := by
  cases s with
  | assign => exact absurd rfl hs
  | _ => rfl

lemma settle_operator {due : List Symbol} {ts : List Token} {q : Pause × List Symbol}
    (h : settle .operator due ts = some q) : ∀ t ∈ ts.head?, t.isSymbol .assign = false := by
  intro t ht
  cases ts with
  | nil => simp at ht
  | cons u ts =>
    obtain rfl : u = t := by simpa using ht
    by_contra hc
    have hu : u = .symbol .assign := by
      cases u with
      | symbol s => simpa [Token.isSymbol] using hc
      | _ => simp [Token.isSymbol] at hc
    simp [hu, settle, settleToken] at h

theorem Layout.arranges_of_settle (y : Layout) (brackets : List OpenBracket) {ls : List Lexeme} {p q : Pause}
    {program : List Lexeme} (hp : p.Fits program)
    (h : settle p (brackets.map OpenBracket.closer) (ls.map Lexeme.token) = some (q, [])) :
    y.Arranges program brackets ls (ls.reverse ++ program, .ok []) := by
  induction ls generalizing p program brackets with
  | nil =>
    obtain ⟨-, rfl⟩ : p = q ∧ brackets = [] := by simpa [settle] using h
    exact .done
  | cons l ls ih =>
    rw [map_cons, settle, Option.bind_eq_some_iff] at h
    obtain ⟨due, hdue, hrest⟩ := h
    have hfits := hp.after l
    have hnext : ∀ brackets', brackets'.map OpenBracket.closer = due →
        y.Arranges (l :: program) brackets' ls ((l :: ls).reverse ++ program, .ok []) := by
      intro brackets' hb
      rw [reverse_cons, append_assoc, singleton_append]
      exact ih _ hfits (hb ▸ hrest)
    cases ht : l.token with
    | newline =>
      rw [ht, settleToken] at hdue
      split at hdue
      · rename_i hd
        obtain rfl : brackets = [] := by simpa using hd.1
        exact .keepBreak ht (hp.newline hd.2) (hnext [] (by simpa using hdue))
      · contradiction
    | symbol s =>
      rw [ht] at hdue
      by_cases hs : s = .assign
      · subst hs
        rw [settleToken] at hdue
        split at hdue
        · rename_i hplain
          subst hplain
          have hlet : y.withLet program = program := by
            rw [withLet]
            split
            · exact hp.2
            · rfl
          exact .assign ht (hlet.symm ▸ hnext brackets (by simpa using hdue))
        · contradiction
      · rw [settleToken_symbol hs] at hdue
        cases hc : s.closer? with
        | some closer => exact .open_ ht hc (hnext _ (by simpa [hc] using hdue))
        | none =>
          by_cases hd : s.isCloser = true
          · simp only [hc, hd, if_true] at hdue
            split at hdue
            · rename_i hhead
              obtain ⟨b, bs, rfl, hb⟩ : ∃ b bs, brackets = b :: bs ∧ b.closer = s := by
                cases brackets with
                | nil => simp at hhead
                | cons b bs => exact ⟨b, bs, rfl, by simpa using hhead⟩
              exact .close ht hd hb (hnext bs (by simpa using hdue))
            · contradiction
          · refine .keep (isPlain_of_symbol hs ht hc hd) (fun e he haug hassign => ?_)
              (hnext brackets (by simpa [hc, hd] using hdue))
            have hq : p.after l.token = .operator := by
              rw [ht] at haug ⊢
              cases s <;> simp_all [Token.augmentable, Symbol.augmentable, Pause.after]
            have hne := settle_operator (hq ▸ hrest) e.token (by simpa using ⟨e, he, rfl⟩)
            simp [hne] at hassign
    | ident name | int value | float value | str value | keyword k | eof =>
      refine .keep (by rw [ht]; rfl) (fun e _ haug => ?_) (hnext brackets (by simpa [ht, settleToken] using hdue))
      simp [ht, Token.augmentable] at haug

def Token.isInert : Token → Bool
  | .newline => false
  | .symbol s => s != .assign && s.closer?.isNone && !s.isCloser
  | _ => true

lemma settleToken_of_isInert {t : Token} (h : t.isInert = true) (p : Pause) (due : List Symbol) :
    settleToken p due t = some due := by
  cases t with
  | newline => contradiction
  | symbol s => cases s <;> first | contradiction | rfl
  | _ => rfl

def Settles (inside : Bool) (ts : List Token) : Prop :=
  ∀ p due, due.isEmpty = !inside → ∃ q, q ≠ Pause.line ∧ settle p due ts = some (q, due)

namespace Settles

variable {o c : Symbol} {tss : List (List Token)} {b : Bool} {ts us : List Token}

lemma append (ht : Settles b ts) (hu : Settles b us) : Settles b (ts ++ us) := by
  intro p due hd
  obtain ⟨q, -, hq⟩ := ht p due hd
  obtain ⟨r, hr, hs⟩ := hu q due hd
  exact ⟨r, hr, by rw [settle_append, hq]; exact hs⟩

lemma line (ht : Settles false ts) (hu : Settles false us) : Settles false (ts ++ .newline :: us) := by
  intro p due hd
  obtain ⟨q, hne, hq⟩ := ht p due hd
  obtain ⟨r, hr, hs⟩ := hu .line due hd
  have hnil : due = [] := by simpa using hd
  refine ⟨r, hr, ?_⟩
  rw [settle_append, hq]
  simp only [Option.bind_some, settle, settleToken, hnil, hne, ne_eq, not_false_eq_true, and_self, if_true]
  exact hnil ▸ hs

lemma cons {t : Token} (ht : t.isInert = true) (hu : Settles b us) : Settles b (t :: us) := by
  intro p due hd
  obtain ⟨q, hq, hs⟩ := hu (p.after t) due hd
  exact ⟨q, hq, by rw [settle, settleToken_of_isInert ht]; exact hs⟩

lemma bare {t : Token} (ht : t.isInert = true) : Settles b [t] := by
  intro p due _
  refine ⟨p.after t, ?_, by rw [settle, settleToken_of_isInert ht]; rfl⟩
  cases t with
  | newline => contradiction
  | ident name => rw [Pause.after]; split <;> simp
  | symbol s => cases s <;> simp [Pause.after, Symbol.augmentable]
  | keyword k => cases k <;> simp [Pause.after]
  | _ => simp [Pause.after]

lemma settle_brackets (hc : o.closer? = some c) (h : ts = [] ∨ Settles true ts) (p : Pause) (due : List Symbol) :
    settle p due (.symbol o :: (ts ++ [.symbol c])) = some (.plain, due) := by
  obtain ⟨q, hq⟩ : ∃ q, settle .plain (c :: due) ts = some (q, c :: due) := by
    rcases h with rfl | h
    · exact ⟨_, rfl⟩
    · obtain ⟨q, -, hq⟩ := h .plain (c :: due) rfl
      exact ⟨q, hq⟩
  have hopen : settleToken p due (.symbol o) = some (c :: due) ∧ p.after (.symbol o) = .plain := by
    cases o <;> first | contradiction | (rw [settleToken_symbol (by decide), hc]; exact ⟨rfl, rfl⟩)
  have hclose : settleToken q (c :: due) (.symbol c) = some due ∧ q.after (.symbol c) = .plain := by
    cases o <;> first | contradiction | (cases hc; exact ⟨by simp [settleToken, Symbol.closer?, Symbol.isCloser], rfl⟩)
  rw [settle, hopen.1, hopen.2, Option.bind_some, settle_append, hq]
  simp [settle, hclose]

lemma brackets (hc : o.closer? = some c) (h : ts = [] ∨ Settles true ts) :
    Settles b (.symbol o :: (ts ++ [.symbol c])) :=
  fun p due _ => ⟨.plain, by decide, settle_brackets hc h p due⟩

lemma bracketsAssign (hc : o.closer? = some c) (h : Settles true ts) (hu : Settles b us) :
    Settles b (.symbol o :: (ts ++ [.symbol c]) ++ .symbol .assign :: us) := by
  intro p due hd
  obtain ⟨q, hq, hs⟩ := hu .plain due hd
  exact ⟨q, hq, by rw [settle_append, settle_brackets hc (.inr h)]; exact hs⟩

lemma joined {t : Token} (ht : t.isInert = true) (h : ∀ ts ∈ tss, Settles b ts) (hne : tss ≠ []) :
    Settles b (joined t tss) := by
  induction tss with
  | nil => contradiction
  | cons ts tss ih =>
    have hts := h ts (by simp)
    cases tss with
    | nil => exact hts
    | cons us tss =>
      exact hts.append (cons ht (ih (fun us hus => h us (by simp [hus])) (by simp)))

lemma items (hc : o.closer? = some c) (h : ∀ ts ∈ tss, Settles true ts) :
    Settles b (.symbol o :: (ScriptMachine.joined (.symbol .comma) tss ++ [.symbol c])) := by
  refine brackets hc ?_
  by_cases hne : tss = []
  · exact .inl (by rw [hne]; rfl)
  · exact .inr (joined rfl h hne)

lemma names {names : List String} (hne : names ≠ []) : Settles b (nameSpelling names) := by
  refine joined rfl (fun ts hts => ?_) (by simpa using hne)
  obtain ⟨name, -, rfl⟩ := mem_map.1 hts
  exact bare rfl

lemma binding {k : Keyword} (hk : ∀ p : Pause, p.after (.keyword k) = .plain) (names : List String)
    (hu : Settles b us) : Settles b (.keyword k :: (nameSpelling names ++ .symbol .assign :: us)) := by
  have hnames : ∀ due, settle .plain due (nameSpelling names) = some (.plain, due) := by
    intro due
    induction names with
    | nil => rfl
    | cons name names ih =>
      cases names with
      | nil => rfl
      | cons other names => exact ih
  intro p due hd
  obtain ⟨q, hq, hs⟩ := hu .plain due hd
  refine ⟨q, hq, ?_⟩
  rw [settle, settleToken_of_isInert rfl, Option.bind_some, hk, settle_append, hnames]
  exact hs

lemma bodyLines {body : Node} (ht : body.isEmptyBlock = false → Settles false ts) (hu : Settles false us) :
    Settles false (bodyLinesSpelling body ts ++ us) := by
  unfold bodyLinesSpelling
  split
  · exact hu
  · rename_i hb
    rw [append_assoc]
    exact (ht (by simpa using hb)).line hu

lemma body {body : Node} {multiline : Bool} (hb : multiline = true → b = false) (hu : Settles b us)
    (ht : (multiline = true → body.isEmptyBlock = false) → Settles b ts) :
    Settles b (us ++ bodySpelling body ts multiline) := by
  cases multiline with
  | true =>
    obtain rfl := hb rfl
    exact hu.line (bodyLines (fun h => ht fun _ => h) (bare rfl))
  | false => exact hu.append (ht (by simp))

section cases_

variable {cases_ : List (Node × Node)} (hc : ∀ c ∈ cases_, Settles b c.1.spelling)
include hc

lemma caseLines (hb : ∀ c ∈ cases_, c.2.isEmptyBlock = false → Settles b c.2.spelling) (hf : b = false)
    (hu : Settles b us) (k : Keyword) : Settles b (caseLinesSpelling k cases_ ++ us) := by
  subst hf
  induction cases_ generalizing k with
  | nil => exact hu
  | cons c cases_ ih =>
    have hrest := ih .elif (fun d hd => hc d (by simp [hd])) fun d hd => hb d (by simp [hd])
    have hhead : Settles false (.keyword k :: (c.1.spelling ++ [.keyword .do_])) :=
      cons rfl ((hc c (by simp)).append (bare rfl))
    simpa [caseLinesSpelling] using hhead.line (bodyLines (hb c (by simp)) hrest)

lemma cases (hb : ∀ c ∈ cases_, Settles b c.2.spelling) (hne : cases_ ≠ []) (k : Keyword) :
    Settles b (caseSpelling k cases_) := by
  induction cases_ generalizing k with
  | nil => contradiction
  | cons c cases_ ih =>
    have hhead : Settles b (.keyword k :: (c.1.spelling ++ .keyword .do_ :: c.2.spelling)) :=
      cons rfl ((hc c (by simp)).append (cons rfl (hb c (by simp))))
    by_cases hnil : cases_ = []
    · simpa [caseSpelling, hnil] using hhead
    · have hrest := ih (fun d hd => hc d (by simp [hd])) (fun d hd => hb d (by simp [hd])) hnil .elif
      simpa [caseSpelling] using hhead.append hrest

end cases_

lemma decorators {decorators : List Node} (hd : ∀ d ∈ decorators, Settles b d.spelling)
    (hb : decorators ≠ [] → b = false) (hu : Settles b us) : Settles b (decoratorSpelling decorators ++ us) := by
  induction decorators with
  | nil => exact hu
  | cons d decorators ih =>
    obtain rfl := hb (by simp)
    have hrest := ih (fun e he => hd e (by simp [he])) fun _ => rfl
    have hhead : Settles false (.symbol .at_ :: d.spelling) := cons rfl (hd d (by simp))
    simpa [decoratorSpelling] using hhead.line hrest

lemma statements {statements : List Node} (h : ∀ s ∈ statements, Settles false s.spelling) (hu : Settles false us) :
    Settles false (statementSpelling statements ++ us) := by
  induction statements with
  | nil => exact hu
  | cons s statements ih =>
    simpa [statementSpelling] using (h s (by simp)).line (ih fun t ht => h t (by simp [ht]))

lemma lines {statements : List Node} (h : ∀ s ∈ statements, Settles false s.spelling) (hne : statements ≠ []) :
    Settles false (ScriptMachine.joined .newline (nodeSpellings statements)) := by
  induction statements with
  | nil => contradiction
  | cons s statements ih =>
    have hs := h s (by simp)
    cases statements with
    | nil => exact hs
    | cons t statements => exact hs.line (ih (fun u hu => h u (by simp [hu])) (by simp))

lemma arg {a : Arg} (h : Settles b a.value.spelling) : Settles b a.spelling := by
  cases a with
  | positional value => exact h
  | keyword name value => exact binding (fun _ => rfl) [name] h
  | spread value | spreadKeywords value => exact cons rfl h

lemma param {p : Param} (h : ∀ d ∈ p.default?, Settles b d.spelling) : Settles b p.spelling := by
  cases p with
  | required name => exact bare rfl
  | optional name value => exact binding (fun _ => rfl) [name] (h value rfl)
  | rest name | keywords name => exact cons rfl (bare rfl)

lemma function {name : Option String} {params : List Param} {body : Node} {autoReturn isAsync : Bool}
    {decorators : List Node} {span : Span} (hv : ∀ p ∈ params, ∀ d ∈ p.default?, Settles true d.spelling)
    (hb : decorators ≠ [] → b = false) (hd : ∀ d ∈ decorators, Settles b d.spelling)
    (ht : ∀ us, Settles b us → Settles b (us ++
      if autoReturn then .symbol .arrow :: body.spelling else bodySpelling body body.spelling true)) :
    Settles b (Node.function name params body autoReturn isAsync decorators span).spelling := by
  have hparams : Settles b (.symbol .leftParen :: (ScriptMachine.joined (.symbol .comma) (paramSpellings params) ++
      [.symbol .rightParen])) := by
    refine items rfl fun ts hts => ?_
    rw [paramSpellings_eq_map] at hts
    obtain ⟨p, hp, rfl⟩ := mem_map.1 hts
    exact param (hv p hp)
  have htail := ht _ hparams
  rw [cons_append, append_assoc, singleton_append] at htail
  unfold Node.spelling
  refine Settles.decorators hd hb ?_
  cases isAsync with
  | true => cases name with
    | none => exact cons rfl (cons rfl htail)
    | some name => exact cons rfl (cons rfl (cons rfl htail))
  | false => cases name with
    | none => exact cons rfl htail
    | some name => exact cons rfl (cons rfl htail)

end Settles

lemma Legible.outside {m b : Bool} {n : Node} (h : Legible (.body m) b f n) (hm : m = true) : b = false := by
  cases h with
  | inline => contradiction
  | emptyBlock | block => rfl

theorem Legible.settles {r : Role} {b : Bool} {n : Node} (h : Legible r b f n)
    (hr : r = .body true → n.isEmptyBlock = false) : Settles b n.spelling := by
  induction h with
  | int | float | str | ident | continue_ | break_ | returnNone => exact .bare rfl
  | list h ih =>
    refine .items rfl fun ts hts => ?_
    rw [nodeSpellings_eq_map] at hts
    obtain ⟨e, he, rfl⟩ := mem_map.1 hts
    exact ih e he (by simp)
  | map hk hv ihk ihv =>
    refine .items rfl fun ts hts => ?_
    rw [entrySpellings_eq_map] at hts
    obtain ⟨e, he, rfl⟩ := mem_map.1 hts
    exact (ihk e he (by simp)).append (.cons rfl (ihv e he (by simp)))
  | @binary b f op left right span hl hr ihl ihr =>
    have hop : op.token.isInert = true := by cases op <;> rfl
    have ht := (ihl (by simp)).append (.cons hop (ihr (by simp)))
    simpa [Node.spelling] using Settles.brackets (o := .leftParen) (b := b) rfl (.inr ht)
  | @unary b f op operand span ho ih =>
    have hop : op.token.isInert = true := by cases op <;> rfl
    exact .brackets rfl (.inr (.cons hop (ih (by simp))))
  | @await b f value span hv ih =>
    have ht := Settles.cons (t := .keyword .await) rfl (ih (by simp))
    simpa [Node.spelling] using Settles.brackets (o := .leftParen) (b := b) rfl (.inr ht)
  | call hc ha hv ihc ihv =>
    refine (ihc (by simp)).append (.items rfl fun ts hts => ?_)
    rw [argSpellings_eq_map] at hts
    obtain ⟨a, ham, rfl⟩ := mem_map.1 hts
    exact .arg (ihv a ham (by simp))
  | member ho hn ih => exact (ih (by simp)).append (.cons rfl (.bare rfl))
  | closed _ _ ih | operand _ ih | expr _ ih | statement _ ih | inline _ ih => exact ih (by simp)
  | assign hn hv ih => exact .binding (fun _ => rfl) [_] (ih (by simp))
  | multiAssign hl hn hv ih => exact .binding (fun _ => rfl) _ (ih (by simp))
  | alias_ hn hm => exact .cons rfl (.cons rfl (.cons rfl (.bare rfl)))
  | load hk => exact .cons rfl (.bare rfl)
  | del hf hne hn => exact .cons rfl (.names hne)
  | @using_ _ _ _ parent _ hf hne hn =>
    cases parent with
    | true => exact .cons rfl (.cons rfl (.names hne))
    | false => exact .cons rfl (.names hne)
  | @branchElse b _ _ last multiline _ hne hc hb hl ihc ihb ihl =>
    have hcs := fun c hcm => ihc c hcm (by simp)
    cases multiline with
    | true =>
      obtain rfl := hl.outside rfl
      have helse := (Settles.bare (t := .keyword .else_) rfl).line
        (.bodyLines (fun h => ihl fun _ => h) (.bare (t := .keyword .done) rfl))
      exact .caseLines hcs (fun c hcm h => ihb c hcm fun _ => h) rfl helse .if_
    | false =>
      exact (Settles.cases hcs (fun c hcm => ihb c hcm (by simp)) hne .if_).append (.cons rfl (ihl (by simp)))
  | @branchOpen b _ cases_ condition body multiline _ hf hc hb hcond hbody ihc ihb ihcond ihbody =>
    have hcs : ∀ c ∈ cases_ ++ [(condition, body)], Settles b c.1.spelling := by
      intro c hcm
      rcases mem_append.1 hcm with hcm | hcm
      · exact ihc c hcm (by simp)
      · obtain rfl := mem_singleton.1 hcm
        exact ihcond (by simp)
    have hbs : ∀ c ∈ cases_ ++ [(condition, body)], (multiline = true → c.2.isEmptyBlock = false) →
        Settles b c.2.spelling := by
      intro c hcm hm
      rcases mem_append.1 hcm with hcm | hcm
      · exact ihb c hcm (by simpa using hm)
      · obtain rfl := mem_singleton.1 hcm
        exact ihbody (by simpa using hm)
    cases multiline with
    | true => exact .caseLines hcs (fun c hcm h => hbs c hcm fun _ => h) (hbody.outside rfl) (.bare rfl) .if_
    | false => exact .cases hcs (fun c hcm => hbs c hcm (by simp)) (by simp) .if_
  | @forRange _ _ var _ _ step body multiline _ hv hstart hstop hstep hbody ihstart ihstop ihstep ihbody =>
    have hb := fun ts (hts : Settles _ ts) => hts.body hbody.outside fun h => ihbody (by simpa using h)
    have hrange := (ihstart (by simp)).append (.cons (t := .keyword .to_) rfl (ihstop (by simp)))
    cases step with
    | none =>
      have hh := hrange.append (.bare (t := .keyword .do_) rfl)
      simpa [Node.spelling, nameSpelling, joined] using
        Settles.binding (k := .for_) (fun _ => rfl) [var] (hb _ hh)
    | some step =>
      have hh := hrange.append (.cons (t := .keyword .step) rfl
        ((ihstep step rfl (by simp)).append (.bare (t := .keyword .do_) rfl)))
      simpa [Node.spelling, nameSpelling, joined] using
        Settles.binding (k := .for_) (fun _ => rfl) [var] (hb _ hh)
  | forIn hne hn hi hbody ihi ihbody =>
    have hhead := Settles.cons (t := .keyword .for_) rfl ((Settles.names hne).append
      (.cons (t := .keyword .in_) rfl ((ihi (by simp)).append (.bare (t := .keyword .do_) rfl))))
    simpa [Node.spelling] using hhead.body hbody.outside fun h => ihbody (by simpa using h)
  | while_ hc hbody ihc ihbody =>
    have hhead := Settles.cons (t := .keyword .while_) rfl ((ihc (by simp)).append (.bare (t := .keyword .do_) rfl))
    simpa [Node.spelling] using hhead.body hbody.outside fun h => ihbody (by simpa using h)
  | arrow hn hp hfit hv hd hds hb ihv ihds ihb =>
    refine .function (fun p hpm d hdm => ihv p hpm d hdm (by simp)) hd (fun d hdm => ihds d hdm (by simp)) ?_
    exact fun us hus => hus.append (.cons rfl (ihb (by simp)))
  | function hn hp hfit hv hd hds hb ihv ihds ihb =>
    refine .function (fun p hpm d hdm => ihv p hpm d hdm (by simp)) hd (fun d hdm => ihds d hdm (by simp)) ?_
    exact fun us hus => hus.body hb.outside fun h => ihb (by simpa using h)
  | @namespace_ f name body span hn hb ih =>
    have hhead := Settles.cons (b := false) (t := .keyword .namespace_) rfl (.bare (t := .ident name) rfl)
    exact hhead.line (.statements (fun s hs => ih s hs (by simp)) (.bare rfl))
  | @indexAssign b _ _ _ _ _ ht hi hv iht ihi ihv =>
    have hh := (iht (by simp)).append (.cons (t := .symbol .dollar) rfl (ihi (by simp)))
    simpa [Node.spelling] using hh.bracketsAssign (o := .leftParen) rfl (ihv (by simp))
  | return_ hv ih => exact .cons rfl (ih (by simp))
  | emptyBlock => exact absurd (hr rfl) (by simp [Node.isEmptyBlock])
  | @block _ statements last _ hs hl ihs ihl =>
    refine .lines (fun s hsm => ?_) (by simp)
    rcases mem_append.1 hsm with hsm | hsm
    · exact ihs s hsm (by simp)
    · obtain rfl := mem_singleton.1 hsm
      exact ihl (by simp)

def Lexeme.Spells (l : Lexeme) (t : Token) : Prop := l.token = t ∧ l.augmented = false

lemma scanFrom_augmented (offset : Nat) (cs : List Char) : ∀ l ∈ (scanFrom offset cs).1, l.augmented = false := by
  induction h : cs.length using Nat.strong_induction_on generalizing cs offset with
  | _ n ih =>
    cases cs with
    | nil => simp [scanFrom]
    | cons c cs =>
      have hlt : (cs.drop (Piece.read c cs).2).length < n := by
        simp only [length_drop, length_cons] at h ⊢
        omega
      rw [scanFrom]
      cases hp : (Piece.read c cs).1 with
      | gap => exact ih _ hlt _ _ rfl
      | token t =>
        intro l hl
        rcases mem_cons.1 hl with rfl | hl
        · rfl
        · exact ih _ hlt _ _ rfl l hl
      | fault cause => simp

theorem tokenize_of_settle {text : String} {ts : List Token} {q : Pause} (hs : scanTokens text.toList = some ts)
    (h : settle .line [] ts = some (q, [])) :
    ∃ ls, tokenize text = ⟨ls, none⟩ ∧ Forall₂ Lexeme.Spells ls (ts ++ [.eof]) := by
  rw [scanTokens] at hs
  split at hs
  · rename_i lexemes hscan
    have hts : lexemes.map Lexeme.token = ts := by simpa using hs
    have hplain := scanFrom_augmented 0 text.toList
    rw [hscan] at hplain
    have hfits : Pause.line.Fits [] := trivial
    have harranged := ((Layout.ofText true text.toList).arranges_of_settle [] hfits (hts ▸ h)).eq
    obtain ⟨fault, hends, htokens⟩ := tokenizeChars_eq true text.toList
    simp only [hscan, harranged] at hends htokens
    cases hends
    refine ⟨lexemes ++ [⟨.eof, .point (byteSize text.toList), false⟩], ?_, ?_⟩
    · simpa [tokenize, stopAt] using htokens
    · refine rel_append ?_ (.cons ⟨rfl, rfl⟩ .nil)
      rw [← hts, forall₂_map_right_iff]
      exact forall₂_same.mpr fun l hl => ⟨rfl, hplain l hl⟩
  · contradiction

end ScriptMachine
