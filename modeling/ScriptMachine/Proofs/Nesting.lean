import ScriptMachine.Proofs.Tiling

/-! Brackets match, or the fault says which one does not. -/

namespace ScriptMachine

open List

inductive Nested : List Symbol → Prop
  | nil : Nested []
  | pair {o c inner rest} : o.closer? = some c → Nested inner → Nested rest → Nested (o :: inner ++ c :: rest)

def dueStep (due : List Symbol) (s : Symbol) : Option (List Symbol) :=
  match s.closer? with
  | some closer => some (closer :: due)
  | none => if due.head? = some s then some due.tail else none

def dueAfter (due : List Symbol) : List Symbol → Option (List Symbol)
  | [] => some due
  | s :: word => (dueStep due s).bind fun due => dueAfter due word

section words

variable {due due' more word rest : List Symbol} {s closer : Symbol}

lemma closer?_of_closes {o c : Symbol} (h : o.closer? = some c) : c.closer? = none := by
  cases o <;> simp_all [Symbol.closer?] <;> subst h <;> rfl

lemma dueAfter_open (h : s.closer? = some closer) : dueAfter due (s :: word) = dueAfter (closer :: due) word := by
  simp [dueAfter, dueStep, h]

lemma dueAfter_close (h : s.closer? = none) : dueAfter (s :: due) (s :: word) = dueAfter due word := by
  simp [dueAfter, dueStep, h]

lemma dueAfter_refuse (h : s.closer? = none) (hdue : due.head? ≠ some s) : dueAfter due (s :: word) = none := by
  simp [dueAfter, dueStep, h, hdue]

lemma dueAfter_append : dueAfter due (word ++ rest) = (dueAfter due word).bind fun due => dueAfter due rest := by
  induction word generalizing due with
  | nil => rfl
  | cons s word ih =>
    rw [cons_append, dueAfter, dueAfter, Option.bind_assoc]
    exact congrArg _ (funext fun due => ih)

lemma dueAfter_eq_some_cons (hs : s.closer? = none) (h : dueAfter due (s :: word) = some due') :
    ∃ before, due = s :: before ∧ dueAfter before word = some due' := by
  cases due with
  | nil => simp [dueAfter, dueStep, hs] at h
  | cons closer due =>
    by_cases hc : closer = s
    · subst hc
      exact ⟨due, rfl, by rwa [dueAfter_close hs] at h⟩
    · simp [dueAfter, dueStep, hs, hc] at h

lemma dueAfter_frame (h : dueAfter due word = some due') : dueAfter (due ++ more) word = some (due' ++ more) := by
  induction word generalizing due with
  | nil =>
    obtain rfl : due = due' := by simpa [dueAfter] using h
    rfl
  | cons s word ih =>
    cases hs : s.closer? with
    | some closer =>
      rw [dueAfter_open hs] at h ⊢
      exact ih h
    | none =>
      obtain ⟨before, rfl, hrest⟩ := dueAfter_eq_some_cons hs h
      rw [cons_append, dueAfter_close hs]
      exact ih hrest

lemma Nested.due_eq (h : Nested word) : dueAfter due word = some due := by
  induction h generalizing due with
  | nil => rfl
  | pair ho _ _ ihi ihr =>
    rw [cons_append, dueAfter_open ho, dueAfter_append, ihi, Option.bind_some, dueAfter_close (closer?_of_closes ho)]
    exact ihr

lemma split_of_dueAfter (h : dueAfter (closer :: due) word = some []) :
    ∃ inner rest, word = inner ++ closer :: rest ∧ Nested inner ∧ dueAfter due rest = some [] := by
  induction hn : word.length using Nat.strong_induction_on generalizing word closer due with
  | _ n ih =>
    cases word with
    | nil => simp [dueAfter] at h
    | cons s word =>
      cases hs : s.closer? with
      | none =>
        obtain ⟨before, hdue, hrest⟩ := dueAfter_eq_some_cons hs h
        cases hdue
        exact ⟨[], word, rfl, .nil, hrest⟩
      | some partner =>
        rw [dueAfter_open hs] at h
        obtain ⟨inner, rest, rfl, hinner, hrest⟩ := ih _ (by rw [← hn, length_cons]; omega) h rfl
        obtain ⟨inner', rest', rfl, hinner', hrest'⟩ :=
          ih _ (by rw [← hn, length_cons, length_append, length_cons]; omega) hrest rfl
        exact ⟨s :: inner ++ partner :: inner', rest', by simp, .pair hs hinner hinner', hrest'⟩

lemma nested_of_dueAfter (h : dueAfter [] word = some []) : Nested word := by
  induction hn : word.length using Nat.strong_induction_on generalizing word with
  | _ n ih =>
    cases word with
    | nil => exact .nil
    | cons s word =>
      cases hs : s.closer? with
      | none =>
        obtain ⟨before, hdue, -⟩ := dueAfter_eq_some_cons hs h
        contradiction
      | some partner =>
        rw [dueAfter_open hs] at h
        obtain ⟨inner, rest, rfl, hinner, hrest⟩ := split_of_dueAfter h
        refine .pair hs hinner (ih _ ?_ hrest rfl)
        rw [← hn, length_cons, length_append, length_cons]
        omega

end words

def Token.bracket? : Token → Option Symbol
  | .symbol s => if s.closer?.isSome || s.isCloser then some s else none
  | _ => none

def bracketsOf (lexemes : List Lexeme) : List Symbol := lexemes.filterMap (·.token.bracket?)

def closersOf (lexemes : List Lexeme) : List Symbol := lexemes.filterMap (·.token.closer?)

namespace Token

variable {t : Token} {closer : Symbol}

lemma symbol_of_closer? (h : t.closer? = some closer) : ∃ s, t = .symbol s ∧ s.closer? = some closer := by
  cases t with
  | symbol s => exact ⟨s, rfl, h⟩
  | _ => simp [Token.closer?] at h

lemma bracket?_of_other (h : t.closer? = none ∧ t.isCloser = false) : t.bracket? = none := by
  cases t with
  | symbol s =>
    obtain ⟨ho, hc⟩ : s.closer? = none ∧ s.isCloser = false := h
    simp [bracket?, ho, hc]
  | _ => rfl

end Token

section lexemes

variable {l : Lexeme} {before lexemes : List Lexeme} {s closer : Symbol}

lemma closersOf_cons (h : l.token.closer? = some closer) : closersOf (l :: lexemes) = closer :: closersOf lexemes :=
  filterMap_cons_some h

lemma bracketsOf_cons (l : Lexeme) (lexemes : List Lexeme) :
    bracketsOf (l :: lexemes) = l.token.bracket?.toList ++ bracketsOf lexemes := by
  rw [bracketsOf, filterMap_cons]
  cases l.token.bracket? <;> rfl

lemma bracketsOf_append (front rest : List Lexeme) : bracketsOf (front ++ rest) = bracketsOf front ++ bracketsOf rest :=
  filterMap_append

lemma bracketsOf_other (h : l.token.closer? = none ∧ l.token.isCloser = false) :
    bracketsOf (l :: lexemes) = bracketsOf lexemes := filterMap_cons_none (Token.bracket?_of_other h)

lemma bracketsOf_open (hl : l.token = .symbol s) (h : s.closer? = some closer) :
    bracketsOf (l :: lexemes) = s :: bracketsOf lexemes := filterMap_cons_some (by simp [hl, Token.bracket?, h])

lemma bracketsOf_close (hl : l.token = .symbol s) (h : s.isCloser = true) :
    bracketsOf (l :: lexemes) = s :: bracketsOf lexemes := filterMap_cons_some (by simp [hl, Token.bracket?, h])

end lexemes

inductive Disciplined : List Lexeme → Prop
  | nil : Disciplined []
  | newline {l before} : Disciplined before → l.token = .newline → openBrackets before = [] →
      before.head?.any (·.token.isNewline) = false → Disciplined (l :: before)
  | close {l s before b opened} : Disciplined before → l.token = .symbol s → s.isCloser = true →
      openBrackets before = b :: opened → b.token.closer? = some s → Disciplined (l :: before)
  | other {l before} : Disciplined before → l.token ≠ .newline → l.token.isCloser = false → Disciplined (l :: before)

namespace Disciplined

variable {lexemes after : List Lexeme} {l : Lexeme} {before program : List Lexeme}

lemma tail (h : Disciplined (l :: before)) : Disciplined before := by
  cases h with
  | newline h | close h | other h => exact h

lemma of_append {later : List Lexeme} (h : Disciplined (later ++ before)) : Disciplined before := by
  induction later with
  | nil => exact h
  | cons l later ih => exact ih h.tail

lemma due_eq (h : Disciplined program) :
    dueAfter [] (bracketsOf program.reverse) = some (closersOf (openBrackets program)) := by
  induction h with
  | nil => rfl
  | @newline l before _ hl hopen _ ih =>
    have ho : l.token.closer? = none ∧ l.token.isCloser = false := by rw [hl]; exact ⟨rfl, rfl⟩
    rw [reverse_cons, bracketsOf_append, bracketsOf_other ho, openBrackets_other _ ho]
    simpa [bracketsOf] using ih
  | @close l s before b opened _ hl hs hopen hb ih =>
    have hcloser : l.token.isCloser = true := by rw [hl]; exact hs
    rw [reverse_cons, bracketsOf_append, bracketsOf_close hl hs, openBrackets_close _ hcloser, dueAfter_append, ih,
      hopen, closersOf_cons hb, Option.bind_some]
    exact dueAfter_close (Symbol.closer?_of_isCloser hs)
  | @other l before _ _ hs ih =>
    rw [reverse_cons, bracketsOf_append, dueAfter_append, ih, Option.bind_some]
    cases hc : l.token.closer? with
    | none =>
      rw [bracketsOf_other ⟨hc, hs⟩, openBrackets_other _ ⟨hc, hs⟩]
      rfl
    | some closer =>
      obtain ⟨s, hl, hcloser⟩ := Token.symbol_of_closer? hc
      rw [bracketsOf_open hl hcloser, openBrackets_open _ hc, closersOf_cons hc]
      exact dueAfter_open hcloser

lemma nested (h : Disciplined program) (hopen : openBrackets program = []) : Nested (bracketsOf program.reverse) := by
  have hdue := h.due_eq
  rw [hopen] at hdue
  exact nested_of_dueAfter hdue

lemma withLet (h : Disciplined program) (y : Layout) : Disciplined (y.withLet program) := by
  obtain hsame | ⟨name, span, a, before, rfl, hput⟩ := y.withLet_cases program
  · rwa [hsame]
  · rw [hput]
    exact .other (.other h.tail (by simp) rfl) (by simp) rfl

lemma newline_inv (h : Disciplined (l :: before)) (hl : l.token = .newline) :
    openBrackets before = [] ∧ before.head?.any (·.token.isNewline) = false := by
  cases h with
  | newline _ _ hopen hhead => exact ⟨hopen, hhead⟩
  | close _ hs _ _ _ => simp [hl] at hs
  | other _ hne _ => exact absurd hl hne

lemma newline_not_mem {inside : List Lexeme} {o c : Lexeme} {closer : Symbol} (h : Disciplined lexemes.reverse)
    (hlexemes : lexemes = before ++ o :: inside ++ c :: after) (ho : o.token.closer? = some closer)
    (hinside : Nested (bracketsOf inside)) :
    ∀ l ∈ inside, l.token ≠ .newline := by
  intro l hl hnewline
  obtain ⟨first, second, rfl⟩ := append_of_mem hl
  subst hlexemes
  have hreverse : (before ++ o :: (first ++ l :: second) ++ c :: after).reverse =
      (after.reverse ++ c :: second.reverse) ++ l :: (before ++ o :: first).reverse := by simp
  rw [hreverse] at h
  obtain ⟨hopen, -⟩ := h.of_append.newline_inv hnewline
  obtain ⟨s, hs, hcloser⟩ := Token.symbol_of_closer? ho
  -- the bracket stays due through all of what it encloses, but at the line break none is due
  have hinner : dueAfter [] (bracketsOf first ++ bracketsOf (l :: second)) = some [] := by
    rw [← bracketsOf_append]
    exact hinside.due_eq
  rw [dueAfter_append] at hinner
  obtain ⟨due, hfirst, -⟩ := Option.bind_eq_some_iff.1 hinner
  have hdue := h.of_append.tail.due_eq
  rw [hopen, reverse_reverse, bracketsOf_append, bracketsOf_open hs hcloser, dueAfter_append] at hdue
  obtain ⟨outer, -, hrest⟩ := Option.bind_eq_some_iff.1 hdue
  have hframe : dueAfter (closer :: outer) (bracketsOf first) = some (due ++ closer :: outer) := dueAfter_frame hfirst
  rw [dueAfter_open hcloser, hframe] at hrest
  simp [closersOf] at hrest

lemma not_newline_newline {a b : Lexeme} (h : Disciplined lexemes.reverse)
    (hlexemes : lexemes = before ++ a :: b :: after) : ¬(a.token = .newline ∧ b.token = .newline) := by
  rintro ⟨ha, hb⟩
  subst hlexemes
  have hreverse : (before ++ a :: b :: after).reverse = after.reverse ++ b :: a :: before.reverse := by simp
  rw [hreverse] at h
  obtain ⟨-, hhead⟩ := h.of_append.newline_inv hb
  simp [ha, Token.isNewline] at hhead

end Disciplined

inductive Refused (y : Layout) (program : List Lexeme) (s : Symbol) (span : Span) : LexicalFault → Prop
  | unmatched : openBrackets program = [] → Refused y program s span ⟨.unmatchedCloser s, span⟩
  | mismatched {b opened closer line column} : openBrackets program = b :: opened → b.token.closer? = some closer →
      y.place b.span.start = (line, column) → closer ≠ s →
      Refused y program s span ⟨.mismatchedCloser closer s line column, span⟩

structure Layout.Opens (y : Layout) (b : OpenBracket) (l : Lexeme) : Prop extends b.Opened l where
  place : y.place l.span.start = (b.line, b.column)

def Layout.Conforms (y : Layout) (rest : List Lexeme) (r : Arranged) : Prop :=
  Disciplined r.1 ∧ match r.2 with
    | .ok brackets => Forall₂ y.Opens brackets (openBrackets r.1)
    | .error f => ∃ l ∈ rest, ∃ s, l.token = .symbol s ∧ s.isCloser = true ∧ Refused y r.1 s l.span f

lemma Layout.Conforms.cons {y : Layout} {rest : List Lexeme} {r : Arranged} (h : y.Conforms rest r) (l : Lexeme) :
    y.Conforms (l :: rest) r := by
  obtain ⟨program, outcome⟩ := r
  cases outcome with
  | ok brackets => exact h
  | error f =>
    obtain ⟨hp, m, hm, hrefused⟩ := h
    exact ⟨hp, m, mem_cons_of_mem l hm, hrefused⟩

namespace Layout.Arranges

variable {y : Layout} {program rest : List Lexeme} {brackets : List OpenBracket} {r : Arranged}

lemma conforms (h : Arranges y program brackets rest r) (hp : Disciplined program)
    (hb : Forall₂ y.Opens brackets (openBrackets program)) : y.Conforms rest r := by
  induction h with
  | done => exact ⟨hp, hb⟩
  | keepBreak hl hhead _ ih =>
    have hopen := forall₂_nil_left_iff.1 hb
    have ho := And.intro (congrArg Token.closer? hl) (congrArg Token.isCloser hl)
    exact (ih (.newline hp hl hopen hhead) (by rwa [openBrackets_other _ ho])).cons _
  | dropBreak _ _ _ ih => exact (ih hp hb).cons _
  | @assign program _ _ _ _ hl _ ih =>
    have ho := And.intro (congrArg Token.closer? hl) (congrArg Token.isCloser hl)
    refine (ih (.other (hp.withLet y) (by simp [hl]) ho.2) ?_).cons _
    rwa [openBrackets_other _ ho, openBrackets_withLet]
  | open_ hl hc _ ih =>
    have hcloser := (congrArg Token.closer? hl).trans hc
    refine (ih (.other hp (by simp [hl]) (Token.isCloser_of_closer? hcloser)) ?_).cons _
    rw [openBrackets_open _ hcloser]
    exact .cons ⟨⟨hcloser, rfl⟩, rfl⟩ hb
  | close hl hs hbs _ ih =>
    -- the brackets that the layout has open are those that the kept tokens have open
    obtain ⟨o, opened, hopens, hrest, hopen⟩ := forall₂_cons_left_iff.1 hb
    refine (ih (.close hp hl hs hopen (hopens.closer.trans (congrArg some hbs))) ?_).cons _
    rwa [openBrackets_close _ ((congrArg Token.isCloser hl).trans hs), hopen]
  | unmatched hl hs =>
    exact ⟨hp, _, mem_cons_self, _, hl, hs, .unmatched (forall₂_nil_left_iff.1 hb)⟩
  | mismatched hl hs hbs =>
    obtain ⟨o, opened, hopens, -, hopen⟩ := forall₂_cons_left_iff.1 hb
    exact ⟨hp, _, mem_cons_self, _, hl, hs, .mismatched hopen hopens.closer hopens.place hbs⟩
  | @join _ _ _ s _ _ _ _ _ hl haug he _ _ _ ih =>
    have ho := And.intro (congrArg Token.closer? he) (congrArg Token.isCloser he)
    have hop : (Token.symbol s).closer? = none ∧ (Token.symbol s).isCloser = false :=
      Token.bracket_of_isPlain (Token.isPlain_of_augmentable haug)
    refine ((ih (.other (.other (.other (hp.withLet y) (by simp [he]) ho.2) (by simp) rfl) (by simp) hop.2) ?_).cons
      _).cons _
    rwa [openBrackets_other _ hop, openBrackets_other _ ⟨rfl, rfl⟩, openBrackets_other _ ho, openBrackets_withLet]
  | keep hl _ _ ih =>
    obtain ⟨ho, hs⟩ := Token.bracket_of_isPlain hl
    refine (ih (.other hp ?_ hs) (by rwa [openBrackets_other _ ⟨ho, hs⟩])).cons _
    intro hnewline
    simp [hnewline, Token.isPlain] at hl

lemma due_eq (h : Arranges y program brackets rest r) :
    dueAfter (brackets.map OpenBracket.closer) (bracketsOf rest) = r.2.toOption.map (List.map OpenBracket.closer) := by
  induction h with
  | done => rfl
  | keepBreak hl _ _ ih | dropBreak hl _ _ ih | assign hl _ ih =>
    rw [bracketsOf_other ⟨congrArg Token.closer? hl, congrArg Token.isCloser hl⟩]
    exact ih
  | open_ hl hc _ ih =>
    rw [bracketsOf_open hl hc, dueAfter_open hc]
    exact ih
  | close hl hs hb _ ih =>
    rw [bracketsOf_close hl hs, map_cons, hb, dueAfter_close (Symbol.closer?_of_isCloser hs)]
    exact ih
  | unmatched hl hs =>
    rw [bracketsOf_close hl hs, dueAfter_refuse (Symbol.closer?_of_isCloser hs) (by simp)]
    rfl
  | mismatched hl hs hb =>
    rw [bracketsOf_close hl hs, dueAfter_refuse (Symbol.closer?_of_isCloser hs) (by simpa using hb)]
    rfl
  | join hl haug he _ _ _ ih =>
    have hop := Token.bracket_of_isPlain (Token.isPlain_of_augmentable haug)
    rw [← hl] at hop
    rw [bracketsOf_other hop, bracketsOf_other ⟨congrArg Token.closer? he, congrArg Token.isCloser he⟩]
    exact ih
  | keep hl _ _ ih =>
    rw [bracketsOf_other (Token.bracket_of_isPlain hl)]
    exact ih

lemma openBrackets_mem (h : Arranges y program brackets rest r) :
    ∀ b ∈ openBrackets r.1, b ∈ openBrackets program ∨ b ∈ rest := by
  induction h with
  | done | unmatched | mismatched => exact fun b hb => .inl hb
  | keepBreak hl _ _ ih =>
    rw [openBrackets_other _ ⟨congrArg Token.closer? hl, congrArg Token.isCloser hl⟩] at ih
    exact fun b hb => (ih b hb).imp_right (mem_cons_of_mem _)
  | dropBreak _ _ _ ih => exact fun b hb => (ih b hb).imp_right (mem_cons_of_mem _)
  | assign hl _ ih =>
    rw [openBrackets_other _ ⟨congrArg Token.closer? hl, congrArg Token.isCloser hl⟩, openBrackets_withLet] at ih
    exact fun b hb => (ih b hb).imp_right (mem_cons_of_mem _)
  | open_ hl hc _ ih =>
    rw [openBrackets_open _ ((congrArg Token.closer? hl).trans hc)] at ih
    intro b hb
    rcases ih b hb with hopen | hrest
    · exact (mem_cons.1 hopen).symm.imp_right fun (h : b = _) => h ▸ mem_cons_self
    · exact .inr (mem_cons_of_mem _ hrest)
  | close hl hs _ _ ih =>
    rw [openBrackets_close _ ((congrArg Token.isCloser hl).trans hs)] at ih
    exact fun b hb => (ih b hb).imp mem_of_mem_tail (mem_cons_of_mem _)
  | join hl haug he _ _ _ ih =>
    rw [openBrackets_other _ (Token.bracket_of_isPlain (Token.isPlain_of_augmentable haug)),
      openBrackets_other _ ⟨rfl, rfl⟩, openBrackets_other _ ⟨congrArg Token.closer? he, congrArg Token.isCloser he⟩,
      openBrackets_withLet] at ih
    exact fun b hb => (ih b hb).imp_right fun h => mem_cons_of_mem _ (mem_cons_of_mem _ h)
  | keep hl _ _ ih =>
    rw [openBrackets_other _ (Token.bracket_of_isPlain hl)] at ih
    exact fun b hb => (ih b hb).imp_right (mem_cons_of_mem _)

end Layout.Arranges

def bracketChar? : Char → Option Symbol
  | '(' => some .leftParen
  | ')' => some .rightParen
  | '[' => some .leftSquare
  | ']' => some .rightSquare
  | '\x7b' => some .leftBrace
  | '\x7d' => some .rightBrace
  | _ => none

def bracketsOutside : List Char → List Symbol
  | [] => []
  | c :: cs =>
    if c = '#' then bracketsOutside (cs.dropWhile (· ≠ '\n'))
    else if c = '"' ∨ c = '\'' then bracketsOutside (cs.drop (Piece.readString c cs).2)
    else match bracketChar? c with
      | some s => s :: bracketsOutside cs
      | none => bracketsOutside cs
termination_by cs => cs.length
decreasing_by
  · exact Nat.lt_succ_of_le (dropWhile_sublist _).length_le
  · simp only [length_drop, length_cons]
    omega
  · simp
  · simp

def isNeutral (c : Char) : Bool := c ∉ ['#', '"', '\'', '(', ')', '[', ']', '\x7b', '\x7d']

section outside

variable {c : Char} {u rest : List Char}

lemma bracketChar?_of_isNeutral (h : isNeutral c = true) : bracketChar? c = none := by
  unfold bracketChar?
  split
  all_goals first | rfl | exact absurd h (by decide)

lemma bracketsOutside_neutral (h : ∀ c ∈ u, isNeutral c = true) :
    bracketsOutside (u ++ rest) = bracketsOutside rest := by
  induction u with
  | nil => rfl
  | cons c u ih =>
    obtain ⟨hc, hu⟩ := forall_mem_cons.1 h
    have hnone := bracketChar?_of_isNeutral hc
    simp only [isNeutral, mem_cons, not_or, decide_eq_true_eq] at hc
    rw [cons_append, bracketsOutside, if_neg hc.1, if_neg (by simp [hc]), hnone]
    exact ih hu

lemma isNeutral_of_isNameChar (h : Piece.isNameChar c = true) : isNeutral c = true := by
  by_contra hc
  simp only [isNeutral, decide_eq_true_eq, not_not, mem_cons, not_mem_nil, or_false] at hc
  rcases hc with rfl | rfl | rfl | rfl | rfl | rfl | rfl | rfl | rfl <;> exact absurd h (by decide)

lemma isNeutral_of_isDigit (h : c.isDigit = true) : isNeutral c = true :=
  isNeutral_of_isNameChar (by simp [Piece.isNameChar, Char.isAlphanum, h])

lemma isNeutral_of_isName {name : String} (h : isName name = true) : ∀ c ∈ name.toList, isNeutral c = true := by
  unfold isName at h
  split at h
  · contradiction
  · rename_i c cs hname
    simp only [Bool.and_eq_true, all_eq_true] at h
    rw [hname]
    refine forall_mem_cons.2 ⟨isNeutral_of_isNameChar ?_, fun d hd => isNeutral_of_isNameChar (h.1.2 d hd)⟩
    have hstart := h.1.1
    simp only [Piece.isNameStart, Bool.or_eq_true] at hstart
    simpa [Piece.isNameChar, Char.isAlphanum] using hstart.imp_left .inl

lemma bracketsOutside_symbol (s : Symbol) :
    bracketsOutside (s.text.toList ++ rest) = (Token.symbol s).bracket?.toList ++ bracketsOutside rest := by
  by_cases hs : s.closer?.isSome || s.isCloser
  · cases s <;> simp [Symbol.closer?, Symbol.isCloser] at hs
    all_goals
      rw [Symbol.text]
      simp [bracketsOutside, bracketChar?, Token.bracket?, Symbol.closer?, Symbol.isCloser]
  · have hneutral : ∀ c ∈ s.text.toList, isNeutral c = true := by
      cases s <;> first | simp [Symbol.text, isNeutral]; done | simp [Symbol.closer?, Symbol.isCloser] at hs
    rw [bracketsOutside_neutral hneutral, Token.bracket?, if_neg hs]
    rfl

lemma bracketsOutside_writtenAs {t : Token} (h : t.WrittenAs u) (hs : ∀ content, t ≠ .str content) :
    bracketsOutside (u ++ rest) = t.bracket?.toList ++ bracketsOutside rest := by
  cases t with
  | ident name =>
    obtain ⟨hname, rfl⟩ := h
    exact bracketsOutside_neutral (isNeutral_of_isName hname)
  | keyword k =>
    obtain rfl : u = k.text.toList := h
    exact bracketsOutside_neutral (by cases k <;> simp [Keyword.text, isNeutral])
  | symbol s =>
    obtain rfl : u = s.text.toList := h
    exact bracketsOutside_symbol s
  | int n =>
    obtain ⟨-, hdigits, -⟩ := h
    exact bracketsOutside_neutral fun c hc => isNeutral_of_isDigit (all_eq_true.1 hdigits c hc)
  | float x =>
    obtain ⟨whole, fraction, rfl, -, -, hdigits, -⟩ := h
    have hneutral (c : Char) (hc : c ∈ whole ++ fraction) := isNeutral_of_isDigit (all_eq_true.1 hdigits c hc)
    refine bracketsOutside_neutral fun c hc => ?_
    simp only [mem_append, mem_cons] at hc hneutral
    rcases hc with hc | rfl | hc
    · exact hneutral c (.inl hc)
    · decide
    · exact hneutral c (.inr hc)
  | str content => exact absurd rfl (hs content)
  | newline =>
    refine bracketsOutside_neutral ?_
    rcases h with rfl | rfl <;> simp [isNeutral]
  | eof => exact h.elim

lemma bracketsOutside_comment (cs : List Char) : bracketsOutside ('#' :: cs) = bracketsOutside
    (cs.dropWhile (· ≠ '\n')) := by
  rw [bracketsOutside, if_pos rfl]

lemma bracketsOutside_string {q : Char} (hq : q = '"' ∨ q = '\'') (cs : List Char) :
    bracketsOutside (q :: cs) = bracketsOutside (cs.drop (Piece.readString q cs).2) := by
  rw [bracketsOutside, if_neg (by rcases hq with rfl | rfl <;> decide), if_pos hq]

lemma bracketsOutside_gap (h : Gap u rest) : bracketsOutside (u ++ rest) = bracketsOutside rest := by
  cases h with
  | blank hc =>
    refine bracketsOutside_neutral fun d hd => ?_
    obtain rfl := mem_singleton.1 hd
    simp only [mem_cons, not_mem_nil, or_false] at hc
    rcases hc with rfl | rfl | rfl | rfl <;> decide
  | @comment body _ hbody hend =>
    have hall : ∀ c ∈ body, (decide (c ≠ '\n')) = true := fun c hc => by
      simpa using fun h : c = '\n' => hbody (h ▸ hc)
    have hstop : rest.dropWhile (· ≠ '\n') = rest := by
      cases rest with
      | nil => rfl
      | cons d rest => simp [hend d rfl]
    rw [cons_append, bracketsOutside_comment, dropWhile_append_of_pos hall, hstop]
  | continued | continuedReturn => exact bracketsOutside_neutral (by simp [isNeutral])

lemma bracketsOutside_read {cs : List Char} {t : Token} {count : Nat} (h : Piece.read c cs = (.token t, count)) :
    bracketsOutside (c :: cs) = t.bracket?.toList ++ bracketsOutside (cs.drop count) := by
  have hfits := Piece.fits_read c cs
  rw [h] at hfits
  by_cases hs : ∃ content, t = .str content
  · obtain ⟨content, rfl⟩ := hs
    obtain ⟨q, _, hq, htext⟩ := hfits
    obtain rfl : c = q := by rcases htext with ⟨htext, -⟩ | ⟨htext, -⟩ <;> exact (List.cons.inj htext).1
    have hstring : Piece.read c cs = Piece.readString c cs := by rcases hq with rfl | rfl <;> rfl
    rw [bracketsOutside_string hq, ← hstring, h]
    rfl
  · have htext : c :: cs = (c :: cs.take count) ++ cs.drop count := by simp
    rw [htext, bracketsOutside_writtenAs hfits fun content h => hs ⟨content, h⟩]

lemma bracketsOutside_scanFrom (offset : Nat) (cs : List Char) :
    ∃ more, bracketsOutside cs = bracketsOf (scanFrom offset cs).1 ++ more ∧
      ((scanFrom offset cs).2 = none → more = []) := by
  fun_induction scanFrom offset cs with
  | case1 => exact ⟨[], by simp [bracketsOutside, bracketsOf], fun _ => rfl⟩
  | case2 offset c cs piece count stop hpiece ih =>
    have hfits := Piece.fits_read c cs
    have hread : Piece.read c cs = (.gap, count) := Prod.ext hpiece rfl
    have htext : c :: cs = (c :: cs.take count) ++ cs.drop count := by simp
    rw [hread] at hfits
    rw [htext, bracketsOutside_gap hfits]
    exact ih
  | case3 offset c cs piece count stop t hpiece rest ih =>
    obtain ⟨more, hmore, hnone⟩ := ih
    refine ⟨more, ?_, hnone⟩
    rw [bracketsOutside_read (Prod.ext hpiece rfl), hmore, bracketsOf_cons, append_assoc]
  | case4 offset c cs piece count stop cause hpiece => exact ⟨_, rfl, by simp⟩

end outside

namespace Span.Marks

variable {cs u v : List Char} {a b : Span}

lemma text_eq (h : a.Marks cs u) : ∃ after, cs = takeBytes a.start cs ++ (u ++ after) := by
  obtain ⟨before, after, rfl, rfl⟩ := h
  exact ⟨after, by rw [append_assoc, takeBytes_append]⟩

lemma head_eq {c d : Char} (h : a.Marks cs (c :: u)) (h' : b.Marks cs (d :: v)) (hstart : a.start = b.start) :
    c = d := by
  obtain ⟨after, hafter⟩ := h.text_eq
  obtain ⟨after', hafter'⟩ := h'.text_eq
  rw [← hstart] at hafter'
  exact (List.cons.inj (append_cancel_left (hafter.symm.trans hafter'))).1

end Span.Marks

lemma Cut.marks {cs before after before' after' : List Char} {lexemes : List Lexeme}
    (h : Cut before after lexemes before' after') (htext : cs = before ++ after) :
    cs = before' ++ after' ∧ ∀ l ∈ lexemes, ∃ u, l.span.Marks cs u ∧ l.token.WrittenAs u := by
  induction h with
  | done => exact ⟨htext, by simp⟩
  | gap _ _ ih => exact ih (by rw [htext, append_assoc])
  | @token before u after t _ _ _ hwritten _ ih =>
    rw [← append_assoc] at htext
    obtain ⟨hend, hrest⟩ := ih htext
    exact ⟨hend, forall_mem_cons.2 ⟨⟨u, ⟨before, after, htext, rfl⟩, hwritten⟩, hrest⟩⟩

structure LexicalFault.StopsAt (f : LexicalFault) (cs : List Char) (s : Symbol) : Prop where
  closer : s.isCloser = true
  marks : f.span.Marks cs s.text.toList

structure Innermost (source : Source) (opened : List Lexeme) (closer : Symbol) (line column : Nat) (b : Lexeme) :
    Prop where
  head : opened.head? = some b
  closer : b.token.closer? = some closer
  marks : ∃ s : Symbol, b.token = .symbol s ∧ b.span.Marks source.text.toList s.text.toList
  place : source.lineCol b.span.start = (line, column)

section stops

lemma Symbol.cases_of_isCloser {s : Symbol} (h : s.isCloser = true) :
    s = .rightParen ∨ s = .rightSquare ∨ s = .rightBrace := by
  cases s <;> simp_all [isCloser]

variable {f : LexicalFault} {cs u : List Char} {c : Char} {s : Symbol} {span : Span}

lemma Symbol.text_of_isCloser (h : s.isCloser = true) : ∃ d ∈ [')', ']', '\x7d'], s.text.toList = [d] := by
  cases s <;> first | simp [Symbol.text]; done | simp [isCloser] at h

lemma Symbol.text_of_closer? {closer : Symbol} (h : s.closer? = some closer) :
    ∃ d ∉ [')', ']', '\x7d'], s.text.toList = [d] := by
  cases s <;> first | simp [Symbol.text]; done | simp [closer?] at h

lemma LexicalFault.not_stopsAt (h : span.Marks cs (c :: u)) (hc : c ∉ [')', ']', '\x7d'])
    (hstart : f.span.start = span.start) : ¬f.StopsAt cs s := by
  intro hstops
  obtain ⟨d, hd, htext⟩ := Symbol.text_of_isCloser hstops.closer
  have hmarks := hstops.marks
  rw [htext] at hmarks
  exact hc (hmarks.head_eq h hstart ▸ hd)

lemma LexicalFault.StopsAt.eq {s' : Symbol} (h : f.StopsAt cs s) (h' : f.StopsAt cs s') : s = s' := by
  obtain ⟨d, -, htext⟩ := Symbol.text_of_isCloser h.closer
  obtain ⟨d', -, htext'⟩ := Symbol.text_of_isCloser h'.closer
  have hsame : s.text.toList = s'.text.toList := by
    rw [htext, htext']
    exact congrArg (fun d => [d]) ((htext ▸ h.marks).head_eq (htext' ▸ h'.marks) rfl)
  rcases Symbol.cases_of_isCloser h.closer with rfl | rfl | rfl <;>
    rcases Symbol.cases_of_isCloser h'.closer with rfl | rfl | rfl <;> simp_all [Symbol.text]

end stops

inductive Verdict (source : Source) (opened : List Lexeme) : Option LexicalFault → Option LexicalFault → Prop
  | balanced : opened = [] → Verdict source opened none none
  | scanner {f} : f.cause.isMismatch = false → (∀ s, ¬f.StopsAt source.text.toList s) →
    Verdict source opened (some f) (some f)
  | unmatched {scanned f s} : f.StopsAt source.text.toList s → f.cause = .unmatchedCloser s → opened = [] →
      Verdict source opened scanned (some f)
  | mismatched {scanned f s closer line column b} : f.StopsAt source.text.toList s →
      f.cause = .mismatchedCloser closer s line column → Innermost source opened closer line column b → closer ≠ s →
      Verdict source opened scanned (some f)
  | unclosed {f closer line column b} : (∀ s, ¬f.StopsAt source.text.toList s) →
      f.cause = .unclosed closer line column →
      Innermost source opened closer line column b → Verdict source opened none (some f)

namespace Verdict

variable {source : Source} {opened : List Lexeme} {scanned fault : Option LexicalFault} {f : LexicalFault} {s : Symbol}
  (h : Verdict source opened scanned fault)

include h

lemma opened_eq_nil (hnone : fault = none) : opened = [] := by
  cases h with
  | balanced hopen => exact hopen
  | _ => contradiction

lemma at_closer (hf : fault = some f) (hstops : f.StopsAt source.text.toList s) :
    (f.cause = .unmatchedCloser s ↔ opened = []) ∧
      ((∃ closer line column, f.cause = .mismatchedCloser closer s line column) ↔
        ∃ b ∈ opened.head?, b.token.closer? ≠ some s) := by
  cases h with
  | balanced => contradiction
  | scanner _ hnot | unclosed hnot _ _ =>
    cases hf
    exact absurd hstops (hnot s)
  | unmatched hs hcause hopen =>
    cases hf
    obtain rfl := hs.eq hstops
    simp [hcause, hopen]
  | @mismatched _ _ _ closer _ _ b hs hcause hin hne =>
    cases hf
    obtain rfl := hs.eq hstops
    have hopen : opened ≠ [] := fun hnil => by simpa [hnil] using hin.head
    refine ⟨iff_of_false (by simp [hcause]) hopen, iff_of_true ⟨_, _, _, hcause⟩ ⟨b, hin.head, ?_⟩⟩
    simpa [hin.closer] using hne

lemma stopsAt (hf : fault = some f)
    (hcause : f.cause = .unmatchedCloser s ∨ ∃ closer line column, f.cause = .mismatchedCloser closer s line column) :
    f.StopsAt source.text.toList s := by
  cases h with
  | balanced => contradiction
  | scanner hmatch =>
    cases hf
    rcases hcause with hcause | ⟨_, _, _, hcause⟩ <;> simp [hcause, LexicalCause.isMismatch] at hmatch
  | unmatched hs h _ | mismatched hs h _ _ =>
    cases hf
    obtain rfl : _ = s := by simpa [h] using hcause
    exact hs
  | unclosed _ h _ =>
    cases hf
    simp [h] at hcause

lemma at_end (hscanned : scanned = none) (hgoes : ∀ f s, fault = some f → ¬f.StopsAt source.text.toList s) :
    (fault = none ↔ opened = []) ∧
      ((∃ f closer line column, fault = some f ∧ f.cause = .unclosed closer line column) ↔ opened ≠ []) := by
  cases h with
  | balanced hopen => simp [hopen]
  | scanner => contradiction
  | unmatched hs _ _ | mismatched hs _ _ _ => exact absurd hs (hgoes _ _ rfl)
  | unclosed _ hcause hin =>
    have hopen : opened ≠ [] := fun hnil => by simpa [hnil] using hin.head
    exact ⟨iff_of_false (by simp) hopen, iff_of_true ⟨_, _, _, _, rfl, hcause⟩ hopen⟩

lemma innermost {closer : Symbol} {line column : Nat} (hf : fault = some f)
    (hcause : f.cause = .unclosed closer line column ∨ ∃ s, f.cause = .mismatchedCloser closer s line column) :
    ∃ b, Innermost source opened closer line column b := by
  cases h with
  | balanced => contradiction
  | scanner hmatch =>
    cases hf
    rcases hcause with hcause | ⟨s, hcause⟩ <;> simp [hcause, LexicalCause.isMismatch] at hmatch
  | unmatched _ h _ =>
    cases hf
    simp [h] at hcause
  | @mismatched _ _ s _ _ _ b _ h hin _ =>
    cases hf
    obtain ⟨rfl, rfl, rfl⟩ : _ = closer ∧ _ = line ∧ _ = column := by simpa [h] using hcause
    exact ⟨b, hin⟩
  | unclosed _ h hin =>
    cases hf
    obtain ⟨rfl, rfl, rfl⟩ : _ = closer ∧ _ = line ∧ _ = column := by simpa [h] using hcause
    exact ⟨_, hin⟩

end Verdict

section verdict

variable {line column : Nat} {f : LexicalFault} {source : Source} {l : Lexeme} {closer : Symbol}

lemma innermost (opened : List Lexeme) (hl : l.token.closer? = some closer)
    (hplace : source.lineCol l.span.start = (line, column))
    (hmarks : ∃ u, l.span.Marks source.text.toList u ∧ l.token.WrittenAs u) :
    Innermost source (l :: opened) closer line column l where
  head := rfl
  closer := hl
  marks := by
    obtain ⟨s, hs, -⟩ := Token.symbol_of_closer? hl
    obtain ⟨u, hmarks, hwritten⟩ := hmarks
    rw [hs] at hwritten
    obtain rfl : u = s.text.toList := hwritten
    exact ⟨s, hs, hmarks⟩
  place := hplace

lemma Innermost.not_stopsAt {opened : List Lexeme} (h : Innermost source opened closer line column l)
    (hstart : f.span.start = l.span.start) (s : Symbol) :
    ¬f.StopsAt source.text.toList s := by
  obtain ⟨o, ho, hmarks⟩ := h.marks
  have hcloser := h.closer
  rw [ho] at hcloser
  obtain ⟨d, hd, htext⟩ := Symbol.text_of_closer? hcloser
  rw [htext] at hmarks
  exact LexicalFault.not_stopsAt hmarks hd hstart

lemma Obstructs.not_stopsAt {before after : List Char} (h : Obstructs before f after) (s : Symbol) :
    ¬f.StopsAt (before ++ after) s := by
  cases after with
  | nil => exact h.elim
  | cons c cs =>
    have hfits := Piece.fits_read c cs
    have hread : Piece.read c cs = (.fault f.cause, (Piece.read c cs).2) := Prod.ext h.1 rfl
    rw [hread] at hfits
    refine LexicalFault.not_stopsAt (c := c) ⟨before, cs.drop (Piece.read c cs).2, ?_, h.2⟩ hfits.2 rfl
    simp

lemma verdict (letInsertion : Bool) (source : Source) :
    Verdict source (openBrackets (tokenizeChars letInsertion source.text.toList).lexemes.reverse)
      (scanFrom 0 source.text.toList).2 (tokenizeChars letInsertion source.text.toList).fault := by
  obtain ⟨fault, hends, heq⟩ := tokenizeChars_eq letInsertion source.text.toList
  obtain ⟨before', after', hcut, hscanned⟩ := @scanFrom_cut [] source.text.toList 0 rfl
  obtain ⟨htext, hmarks⟩ := @Cut.marks source.text.toList _ _ _ _ _ hcut rfl
  have harranges := (Layout.ofText letInsertion source.text.toList).arranges [] [] (scanFrom 0 source.text.toList).1
  obtain ⟨-, hconforms⟩ := harranges.conforms .nil .nil
  have hopened := fun b hb => hmarks b ((harranges.openBrackets_mem b hb).resolve_left (by simp [openBrackets]))
  rw [heq, reverse_append, reverse_reverse]
  generalize (Layout.ofText letInsertion source.text.toList).arrange [] [] (scanFrom 0 source.text.toList).1 = r at *
  obtain ⟨program, outcome⟩ := r
  generalize (scanFrom 0 source.text.toList).2 = scanned at hends hscanned
  -- The token at the end opens nothing.
  have heof : openBrackets ([⟨.eof, .point (stopAt source.text.toList fault), false⟩].reverse ++ program) =
    openBrackets program := openBrackets_other _ ⟨rfl, rfl⟩
  rw [heof]
  cases hends with
  | layout =>
    obtain ⟨l, hl, s, hs, hcloser, hrefused⟩ := hconforms
    obtain ⟨u, hspan, hwritten⟩ := hmarks l hl
    rw [hs] at hwritten
    obtain rfl : u = s.text.toList := hwritten
    cases hrefused with
    | unmatched hnil => exact .unmatched ⟨hcloser, hspan⟩ rfl hnil
    | @mismatched b opened closer line column hopen hb hplace hne =>
      have hin := innermost opened hb hplace (hopened _ (by rw [hopen]; exact mem_cons_self))
      rw [hopen]
      exact .mismatched ⟨hcloser, hspan⟩ rfl hin hne
  | scanner =>
    refine .scanner hscanned.start.2 fun s => ?_
    rw [htext]
    exact hscanned.not_stopsAt s
  | unclosed =>
    obtain ⟨l, opened, hopens, -, hopen⟩ := forall₂_cons_left_iff.1 hconforms
    have hin := innermost opened hopens.closer hopens.place (hopened l (by rw [hopen]; exact mem_cons_self))
    rw [hopen, ← hopens.span]
    exact .unclosed (hin.not_stopsAt rfl) rfl hin
  | none => exact .balanced (forall₂_nil_left_iff.1 hconforms)

lemma disciplined_tokenizeChars (letInsertion : Bool) (cs : List Char) :
    Disciplined (tokenizeChars letInsertion cs).lexemes.reverse := by
  obtain ⟨fault, -, heq⟩ := tokenizeChars_eq letInsertion cs
  obtain ⟨hp, -⟩ := ((Layout.ofText letInsertion cs).arranges [] [] (scanFrom 0 cs).1).conforms .nil .nil
  rw [heq, reverse_append, reverse_reverse]
  exact .other hp (by simp) rfl

lemma isMismatch_of_nested {letInsertion : Bool} {cs : List Char} (h : Nested (bracketsOutside cs)) :
    ∀ f ∈ (tokenizeChars letInsertion cs).fault, f.cause.isMismatch = false := by
  obtain ⟨fault, hends, heq⟩ := tokenizeChars_eq letInsertion cs
  obtain ⟨before, after, -, hscanned⟩ := @scanFrom_cut [] cs 0 rfl
  obtain ⟨more, hmore, hnone⟩ := bracketsOutside_scanFrom 0 cs
  have hdue := ((Layout.ofText letInsertion cs).arranges [] [] (scanFrom 0 cs).1).due_eq
  have hword : dueAfter [] (bracketsOf (scanFrom 0 cs).1 ++ more) = some [] := by
    rw [← hmore]
    exact h.due_eq
  rw [dueAfter_append, ← map_nil, hdue] at hword
  rw [heq]
  generalize (Layout.arrange _ [] [] (scanFrom 0 cs).1).2 = outcome at hends hword
  generalize (scanFrom 0 cs).2 = scanned at hends hscanned hnone
  rintro f hf
  cases hends with
  | layout => simp [Except.toOption] at hword
  | scanner =>
    cases hf
    exact hscanned.start.2
  | unclosed =>
    obtain rfl := hnone rfl
    simp [Except.toOption, dueAfter] at hword
  | none => simp at hf

end verdict

/-- Brackets are nested, with no line break inside of them, or the fault tells where they stop being so. -/
theorem brackets_nest_or_fault (letInsertion : Bool) (source : Source) :
    let t := tokenizeChars letInsertion source.text.toList
    let opened := openBrackets t.lexemes.reverse
    (t.fault = none → Nested (bracketsOf t.lexemes)) ∧
    (∀ before o inside c after closer, t.lexemes = before ++ o :: inside ++ c :: after → o.token.closer? = some closer →
      c.token = .symbol closer → Nested (bracketsOf inside) → ∀ l ∈ inside, l.token ≠ .newline) ∧
    (∀ before a b after, t.lexemes = before ++ a :: b :: after → ¬(a.token = .newline ∧ b.token = .newline)) ∧
    (∀ f s, t.fault = some f →
      (f.cause = .unmatchedCloser s ∨ ∃ closer line column, f.cause = .mismatchedCloser closer s line column) →
      f.StopsAt source.text.toList s) ∧
    (∀ f s, t.fault = some f → f.StopsAt source.text.toList s →
      (f.cause = .unmatchedCloser s ↔ opened = []) ∧
      ((∃ closer line column, f.cause = .mismatchedCloser closer s line column) ↔
        ∃ b ∈ opened.head?, b.token.closer? ≠ some s)) ∧
    ((scanFrom 0 source.text.toList).2 = none → (∀ f s, t.fault = some f → ¬f.StopsAt source.text.toList s) →
      (t.fault = none ↔ opened = []) ∧
      ((∃ f closer line column, t.fault = some f ∧ f.cause = .unclosed closer line column) ↔ opened ≠ [])) ∧
    (∀ f closer line column, t.fault = some f →
      (f.cause = .unclosed closer line column ∨ ∃ s, f.cause = .mismatchedCloser closer s line column) →
      ∃ b, Innermost source opened closer line column b) ∧
    (Nested (bracketsOutside source.text.toList) → ∀ f ∈ t.fault, f.cause.isMismatch = false) := by
  intro t opened
  have hdisciplined := disciplined_tokenizeChars letInsertion source.text.toList
  have hverdict : Verdict source opened _ t.fault := verdict letInsertion source
  refine ⟨fun hnone => ?_, fun before o inside c after closer heq ho _ hinside => ?_, fun before a b after heq => ?_,
    fun f s hf hcause => ?_, fun f s hf hstops => ?_, fun hscanned hgoes => ?_,
    fun f closer line column hf hcause => ?_, isMismatch_of_nested⟩
  · have hnested := hdisciplined.nested (hverdict.opened_eq_nil hnone)
    rwa [reverse_reverse] at hnested
  · exact hdisciplined.newline_not_mem heq ho hinside
  · exact hdisciplined.not_newline_newline heq
  · exact hverdict.stopsAt hf hcause
  · exact hverdict.at_closer hf hstops
  · exact hverdict.at_end hscanned hgoes
  · exact hverdict.innermost hf hcause

theorem brackets_across_lines_at_fault :
    let source : Source := ⟨"nested", "f([\n a)"⟩
    let t := tokenizeChars true source.text.toList
    t.fault = some ⟨.mismatchedCloser .rightSquare .rightParen 1 3, ⟨6, 7⟩⟩ ∧
      ∃ b, Innermost source (openBrackets t.lexemes.reverse) .rightSquare 1 3 b := by
  have hfault : (tokenizeChars true "f([\n a)".toList).fault =
      some ⟨.mismatchedCloser .rightSquare .rightParen 1 3, ⟨6, 7⟩⟩ := by decide +kernel
  obtain ⟨-, -, -, -, -, -, hinnermost, -⟩ := brackets_nest_or_fault true ⟨"nested", "f([\n a)"⟩
  exact ⟨hfault, hinnermost _ _ _ _ hfault (.inr ⟨_, rfl⟩)⟩

end ScriptMachine
