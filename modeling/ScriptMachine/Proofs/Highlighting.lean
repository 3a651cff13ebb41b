import ScriptMachine.Proofs.Turns

/-! The tokens of a fragment are the tokens of the program without the `let`s that were put in. -/

namespace ScriptMachine

open List

variable {l : Lexeme}

def Lexeme.isImplicit (l : Lexeme) : Bool := l.token.isKeyword .let_ && l.span.start == l.span.stop

lemma Lexeme.isImplicit_of_lt (h : l.span.start < l.span.stop) : l.isImplicit = false := by
  simp [isImplicit, h.ne]

def explicit (lexemes : List Lexeme) : List Lexeme := lexemes.filter (!·.isImplicit)

lemma explicit_reverse (lexemes : List Lexeme) : explicit lexemes.reverse = (explicit lexemes).reverse :=
  filter_reverse

lemma explicit_cons (lexemes : List Lexeme) (h : l.isImplicit = false) :
    explicit (l :: lexemes) = l :: explicit lexemes := filter_cons_of_pos (by simp [h])

lemma scanFrom_nonempty (offset : Nat) (cs : List Char) : ∀ l ∈ (scanFrom offset cs).1, l.span.start < l.span.stop := by
  fun_induction scanFrom offset cs with
  | case1 | case4 => simp
  | case2 offset c cs piece count stop hpiece ih => exact ih
  | case3 offset c cs piece count stop t hpiece rest ih =>
    have hstop : offset < stop := by
      have := c.utf8Size_pos
      simp only [stop, byteSize]
      omega
    exact forall_mem_cons.2 ⟨hstop, ih⟩

namespace Layout

variable {r : Arranged} {y : Layout} {program : List Lexeme} {brackets : List OpenBracket} {rest : List Lexeme}

def bare (y : Layout) : Layout := ⟨false, y.place⟩

lemma explicit_withLet (y : Layout) (program : List Lexeme) : explicit (y.withLet program) = explicit program := by
  obtain h | ⟨name, span, a, before, rfl, h⟩ := y.withLet_cases program
  · rw [h]
  · have hlet : (⟨.keyword .let_, .point span.start, false⟩ : Lexeme).isImplicit = true := by
      simp [Lexeme.isImplicit, Token.isKeyword, Span.point]
    have hdrop : explicit (⟨.keyword .let_, .point span.start, false⟩ :: before) = explicit before :=
      filter_cons_of_neg (by simp [hlet])
    rw [h, explicit_cons _ rfl, hdrop, explicit_cons _ rfl]

lemma head?_explicit (h : ∀ l ∈ program.head?, l.isImplicit = false) : (explicit program).head? = program.head? := by
  cases program with
  | nil => rfl
  | cons l program => rw [explicit_cons _ (h l rfl), head?_cons, head?_cons]

lemma lastName?_of_head? {other : List Lexeme} (h : other.head? = program.head?) :
    lastName? other = lastName? program := by
  cases program with
  | nil => rw [head?_eq_none_iff.1 h]
  | cons l program =>
    obtain ⟨before, rfl⟩ : ∃ before, other = l :: before := head?_eq_some_iff.1 h
    obtain ⟨t, span, a⟩ := l
    cases t <;> rfl

lemma Arranges.bare_kept (hrest : ∀ l' ∈ l :: rest, l'.isImplicit = false)
    (h : (∀ l ∈ rest, l.isImplicit = false) → (∀ l' ∈ (l :: program).head?, l'.isImplicit = false) →
      Arranges y.bare (explicit (l :: program)) brackets rest r) :
    Arranges y.bare (l :: explicit program) brackets rest r := by
  obtain ⟨hfirst, hrest⟩ := forall_mem_cons.1 hrest
  rw [← explicit_cons _ hfirst]
  exact h hrest (by simpa using hfirst)

lemma Arranges.bare (h : Arranges y program brackets rest r) (hrest : ∀ l ∈ rest, l.isImplicit = false)
    (hhead : ∀ l ∈ program.head?, l.isImplicit = false) :
    Arranges y.bare (explicit program) brackets rest (explicit r.1, r.2) := by
  -- A token that was put in is never the last one kept, so both layouts see the same token before the next.
  induction h with
  | done => exact .done
  | keepBreak hl hp _ ih => exact .keepBreak hl (by rwa [head?_explicit hhead]) (bare_kept hrest ih)
  | dropBreak hl hb _ ih =>
    obtain ⟨-, hrest⟩ := forall_mem_cons.1 hrest
    exact .dropBreak hl (by rwa [head?_explicit hhead]) (ih hrest hhead)
  | assign hl _ ih =>
    have hnext := bare_kept hrest ih
    rw [explicit_withLet] at hnext
    exact .assign hl hnext
  | open_ hl hc _ ih => exact .open_ hl hc (bare_kept hrest ih)
  | close hl hs hb _ ih => exact .close hl hs hb (bare_kept hrest ih)
  | unmatched hl hs => exact .unmatched hl hs
  | mismatched hl hs hb => exact .mismatched hl hs hb
  | join hl ha he hj hname _ ih =>
    obtain ⟨-, hrest⟩ := forall_mem_cons.1 hrest
    obtain ⟨hassign, hrest⟩ := forall_mem_cons.1 hrest
    have hnext := ih hrest (by simp [Lexeme.isImplicit, Token.isKeyword])
    rw [explicit_cons _ rfl, explicit_cons _ rfl, explicit_cons _ hassign, explicit_withLet] at hnext
    exact .join hl ha he hj (by rwa [lastName?_of_head? (head?_explicit hhead)]) hnext
  | keep hl hj _ ih =>
    exact .keep hl (by rwa [lastName?_of_head? (head?_explicit hhead)]) (bare_kept hrest ih)

end Layout

/-- Names get their `let` without any other effect on the tokens, their places and the fault. -/
theorem tokens_without_let (text : String) :
    tokenizeChars false text.toList = ⟨explicit (tokenize text).lexemes, (tokenize text).fault⟩ ∧
      fragmentTokens text = explicit (tokenize text).lexemes := by
  have hsame : tokenizeChars false text.toList = ⟨explicit (tokenize text).lexemes, (tokenize text).fault⟩ := by
    have hscanned : ∀ l ∈ (scanFrom 0 text.toList).1, l.isImplicit = false := fun l hl =>
      Lexeme.isImplicit_of_lt (scanFrom_nonempty 0 text.toList l hl)
    have hturns : (Layout.ofText false text.toList).arrange [] [] (scanFrom 0 text.toList).1 = _ :=
      (((Layout.ofText true text.toList).arranges [] [] _).bare hscanned (by simp)).eq
    obtain ⟨fault, hends, htokens⟩ := tokenizeChars_eq true text.toList
    obtain ⟨fault', hends', htokens'⟩ := tokenizeChars_eq false text.toList
    rw [hturns] at hends' htokens'
    obtain rfl := hends.unique hends'
    rw [tokenize, htokens, htokens', ← reverse_cons, ← reverse_cons, explicit_reverse, explicit_cons _ rfl]
  exact ⟨hsame, congrArg Tokenized.lexemes hsame⟩

end ScriptMachine
