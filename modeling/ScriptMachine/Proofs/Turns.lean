import ScriptMachine.Proofs.Windows

/-! The turns of the layout: what it does with the next token, given the program so far and the brackets
that are open. -/

namespace ScriptMachine

variable {s : Symbol}

def Token.isPlain : Token → Bool
  | .newline | .symbol .assign => false
  | .symbol s => s.closer?.isNone && !s.isCloser
  | _ => true

lemma Token.isPlain_of_augmentable (h : s.augmentable = true) : (symbol s).isPlain = true := by
  cases s <;> first | rfl | simp [Symbol.augmentable] at h

structure Layout where
  letInsertion : Bool
  place : Nat → Nat × Nat

namespace Layout

variable {l : Lexeme}

def withLet (y : Layout) (program : List Lexeme) : List Lexeme :=
  if y.letInsertion then insertLet program else program

def sight (y : Layout) (l : Lexeme) : Sighting := ⟨l, (y.place l.span.start).1, (y.place l.span.start).2⟩

def opened (y : Layout) (closer : Symbol) (span : Span) : OpenBracket :=
  ⟨closer, span, (y.place span.start).1, (y.place span.start).2⟩

def arrange (y : Layout) (program : List Lexeme) (brackets : List OpenBracket) (rest : List Lexeme) : Arranged :=
  ScriptMachine.arrange y.letInsertion program brackets (rest.map y.sight)

inductive Arranges (y : Layout) : List Lexeme → List OpenBracket → List Lexeme → Arranged → Prop
  | done {program brackets} : Arranges y program brackets [] (program, .ok brackets)
  | keepBreak {program l rest r} : l.token = .newline → program.head?.any (·.token.isNewline) = false →
      Arranges y (l :: program) [] rest r → Arranges y program [] (l :: rest) r
  | dropBreak {program brackets l rest r} : l.token = .newline →
      (brackets ≠ [] ∨ program.head?.any (·.token.isNewline) = true) →
      Arranges y program brackets rest r → Arranges y program brackets (l :: rest) r
  | assign {program brackets l rest r} : l.token = .symbol .assign →
      Arranges y (l :: y.withLet program) brackets rest r → Arranges y program brackets (l :: rest) r
  | open_ {program brackets l s closer rest r} : l.token = .symbol s → s.closer? = some closer →
      Arranges y (l :: program) (y.opened closer l.span :: brackets) rest r →
      Arranges y program brackets (l :: rest) r
  | close {program b brackets l s rest r} : l.token = .symbol s → s.isCloser = true → b.closer = s →
      Arranges y (l :: program) brackets rest r → Arranges y program (b :: brackets) (l :: rest) r
  | unmatched {program l s rest} : l.token = .symbol s → s.isCloser = true →
      Arranges y program [] (l :: rest) (program, .error ⟨.unmatchedCloser s, l.span⟩)
  | mismatched {program b brackets l s rest} : l.token = .symbol s → s.isCloser = true → b.closer ≠ s →
      Arranges y program (b :: brackets) (l :: rest)
        (program, .error ⟨.mismatchedCloser b.closer s b.line b.column, l.span⟩)
  | join {program brackets l s e name span rest r} : l.token = .symbol s → s.augmentable = true →
      e.token = .symbol .assign → e.span.start = l.span.stop → lastName? program = some (name, span) →
      Arranges y (⟨.symbol s, l.span, true⟩ :: ⟨.ident name, span, false⟩ :: e :: y.withLet program) brackets rest r →
      Arranges y program brackets (l :: e :: rest) r
  | keep {program brackets l rest r} : l.token.isPlain = true →
      (∀ e ∈ rest.head?, l.token.augmentable = true → e.token.isSymbol .assign = true → e.span.start = l.span.stop →
        lastName? program = none) →
      Arranges y (l :: program) brackets rest r → Arranges y program brackets (l :: rest) r

variable {y : Layout} {program : List Lexeme} {brackets : List OpenBracket} {rest : List Lexeme}

lemma isPlain_of_symbol (hs : s ≠ .assign) (hl : l.token = .symbol s) (ho : s.closer? = none)
    (hc : ¬s.isCloser = true) : l.token.isPlain = true := by
  rw [hl]
  cases s with
  | assign => exact absurd rfl hs
  | _ => simp_all [Token.isPlain]

lemma cons_of_map_sight {line column : Nat} {seen : List Sighting} (h : rest.map y.sight = ⟨l, line, column⟩ :: seen) :
    ∃ rest', rest = l :: rest' ∧ rest'.map y.sight = seen ∧
      ∀ closer, (⟨closer, l.span, line, column⟩ : OpenBracket) = y.opened closer l.span := by
  obtain ⟨l', rest', rfl, hl, hrest⟩ := List.map_eq_cons_iff.1 h
  obtain ⟨rfl, rfl, rfl⟩ := Sighting.mk.inj hl
  exact ⟨rest', rfl, hrest, fun _ => rfl⟩

lemma arranges (y : Layout) (program : List Lexeme) (brackets : List OpenBracket) (rest : List Lexeme) :
    Arranges y program brackets rest (y.arrange program brackets rest) := by
  unfold arrange
  generalize hseen : rest.map y.sight = seen
  fun_induction ScriptMachine.arrange y.letInsertion program brackets seen generalizing rest with
  | case1 =>
    obtain rfl := List.map_eq_nil_iff.1 hseen
    exact .done
  | case2 program brackets l line column seen hl h ih =>
    obtain ⟨rest, rfl, hseen, -⟩ := cons_of_map_sight hseen
    obtain ⟨hb, hp⟩ : brackets = [] ∧ program.head?.any (·.token.isNewline) = false := by simpa using h
    subst hb
    exact .keepBreak hl hp (ih _ hseen)
  | case3 program brackets l line column seen hl h ih =>
    obtain ⟨rest, rfl, hseen, -⟩ := cons_of_map_sight hseen
    refine .dropBreak hl ?_ (ih _ hseen)
    by_contra hn
    simp_all
  | case4 program brackets l line column seen hl ih =>
    obtain ⟨rest, rfl, hseen, -⟩ := cons_of_map_sight hseen
    exact .assign hl (ih _ hseen)
  | case5 program brackets l line column seen s hs hl closer hc ih =>
    obtain ⟨rest, rfl, hseen, hopened⟩ := cons_of_map_sight hseen
    rw [hopened closer] at ih ⊢
    exact .open_ hl hc (ih _ hseen)
  | case6 program brackets l line column seen s hs hl ho hc brackets' h ih =>
    obtain ⟨rest, rfl, hseen, -⟩ := cons_of_map_sight hseen
    -- only the bracket that was opened last can be closed
    cases brackets with
    | nil => simp [closeBracket] at h
    | cons b brackets =>
      by_cases hb : b.closer = s
      · obtain rfl : brackets = brackets' := by simpa [closeBracket, hb] using h
        exact .close hl hc hb (ih _ hseen)
      · simp [closeBracket, hb] at h
  | case7 program brackets l line column seen s hs hl ho hc fault h =>
    obtain ⟨rest, rfl, -⟩ := cons_of_map_sight hseen
    cases brackets with
    | nil =>
      obtain rfl : _ = fault := by simpa [closeBracket] using h
      exact .unmatched hl hc
    | cons b brackets =>
      by_cases hb : b.closer = s
      · simp [closeBracket, hb] at h
      · obtain rfl : _ = fault := by simpa [closeBracket, hb] using h
        exact .mismatched hl hc hb
  | case8 program brackets l line column s hs hl ho hc e seen h name span hname ih =>
    obtain ⟨rest, rfl, hseen, -⟩ := cons_of_map_sight hseen
    obtain ⟨rest, rfl, hseen, -⟩ := cons_of_map_sight hseen
    obtain ⟨⟨ha, he⟩, hj⟩ : (s.augmentable = true ∧ e.lexeme.token.isSymbol .assign = true) ∧
      e.lexeme.span.start = l.span.stop := by simpa using h
    exact .join hl ha (Token.eq_of_isSymbol he) hj hname (ih _ hseen)
  | case9 program brackets l line column s hs hl ho hc e seen h hname ih =>
    obtain ⟨rest, rfl, hseen, -⟩ := cons_of_map_sight hseen
    exact .keep (isPlain_of_symbol hs hl ho hc) (fun _ _ _ _ _ => hname) (ih _ hseen)
  | case10 program brackets l line column s hs hl ho hc e seen h ih =>
    obtain ⟨rest, rfl, hseen, -⟩ := cons_of_map_sight hseen
    refine .keep (isPlain_of_symbol hs hl ho hc) ?_ (ih _ hseen)
    obtain ⟨rest, rfl, -⟩ := cons_of_map_sight hseen
    intro e' he ha hassign hj
    obtain rfl : e.lexeme = e' := by simpa using he
    simp_all [Token.augmentable]
  | case11 program brackets l line column s hs hl ho hc =>
    obtain ⟨rest, rfl, hseen, -⟩ := cons_of_map_sight hseen
    obtain rfl := List.map_eq_nil_iff.1 hseen
    exact .keep (isPlain_of_symbol hs hl ho hc) (by simp) .done
  | case12 program brackets l line column seen hn ha hs ih =>
    obtain ⟨rest, rfl, hseen, -⟩ := cons_of_map_sight hseen
    refine .keep ?_ (fun e he haug => ?_) (ih _ hseen)
    · cases hl : l.token with
      | newline => exact absurd hl hn
      | symbol s => exact absurd hl (hs s)
      | _ => rfl
    · cases hl : l.token with
      | symbol s => exact absurd hl (hs s)
      | _ => simp [hl, Token.augmentable] at haug

@[simp] lemma closer_opened (closer : Symbol) (span : Span) : (y.opened closer span).closer = closer := rfl

@[simp] lemma lexeme_sight (l : Lexeme) : (y.sight l).lexeme = l := rfl

lemma arrange_cons (l : Lexeme) : y.arrange program brackets (l :: rest) = ScriptMachine.arrange y.letInsertion
    program brackets (⟨l, (y.place l.span.start).1, (y.place l.span.start).2⟩ :: rest.map y.sight) := rfl

attribute [local simp] arrange withLet ScriptMachine.withLet opened in
lemma Arranges.eq {r : Arranged} (h : Arranges y program brackets rest r) :
    y.arrange program brackets rest = r := by
  induction h with
  | done => rfl
  | keepBreak hl hp _ ih =>
    rw [← ih, arrange_cons, ScriptMachine.arrange.eq_def]
    simp [hl, hp]
  | dropBreak hl h _ ih =>
    rw [← ih, arrange_cons, ScriptMachine.arrange.eq_def]
    rcases h with h | h
    · simp [hl, h]
    · simp [hl, h]
  | assign hl _ ih =>
    rw [← ih, arrange_cons, ScriptMachine.arrange.eq_def]
    simp [hl]
  | @open_ _ _ _ s _ _ _ hl hc _ ih =>
    rw [← ih, arrange_cons, ScriptMachine.arrange.eq_def]
    cases s <;> simp_all [Symbol.closer?]
  | @close _ _ _ _ s _ _ hl hs hb _ ih =>
    rw [← ih, arrange_cons, ScriptMachine.arrange.eq_def]
    cases s <;> simp_all [Symbol.isCloser, Symbol.closer?, closeBracket]
  | @unmatched _ _ s _ hl hs | @mismatched _ _ _ _ s _ hl hs hb =>
    rw [arrange_cons, ScriptMachine.arrange.eq_def]
    cases s <;> simp_all [Symbol.isCloser, Symbol.closer?, closeBracket]
  | @join _ _ l s e _ _ _ _ hl ha he hj hname _ ih =>
    rw [← ih, arrange_cons, ScriptMachine.arrange.eq_def]
    cases s <;> simp_all [Symbol.augmentable, Symbol.isCloser, Symbol.closer?, Token.isSymbol]
  | @keep program brackets l rest _ hl hj _ ih =>
    rw [← ih]
    cases ht : l.token with
    | newline => simp [ht, Token.isPlain] at hl
    | symbol s =>
      rw [arrange_cons, ScriptMachine.arrange.eq_def]
      cases rest with
      | nil => cases s <;> simp_all [ScriptMachine.arrange, Token.isPlain, Symbol.closer?, Symbol.isCloser]
      | cons e rest =>
        have hj := hj e rfl
        cases s <;> simp_all [Token.isPlain, Token.augmentable, Symbol.closer?, Symbol.isCloser, Symbol.augmentable]
    | _ =>
      rw [arrange_cons, ScriptMachine.arrange.eq_def]
      simp [ht]

lemma withLet_cases (y : Layout) (program : List Lexeme) : y.withLet program = program ∨
    ∃ name span a before, program = ⟨.ident name, span, a⟩ :: before ∧
      y.withLet program = ⟨.ident name, span, a⟩ :: ⟨.keyword .let_, .point span.start, false⟩ :: before := by
  unfold withLet insertLet
  split
  · split
    · rename_i name span a before
      split
      · exact .inr ⟨name, span, a, [], rfl, rfl⟩
      · split
        · exact .inr ⟨name, span, a, _, rfl, rfl⟩
        · exact .inl rfl
    · exact .inl rfl
  · exact .inl rfl

end Layout

namespace LexicalCause

def isUnclosed : LexicalCause → Bool
  | unclosed .. => true
  | _ => false

def isMismatch : LexicalCause → Bool
  | unmatchedCloser _ | mismatchedCloser .. | unclosed .. => true
  | _ => false

end LexicalCause

def Layout.ofText (letInsertion : Bool) (cs : List Char) : Layout :=
  ⟨letInsertion, fun offset => Source.placeAfter (takeBytes offset cs)⟩

inductive Ends (cs : List Char) : Except LexicalFault (List OpenBracket) → Option LexicalFault →
    Option LexicalFault → Prop
  | layout {f scanned} : Ends cs (.error f) scanned (some f)
  | scanner {brackets f} : Ends cs (.ok brackets) (some f) (some f)
  | unclosed {b brackets} : Ends cs (.ok (b :: brackets)) none
      (some ⟨.unclosed b.closer b.line b.column, ⟨b.span.start, byteSize cs⟩⟩)
  | none : Ends cs (.ok []) none none

lemma Ends.unique {cs : List Char} {o : Except LexicalFault (List OpenBracket)} {scanned f f' : Option LexicalFault}
    (h : Ends cs o scanned f) (h' : Ends cs o scanned f') : f = f' := by
  cases h <;> cases h' <;> rfl

def stopAt (cs : List Char) : Option LexicalFault → Nat
  | none => byteSize cs
  | some f => f.span.stop

lemma tokenizeChars_eq (letInsertion : Bool) (cs : List Char) :
    ∃ fault, Ends cs ((Layout.ofText letInsertion cs).arrange [] [] (scanFrom 0 cs).1).2 (scanFrom 0 cs).2 fault ∧
      tokenizeChars letInsertion cs =
        ⟨((Layout.ofText letInsertion cs).arrange [] [] (scanFrom 0 cs).1).1.reverse ++
          [⟨.eof, .point (stopAt cs fault), false⟩], fault⟩ := by
  have hscan : (Window.atStart cs).scan = (sightings cs (scanFrom 0 cs).1, ending cs (scanFrom 0 cs).2) :=
    (Window.at_atStart cs).scan
  have harrange : arrange letInsertion [] [] (sightings cs (scanFrom 0 cs).1) =
      (Layout.ofText letInsertion cs).arrange [] [] (scanFrom 0 cs).1 := rfl
  simp only [tokenizeChars, hscan, harrange]
  generalize (Layout.ofText letInsertion cs).arrange [] [] (scanFrom 0 cs).1 = r
  generalize (scanFrom 0 cs).2 = scanned
  obtain ⟨program, outcome⟩ := r
  cases outcome with
  | error f => exact ⟨some f, .layout, by rw [List.reverse_cons]; rfl⟩
  | ok brackets => cases scanned with
    | some f => exact ⟨some f, .scanner, by rw [List.reverse_cons]; rfl⟩
    | none => cases brackets with
      | nil => exact ⟨none, .none, by rw [List.reverse_cons]; rfl⟩
      | cons b brackets => exact ⟨_, .unclosed, by rw [List.reverse_cons]; rfl⟩

lemma Symbol.closer?_of_isCloser (h : s.isCloser = true) : s.closer? = none := by
  cases s <;> first | rfl | simp [isCloser] at h

namespace Token

variable {t : Token}

def closer? : Token → Option Symbol
  | .symbol s => s.closer?
  | _ => none

def isCloser : Token → Bool
  | .symbol s => s.isCloser
  | _ => false

lemma closer?_symbol (s : Symbol) : (symbol s).closer? = s.closer? := rfl

lemma isCloser_symbol (s : Symbol) : (symbol s).isCloser = s.isCloser := rfl

lemma closer?_of_isCloser (h : t.isCloser = true) : t.closer? = none := by
  cases t with
  | symbol s => exact Symbol.closer?_of_isCloser h
  | _ => rfl

lemma isCloser_of_closer? {closer : Symbol} (h : t.closer? = some closer) : t.isCloser = false := by
  by_contra hc
  rw [closer?_of_isCloser (by simpa using hc)] at h
  contradiction

lemma bracket_of_isPlain (h : t.isPlain = true) : t.closer? = none ∧ t.isCloser = false := by
  cases t with
  | symbol s => cases s <;> first | exact ⟨rfl, rfl⟩ | simp [isPlain, Symbol.closer?, Symbol.isCloser] at h
  | _ => exact ⟨rfl, rfl⟩

end Token

/-- The brackets that are open after some tokens, last token first; the innermost bracket is the first. -/
def openBrackets : List Lexeme → List Lexeme
  | [] => []
  | l :: before =>
    if l.token.closer?.isSome then l :: openBrackets before
    else if l.token.isCloser then (openBrackets before).tail
    else openBrackets before

section openBrackets

variable {l : Lexeme} (before : List Lexeme)

lemma openBrackets_open {closer : Symbol} (h : l.token.closer? = some closer) :
    openBrackets (l :: before) = l :: openBrackets before := by simp [openBrackets, h]

lemma openBrackets_close (h : l.token.isCloser = true) : openBrackets (l :: before) = (openBrackets before).tail := by
  simp [openBrackets, h, Token.closer?_of_isCloser h]

lemma openBrackets_other (h : l.token.closer? = none ∧ l.token.isCloser = false) :
    openBrackets (l :: before) = openBrackets before := by simp [openBrackets, h.1, h.2]

lemma openBrackets_withLet (y : Layout) : openBrackets (y.withLet before) = openBrackets before := by
  obtain h | ⟨name, span, a, rest, rfl, h⟩ := y.withLet_cases before
  · rw [h]
  · rw [h, openBrackets_other _ ⟨rfl, rfl⟩, openBrackets_other _ ⟨rfl, rfl⟩, openBrackets_other _ ⟨rfl, rfl⟩]

end openBrackets

structure OpenBracket.Opened (b : OpenBracket) (l : Lexeme) : Prop where
  closer : l.token.closer? = some b.closer
  span : l.span = b.span

end ScriptMachine
