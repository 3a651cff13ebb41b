import ScriptMachine.Proofs.Desugaring
import ScriptMachine.Proofs.Enclosure
import ScriptMachine.Proofs.Nesting

/-! A text without comments gives the same tokens on its own, after an operator and between parentheses, but for the
`let` that a name at its start may get. -/

namespace ScriptMachine

open List

variable {inner' : List Lexeme}

def hasComment : List Char → Bool
  | [] => false
  | c :: cs => c == '#' || hasComment (cs.drop (Piece.read c cs).2)
termination_by cs => cs.length
decreasing_by simp only [length_drop, length_cons]; omega

lemma scanFrom_concat {offset : Nat} {p : List Char} (hp : hasComment p = false) (h : (scanFrom offset p).2 = none) :
    ScansTo offset (p ++ [')']) (scanFrom offset p).1 (offset + byteSize p) [')'] := by
  have hcut {c : Char} {cs : List Char} {piece : Piece} {n : Nat} (hp : hasComment (c :: cs) = false)
      (hread : Piece.read c cs = (piece, n)) (hok : ∀ cause, piece ≠ .fault cause) :
      Piece.read c (cs ++ [')']) = (piece, n) ∧ (cs ++ [')']).take n = cs.take n ∧
        (cs ++ [')']).drop n = cs.drop n ++ [')'] ∧ hasComment (cs.drop n) = false := by
    rw [hasComment, hread, Bool.or_eq_false_iff] at hp
    obtain ⟨hconcat, htake, hdrop⟩ := Piece.read_append (s := [')']) hread hok (fun hc => by simp [hc] at hp) fun _ =>
      Piece.ahead_append_cons (by decide) _ _
    exact ⟨hconcat, htake, hdrop, hp.2⟩
  rw [ScansTo]
  fun_induction scanFrom offset p with
  | case1 => rfl
  | case2 offset c cs piece count stop hpiece ih =>
    obtain ⟨hread, htake, hdrop, hrest⟩ := hcut hp (Prod.ext hpiece rfl : Piece.read c cs = (.gap, count)) (by simp)
    rw [cons_append, scanFrom_gap _ hread, htake, hdrop, ih hrest h, Nat.add_assoc, byteSize_take_drop]
  | case3 offset c cs piece count stop t hpiece rest ih =>
    obtain ⟨hread, htake, hdrop, hrest⟩ := hcut hp (Prod.ext hpiece rfl : Piece.read c cs = (.token t, count)) (by simp)
    rw [cons_append, scanFrom_token _ hread, htake, hdrop, ih hrest h, Nat.add_assoc, byteSize_take_drop]
    rfl
  | case4 offset c cs piece count stop cause hpiece => simp at h

structure Lexeme.Same (l m : Lexeme) : Prop where
  token : l.token = m.token
  augmented : l.augmented = m.augmented
  implicit : l.isImplicit = m.isImplicit

lemma Lexeme.token_of_isImplicit {l : Lexeme} (h : l.isImplicit = true) : l.token = .keyword .let_ :=
  Token.eq_of_isKeyword (Bool.and_eq_true_iff.1 h).1

lemma isImplicit_point (offset : Nat) : (⟨.keyword .let_, .point offset, false⟩ : Lexeme).isImplicit = true := by
  simp [Lexeme.isImplicit, Token.isKeyword, Span.point]

lemma Lexeme.same_shift (l : Lexeme) (k : Nat) : l.Same (l.shift k) where
  token := rfl
  augmented := rfl
  implicit := by
    have hspan : (l.span.start == l.span.stop) = (l.span.start + k == l.span.stop + k) :=
      Bool.eq_iff_iff.2 (by simp)
    simp only [isImplicit, shift, Span.shift, hspan]

namespace Layout

variable {P₁ : List Lexeme}

def Inside (program : List Lexeme) : Prop :=
  ∃ l ∈ program.head?, l.token.endsStatement = false ∧ ∀ name, l.token ≠ .ident name

variable {y y' : Layout} {program rest F K P Q : List Lexeme} {brackets brackets' : List OpenBracket}
  {r : Arranged}

lemma Inside.lastName? (h : Inside P) : lastName? P = none := by
  obtain ⟨⟨t, span, a⟩, hl, -, hname⟩ := h
  obtain ⟨before, rfl⟩ := head?_eq_some_iff.1 hl
  cases t with
  | ident name => exact absurd rfl (hname name)
  | _ => rfl

lemma withLet_ident (hy : y.letInsertion = true) (name : String) (span : Span) (a : Bool) (before : List Lexeme) :
    y.withLet (⟨.ident name, span, a⟩ :: before) =
      if before.head?.all (·.token.endsStatement) then
        ⟨.ident name, span, a⟩ :: ⟨.keyword .let_, .point span.start, false⟩ :: before
      else ⟨.ident name, span, a⟩ :: before := by
  rw [withLet, if_pos hy]
  cases before <;> rfl

lemma withLet_other {t : Token} (h : ∀ name, t ≠ .ident name) (span : Span) (a : Bool) (before : List Lexeme) :
    y.withLet (⟨t, span, a⟩ :: before) = ⟨t, span, a⟩ :: before := by
  unfold withLet
  split
  · cases t with
    | ident name => exact absurd rfl (h name)
    | _ => rfl
  · rfl

lemma Inside.withLet (h : Inside P) (y : Layout) : y.withLet P = P := by
  obtain ⟨⟨t, span, a⟩, hl, -, hname⟩ := h
  obtain ⟨before, rfl⟩ := head?_eq_some_iff.1 hl
  exact withLet_other hname span a before

lemma mem_withLet {l : Lexeme} (h : l ∈ program) : l ∈ y.withLet program := by
  obtain heq | ⟨name, span, a, before, rfl, heq⟩ := y.withLet_cases program
  · rwa [heq]
  · rw [heq]
    rcases mem_cons.1 h with rfl | h
    · exact mem_cons_self
    · exact .tail _ (.tail _ h)

lemma Arranges.subset (h : y.Arranges program brackets rest r) : program ⊆ r.1 := by
  induction h with
  | done | unmatched | mismatched => exact List.Subset.refl _
  | keepBreak _ _ _ ih | open_ _ _ _ ih | close _ _ _ _ ih | keep _ _ _ ih => exact fun l hl => ih (.tail _ hl)
  | dropBreak _ _ _ ih => exact ih
  | assign _ _ ih => exact fun l hl => ih (.tail _ (mem_withLet hl))
  | join _ _ _ _ _ _ ih => exact fun l hl => ih (.tail _ (.tail _ (.tail _ (mem_withLet hl))))

section context

variable (hP : P = [] ∨ Inside P) (hQ : Inside Q) (hF : Forall₂ Lexeme.Same F K)
include hP hQ hF

lemma lastName?_append : (lastName? (F ++ P)).map Prod.fst = (lastName? (K ++ Q)).map Prod.fst := by
  cases hF with
  | nil =>
    rw [nil_append, nil_append, hQ.lastName?]
    rcases hP with rfl | hP
    · rfl
    · rw [hP.lastName?]
  | @cons l m _ _ hl _ =>
    obtain ⟨t, span, a⟩ := l
    obtain ⟨t', span', a'⟩ := m
    obtain rfl : t = t' := hl.token
    cases t <;> rfl

lemma withLet_append (hy : y.letInsertion = true) (hy' : y'.letInsertion = true) :
    ∃ F' K' P', y.withLet (F ++ P) = F' ++ P' ∧ y'.withLet (K ++ Q) = K' ++ Q ∧ Forall₂ Lexeme.Same F' K' ∧
      (∀ e n, e.token = .symbol .assign → [e, n] <:+ K → [e, n] <:+ K') ∧
      (P' = P ∨ P = [] ∧ (∃ l : Lexeme, P' = [l] ∧ l.isImplicit = true) ∧
        ∃ n : Lexeme, K' = [n] ∧ ∃ name, n.token = .ident name) := by
  obtain ⟨q, hq, hqends, -⟩ := id hQ
  have hQends : Q.head?.all (·.token.endsStatement) = false := by rw [Option.mem_def.1 hq, Option.all_some, hqends]
  have hsame := hF
  cases hF with
  | nil =>
    refine ⟨[], [], P, ?_, hQ.withLet y', .nil, fun _ _ _ h => h, .inl rfl⟩
    rcases hP with rfl | hP
    · rw [append_nil, withLet, if_pos hy]
      rfl
    · exact hP.withLet y
  | @cons l m F K hl hrest =>
    obtain ⟨t, span, a⟩ := l
    obtain ⟨t', span', a'⟩ := m
    obtain rfl : t = t' := hl.token
    by_cases hname : ∃ name, t = .ident name
    · obtain ⟨name, rfl⟩ := hname
      rw [cons_append, cons_append, withLet_ident hy, withLet_ident hy']
      cases hrest with
      | nil =>
        simp only [nil_append, hQends, Bool.false_eq_true, if_false]
        rcases hP with rfl | hP
        · exact ⟨[_], [_], [⟨.keyword .let_, .point span.start, false⟩], rfl, rfl, .cons hl .nil, fun _ _ _ h => h,
            .inr ⟨rfl, ⟨_, rfl, isImplicit_point _⟩, _, rfl, name, rfl⟩⟩
        · obtain ⟨p, hp, hpends, -⟩ := hP
          simp only [Option.mem_def.1 hp, Option.all_some, hpends, Bool.false_eq_true, if_false]
          exact ⟨[_], [_], P, rfl, rfl, .cons hl .nil, fun _ _ _ h => h, .inl rfl⟩
      | @cons l m F K hl' hrest =>
        simp only [cons_append, head?_cons, Option.all_some, ← hl'.token]
        by_cases hends : l.token.endsStatement = true
        · have hpoint := (isImplicit_point span.start).trans (isImplicit_point span'.start).symm
          simp only [hends, if_true]
          refine ⟨_ :: _ :: _ :: F, _ :: _ :: _ :: K, P, rfl, rfl,
            .cons hl (.cons ⟨rfl, rfl, hpoint⟩ (.cons hl' hrest)),
            fun e n he hs => ?_, .inl rfl⟩
          rcases suffix_cons_iff.1 hs with heq | hs
          · rw [(List.cons.inj heq).1] at he
            contradiction
          · exact hs.trans ⟨[_, _], rfl⟩
        · simp only [hends, Bool.false_eq_true, if_false]
          exact ⟨_ :: _ :: F, _ :: _ :: K, P, rfl, rfl, hsame, fun _ _ _ h => h, .inl rfl⟩
    · have hother (name : String) : t ≠ .ident name := fun h => hname ⟨name, h⟩
      rw [cons_append, cons_append, withLet_other hother, withLet_other hother]
      exact ⟨_ :: F, _ :: K, P, rfl, rfl, hsame, fun _ _ _ h => h, .inl rfl⟩

end context

def LedBy (P P' K : List Lexeme) : Prop :=
  P' = P ∨ P = [] ∧ ∃ l e n : Lexeme, P' = [l] ∧ l.isImplicit = true ∧ [e, n] <:+ K ∧ e.token = .symbol .assign ∧
    ∃ name, n.token = .ident name

lemma LedBy.after {P' K₁ K' : List Lexeme} {e : Lexeme} (h : LedBy P₁ P' K')
    (hP : P₁ = P ∨ P = [] ∧ (∃ l : Lexeme, P₁ = [l] ∧ l.isImplicit = true) ∧ ∃ n : Lexeme, K₁ = [n] ∧
      ∃ name, n.token = .ident name)
    (he : e.token = .symbol .assign) (hs : ∀ n, K₁ = [n] → [e, n] <:+ K') : LedBy P P' K' := by
  rcases hP with rfl | ⟨rfl, ⟨l, rfl, hl⟩, n, hn, hname⟩
  · exact h
  · rcases h with rfl | ⟨hnil, -⟩
    · exact .inr ⟨rfl, l, e, n, rfl, hl, hs n hn, he, hname⟩
    · exact absurd hnil (cons_ne_nil _ _)

lemma inside_of_let {C : Prop} (hP : P = [] ∨ Inside P)
    (h : P₁ = P ∨ P = [] ∧ (∃ l : Lexeme, P₁ = [l] ∧ l.isImplicit = true) ∧ C) : P₁ = [] ∨ Inside P₁ := by
  rcases h with rfl | ⟨-, ⟨l, rfl, hl⟩, -⟩
  · exact hP
  · exact .inr ⟨l, rfl, by rw [Lexeme.token_of_isImplicit hl]; rfl, by rw [Lexeme.token_of_isImplicit hl]; simp⟩

lemma Arranges.carry_from {D : List OpenBracket} (h : y.Arranges program brackets rest r) (hy : y.letInsertion = true)
    (hy' : y'.letInsertion = true) (k : Nat) (hr : r.2 = .ok []) (hnew : ∀ l ∈ r.1, l.token ≠ .newline) (hQ : Inside Q)
    (hP : P = [] ∨ Inside P) (hprogram : program = F ++ P) (hF : Forall₂ Lexeme.Same F K)
    (hb : brackets.map OpenBracket.closer = brackets'.map OpenBracket.closer) :
    ∃ F' K' P', r.1 = F' ++ P' ∧ Forall₂ Lexeme.Same F' K' ∧
      y'.Arranges (K ++ Q) (brackets' ++ D) (rest.map (·.shift k)) (K' ++ Q, .ok D) ∧
      (∀ e n, e.token = .symbol .assign → [e, n] <:+ K → [e, n] <:+ K') ∧ LedBy P P' K' := by
  -- a line break stays where it is put, and there is none in the end
  have hbreak {program : List Lexeme} (hsub : program ⊆ r.1) : program.head?.any (·.token.isNewline) = false := by
    cases program with
    | nil => rfl
    | cons l program =>
      have hl := hnew l (hsub mem_cons_self)
      cases ht : l.token with
      | newline => exact absurd ht hl
      | _ => simp [ht, Token.isNewline]
  induction h generalizing F K P brackets' with
  | done =>
    obtain rfl : brackets' = [] := by
      cases hr
      simpa using hb.symm
    exact ⟨F, K, P, hprogram, hF, .done, fun _ _ _ h => h, .inl rfl⟩
  | @keepBreak program l rest r hl hp h ih => exact absurd hl (hnew l (h.subset mem_cons_self))
  | @dropBreak program brackets l rest r hl hdrop h ih =>
    obtain ⟨F', K', P', hr', hF', harranges, hsuffix, hled⟩ := ih hr hnew hP hprogram hF hb hbreak
    refine ⟨F', K', P', hr', hF', .dropBreak hl (.inl ?_) harranges, hsuffix, hled⟩
    have hne : brackets ≠ [] := hdrop.resolve_right (by rw [hbreak h.subset]; simp)
    rintro hnil
    obtain ⟨rfl, -⟩ := append_eq_nil_iff.1 hnil
    exact hne (by simpa using hb)
  | @assign program brackets l rest r hl h ih =>
    subst hprogram
    obtain ⟨F₁, K₁, P₁, hF₁, hK₁, hsame, hkeeps, hP₁⟩ := withLet_append hP hQ hF hy hy'
    rw [hF₁] at ih
    obtain ⟨F', K', P', hr', hF', harranges, hsuffix, hled⟩ :=
      ih (F := l :: F₁) hr hnew (inside_of_let hP hP₁) rfl (.cons (l.same_shift k) hsame) hb hbreak
    refine ⟨F', K', P', hr', hF', .assign hl (hK₁ ▸ harranges), fun e n he hs => ?_,
      hled.after (e := l.shift k) hP₁ hl fun n hn => ?_⟩
    · exact hsuffix e n he ((hkeeps e n he hs).trans (suffix_cons _ _))
    · exact hsuffix _ n hl (hn ▸ suffix_rfl)
  | @open_ program brackets l s closer rest r hl hc h ih =>
    have hb' : (y.opened closer l.span :: brackets).map OpenBracket.closer =
        (y'.opened closer (l.span.shift k) :: brackets').map OpenBracket.closer := by simp [hb]
    obtain ⟨F', K', P', hr', hF', harranges, hsuffix, hled⟩ := ih (F := l :: F) hr hnew hP (hprogram ▸ rfl)
      (.cons (l.same_shift k) hF) hb' hbreak
    exact ⟨F', K', P', hr', hF', .open_ hl hc harranges, fun e n he hs => hsuffix e n he (hs.trans (suffix_cons _ _)),
      hled⟩
  | @close program b brackets l s rest r hl hs hbs h ih =>
    obtain ⟨b', brackets', rfl, hb', hrest⟩ := map_eq_cons_iff.1 hb.symm
    obtain ⟨F', K', P', hr', hF', harranges, hsuffix, hled⟩ := ih (F := l :: F) hr hnew hP (hprogram ▸ rfl)
      (.cons (l.same_shift k) hF) hrest.symm hbreak
    exact ⟨F', K', P', hr', hF', .close hl hs (hb'.trans hbs) harranges,
      fun e n he hs => hsuffix e n he (hs.trans (suffix_cons _ _)), hled⟩
  | unmatched | mismatched => contradiction
  | @join program brackets l s e name span rest r hl hs he hj hname h ih =>
    subst hprogram
    obtain ⟨span', hname'⟩ : ∃ span', lastName? (K ++ Q) = some (name, span') := by
      have hfirst := lastName?_append hP hQ hF
      rw [hname] at hfirst
      obtain ⟨⟨_, span'⟩, hname', rfl⟩ := Option.map_eq_some_iff.1 hfirst.symm
      exact ⟨span', hname'⟩
    obtain ⟨F₁, K₁, P₁, hF₁, hK₁, hsame, hkeeps, hP₁⟩ := withLet_append hP hQ hF hy hy'
    rw [hF₁] at ih
    obtain ⟨F', K', P', hr', hF', harranges, hsuffix, hled⟩ :=
      ih (F := ⟨.symbol s, l.span, true⟩ :: ⟨.ident name, span, false⟩ :: e :: F₁)
        (K := ⟨.symbol s, l.span.shift k, true⟩ :: ⟨.ident name, span', false⟩ :: e.shift k :: K₁) hr hnew
        (inside_of_let hP hP₁) rfl (.cons ⟨rfl, rfl, rfl⟩ (.cons ⟨rfl, rfl, rfl⟩ (.cons (e.same_shift k) hsame)))
          hb hbreak
    refine ⟨F', K', P', hr', hF', .join hl hs he (congrArg (· + k) hj) hname' (hK₁ ▸ harranges), fun e' n he' hs' => ?_,
      hled.after (e := e.shift k) hP₁ he fun n hn => ?_⟩
    · exact hsuffix e' n he' ((hkeeps e' n he' hs').trans ⟨[_, _, _], rfl⟩)
    · exact hsuffix _ n he ⟨[_, _], by rw [hn]; rfl⟩
  | @keep program brackets l rest r hl hnot h ih =>
    subst hprogram
    obtain ⟨F', K', P', hr', hF', harranges, hsuffix, hled⟩ := ih (F := l :: F) hr hnew hP rfl
      (.cons (l.same_shift k) hF) hb hbreak
    refine ⟨F', K', P', hr', hF', .keep hl (fun e he haug hassign hj => ?_) harranges,
      fun e n he hs => hsuffix e n he (hs.trans (suffix_cons _ _)), hled⟩
    obtain ⟨e, he', rfl⟩ := Option.map_eq_some_iff.1 (head?_map ▸ he)
    have hname := hnot e he' haug hassign (Nat.add_right_cancel hj)
    have hfirst := lastName?_append hP hQ hF
    rw [hname] at hfirst
    exact Option.map_eq_none_iff.1 hfirst.symm

lemma Arranges.carry (h : y.Arranges P [] rest r) (hy : y.letInsertion = true) (hy' : y'.letInsertion = true) (k : Nat)
    (D : List OpenBracket) (hr : r.2 = .ok []) (hnew : ∀ l ∈ r.1, l.token ≠ .newline) (hQ : Inside Q)
    (hP : P = [] ∨ Inside P) : ∃ F K P', r.1 = F ++ P' ∧ Forall₂ Lexeme.Same F K ∧
      y'.Arranges Q D (rest.map (·.shift k)) (K ++ Q, .ok D) ∧ LedBy P P' K := by
  have hnil : ([] : List OpenBracket).map OpenBracket.closer = ([] : List OpenBracket).map OpenBracket.closer := rfl
  obtain ⟨F, K, P', hF, hsame, harranges, -, hled⟩ :=
    h.carry_from hy hy' k hr hnew hQ hP (nil_append P).symm .nil hnil
  exact ⟨F, K, P', hF, hsame, harranges, hled⟩

end Layout

/-- A text that can be put between parentheses. Its brackets are nested, since it has no fault. -/
structure Enclosable (e : String) : Prop where
  fault : (tokenize e).fault = none
  comment : hasComment e.toList = false
  newline : ∀ l ∈ (tokenize e).lexemes, l.token ≠ .newline

instance (e : String) : Decidable (Enclosable e) :=
  decidable_of_iff ((tokenize e).fault.isNone = true ∧ hasComment e.toList = false ∧
      ∀ l ∈ (tokenize e).lexemes, l.token.isNewline = false) <| by
    simp only [Option.isNone_iff_eq_none, Token.isNewline_eq_false_iff]
    exact ⟨fun ⟨hfault, hcomment, hnewline⟩ => ⟨hfault, hcomment, hnewline⟩, fun h => ⟨h.fault, h.comment, h.newline⟩⟩

structure Enclosed (e : String) (inner inner' : List Lexeme) : Prop where
  same : Forall₂ Lexeme.Same inner inner'
  newline : ∀ l ∈ inner, l.token ≠ .newline
  nested : dueAfter [] (bracketsOf inner') = some []
  alone : (∃ own place, (tokenize e).lexemes = own ++ [⟨.eof, place, false⟩] ∧ Forall₂ Lexeme.Same own inner) ∨
    (tokenize e).lexemes.head?.any Lexeme.isImplicit = true ∧ ∃ (n q : Lexeme) (rest : List Lexeme) (name : String),
      inner = n :: q :: rest ∧ n.token = .ident name ∧ q.token = .symbol .assign

lemma bracketsOf_of_same {inner : List Lexeme} (h : Forall₂ Lexeme.Same inner inner') :
    bracketsOf inner = bracketsOf inner' := by
  induction h with
  | nil => rfl
  | cons hl _ ih => rw [bracketsOf_cons, bracketsOf_cons, hl.token, ih]

lemma newline_of_same {inner : List Lexeme} (h : Forall₂ Lexeme.Same inner inner')
    (hn : ∀ l ∈ inner, l.token ≠ .newline) : ∀ l ∈ inner', l.token ≠ .newline := by
  induction h with
  | nil => exact forall_mem_nil _
  | cons hl _ ih =>
    obtain ⟨hfirst, hrest⟩ := forall_mem_cons.1 hn
    exact forall_mem_cons.2 ⟨hl.token ▸ hfirst, ih hrest⟩

lemma arranged_of_fault {e : String} (hfault : (tokenize e).fault = none) : ∃ program place,
    (tokenize e).lexemes = program.reverse ++ [⟨.eof, place, false⟩] ∧ (scanFrom 0 e.toList).2 = none ∧
      (Layout.ofText true e.toList).Arranges [] [] (scanFrom 0 e.toList).1 (program, .ok []) := by
  obtain ⟨fault, hends, heq⟩ := tokenizeChars_eq true e.toList
  have harranges := (Layout.ofText true e.toList).arranges [] [] (scanFrom 0 e.toList).1
  rw [tokenize, heq] at hfault ⊢
  obtain rfl : fault = none := hfault
  generalize (Layout.ofText true e.toList).arrange [] [] (scanFrom 0 e.toList).1 = r at *
  obtain ⟨program, outcome⟩ := r
  generalize hscanned : (scanFrom 0 e.toList).2 = scanned at hends
  cases hends with
  | none => exact ⟨program, _, rfl, rfl, harranges⟩

lemma Enclosable.scanned {e : String} (h : Enclosable e) (k : Nat) : (scanFrom k e.toList).2 = none := by
  obtain ⟨-, -, -, hscan, -⟩ := arranged_of_fault h.fault
  have hadd := congrArg Prod.snd (scanFrom_add 0 k e.toList)
  rwa [Nat.zero_add, hscan] at hadd

lemma tokenizeChars_of_arranges {cs : List Char} {scanned program : List Lexeme}
    (hscan : scanFrom 0 cs = (scanned, none))
    (h : (Layout.ofText true cs).Arranges [] [] scanned (program, .ok [])) :
    ∃ place, tokenizeChars true cs = ⟨program.reverse ++ [⟨.eof, place, false⟩], none⟩ := by
  obtain ⟨fault, hends, heq⟩ := tokenizeChars_eq true cs
  rw [hscan, h.eq] at hends heq
  cases hends with
  | none => exact ⟨_, heq⟩

lemma Enclosable.enclosed {e : String} (h : Enclosable e) (cs cs' : List Char) {Q Q' : List Lexeme}
    (hQ : Layout.Inside Q) (hQ' : Layout.Inside Q') (hnew : ∀ l ∈ Q, l.token ≠ .newline) (k j : Nat)
    (D : List OpenBracket) : ∃ inner inner',
      (Layout.ofText true cs).Arranges Q [] (scanFrom k e.toList).1 (inner.reverse ++ Q, .ok []) ∧
      (Layout.ofText true cs').Arranges Q' D (scanFrom (k + j) e.toList).1 (inner'.reverse ++ Q', .ok D) ∧
      Enclosed e inner inner' := by
  obtain ⟨program, place, hlexemes, -, harranges⟩ := arranged_of_fault h.fault
  have hprogram : ∀ l ∈ program, l.token ≠ .newline := fun l hl => h.newline l (by simp [hlexemes, hl])
  have hshift (k j : Nat) : (scanFrom (k + j) e.toList).1 = (scanFrom k e.toList).1.map (·.shift j) :=
    congrArg Prod.fst (scanFrom_add k j e.toList)
  have hlet (cs : List Char) : (Layout.ofText true cs).letInsertion = true := rfl
  -- on its own, inside a statement, and between parentheses
  obtain ⟨A, K, P, hA, hsame, hK, hled⟩ := harranges.carry rfl (hlet cs) k [] rfl hprogram hQ (.inl rfl)
  rw [← hshift, Nat.zero_add] at hK
  obtain rfl : program = A ++ P := hA
  have hKnew := newline_of_same hsame fun l hl => hprogram l (mem_append_left _ hl)
  obtain ⟨A', K', P', hA', hsame', hK', hled'⟩ :=
    hK.carry rfl (hlet cs') j D rfl (fun l hl => (mem_append.1 hl).elim (hKnew l) (hnew l)) hQ' (.inr hQ)
  rw [← hshift] at hK'
  obtain rfl : P' = Q := hled'.resolve_right fun hnil => by
    obtain ⟨l, hl, -⟩ := hQ
    simp [hnil.1] at hl
  obtain rfl : K = A' := append_cancel_right hA'
  have hbrackets : bracketsOf (A ++ P).reverse = bracketsOf K'.reverse := by
    have hinner := (bracketsOf_of_same (forall₂_reverse_iff.2 hsame)).trans
      (bracketsOf_of_same (forall₂_reverse_iff.2 hsame'))
    have hlead : bracketsOf P.reverse = [] := by
      rcases hled with rfl | ⟨-, l, _, _, rfl, hl, -⟩
      · rfl
      · have ht := Lexeme.token_of_isImplicit hl
        exact bracketsOf_other ⟨by rw [ht]; rfl, by rw [ht]; rfl⟩
    rw [reverse_append, bracketsOf_append, hlead, hinner, nil_append]
  refine ⟨K.reverse, K'.reverse, by simpa using hK, by simpa using hK', forall₂_reverse_iff.2 hsame',
    fun l hl => hKnew l (by simpa using hl), ?_, ?_⟩
  · obtain ⟨hdisciplined, hopen⟩ := harranges.conforms .nil .nil
    rw [← hbrackets, hdisciplined.due_eq, forall₂_nil_left_iff.1 hopen]
    rfl
  · rcases hled with rfl | ⟨-, l, q, n, rfl, hl, ⟨front, rfl⟩, hq, name, hn⟩
    · refine .inl ⟨A.reverse, place, ?_, forall₂_reverse_iff.2 hsame⟩
      rw [hlexemes, append_nil]
    · exact .inr ⟨by simp [hlexemes, hl], n, q, front.reverse, name, by simp, hn, hq⟩

section assignments

variable {x e : String} {s : Symbol} {inner lexemes : List Lexeme}

def updateText (x : String) (s : Symbol) (e : String) : String := x ++ " " ++ s.text ++ "= " ++ e

def spelledText (x : String) (s : Symbol) (e : String) : String := x ++ " = " ++ x ++ " " ++ s.text ++ " (" ++ e ++ ")"

def IsUpdate (x : String) (s : Symbol) (inner lexemes : List Lexeme) : Prop :=
  ∃ head op stop, lexemes = head ++ op :: (inner ++ [stop]) ∧
    Forall₂ Lexeme.Spells head [.keyword .let_, .ident x, .symbol .assign, .ident x] ∧
    op.token = .symbol s ∧ op.augmented = true ∧ stop.Spells .eof

def IsSpelledOut (x : String) (s : Symbol) (inner lexemes : List Lexeme) : Prop :=
  ∃ head closer stop, lexemes = head ++ (inner ++ [closer, stop]) ∧
    Forall₂ Lexeme.Spells head
      [.keyword .let_, .ident x, .symbol .assign, .ident x, .symbol s, .symbol .leftParen] ∧
    closer.Spells (.symbol .rightParen) ∧ stop.Spells .eof

lemma newline_of_spells {head : List Lexeme} {ts : List Token} (h : Forall₂ Lexeme.Spells head ts)
    (hts : .newline ∉ ts) : ∀ l ∈ head, l.token ≠ .newline := by
  induction h with
  | nil => exact forall_mem_nil _
  | cons hl _ ih =>
    obtain ⟨hfirst, hrest⟩ := not_or.1 (mt mem_cons.2 hts)
    exact forall_mem_cons.2 ⟨hl.1 ▸ Ne.symm hfirst, ih hrest⟩

lemma IsUpdate.newline (h : IsUpdate x s inner lexemes) (hinner : ∀ l ∈ inner, l.token ≠ .newline) :
    ∀ l ∈ lexemes, l.token ≠ .newline := by
  obtain ⟨head, op, stop, rfl, hhead, hop, -, hstop⟩ := h
  intro l hl
  simp only [mem_append, mem_cons, not_mem_nil, or_false] at hl
  rcases hl with hl | rfl | hl | rfl
  · exact newline_of_spells hhead (by simp) l hl
  · rw [hop]
    simp
  · exact hinner l hl
  · rw [hstop.1]
    simp

lemma IsSpelledOut.newline (h : IsSpelledOut x s inner lexemes) (hinner : ∀ l ∈ inner, l.token ≠ .newline) :
    ∀ l ∈ lexemes, l.token ≠ .newline := by
  obtain ⟨head, closer, stop, rfl, hhead, hcloser, hstop⟩ := h
  intro l hl
  simp only [mem_append, mem_cons, not_mem_nil, or_false] at hl
  rcases hl with hl | hl | rfl | rfl
  · exact newline_of_spells hhead (by simp) l hl
  · exact hinner l hl
  · rw [hcloser.1]
    simp
  · rw [hstop.1]
    simp

lemma scansTo_leftParen (offset : Nat) (rest : List Char) :
    ScansTo offset ('(' :: rest) [⟨.symbol .leftParen, ⟨offset, offset + 1⟩, false⟩] (offset + 1) rest :=
  scanFrom_token (n := 0) (t := .symbol .leftParen) offset (by cases rest <;> rfl)

lemma scanFrom_rightParen (offset : Nat) :
    scanFrom offset [')'] = ([⟨.symbol .rightParen, ⟨offset, offset + 1⟩, false⟩], none) := by
  rw [scanFrom_token (n := 0) (t := .symbol .rightParen) offset rfl, drop_nil, scanFrom]
  rfl

lemma scansTo_update (hx : isName x = true) (hs : s.augmentable = true) (r : List Char) : ∃ xspan lspan espan,
    espan.start = lspan.stop ∧ ScansTo 0 (x.toList ++ ' ' :: (s.text.toList ++ '=' :: ' ' :: r))
      [⟨.ident x, xspan, false⟩, ⟨.symbol s, lspan, false⟩, ⟨.symbol .assign, espan, false⟩]
      (byteSize x.toList + byteSize s.text.toList + 3) r := by
  have hscan := (@scansTo_name x (' ' :: (s.text.toList ++ '=' :: ' ' :: r)) 0 hx (by simp; rfl)).trans
    ((scansTo_space _ _).trans ((scansTo_operator _ hs (.inr rfl) (' ' :: r)).trans
      ((scansTo_assign _ _).trans (scansTo_space _ r))))
  have hoffset : 0 + byteSize x.toList + 1 + byteSize s.text.toList + 1 + 1 =
      byteSize x.toList + byteSize s.text.toList + 3 := by omega
  exact ⟨_, _, _, rfl, hoffset ▸ hscan⟩

lemma scansTo_spelledOut (hx : isName x = true) (hs : s.augmentable = true) (r : List Char) :
    ∃ xspan espan yspan lspan pspan, pspan.start ≠ lspan.stop ∧
      ScansTo 0 (x.toList ++ ' ' :: '=' :: ' ' :: (x.toList ++ ' ' :: (s.text.toList ++ ' ' :: '(' :: r)))
        [⟨.ident x, xspan, false⟩, ⟨.symbol .assign, espan, false⟩, ⟨.ident x, yspan, false⟩, ⟨.symbol s, lspan, false⟩,
          ⟨.symbol .leftParen, pspan, false⟩]
        (byteSize x.toList + byteSize s.text.toList + 3 + (byteSize x.toList + 3)) r := by
  have hscan := (@scansTo_name x (' ' :: '=' :: ' ' :: (x.toList ++ ' ' :: (s.text.toList ++ ' ' :: '(' :: r))) 0 hx
    (by simp; rfl)).trans ((scansTo_space _ _).trans ((scansTo_assign _ _).trans ((scansTo_space _ _).trans
      ((scansTo_name _ hx (by simp; rfl)).trans ((scansTo_space _ _).trans
        ((scansTo_operator _ hs (.inl rfl) ('(' :: r)).trans ((scansTo_space _ _).trans (scansTo_leftParen _ r))))))))
  have hoffset : 0 + byteSize x.toList + 1 + 1 + 1 + byteSize x.toList + 1 + byteSize s.text.toList + 1 + 1 =
      byteSize x.toList + byteSize s.text.toList + 3 + (byteSize x.toList + 3) := by omega
  exact ⟨_, _, _, _, _, Nat.succ_ne_self _, hoffset ▸ hscan⟩

lemma endsStatement_of_augmentable (hs : s.augmentable = true) : (Token.symbol s).endsStatement = false := by
  cases s <;> first | rfl | contradiction

lemma tokenize_update (hx : isName x = true) (hs : s.augmentable = true) (he : Enclosable e) :
    ∃ Q, Layout.Inside Q ∧ (∀ l ∈ Q, l.token ≠ .newline) ∧ ∀ inner,
      (Layout.ofText true (updateText x s e).toList).Arranges Q []
        (scanFrom (byteSize x.toList + byteSize s.text.toList + 3) e.toList).1 (inner.reverse ++ Q, .ok []) →
      ∃ lexemes, tokenize (updateText x s e) = ⟨lexemes, none⟩ ∧ IsUpdate x s inner lexemes := by
  obtain ⟨xspan, lspan, espan, hjoined, hscan⟩ := scansTo_update hx hs e.toList
  refine ⟨[⟨.symbol s, lspan, true⟩, ⟨.ident x, xspan, false⟩, ⟨.symbol .assign, espan, false⟩,
    ⟨.ident x, xspan, false⟩,
    ⟨.keyword .let_, .point xspan.start, false⟩], ⟨_, rfl, endsStatement_of_augmentable hs, nofun⟩, by simp,
    fun inner hinner => ?_⟩
  have htext : (updateText x s e).toList = x.toList ++ ' ' :: (s.text.toList ++ '=' :: ' ' :: e.toList) := by
    simp [updateText]
  rw [ScansTo, he.scanned, ← htext] at hscan
  obtain ⟨place, heq⟩ := tokenizeChars_of_arranges hscan (hinner.joined rfl (by simp) hs hjoined)
  refine ⟨_, heq, [⟨.keyword .let_, .point xspan.start, false⟩, ⟨.ident x, xspan, false⟩,
    ⟨.symbol .assign, espan, false⟩,
    ⟨.ident x, xspan, false⟩], ⟨.symbol s, lspan, true⟩, ⟨.eof, place, false⟩, by simp, ?_, rfl, rfl, rfl, rfl⟩
  simp [Lexeme.Spells]

lemma tokenize_spelledOut (hx : isName x = true) (hs : s.augmentable = true) (he : Enclosable e) :
    ∃ Q D, Layout.Inside Q ∧ ∀ inner,
      (Layout.ofText true (spelledText x s e).toList).Arranges Q D
        (scanFrom (byteSize x.toList + byteSize s.text.toList + 3 + (byteSize x.toList + 3)) e.toList).1
        (inner.reverse ++ Q, .ok D) →
      ∃ lexemes, tokenize (spelledText x s e) = ⟨lexemes, none⟩ ∧
        IsSpelledOut x s inner lexemes := by
  obtain ⟨xspan, espan, yspan, lspan, pspan, hapart, hspelled⟩ := scansTo_spelledOut hx hs (e.toList ++ [')'])
  have hscan := hspelled.trans (scanFrom_concat he.comment (he.scanned _))
  refine ⟨[⟨.symbol .leftParen, pspan, false⟩, ⟨.symbol s, lspan, false⟩, ⟨.ident x, yspan, false⟩,
    ⟨.symbol .assign, espan, false⟩, ⟨.ident x, xspan, false⟩, ⟨.keyword .let_, .point xspan.start, false⟩],
    [(Layout.ofText true (spelledText x s e).toList).opened .rightParen pspan], ⟨_, rfl, rfl, nofun⟩,
    fun inner hinner => ?_⟩
  have htext : (spelledText x s e).toList =
      x.toList ++ ' ' :: '=' :: ' ' :: (x.toList ++ ' ' :: (s.text.toList ++ ' ' :: '(' :: (e.toList ++ [')']))) := by
    simp [spelledText]
  rw [ScansTo, ← htext, scanFrom_rightParen] at hscan
  generalize byteSize x.toList + byteSize s.text.toList + 3 + (byteSize x.toList + 3) = k at *
  generalize (⟨k + byteSize e.toList, k + byteSize e.toList + 1⟩ : Span) = cspan at hscan
  have hcloser {y : Layout} (program : List Lexeme) (brackets : List OpenBracket)
      (hb : [.rightParen] = brackets.map OpenBracket.closer) : y.Arranges program brackets
      [⟨.symbol .rightParen, cspan, false⟩] (⟨.symbol .rightParen, cspan, false⟩ :: program, .ok []) := by
    obtain ⟨b, rest, rfl, hcloses, hrest⟩ := map_eq_cons_iff.1 hb.symm
    obtain rfl := map_eq_nil_iff.1 hrest
    exact .close rfl rfl hcloses .done
  have hclosed := hinner.append rfl rfl (by simp [Token.isSymbol]) (hcloser _)
  have hopened := ((Layout.Arranges.open_ rfl rfl hclosed).operation hs (by simpa using hapart)).named rfl (by simp)
  obtain ⟨place, heq⟩ := tokenizeChars_of_arranges hscan hopened
  refine ⟨_, heq, [⟨.keyword .let_, .point xspan.start, false⟩, ⟨.ident x, xspan, false⟩,
    ⟨.symbol .assign, espan, false⟩,
    ⟨.ident x, yspan, false⟩, ⟨.symbol s, lspan, false⟩, ⟨.symbol .leftParen, pspan, false⟩],
    ⟨.symbol .rightParen, cspan, false⟩, ⟨.eof, place, false⟩, by simp, ?_, ⟨rfl, rfl⟩, rfl, rfl⟩
  simp [Lexeme.Spells]

lemma tokenize_assignments (hx : isName x = true) (hs : s.augmentable = true) (he : Enclosable e) :
    ∃ inner inner' lexemes lexemes', tokenize (updateText x s e) = ⟨lexemes, none⟩ ∧
      tokenize (spelledText x s e) = ⟨lexemes', none⟩ ∧
      IsUpdate x s inner lexemes ∧ IsSpelledOut x s inner' lexemes' ∧ Enclosed e inner inner' := by
  obtain ⟨Q, hQ, hnew, hupdate⟩ := tokenize_update hx hs he
  obtain ⟨Q', D, hQ', hspelled⟩ := tokenize_spelledOut hx hs he
  obtain ⟨inner, inner', hinner, hinner', henclosed⟩ :=
    he.enclosed (updateText x s e).toList (spelledText x s e).toList hQ hQ' hnew
      (byteSize x.toList + byteSize s.text.toList + 3) (byteSize x.toList + 3) D
  obtain ⟨lexemes, heq, hlexemes⟩ := hupdate inner hinner
  obtain ⟨lexemes', heq', hlexemes'⟩ := hspelled inner' hinner'
  exact ⟨inner, inner', lexemes, lexemes', heq, heq', hlexemes, hlexemes', henclosed⟩

end assignments

end ScriptMachine
