import ScriptMachine.Proofs.Climbing

/-! An expression is read in the same way before the end of a text and before a closing parenthesis. -/

namespace ScriptMachine

open List

def Token.isStop : Token → Bool
  | eof | newline | symbol .rightParen => true
  | _ => false

lemma Token.isStop_cases {t : Token} (h : t.isStop = true) : t = .eof ∨ t = .newline ∨ t = .symbol .rightParen := by
  cases t with
  | eof => exact .inl rfl
  | newline => exact .inr (.inl rfl)
  | symbol s => cases s <;> first | contradiction | exact .inr (.inr rfl)
  | _ => contradiction

def Token.isSolid : Token → Bool
  | eof | newline => false
  | _ => true

lemma Token.isNewline_eq_false_iff {t : Token} : t.isNewline = false ↔ t ≠ .newline := by
  cases t <;> simp [isNewline]

inductive Stops : Nat → List Lexeme → Prop
  | eof {l} : l.token = .eof → l.augmented = false → Stops 0 [l]
  | line {l rest} : l.token = .newline → l.augmented = false → Stops 0 rest → Stops 0 (l :: rest)
  | closer {k l rest} : l.token = .symbol .rightParen → l.augmented = false → 0 < k → rest.length = k →
      Stops k (l :: rest)

inductive Alongside (k k' : Nat) : List Lexeme → List Lexeme → Prop
  | stop {xs ys} : Stops k xs → Stops k' ys → Alongside k k' xs ys
  | word {l m rest rest'} : l.token = m.token → l.augmented = m.augmented → Alongside k k' rest rest' →
      Alongside k k' (l :: rest) (m :: rest')

section alongside

variable {k k' : Nat} {xs ys : List Lexeme}

lemma Stops.head (h : Stops k xs) :
    ∃ l rest, xs = l :: rest ∧ l.token.isStop = true ∧ l.augmented = false ∧ k < xs.length := by
  cases h with
  | eof ht ha | line ht ha => exact ⟨_, _, rfl, by rw [ht]; rfl, ha, by simp⟩
  | closer ht ha _ hk => exact ⟨_, _, rfl, by rw [ht]; rfl, ha, hk ▸ Nat.lt_succ_self _⟩

lemma Alongside.lt_length (h : Alongside k k' xs ys) : k < xs.length ∧ k' < ys.length := by
  induction h with
  | stop hx hy =>
    obtain ⟨-, -, -, -, -, hlt⟩ := hx.head
    obtain ⟨-, -, -, -, -, hlt'⟩ := hy.head
    exact ⟨hlt, hlt'⟩
  | word _ _ _ ih => exact ⟨ih.1.trans (Nat.lt_succ_self _), ih.2.trans (Nat.lt_succ_self _)⟩

end alongside

namespace Cursor

def Beside (k k' : Nat) (c d : Cursor) : Prop := Alongside k k' c.lexemes d.lexemes

variable {k k' : Nat} {c d : Cursor}

structure AtWord (k k' : Nat) (c d : Cursor) : Prop where
  token : c.token = d.token
  step : Beside k k' c.step d.step
  augmented : c.next.augmented = d.next.augmented
  operator : c.next.augmented = true → c.next.token = d.next.token
  isAssign : c.next.token.isSymbol .assign = d.next.token.isSymbol .assign

lemma isStop_of_stops (h : Stops k c.lexemes) : c.token.isStop = true := by
  obtain ⟨l, rest, hlexemes, hstop, -⟩ := h.head
  rwa [token, (List.cons.inj hlexemes).1]

lemma Beside.cases (h : Beside k k' c d) : Stops k c.lexemes ∧ Stops k' d.lexemes ∨ AtWord k k' c d := by
  obtain ⟨behind, l, rest⟩ := c
  obtain ⟨behind', m, rest'⟩ := d
  cases h with
  | stop hl hm => exact .inl ⟨hl, hm⟩
  | word ht ha hrest =>
    right
    have hnext := hrest
    -- the tokens after the word are the same, or both are stops, which are no operators and no equals signs
    cases hnext with
    | stop hx hy =>
      obtain ⟨x, xs, rfl, hx, hxa, -⟩ := hx.head
      obtain ⟨y, ys, rfl, hy, hya, -⟩ := hy.head
      have hplain {t : Token} (ht : t.isStop = true) : t.isSymbol .assign = false := by
        rcases Token.isStop_cases ht with rfl | rfl | rfl <;> rfl
      refine ⟨ht, hrest, hxa.trans hya.symm, fun hn => ?_, (hplain hx).trans (hplain hy).symm⟩
      exact absurd (hxa.symm.trans hn) (by simp)
    | word ht' ha' _ => exact ⟨ht, hrest, ha', fun _ => ht', congrArg (fun t : Token => t.isSymbol .assign) ht'⟩

lemma before_step (c : Cursor) : c.Before c.step := by
  obtain ⟨behind, l, rest⟩ := c
  cases rest with
  | nil => exact .refl _
  | cons next rest => exact ⟨[l], rfl, rfl⟩

lemma before_skipNewlines (c : Cursor) : c.Before c.skipNewlines.1 := by
  obtain ⟨lines, hpass, -⟩ := Passes.skipNewlines c
  exact ⟨lines, hpass⟩

lemma left_step_lt (h : Stops k c.lexemes) (ht : c.token.isSolid = true) : c.step.left < k := by
  obtain ⟨behind, l, rest⟩ := c
  cases h with
  | eof hl | line hl => rw [token, hl] at ht; contradiction
  | closer _ _ hpos hk =>
    cases rest with
    | nil => exact absurd hk hpos.ne
    | cons next rest => exact hk ▸ Nat.lt_succ_self _

lemma token_step (c : Cursor) : c.step.token = c.next.token := by
  obtain ⟨behind, l, rest⟩ := c
  cases rest <;> rfl

lemma stops_skipNewlines (h : Stops k c.lexemes) :
    Stops k c.skipNewlines.1.lexemes ∧ c.skipNewlines.1.token.isNewline = false := by
  obtain ⟨behind, l, ahead⟩ := c
  rw [skipNewlines]
  induction ahead generalizing behind l with
  | nil =>
    cases h with
    | eof ht ha => exact ⟨.eof ht ha, by rw [skipNewlinesFrom, token, ht]; rfl⟩
    | line _ _ h => cases h
    | closer _ _ hpos hk => exact absurd hk hpos.ne
  | cons next rest ih =>
    rw [skipNewlinesFrom]
    split
    · rename_i hn
      cases h with
      | line _ _ h => exact ih (some l) next h
      | closer ht => rw [ht] at hn; contradiction
    · rename_i hn
      exact ⟨h, Bool.eq_false_iff.2 hn⟩

lemma Beside.skipNewlines (h : c.Beside k k' d) :
    c.skipNewlines.1.Beside k k' d.skipNewlines.1 ∧ c.skipNewlines.1.token.isNewline = false ∧
      (c.skipNewlines.2 = d.skipNewlines.2 ∨
        Stops k c.skipNewlines.1.lexemes ∧ Stops k' d.skipNewlines.1.lexemes) := by
  rw [Beside] at h
  generalize hc : c.lexemes = xs at h
  generalize hd : d.lexemes = ys at h
  induction h generalizing c d with
  | stop hx hy =>
    obtain ⟨hcstop, hn⟩ := stops_skipNewlines (hc ▸ hx)
    obtain ⟨hdstop, -⟩ := stops_skipNewlines (hd ▸ hy)
    exact ⟨.stop hcstop hdstop, hn, .inr ⟨hcstop, hdstop⟩⟩
  | @word l m rest rest' ht ha hrest ih =>
    obtain ⟨behind, l, ahead⟩ := c
    obtain ⟨behind', m, ahead'⟩ := d
    cases hc
    cases hd
    obtain ⟨hlt, hlt'⟩ := hrest.lt_length
    obtain ⟨x, xs, rfl⟩ := exists_cons_of_length_pos (Nat.zero_lt_of_lt hlt)
    obtain ⟨y, ys, rfl⟩ := exists_cons_of_length_pos (Nat.zero_lt_of_lt hlt')
    cases hn : l.token.isNewline with
    | true =>
      have hskip := @ih ⟨some l, x, xs⟩ ⟨some m, y, ys⟩ rfl rfl
      have hm : m.token.isNewline = true := ht ▸ hn
      simp only [Cursor.skipNewlines, skipNewlinesFrom, hn, hm, if_true] at hskip ⊢
      exact ⟨hskip.1, hskip.2.1, hskip.2.2.imp_left (congrArg (· + 1))⟩
    | false =>
      have hm : m.token.isNewline = false := ht ▸ hn
      simp only [Cursor.skipNewlines, skipNewlinesFrom, hn, hm, Bool.false_eq_true, if_false]
      exact ⟨.word ht ha hrest, hn, .inl trivial⟩

end Cursor

def Parsed.place {α : Type} : Parsed α → Cursor
  | .ok _ after | .fail _ after => after

structure Reader.CarriesAt {α β : Type} (k k' : Nat) (c d : Cursor) (r r' : Reader α) (u : α → β) : Prop where
  before : c.Before (r c).place
  beside : c.Beside k k' d → ∀ a after, r c = .ok a after →
    after.left < k ∨ ∃ a' after', r' d = .ok a' after' ∧ after.Beside k k' after' ∧ u a = u a'

def Reader.Carries {α β : Type} (k k' : Nat) (r r' : Reader α) (u : α → β) : Prop := ∀ c d, CarriesAt k k' c d r r' u

namespace Reader

variable {after : Cursor} {α β : Type} {r : Reader α} {f : α → Reader β} {c : Cursor}

lemma ok_of_bind {b : β} (h : (r >>= f) c = .ok b after) : ∃ a mid, r c = .ok a mid ∧ f a mid = .ok b after := by
  rw [bind_apply] at h
  cases hr : r c with
  | ok a mid =>
    rw [hr] at h
    exact ⟨a, mid, rfl, h⟩
  | fail fault mid =>
    rw [hr] at h
    contradiction

lemma bind_assoc {γ : Type} {h : β → Reader γ} : (r >>= f) >>= h = r >>= fun a => f a >>= h := by
  funext c
  rw [bind_apply, bind_apply, bind_apply]
  cases r c <;> rfl

lemma before_bind (hr : c.Before (r c).place) (hf : ∀ a (mid : Cursor), mid.Before (f a mid).place) :
    c.Before ((r >>= f) c).place := by
  rw [bind_apply]
  cases hread : r c with
  | ok a mid =>
    rw [hread] at hr
    exact hr.trans (hf a mid)
  | fail fault mid =>
    rw [hread] at hr
    exact hr

lemma before_attempt (hr : c.Before (r c).place) : c.Before (Reader.attempt r c).place := by
  rw [attempt]
  cases hread : r c with
  | ok a mid =>
    rw [hread] at hr
    exact hr
  | fail fault mid =>
    rw [hread] at hr
    dsimp only
    split <;> exact hr

lemma left_lt_of_before {k : Nat} {a : α} (hr : c.Before (r c).place) (h : r c = .ok a after) (hc : c.left < k) :
    after.left < k := by
  rw [h] at hr
  exact hr.left_le.trans_lt hc

end Reader

namespace Reader.CarriesAt

variable {rounds : Nat} {cause : SyntaxCause} {α β γ δ : Type} {k k' : Nat} {c d : Cursor} {r r' : Reader α} {u : α → γ}
  {v : β → δ}

lemma pure {a a' : α} (h : u a = u a') : CarriesAt k k' c d (Pure.pure a) (Pure.pure a') u where
  before := .refl c
  beside hb b after hr := by
    cases hr
    exact .inr ⟨a', d, rfl, hb, h⟩

lemma fail {fault : SyntaxFault} (h : r c = .fail fault c) : CarriesAt k k' c d r r' u where
  before := by rw [h]; exact .refl c
  beside _ _ _ hr := absurd (h.symm.trans hr) nofun

lemma unexpected {wanted : List String} : CarriesAt k k' c d (Reader.unexpected wanted) r' u := fail rfl

lemma failHere : CarriesAt k k' c d (Reader.failHere cause) r' u := fail rfl

lemma failAt {span : Span} : CarriesAt k k' c d (Reader.failAt cause span) r' u := fail rfl

lemma bind {f f' : α → Reader β} (hr : CarriesAt k k' c d r r' u)
    (hf : ∀ a a', u a = u a' → Carries k k' (f a) (f' a') v) : CarriesAt k k' c d (r >>= f) (r' >>= f') v where
  before := before_bind hr.before fun a mid => (hf a a rfl mid mid).before
  beside hc b after hb := by
    obtain ⟨a, mid, hread, hb⟩ := ok_of_bind hb
    rcases hr.beside hc a mid hread with hp | ⟨a', mid', hread', hmid, ha⟩
    · -- once the first reader is behind the stop, nothing is asked of the other
      exact .inl (left_lt_of_before (hf a a rfl mid mid).before hb hp)
    · rw [bind_apply, hread']
      exact (hf a a' ha mid mid').beside hmid b after hb

lemma pass {f f' : α → Reader β} (hr : CarriesAt k k' c d r r' id) (hf : ∀ a, Carries k k' (f a) (f' a) v) :
    CarriesAt k k' c d (r >>= f) (r' >>= f') v := by
  refine hr.bind fun a a' ha => ?_
  obtain rfl : a = a' := ha
  exact hf a

lemma ite {b : Prop} {_ : Decidable b} {s s' : Reader α} (h : b → CarriesAt k k' c d r r' u)
    (h' : ¬b → CarriesAt k k' c d s s' u) :
    CarriesAt k k' c d (if b then r else s) (if b then r' else s') u := by
  split
  · exact h ‹_›
  · exact h' ‹_›

lemma congr {s s' : Reader α} (h : CarriesAt k k' c d s s' u) (hr : r c = s c) (hr' : c.Beside k k' d → r' d = s' d) :
    CarriesAt k k' c d r r' u where
  before := by rw [hr]; exact h.before
  beside hb a after ha := by
    rw [hr' hb]
    exact h.beside hb a after (hr ▸ ha)

section primitives

variable {t : Token} {start start' : Span} {s : Symbol} {w : Keyword}

lemma bind_here {f f' : Span → Reader β} (h : ∀ start start', CarriesAt k k' c d (f start) (f' start') v) :
    CarriesAt k k' c d (Reader.here >>= f) (Reader.here >>= f') v :=
    ⟨(h c.here d.here).before, (h c.here d.here).beside⟩

lemma bind_spanFrom {f f' : Span → Reader β} (h : ∀ span span', CarriesAt k k' c d (f span) (f' span') v) :
    CarriesAt k k' c d (Reader.spanFrom start >>= f) (Reader.spanFrom start' >>= f') v :=
  ⟨(h (c.spanFrom start) (d.spanFrom start')).before, (h (c.spanFrom start) (d.spanFrom start')).beside⟩

lemma node {F F' : Span → α} (h : ∀ span span', u (F span) = u (F' span')) :
    CarriesAt k k' c d (Reader.spanFrom start >>= fun span => Pure.pure (F span))
      (Reader.spanFrom start' >>= fun span => Pure.pure (F' span)) u :=
  bind_spanFrom fun span span' => pure (h span span')

lemma bind_skipNewlines {s s' : Reader β} (h : Carries k k' s s' v) :
    CarriesAt k k' c d (Reader.skipNewlines >>= fun _ => s) (Reader.skipNewlines >>= fun _ => s') v where
  before := c.before_skipNewlines.trans (h _ c).before
  beside hb := (h _ _).beside hb.skipNewlines.1

lemma bind_token {f f' : Token → Reader β} (hstop : f' .newline = f' .eof ∧ f' (.symbol .rightParen) = f' .eof)
    (h : ∀ t, c.token = t → CarriesAt k k' c d (f t) (f' t) v) :
    CarriesAt k k' c d (Reader.token >>= f) (Reader.token >>= f') v where
  before := (h c.token rfl).before
  beside hb := by
    have hstops {t : Token} (ht : t.isStop = true) : f' t = f' .eof := by
      rcases Token.isStop_cases ht with rfl | rfl | rfl
      · rfl
      · exact hstop.1
      · exact hstop.2
    have hsame : f' c.token = f' d.token := by
      rcases hb.cases with ⟨hc, hd⟩ | hword
      · rw [hstops (Cursor.isStop_of_stops hc), hstops (Cursor.isStop_of_stops hd)]
      · rw [hword.token]
    rw [show (Reader.token >>= f') d = f' d.token d from rfl, ← hsame]
    exact (h c.token rfl).beside hb

lemma bind_token_word {f f' : Token → Reader β} (hstop : Stops k c.lexemes → ∀ b after, f c.token c ≠ .ok b after)
    (h : ∀ t, c.token = t → CarriesAt k k' c d (f t) (f' t) v) :
    CarriesAt k k' c d (Reader.token >>= f) (Reader.token >>= f') v where
  before := (h c.token rfl).before
  beside hb b after hr := by
    rcases hb.cases with ⟨hc, -⟩ | hword
    · exact absurd hr (hstop hc b after)
    · rw [show (Reader.token >>= f') d = f' d.token d from rfl, ← hword.token]
      exact (h c.token rfl).beside hb b after hr

lemma isKeyword_of_isStop (h : t.isStop = true) (w : Keyword) : t.isKeyword w = false := by
  rcases Token.isStop_cases h with rfl | rfl | rfl <;> rfl

lemma isSymbol_of_isStop (h : t.isStop = true) (hs : s ≠ .rightParen) : t.isSymbol s = false := by
  rcases Token.isStop_cases h with rfl | rfl | rfl
  · rfl
  · rfl
  · simpa [Token.isSymbol] using hs.symm

lemma bind_atKeyword {f f' : Bool → Reader β}
    (h : ∀ b, (b = true → c.token = .keyword w) → CarriesAt k k' c d (f b) (f' b) v) :
    CarriesAt k k' c d (Reader.atKeyword w >>= f) (Reader.atKeyword w >>= f') v := by
  have hread := h (c.token.isKeyword w) Token.eq_of_isKeyword
  refine ⟨hread.before, fun hb => ?_⟩
  have hsame : c.token.isKeyword w = d.token.isKeyword w := by
    rcases hb.cases with ⟨hc, hd⟩ | hword
    · rw [isKeyword_of_isStop (Cursor.isStop_of_stops hc), isKeyword_of_isStop (Cursor.isStop_of_stops hd)]
    · rw [hword.token]
  rw [show (Reader.atKeyword w >>= f') d = f' (d.token.isKeyword w) d from rfl, ← hsame]
  exact hread.beside hb

lemma ifKeyword {A A' B B' : Reader β} (h : c.token = .keyword w → CarriesAt k k' c d A A' v)
    (h' : CarriesAt k k' c d B B' v) :
    CarriesAt k k' c d (Reader.atKeyword w >>= fun b => if b = true then A else B)
      (Reader.atKeyword w >>= fun b => if b = true then A' else B') v := by
  refine bind_atKeyword fun b hb => ?_
  split
  · exact h (hb ‹_›)
  · exact h'

lemma ifSymbol {A A' B B' : Reader β} (hs : s ≠ .rightParen) (h : c.token = .symbol s → CarriesAt k k' c d A A' v)
    (h' : CarriesAt k k' c d B B' v) :
    CarriesAt k k' c d (Reader.atSymbol s >>= fun b => if b = true then A else B)
      (Reader.atSymbol s >>= fun b => if b = true then A' else B') v := by
  have hread : CarriesAt k k' c d (if c.token.isSymbol s = true then A else B)
      (if c.token.isSymbol s = true then A' else B') v := by
    split
    · exact h (Token.eq_of_isSymbol ‹_›)
    · exact h'
  refine ⟨hread.before, fun hb => ?_⟩
  have hsame : c.token.isSymbol s = d.token.isSymbol s := by
    rcases hb.cases with ⟨hc, hd⟩ | hword
    · rw [isSymbol_of_isStop (Cursor.isStop_of_stops hc) hs, isSymbol_of_isStop (Cursor.isStop_of_stops hd) hs]
    · rw [hword.token]
  intro a after hr
  change _ ∨ ∃ a' after', (if d.token.isSymbol s = true then A' else B') d = .ok a' after' ∧ _
  rw [← hsame]
  exact hread.beside hb a after hr

lemma bind_stepTo {f f' : Unit → Reader β} (ht : c.token.isSolid = true)
    (h : CarriesAt k k' c.step d.step (f ()) (f' ()) v) :
    CarriesAt k k' c d (Reader.step >>= f) (Reader.step >>= f') v where
  before := c.before_step.trans h.before
  beside hb b after hr := by
    rcases hb.cases with ⟨hstop, -⟩ | hword
    · exact .inl (left_lt_of_before h.before hr (Cursor.left_step_lt hstop ht))
    · exact h.beside hword.step b after hr

lemma bind_step {f f' : Unit → Reader β} (ht : c.token = t) (hs : t.isSolid = true)
    (h : Carries k k' (f ()) (f' ()) v) : CarriesAt k k' c d (Reader.step >>= f) (Reader.step >>= f') v :=
  bind_stepTo (ht ▸ hs) (h _ _)

lemma step (ht : c.token = t) (hs : t.isSolid = true) : CarriesAt k k' c d Reader.step Reader.step id :=
  bind_step ht hs fun _ _ => pure rfl

lemma bind_closer {s : Symbol} {f f' : Unit → Reader β} {B B' : Reader β} (h : Carries k k' (f ()) (f' ()) v)
    (h' : CarriesAt k k' c d B B' v)
    (hstop : s = .rightParen → c.token.isStop = true → ∀ b after, B c ≠ .ok b after) :
    CarriesAt k k' c d (Reader.atSymbol s >>= fun b => if b = true then Reader.step >>= f else B)
      (Reader.atSymbol s >>= fun b => if b = true then Reader.step >>= f' else B') v := by
  by_cases hs : s = .rightParen
  · subst hs
    have hstep : CarriesAt k k' c d (if c.token.isSymbol .rightParen = true then Reader.step >>= f else B)
        (if c.token.isSymbol .rightParen = true then Reader.step >>= f' else B') v := by
      split
      · rename_i ht
        exact bind_step (Token.eq_of_isSymbol ht) rfl h
      · exact h'
    refine ⟨hstep.before, fun hb b after hr => ?_⟩
    change (if c.token.isSymbol .rightParen = true then Reader.step >>= f else B) c = .ok b after at hr
    rcases hb.cases with ⟨hc, -⟩ | hword
    · -- behind the stop it does not matter what the other reader does
      split at hr
      · rename_i ht
        have hlt := Cursor.left_step_lt hc (by rw [Token.eq_of_isSymbol ht]; rfl)
        exact .inl (left_lt_of_before (h c.step c.step).before hr hlt)
      · exact absurd hr (hstop rfl (Cursor.isStop_of_stops hc) b after)
    · change _ ∨ ∃ a' after', (if d.token.isSymbol .rightParen = true then Reader.step >>= f' else B') d = _ ∧ _
      rw [← hword.token]
      exact hstep.beside hb b after hr
  · exact ifSymbol hs (fun ht => bind_step ht rfl h) h'

end primitives

lemma expectKeyword {w : Keyword} : CarriesAt k k' c d (Reader.expectKeyword w) (Reader.expectKeyword w) id :=
  ifKeyword (fun ht => step ht rfl) unexpected

lemma expectSymbol {s : Symbol} : CarriesAt k k' c d (Reader.expectSymbol s) (Reader.expectSymbol s) id :=
  @bind_closer Unit Unit k k' c d id s Pure.pure Pure.pure _ _ (fun _ _ => pure rfl) unexpected fun _ _ _ _ => nofun

lemma ident : CarriesAt k k' c d Reader.ident Reader.ident id := by
  refine bind_token ⟨rfl, rfl⟩ fun t ht => ?_
  split
  · exact bind_step ht rfl fun _ _ => pure rfl
  · exact failHere

lemma moreNames : CarriesAt k k' c d (Reader.moreNames rounds) (Reader.moreNames rounds) id := by
  induction rounds generalizing c d with
  | zero => exact unexpected
  | succ rounds ih =>
    refine ifSymbol nofun (fun ht => bind_step ht rfl fun _ _ => ?_) (pure rfl)
    exact pass ident fun name _ _ => pass ih fun rest _ _ => pure rfl

lemma names : CarriesAt k k' c d (Reader.names rounds) (Reader.names rounds) id :=
  pass ident fun _ _ _ => pass moreNames fun _ _ _ => pure rfl

lemma items {closer : Symbol} {item : Reader α} (h : Carries k k' item item u)
    (hstop : closer = .rightParen → ∀ c a after, c.token.isStop = true → item c ≠ .ok a after) :
    CarriesAt k k' c d (Reader.items closer item rounds) (Reader.items closer item rounds) (List.map u) := by
  induction rounds generalizing c d with
  | zero => exact unexpected
  | succ rounds ih =>
    refine bind_closer (fun _ _ => pure rfl) ?_ fun hs hc b after hr => ?_
    · refine bind (h c d) fun a a' ha c d => ifSymbol nofun (fun ht => bind_step ht rfl fun c d => ?_) ?_
      · refine bind ih fun rest rest' hrest _ _ => pure ?_
        rw [map_cons, map_cons, ha, hrest]
      · refine pass expectSymbol fun _ _ _ => pure ?_
        rw [map_cons, map_cons, ha]
    · rw [bind_apply] at hr
      cases hread : item c with
      | ok a mid => exact hstop hs c a mid hc hread
      | fail fault mid => rw [hread] at hr; contradiction

end Reader.CarriesAt

end ScriptMachine
