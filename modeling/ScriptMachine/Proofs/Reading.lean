import ScriptMachine.Proofs.Settled

/-! What a reader makes of tokens that are known, and what it leaves of them. -/

namespace ScriptMachine

def Cursor.At (c : Cursor) (ts : List Token) : Prop :=
  List.Forall₂ Lexeme.Spells (c.current :: c.ahead) (ts ++ [.eof])

def leading (ts : List Token) : Token := ts.headD .eof

@[simp] lemma leading_cons (t : Token) (ts : List Token) : leading (t :: ts) = t := rfl

def pastLines (ts : List Token) : List Token := ts.dropWhile Token.isNewline

lemma pastLines_of_leading {ts : List Token} (h : (leading ts).isNewline = false) : pastLines ts = ts := by
  cases ts with
  | nil => rfl
  | cons t ts => simpa [pastLines] using h

@[simp] lemma pastLines_newline (ts : List Token) : pastLines (.newline :: ts) = pastLines ts := rfl

namespace Cursor.At

variable {c : Cursor} {t : Token} {ts : List Token}

lemma token (h : c.At ts) : c.token = leading ts := by
  cases ts with
  | nil | cons =>
    cases h with
    | cons ht _ => exact ht.1

lemma step (h : c.At (t :: ts)) : c.step.At ts := by
  obtain ⟨behind, current, ahead⟩ := c
  cases h with
  | cons _ h =>
    cases ahead with
    | nil => cases ts <;> cases h
    | cons next rest => exact h

lemma next (h : c.At (t :: ts)) : c.next.token = leading ts := by
  have hs := h.step.token
  obtain ⟨behind, current, ahead⟩ := c
  cases ahead with
  | nil =>
    cases h with
    | cons _ h => cases ts <;> cases h
  | cons next rest => exact hs

lemma next_augmented (h : c.At ts) : c.next.augmented = false := by
  obtain ⟨behind, current, ahead⟩ := c
  rw [Cursor.At] at h
  generalize ts ++ [Token.eof] = us at h
  cases h with
  | cons ht h =>
    cases h with
    | nil => exact ht.2
    | cons hu _ => exact hu.2

lemma left (h : c.At ts) : c.left = ts.length := by
  simpa [Cursor.left] using List.Forall₂.length_eq h

lemma skipNewlinesFrom (behind : Option Lexeme) {current : Lexeme} {ahead : List Lexeme}
    (h : List.Forall₂ Lexeme.Spells (current :: ahead) (ts ++ [.eof])) :
    (Cursor.skipNewlinesFrom behind current ahead).1.At (pastLines ts) ∧
      ((Cursor.skipNewlinesFrom behind current ahead).2 = 0 ↔ (leading ts).isNewline = false) := by
  induction ts generalizing behind current ahead with
  | nil =>
    cases h with
    | cons ht h =>
      obtain rfl := List.forall₂_nil_right_iff.1 h
      exact ⟨.cons ht .nil, by simp [Cursor.skipNewlinesFrom, leading, Token.isNewline]⟩
  | cons t ts ih =>
    cases h with
    | cons ht h =>
      cases ahead with
      | nil => cases ts <;> cases h
      | cons next rest =>
        rw [Cursor.skipNewlinesFrom, ht.1]
        cases hn : t.isNewline with
        | true =>
          have hpast : pastLines (t :: ts) = pastLines ts := by simp [pastLines, hn]
          rw [hpast]
          exact ⟨(ih _ h).1, by simp [hn]⟩
        | false =>
          rw [pastLines_of_leading (by exact hn)]
          exact ⟨.cons ht h, by simp [hn]⟩

lemma skipNewlines (h : c.At ts) :
    c.skipNewlines.1.At (pastLines ts) ∧ (c.skipNewlines.2 = 0 ↔ (leading ts).isNewline = false) :=
  skipNewlinesFrom c.behind h

end Cursor.At

def Reads {α : Type} (c : Cursor) (r : Reader α) (Q : α → Prop) (rest : List Token) : Prop :=
  ∃ a c', r c = .ok a c' ∧ Q a ∧ c'.At rest

namespace Reads

variable {s : Symbol} {w : Keyword} {name : String} {α β : Type} {c : Cursor} {t : Token} {ts rest mid : List Token}
  {Q : α → Prop} {R : β → Prop} {r : Reader α} {f : α → Reader β}

lemma ret {a : α} (hc : c.At rest) (hq : Q a) : Reads c (pure a) Q rest := ⟨a, c, rfl, hq, hc⟩

lemma weaken {P : α → Prop} (h : Reads c r Q rest) (hq : ∀ a, Q a → P a) : Reads c r P rest := by
  obtain ⟨a, c', hr, ha, hc⟩ := h
  exact ⟨a, c', hr, hq a ha, hc⟩

lemma bind (h : Reads c r Q mid) (k : ∀ a c', Q a → c'.At mid → Reads c' (f a) R rest) :
    Reads c (r >>= f) R rest := by
  obtain ⟨a, c', hr, hq, hc⟩ := h
  obtain ⟨b, d, hf, hb, hd⟩ := k a c' hq hc
  exact ⟨b, d, by rw [Reader.bind_apply, hr]; exact hf, hb, hd⟩

lemma bind_token {f : Token → Reader β} (hc : c.At ts) (k : Reads c (f (leading ts)) R rest) :
    Reads c (Reader.token >>= f) R rest := by
  obtain ⟨b, d, hf, hb, hd⟩ := k
  exact ⟨b, d, by rw [Reader.bind_apply, Reader.token, hc.token]; exact hf, hb, hd⟩

lemma bind_here {f : Span → Reader β} (k : ∀ span, Reads c (f span) R rest) : Reads c (Reader.here >>= f) R rest :=
  k c.here

lemma bind_spanFrom {f : Span → Reader β} {start : Span} (k : ∀ span, Reads c (f span) R rest) :
    Reads c (Reader.spanFrom start >>= f) R rest := k (c.spanFrom start)

lemma bind_cursor {f : Cursor → Reader β} (k : Reads c (f c) R rest) : Reads c (Reader.cursor >>= f) R rest := k

lemma bind_resume {saved : Cursor} {f : Unit → Reader β} (k : Reads saved (f ()) R rest) :
    Reads c (Reader.resume saved >>= f) R rest := k

lemma step (hc : c.At (t :: rest)) : Reads c Reader.step (fun _ => True) rest := ⟨(), c.step, rfl, trivial, hc.step⟩

lemma bind_step {f : Unit → Reader β} (hc : c.At (t :: ts)) (k : ∀ c', c'.At ts → Reads c' (f ()) R rest) :
    Reads c (Reader.step >>= f) R rest := k c.step hc.step

lemma bind_atSymbol {f : Bool → Reader β} (hc : c.At ts) (k : Reads c (f ((leading ts).isSymbol s)) R rest) :
    Reads c (Reader.atSymbol s >>= f) R rest := by
  obtain ⟨b, d, hf, hb, hd⟩ := k
  exact ⟨b, d, by rw [Reader.bind_apply, Reader.atSymbol, hc.token]; exact hf, hb, hd⟩

lemma bind_atKeyword {f : Bool → Reader β} (hc : c.At ts) (k : Reads c (f ((leading ts).isKeyword w)) R rest) :
    Reads c (Reader.atKeyword w >>= f) R rest := by
  obtain ⟨b, d, hf, hb, hd⟩ := k
  exact ⟨b, d, by rw [Reader.bind_apply, Reader.atKeyword, hc.token]; exact hf, hb, hd⟩

lemma ifSymbol {A B : Reader β} (hc : c.At ts) (ht : (leading ts).isSymbol s = true) (k : Reads c A R rest) :
    Reads c (Reader.atSymbol s >>= fun b => if b = true then A else B) R rest :=
  bind_atSymbol hc (by rw [if_pos ht]; exact k)

lemma unlessSymbol {A B : Reader β} (hc : c.At ts) (ht : (leading ts).isSymbol s = false) (k : Reads c B R rest) :
    Reads c (Reader.atSymbol s >>= fun b => if b = true then A else B) R rest :=
  bind_atSymbol hc (by rw [if_neg (by simp [ht])]; exact k)

lemma ifKeyword {A B : Reader β} (hc : c.At ts) (ht : (leading ts).isKeyword w = true) (k : Reads c A R rest) :
    Reads c (Reader.atKeyword w >>= fun b => if b = true then A else B) R rest :=
  bind_atKeyword hc (by rw [if_pos ht]; exact k)

lemma unlessKeyword {A B : Reader β} (hc : c.At ts) (ht : (leading ts).isKeyword w = false) (k : Reads c B R rest) :
    Reads c (Reader.atKeyword w >>= fun b => if b = true then A else B) R rest :=
  bind_atKeyword hc (by rw [if_neg (by simp [ht])]; exact k)

lemma expectSymbol (hc : c.At (.symbol s :: rest)) : Reads c (Reader.expectSymbol s) (fun _ => True) rest :=
  ifSymbol hc (by simp [Token.isSymbol]) (step hc)

lemma expectKeyword (hc : c.At (.keyword w :: rest)) : Reads c (Reader.expectKeyword w) (fun _ => True) rest :=
  ifKeyword hc (by simp [Token.isKeyword]) (step hc)

lemma bind_expectSymbol {f : Unit → Reader β} (hc : c.At (.symbol s :: ts))
    (k : ∀ c', c'.At ts → Reads c' (f ()) R rest) : Reads c (Reader.expectSymbol s >>= f) R rest :=
  (expectSymbol hc).bind fun _ c' _ hc' => k c' hc'

lemma bind_expectKeyword {f : Unit → Reader β} (hc : c.At (.keyword w :: ts))
    (k : ∀ c', c'.At ts → Reads c' (f ()) R rest) : Reads c (Reader.expectKeyword w >>= f) R rest :=
  (expectKeyword hc).bind fun _ c' _ hc' => k c' hc'

lemma ident (hc : c.At (.ident name :: rest)) : Reads c Reader.ident (fun a => a = name) rest :=
  bind_token hc (bind_step hc fun _ hc' => ret hc' rfl)

lemma bind_ident {f : String → Reader β} (hc : c.At (.ident name :: ts))
    (k : ∀ c', c'.At ts → Reads c' (f name) R rest) : Reads c (Reader.ident >>= f) R rest := by
  refine (ident hc).bind ?_
  rintro _ c' rfl hc'
  exact k c' hc'

lemma bind_skipNewlines {f : Nat → Reader β} (hc : c.At ts)
    (k : ∀ c' n, c'.At (pastLines ts) → (n = 0 ↔ (leading ts).isNewline = false) → Reads c' (f n) R rest) :
    Reads c (Reader.skipNewlines >>= f) R rest :=
  k c.skipNewlines.1 c.skipNewlines.2 hc.skipNewlines.1 hc.skipNewlines.2

lemma bind_noNewlines {f : Nat → Reader β} (hc : c.At ts) (ht : (leading ts).isNewline = false)
    (k : ∀ c', c'.At ts → Reads c' (f 0) R rest) : Reads c (Reader.skipNewlines >>= f) R rest := by
  refine bind_skipNewlines hc fun c' n hc' hn => ?_
  rw [hn.2 ht]
  exact k c' (pastLines_of_leading ht ▸ hc')

lemma attempt (h : Reads c r Q rest) : Reads c (Reader.attempt r) (fun e => ∃ a, e = .ok a ∧ Q a) rest := by
  obtain ⟨a, c', hr, hq, hc⟩ := h
  exact ⟨.ok a, c', by rw [Reader.attempt, hr], ⟨a, rfl, hq⟩, hc⟩

end Reads

end ScriptMachine
