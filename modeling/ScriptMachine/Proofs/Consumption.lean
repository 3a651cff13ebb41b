import ScriptMachine.Proofs.Constituents

/-! Places in a list of lexemes: one comes before another with some lexemes between them, and a fault is at one. -/

namespace ScriptMachine

open List

namespace Cursor

def lexemes (c : Cursor) : List Lexeme := c.current :: c.ahead

def Closed (c : Cursor) : Prop := ∀ l ∈ c.lexemes.getLast?, l.token = .eof

structure Passes (c : Cursor) (between : List Lexeme) (after : Cursor) : Prop where
  lexemes : c.lexemes = between ++ after.lexemes
  behind : after.behind = between.getLast?.or c.behind

def Before (c after : Cursor) : Prop := ∃ between, c.Passes between after

variable {o c d : Cursor} {between more : List Lexeme}

lemma length_lexemes (c : Cursor) : c.lexemes.length = c.left + 1 := rfl

namespace Passes

lemma refl (c : Cursor) : c.Passes [] c := ⟨rfl, rfl⟩

section

variable (h : o.Passes between c)
include h

lemma trans (h' : c.Passes more d) : o.Passes (between ++ more) d where
  lexemes := by rw [h.lexemes, h'.lexemes, append_assoc]
  behind := by rw [h'.behind, h.behind, getLast?_append, Option.or_assoc]

lemma left : o.left = between.length + c.left := by
  have hlength := congrArg List.length h.lexemes
  rw [length_append, length_lexemes, length_lexemes] at hlength
  omega

lemma closed (ho : o.Closed) : c.Closed := by
  intro l hl
  apply ho
  rw [Option.mem_def] at hl ⊢
  rw [h.lexemes, getLast?_append, hl, Option.some_or]

lemma mem : c.current ∈ o.lexemes := by
  rw [h.lexemes]
  exact mem_append_right _ mem_cons_self

lemma eq_of_left (hleft : c.left = o.left) : c = o := by
  have hnil : between = [] := eq_nil_of_length_eq_zero (by have := h.left; omega)
  subst hnil
  obtain ⟨behind, current, ahead⟩ := c
  obtain ⟨behind', current', ahead'⟩ := o
  obtain ⟨rfl, rfl⟩ := List.cons.inj h.lexemes
  obtain rfl : behind = behind' := h.behind
  rfl

lemma ends (hlt : c.left < o.left) : ∃ tail last, between = o.current :: tail ∧
    between.getLast? = some last ∧ c.behind = some last := by
  obtain - | ⟨first, tail⟩ := between
  · exact absurd h.left (by simp only [length_nil]; omega)
  obtain rfl : o.current = first := (List.cons.inj h.lexemes).1
  refine ⟨tail, _, rfl, getLast?_cons, ?_⟩
  rw [h.behind, getLast?_cons, Option.some_or]

end

lemma step (hc : c.Closed) (ht : c.token ≠ .eof) : c.Passes [c.current] c.step := by
  obtain ⟨behind, current, ahead⟩ := c
  cases ahead with
  | nil => exact absurd (hc current rfl) ht
  | cons next rest => exact ⟨rfl, rfl⟩

lemma current_step (hc : c.Closed) (ht : c.token ≠ .eof) : c.step.current = c.next := by
  obtain ⟨behind, current, ahead⟩ := c
  cases ahead with
  | nil => exact absurd (hc current rfl) ht
  | cons next rest => rfl

lemma skipNewlinesFrom (behind : Option Lexeme) (current : Lexeme) (ahead : List Lexeme) :
    ∃ lines, (⟨behind, current, ahead⟩ : Cursor).Passes lines (skipNewlinesFrom behind current ahead).1 ∧
      (∀ l ∈ lines, l.token = .newline) ∧ (skipNewlinesFrom behind current ahead).2 = lines.length := by
  induction ahead generalizing behind current with
  | nil => exact ⟨[], .refl _, forall_mem_nil _, rfl⟩
  | cons next rest ih =>
    cases hn : current.token.isNewline with
    | false =>
      rw [Cursor.skipNewlinesFrom, hn]
      exact ⟨[], .refl _, forall_mem_nil _, rfl⟩
    | true =>
      obtain ⟨lines, hpass, hlines, hcount⟩ := ih (some current) next
      have hcurrent : current.token = .newline := by
        cases ht : current.token <;> simp_all [Token.isNewline]
      have hstep : (⟨behind, current, next :: rest⟩ : Cursor).Passes [current] ⟨some current, next, rest⟩ := ⟨rfl, rfl⟩
      rw [Cursor.skipNewlinesFrom, hn]
      refine ⟨current :: lines, hstep.trans hpass, forall_mem_cons.2 ⟨hcurrent, hlines⟩, ?_⟩
      simp only [if_true, hcount, length_cons]

lemma skipNewlines (c : Cursor) : ∃ lines, c.Passes lines c.skipNewlines.1 ∧ (∀ l ∈ lines, l.token = .newline) ∧
    c.skipNewlines.2 = lines.length := skipNewlinesFrom c.behind c.current c.ahead

lemma skipNewlines_ne_zero (hc : c.Closed) (ht : c.token = .newline) : c.skipNewlines.2 ≠ 0 := by
  obtain ⟨behind, current, ahead⟩ := c
  cases ahead with
  | nil => exact absurd (ht.symm.trans (hc current rfl)) (by simp)
  | cons next rest =>
    have hn : current.token.isNewline = true := by rw [show current.token = _ from ht]; rfl
    rw [Cursor.skipNewlines, Cursor.skipNewlinesFrom, hn]
    simp only [if_true]
    exact Nat.succ_ne_zero _

end Passes

namespace Before

lemma refl (c : Cursor) : c.Before c := ⟨[], .refl c⟩

lemma trans (h : o.Before c) (h' : c.Before d) : o.Before d := by
  obtain ⟨between, h⟩ := h
  obtain ⟨more, h'⟩ := h'
  exact ⟨between ++ more, h.trans h'⟩

lemma suffix (h : o.Before c) : c.lexemes <:+ o.lexemes := by
  obtain ⟨between, h⟩ := h
  exact ⟨between, h.lexemes.symm⟩

lemma left_le (h : o.Before c) : c.left ≤ o.left := by
  obtain ⟨between, h⟩ := h
  have := h.left
  omega

end Before

end Cursor

namespace SyntaxCause

def isParameterFault : SyntaxCause → Bool
  | requiredAfterDefault _ | duplicateParameter _ | duplicateCollector _ => true
  | _ => false

def isExhausted : SyntaxCause → Bool
  | unexpected _ [] => true
  | _ => false

end SyntaxCause

def Span.OfRange (range : List Lexeme) (span : Span) : Prop :=
  ∃ first ∈ range.head?, ∃ last ∈ range.getLast?, span = ⟨first.span.start, max last.span.stop first.span.stop⟩

structure SyntaxFault.IsAt (lexemes : List Lexeme) (f : SyntaxFault) : Prop where
  genuine : f.cause.isExhausted = false
  place : (∃ l ∈ lexemes, f.span = l.span) ∨
    f.cause.isParameterFault = true ∧ ∃ range, range <:+: lexemes ∧ f.span.OfRange range

lemma Cursor.Passes.ofRange {c after : Cursor} {range : List Lexeme} (h : c.Passes range after)
    (hlt : after.left < c.left) : (after.spanFrom c.here).OfRange range := by
  obtain ⟨tail, last, rfl, hend, hlast⟩ := h.ends hlt
  refine ⟨c.current, rfl, last, hend, ?_⟩
  rw [Cursor.spanFrom, Cursor.previousEnd, hlast, Cursor.here]

end ScriptMachine
