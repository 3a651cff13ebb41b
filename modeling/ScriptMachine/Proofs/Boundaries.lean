import ScriptMachine.Proofs.Turns

/-! Offsets that lie between two characters of a text. -/

namespace ScriptMachine

open List

def IsBoundary (cs : List Char) (offset : Nat) : Prop := ∃ before after, cs = before ++ after ∧ byteSize before = offset

lemma utf8ByteSize_ofList (cs : List Char) : (String.ofList cs).utf8ByteSize = byteSize cs := by
  induction cs with
  | nil => rfl
  | cons c cs ih => rw [byteSize, ← ih, String.ofList_cons, String.utf8ByteSize_append, String.utf8ByteSize_singleton]

namespace IsBoundary

lemma start (cs : List Char) : IsBoundary cs 0 := ⟨[], cs, rfl, rfl⟩

lemma stop (cs : List Char) : IsBoundary cs (byteSize cs) := ⟨cs, [], (append_nil cs).symm, rfl⟩

lemma isValid {text : String} {offset : Nat} (h : IsBoundary text.toList offset) :
    (⟨offset⟩ : String.Pos.Raw).IsValid text := by
  obtain ⟨before, after, htext, hsize⟩ := h
  refine String.Pos.Raw.isValid_iff_exists_append.2 ⟨String.ofList before, String.ofList after, ?_, ?_⟩
  · rw [← String.ofList_append, ← htext, String.ofList_toList]
  · rw [← hsize, ← utf8ByteSize_ofList]
    rfl

end IsBoundary

namespace Span

structure Within (B : Nat → Prop) (span : Span) : Prop where
  le : span.start ≤ span.stop
  start : B span.start
  stop : B span.stop

variable {B : Nat → Prop} {span : Span} {offset : Nat}

lemma Within.point (h : B offset) : (Span.point offset).Within B := ⟨le_rfl, h, h⟩

end Span

def AllWithin (B : Nat → Prop) (lexemes : List Lexeme) : Prop := ∀ l ∈ lexemes, l.span.Within B

section lexemes

variable {y : Layout} {B : Nat → Prop} {l : Lexeme} {lexemes program rest : List Lexeme}

@[simp] lemma allWithin_cons : AllWithin B (l :: lexemes) ↔ l.span.Within B ∧ AllWithin B lexemes := forall_mem_cons

@[simp] lemma allWithin_nil : AllWithin B [] := forall_mem_nil _

lemma scanFrom_within (before : List Char) {cs : List Char} {offset : Nat} (hb : byteSize before = offset) :
    AllWithin (IsBoundary (before ++ cs)) (scanFrom offset cs).1 := by
  fun_induction scanFrom offset cs generalizing before with
  | case1 | case4 => exact allWithin_nil
  | case2 offset c cs piece count stop hpiece =>
    rename_i ih
    have hnext : byteSize (before ++ c :: cs.take count) = stop := by rw [byteSize_append, hb]
    simpa [take_append_drop] using ih _ hnext
  | case3 offset c cs piece count stop t hpiece rest =>
    rename_i ih
    have hnext : byteSize (before ++ c :: cs.take count) = stop := by rw [byteSize_append, hb]
    have htext : before ++ c :: cs = (before ++ c :: cs.take count) ++ cs.drop count := by simp
    refine allWithin_cons.2 ⟨⟨Nat.le_add_right .., ⟨before, c :: cs, rfl, hb⟩, ?_⟩, ?_⟩
    · exact ⟨before ++ c :: cs.take count, cs.drop count, htext, hnext⟩
    · rw [htext]
      exact ih _ hnext

lemma insertLet_within (h : AllWithin B program) : AllWithin B (insertLet program) := by
  unfold insertLet
  split
  · rename_i name span a before
    obtain ⟨hspan, hbefore⟩ := allWithin_cons.1 h
    have hlet : (Span.point span.start).Within B := .point hspan.start
    split
    · exact allWithin_cons.2 ⟨hspan, allWithin_cons.2 ⟨hlet, allWithin_nil⟩⟩
    · split
      · exact allWithin_cons.2 ⟨hspan, allWithin_cons.2 ⟨hlet, hbefore⟩⟩
      · exact h
  · exact h

lemma withLet_within (h : AllWithin B program) : AllWithin B (y.withLet program) := by
  unfold Layout.withLet
  split
  · exact insertLet_within h
  · exact h

lemma lastName?_within {name : String} {span : Span} (h : AllWithin B program)
    (hname : lastName? program = some (name, span)) : span.Within B := by
  unfold lastName? at hname
  split at hname
  · cases hname
    exact (allWithin_cons.1 h).1
  · contradiction

lemma Layout.Arranges.within {brackets : List OpenBracket} {r : Arranged} (h : y.Arranges program brackets rest r)
    (hp : AllWithin B program) (hr : AllWithin B rest) : AllWithin B r.1 := by
  induction h with
  | join _ _ _ _ hname _ ih =>
    obtain ⟨hl, hrest⟩ := allWithin_cons.1 hr
    obtain ⟨he, hrest⟩ := allWithin_cons.1 hrest
    have hspan := lastName?_within hp hname
    exact ih (allWithin_cons.2 ⟨hl, allWithin_cons.2 ⟨hspan, allWithin_cons.2 ⟨he, withLet_within hp⟩⟩⟩) hrest
  | _ => simp_all [withLet_within]

theorem tokenize_within {text : String} (h : tokenize text = ⟨lexemes, none⟩) :
    AllWithin (IsBoundary text.toList) lexemes := by
  have hscanned : AllWithin (IsBoundary text.toList) (scanFrom 0 text.toList).1 := scanFrom_within [] rfl
  have hprogram := ((Layout.ofText true text.toList).arranges [] [] _).within allWithin_nil hscanned
  obtain ⟨fault, -, htokens⟩ := tokenizeChars_eq true text.toList
  obtain ⟨rfl, rfl⟩ := Tokenized.mk.inj (htokens.symm.trans h)
  intro l hl
  rcases mem_append.1 hl with hl | hl
  · exact hprogram l (mem_reverse.1 hl)
  · rw [mem_singleton.1 hl]
    exact .point (.stop _)

end lexemes

end ScriptMachine
