import Mathlib
import ScriptMachine.Token.Stream

/-! The reader's window: its counters agree with the text it has passed, so that reading through it gives the lexemes
of the text and the places where they start. -/

namespace ScriptMachine

open List

lemma takeBytes_append (before after : List Char) : takeBytes (byteSize before) (before ++ after) = before := by
  induction before with
  | nil =>
    cases after with
    | nil => rfl
    | cons c cs => simp [byteSize, takeBytes, Nat.not_le.2 c.utf8Size_pos]
  | cons c before ih => simp [byteSize, takeBytes, ih]

lemma Source.placeAfter_append (before : List Char) (c : Char) : placeAfter (before ++ [c]) =
    if c = '\n' then ((placeAfter before).1 + 1, 1) else ((placeAfter before).1, (placeAfter before).2 + 1) := by
  by_cases hc : c = '\n'
  · simp [placeAfter, lineTail, hc]
  · simp [placeAfter, lineTail, hc]

/-- The lexemes of a text with the places where they start. -/
def sightings (cs : List Char) (lexemes : List Lexeme) : List Sighting :=
  lexemes.map fun l =>
    ⟨l, (Source.placeAfter (takeBytes l.span.start cs)).1, (Source.placeAfter (takeBytes l.span.start cs)).2⟩

/-- The fault that ends a text early, or its size. -/
def ending (cs : List Char) : Option LexicalFault → Except LexicalFault Nat
  | none => .ok (byteSize cs)
  | some fault => .error fault

namespace Window

/-- The window stands between two parts of the text. -/
structure At (before after : List Char) (w : Window) : Prop where
  ch : w.ch = after.head?
  ahead : w.nextCh = after.tail.head?
  input : w.input = after.drop 2
  position : w.position = byteSize before
  nextPosition : w.nextPosition = byteSize (before ++ after.take 1)
  inputOffset : w.inputOffset = byteSize (before ++ after.take 2)
  place : (w.line, w.column) = Source.placeAfter before

variable {before after : List Char} {w : Window} {c : Char}

lemma at_atStart (cs : List Char) : At [] cs (atStart cs) := by
  rcases cs with _ | ⟨c, _ | ⟨d, cs⟩⟩
  all_goals constructor <;> simp [atStart, next, byteSize, Source.placeAfter, Source.lineTail]

lemma scan_of_none (h : w.ch = none) : w.scan = ([], .ok w.position) := by
  rw [scan.eq_def]
  split
  · rfl
  · simp_all

lemma scan_of_some (h : w.ch = some c) : w.scan =
    match Piece.read c w.ahead with
    | (.gap, n) => (w.skip (n + 1)).scan
    | (.token t, n) =>
      (⟨⟨t, ⟨w.position, (w.skip (n + 1)).position⟩, false⟩, w.line, w.column⟩ :: (w.skip (n + 1)).scan.1,
        (w.skip (n + 1)).scan.2)
    | (.fault cause, n) => ([], .error ⟨cause, ⟨w.position, (w.skip (n + 1)).position⟩⟩) := by
  rw [scan.eq_def]
  split
  · simp_all
  · rename_i d hd
    obtain rfl : c = d := Option.some.inj (h.symm.trans hd)
    generalize Piece.read c w.ahead = r
    obtain ⟨piece, n⟩ := r
    cases piece <;> rfl

namespace At

lemma ahead_eq (h : At before after w) : w.ahead = after.tail := by
  rw [Window.ahead, h.ahead, h.input]
  rcases after with _ | ⟨c, _ | ⟨d, after⟩⟩ <;> rfl

lemma next (h : At before (c :: after) w) : At (before ++ [c]) after w.next where
  ch := h.ahead
  ahead := by simp [Window.next, h.input]
  input := by simp [Window.next, h.input, ← drop_one]
  position := h.nextPosition
  nextPosition := by
    rcases after with _ | ⟨d, _ | ⟨e, after⟩⟩
    all_goals simp [Window.next, h.input, h.ahead, h.inputOffset, h.nextPosition, byteSize, Nat.add_assoc]
  inputOffset := by
    rcases after with _ | ⟨d, _ | ⟨e, after⟩⟩
    all_goals simp [Window.next, h.input, h.inputOffset, byteSize, Nat.add_assoc]
  place := by
    rw [Source.placeAfter_append, ← h.place]
    by_cases hc : c = '\n'
    · simp [Window.next, h.ch, hc]
    · simp [Window.next, h.ch, hc]

lemma next_nil (h : At before [] w) : At before [] w.next := by
  have hplace := h.place
  constructor <;> simp_all [Window.next, h.ch, h.ahead, h.input, h.nextPosition, h.inputOffset, byteSize]

lemma skip (h : At before after w) (n : Nat) : At (before ++ after.take n) (after.drop n) (w.skip n) := by
  induction n generalizing before after w with
  | zero => simpa [Window.skip] using h
  | succ n ih =>
    cases after with
    | nil => simpa [Window.skip] using ih h.next_nil
    | cons c after => simpa [Window.skip] using ih h.next

lemma scan (h : At before after w) : w.scan = (sightings (before ++ after) (scanFrom (byteSize before) after).1,
    ending (before ++ after) (scanFrom (byteSize before) after).2) := by
  generalize hoffset : byteSize before = offset
  fun_induction scanFrom offset after generalizing before w with
  | case1 offset => simp [scan_of_none h.ch, sightings, ending, h.position]
  | case2 offset c cs piece count stop =>
    rename_i hpiece ih
    have hread : Piece.read c cs = (.gap, count) := Prod.ext hpiece rfl
    have hbehind : At (before ++ c :: cs.take count) (cs.drop count) (w.skip (count + 1)) := h.skip (count + 1)
    have hstop : byteSize (before ++ c :: cs.take count) = stop := by rw [byteSize_append, hoffset]
    rw [scan_of_some h.ch, h.ahead_eq, tail_cons, hread]
    simpa using ih hbehind hstop
  | case3 offset c cs piece count stop t =>
    rename_i hpiece rest ih
    have hread : Piece.read c cs = (.token t, count) := Prod.ext hpiece rfl
    have hbehind : At (before ++ c :: cs.take count) (cs.drop count) (w.skip (count + 1)) := h.skip (count + 1)
    have hstop : byteSize (before ++ c :: cs.take count) = stop := by rw [byteSize_append, hoffset]
    have hplace : Source.placeAfter (takeBytes offset (before ++ c :: cs)) = (w.line, w.column) := by
      rw [← hoffset, takeBytes_append, h.place]
    rw [scan_of_some h.ch, h.ahead_eq, tail_cons, hread]
    simp only [ih hbehind hstop, h.position, hbehind.position, hoffset, hstop, sightings, map_cons, hplace]
    simp [rest]
  | case4 offset c cs piece count stop =>
    rename_i cause hpiece
    have hread : Piece.read c cs = (.fault cause, count) := Prod.ext hpiece rfl
    have hbehind : At (before ++ c :: cs.take count) (cs.drop count) (w.skip (count + 1)) := h.skip (count + 1)
    rw [scan_of_some h.ch, h.ahead_eq, tail_cons, hread]
    simp only [h.position, hbehind.position, byteSize_append, hoffset, sightings, map_nil]
    rfl

end At

end Window

end ScriptMachine
