import ScriptMachine.Token.Scan

/-! A reader that has two characters of the text in view and counts lines and columns as it goes. -/

namespace ScriptMachine

/-- A lexeme with the line and the column where it was found. -/
structure Sighting where
  lexeme : Lexeme
  line : Nat
  column : Nat

structure Window where
  position : Nat := 0
  nextPosition : Nat := 0
  ch : Option Char := none
  nextCh : Option Char := none
  input : List Char
  inputOffset : Nat := 0
  line : Nat := 1
  column : Nat := 0

namespace Window

def next (w : Window) : Window where
  position := w.nextPosition
  nextPosition := if w.input.isEmpty then w.nextPosition + byteSize w.nextCh.toList else w.inputOffset
  ch := w.nextCh
  nextCh := w.input.head?
  input := w.input.tail
  inputOffset := w.inputOffset + byteSize w.input.head?.toList
  line := if w.ch = some '\n' then w.line + 1 else w.line
  column := if w.ch = some '\n' then 1 else w.column + w.ch.toList.length

def atStart (cs : List Char) : Window := { ({ input := cs } : Window).next.next with line := 1, column := 1 }

def skip (w : Window) : Nat → Window
  | 0 => w
  | n + 1 => w.next.skip n

/-- The text behind the character in view. -/
def ahead (w : Window) : List Char := w.nextCh.toList ++ w.input

def size (w : Window) : Nat := w.ch.toList.length + w.ahead.length

theorem size_next (w : Window) : w.next.size = w.ahead.length := by
  cases hi : w.input with
  | nil => simp [size, next, ahead, hi]
  | cons c cs =>
    simp only [size, next, ahead, hi, List.head?_cons, List.tail_cons, Option.toList_some, List.length_append,
      List.length_cons, List.length_nil]
    omega

theorem size_skip_le (w : Window) (n : Nat) : (w.skip n).size ≤ w.size := by
  induction n generalizing w with
  | zero => exact Nat.le_refl _
  | succ n ih =>
    have hnext := w.size_next
    exact Nat.le_trans (ih w.next) (by rw [hnext, size]; omega)

/-- The lexemes from the character in view on, and the fault that ends them or the position at the end of the text. -/
def scan (w : Window) : List Sighting × Except LexicalFault Nat :=
  match _ : w.ch with
  | none => ([], .ok w.position)
  | some c =>
    let behind := w.skip ((Piece.read c w.ahead).2 + 1)
    match (Piece.read c w.ahead).1 with
    | .gap => behind.scan
    | .token t =>
      let rest := behind.scan
      (⟨⟨t, ⟨w.position, behind.position⟩, false⟩, w.line, w.column⟩ :: rest.1, rest.2)
    | .fault cause => ([], .error ⟨cause, ⟨w.position, behind.position⟩⟩)
termination_by w.size
decreasing_by
  all_goals
    have hskip := w.next.size_skip_le (Piece.read c w.ahead).2
    rw [size_next] at hskip
    simp_all only [size, skip, Option.toList_some, List.length_cons, List.length_nil]
    omega

end Window

end ScriptMachine
