/-! Byte spans, and named source texts with the line and column of a byte offset. -/

namespace ScriptMachine

structure Span where
  start : Nat
  stop : Nat
deriving DecidableEq, Inhabited, Repr

namespace Span

def point (offset : Nat) : Span := ⟨offset, offset⟩

def merge (a b : Span) : Span := ⟨min a.start b.start, max a.stop b.stop⟩

def clamp (a : Span) (size : Nat) : Span :=
  ⟨min a.start size, min (max a.stop (min a.start size)) size⟩

def text (a : Span) : String := s!"{a.start}..{a.stop}"

end Span

def byteSize : List Char → Nat
  | [] => 0
  | c :: cs => c.utf8Size + byteSize cs

@[simp] theorem byteSize_append (cs ds : List Char) : byteSize (cs ++ ds) = byteSize cs + byteSize ds := by
  induction cs with
  | nil => simp [byteSize]
  | cons c cs ih => simp [byteSize, ih, Nat.add_assoc]

def takeBytes : Nat → List Char → List Char
  | _, [] => []
  | n, c :: cs => if c.utf8Size ≤ n then c :: takeBytes (n - c.utf8Size) cs else []

def dropBytes : Nat → List Char → List Char
  | _, [] => []
  | n, c :: cs => if c.utf8Size ≤ n then dropBytes (n - c.utf8Size) cs else c :: cs

structure Source where
  name : String
  text : String
deriving DecidableEq, Inhabited, Repr

namespace Source

def lineTail (before : List Char) : List Char := (before.reverse.takeWhile (· ≠ '\n')).reverse

def placeAfter (before : List Char) : Nat × Nat :=
  (before.count '\n' + 1, (lineTail before).length + 1)

def lineCol (s : Source) (offset : Nat) : Nat × Nat := placeAfter (takeBytes offset s.text.toList)

def lineText (s : Source) (offset : Nat) : String :=
  let before := takeBytes offset s.text.toList
  let after := dropBytes offset s.text.toList
  String.ofList (lineTail before ++ after.takeWhile (· ≠ '\n'))

end Source

end ScriptMachine
