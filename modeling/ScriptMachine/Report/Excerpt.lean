import ScriptMachine.Report.Style
import ScriptMachine.Source
import ScriptMachine.Text.Blank
import ScriptMachine.Text.Width

/-! The part of a source that a report points at, with line numbers on the left and marks under it. -/

namespace ScriptMachine

structure SourceLine where
  number : Nat
  start : Nat
  chars : List Char

def sourceLinesFrom (number start : Nat) : List Char → List Char → List SourceLine
  | read, [] => [⟨number, start, read.reverse⟩]
  | read, c :: cs =>
    if c = '\n' then
      ⟨number, start, read.reverse⟩ :: sourceLinesFrom (number + 1) (start + byteSize read + 1) [] cs
    else sourceLinesFrom number start (c :: read) cs

def Source.lines (s : Source) : List SourceLine := sourceLinesFrom 1 0 [] s.text.toList

def SourceLine.shown (l : SourceLine) : List Char :=
  (l.chars.reverse.dropWhile fun c => c = '\r' ∨ c = Char.ofNat 0).reverse

structure Column where
  offset : Nat
  char : Char
  width : Nat

def Column.stop (c : Column) : Nat := c.offset + c.char.utf8Size

/-- Tabs reach to the next multiple of four. -/
def columnsFrom (offset column : Nat) : List Char → List Column
  | [] => []
  | c :: cs =>
    let width := if c = '\t' then 4 - column % 4 else Text.width c
    ⟨offset, c, width⟩ :: columnsFrom (offset + c.utf8Size) (column + width) cs

def SourceLine.columns (l : SourceLine) : List Column := columnsFrom 0 0 l.shown

inductive Bracket where
  | top (offset : Nat)
  | side
  | bottom (offset : Nat)

inductive Marked where
  | within (start stop : Nat)
  | across (b : Bracket)

structure Excerpt where
  lines : List (SourceLine × Marked)
  numberWidth : Nat
  message : String

namespace Excerpt

def digits (n : Nat) : Nat := (Nat.toDigits 10 n).length

def padLeft (width : Nat) (text : String) : String := String.ofList (List.replicate (width - text.length) ' ') ++ text

def lineAt (lines : List SourceLine) (offset : Nat) : SourceLine :=
  (lines.takeWhile (·.start ≤ offset)).getLastD ⟨1, 0, []⟩

def leadingLines : Nat := 3

def trailingLines : Nat := 1

def ofSpan (s : Source) (span : Span) (message : String) : Excerpt :=
  let lines := s.lines
  let first := lineAt lines span.start
  let last := lineAt lines span.stop
  let marked (l : SourceLine) : Marked :=
    if first.number = last.number then
      .within (span.start - l.start) (max (span.stop - l.start) (span.start - l.start + 1))
    else if l.number = first.number then .across (.top (span.start - l.start))
    else if l.number = last.number then .across (.bottom (span.stop - l.start))
    else .across .side
  let touched := lines.filter fun l => first.number ≤ l.number ∧ l.number ≤ last.number
  ⟨touched.map fun l => (l, marked l), digits last.number, message⟩

def isLong (e : Excerpt) : Bool :=
  match e.lines with
  | (_, .across _) :: _ => true
  | _ => false

def isShown (firstLine lastLine : Nat) (l : SourceLine) : Bool :=
  l.number ≤ firstLine + leadingLines || lastLine ≤ l.number + trailingLines

def opensInFront (chars : List Char) (offset : Nat) : Bool :=
  offset ≤ byteSize (chars.takeWhile Text.isBlank)

def gutter (e : Excerpt) : Chunk := .plain (padLeft e.numberWidth "" ++ " ")

def side : Styled := [.plain " ", .mark "│"]

def noBracket : Chunk := .plain "  "

def beside (chars : List Char) : Bracket → Styled
  | .top offset => if opensInFront chars offset then [.plain " ", .mark "╭"] else [noBracket]
  | .side | .bottom _ => side

def isMarked (m : Marked) (c : Column) : Bool :=
  match m with
  | .within start stop => max start c.offset < min stop c.stop
  | .across (.top offset) => offset ≤ c.offset
  | .across .side => true
  | .across (.bottom offset) => c.stop ≤ offset

def columnText (c : Column) : String :=
  if c.char = '\t' then String.ofList (List.replicate c.width ' ') else c.char.toString

def pieces (marked : Column → Bool) (show_ : Column → String) : List Column → Styled
  | [] => []
  | c :: rest =>
    let style := if marked c then Style.mark else .plain
    match pieces marked show_ rest with
    | p :: more => if p.style = style then ⟨style, show_ c ++ p.text⟩ :: more else ⟨style, show_ c⟩ :: p :: more
    | [] => [⟨style, show_ c⟩]

def repeatChar (c : Char) (n : Nat) : String := String.ofList (List.replicate n c)

def underline (l : SourceLine) (start stop : Nat) : Styled :=
  let columns := l.columns ++ [⟨byteSize l.shown, Char.ofNat 0, 1⟩]
  let marked := isMarked (.within start stop)
  pieces marked (fun c => if marked c then repeatChar '^' c.width else repeatChar ' ' c.width)
    (columns.filter fun c => marked c ∨ c.offset < stop)

def reach (l : SourceLine) (limit : Nat) : String :=
  String.join ((l.columns.takeWhile (·.offset < limit)).map fun c => repeatChar '─' c.width)

def spaced (message : String) : String := if message.isEmpty then "" else " " ++ message

def marksBelow (e : Excerpt) (l : SourceLine) : Marked → Styled
  | .within start stop =>
    [e.gutter, .border "│", .plain " "] ++ underline l start stop ++
      (if e.message.isEmpty then [] else [.plain " ", .mark e.message]) ++ [.plain "\n"]
  | .across (.top offset) =>
    if opensInFront l.shown offset then []
    else [e.gutter, .border "│", .plain " ", .mark "╭", .mark (reach l (offset + 1) ++ "^"), .plain "\n"]
  | .across .side => []
  | .across (.bottom offset) =>
    [e.gutter, .border "│", .plain " ", .mark "╰", .mark (reach l offset ++ "^" ++ spaced e.message), .plain "\n"]

def lineText (e : Excerpt) (l : SourceLine) (m : Marked) : Styled :=
  let bracket := match m with
    | .within _ _ => []
    | .across b => beside l.shown b
  [.border (padLeft e.numberWidth (toString l.number)), .plain " ", .border "│"] ++ bracket ++ [.plain " "] ++
    pieces (isMarked m) columnText l.columns ++ [.plain "\n"] ++ e.marksBelow l m

def omission (e : Excerpt) : Styled := [e.gutter, .border "·"] ++ side ++ [.plain "\n"]

def linesFrom (e : Excerpt) (isShown : SourceLine → Bool) (hidden : List (SourceLine × Marked)) :
    List (SourceLine × Marked) → Styled
  | [] => []
  | (l, m) :: rest =>
    if isShown l then
      (match hidden with
        | [] => []
        | [(k, n)] => e.lineText k n
        | _ => e.omission) ++ e.lineText l m ++ linesFrom e isShown [] rest
    else linesFrom e isShown (hidden ++ [(l, m)]) rest

def emptyLine (e : Excerpt) : Styled :=
  [e.gutter, .border "│"] ++ (if e.isLong then [noBracket] else []) ++ [.plain "\n"]

def firstLine (e : Excerpt) : Nat := ((e.lines.head?).map (·.1.number)).getD 1

def lastLine (e : Excerpt) : Nat := ((e.lines.getLast?).map (·.1.number)).getD 1

def body (e : Excerpt) : Styled :=
  e.linesFrom (fun l => isShown e.firstLine e.lastLine l) [] e.lines

end Excerpt

end ScriptMachine
