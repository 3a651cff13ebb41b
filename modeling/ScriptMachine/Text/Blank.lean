namespace ScriptMachine.Text

def isBlank (c : Char) : Bool :=
  let n := c.toNat
  (9 ≤ n && n ≤ 13) || n = 0x20 || n = 0x85 || n = 0xA0 || n = 0x1680 || (0x2000 ≤ n && n ≤ 0x200A) ||
    n = 0x2028 || n = 0x2029 || n = 0x202F || n = 0x205F || n = 0x3000

def trimStart (cs : List Char) : List Char := cs.dropWhile isBlank

def trimEnd (cs : List Char) : List Char := (cs.reverse.dropWhile isBlank).reverse

def trim (cs : List Char) : List Char := trimEnd (trimStart cs)

def consHead (c : Char) : List (List Char) → List (List Char)
  | [] => [[c]]
  | l :: ls => (c :: l) :: ls

def lines : List Char → List (List Char)
  | [] => []
  | '\n' :: cs => [] :: lines cs
  | '\r' :: '\n' :: cs => [] :: lines cs
  | c :: cs => consHead c (lines cs)

def strip (cs : List Char) : List Char := List.intercalate ['\n'] ((lines cs).map trim)

def stripLines (text : String) : String := String.ofList (strip text.toList)

def idleLine (line : List Char) : Bool := line.head? == some '#' || line.all (· == ';')

def isIdle (text : String) : Bool := (lines text.toList).all fun line => idleLine (trim line)

end ScriptMachine.Text
