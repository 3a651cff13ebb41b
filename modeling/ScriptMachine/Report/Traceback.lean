import ScriptMachine.Fault

namespace ScriptMachine

def Site.line (s : Site) : String :=
  s!"File \"{s.source.name}\", line {(s.source.lineCol s.span.start).1}, in {s.name}"

def runs : List String → List (String × Nat)
  | [] => []
  | line :: rest =>
    match runs rest with
    | (other, n) :: more => if line = other then (line, n + 1) :: more else (line, 1) :: (other, n) :: more
    | [] => [(line, 1)]

def shownRepeats : Nat := 3

def runLines (line : String) (count : Nat) : List String :=
  List.replicate (min count shownRepeats) ("  " ++ line) ++
    if shownRepeats < count then [s!"  [Previous line repeated {count - shownRepeats} more times]"] else []

def foldedLines (lines : List String) : List String := (runs lines).flatMap fun r => runLines r.1 r.2

def Failure.lines (f : Failure) : List String := f.sites.map Site.line

def Failure.traceback (f : Failure) : String :=
  "\n".intercalate ("Traceback (most recent call last):" :: foldedLines f.lines)

theorem runs_flatten (lines : List String) : (runs lines).flatMap (fun r => List.replicate r.2 r.1) = lines := by
  induction lines with
  | nil => rfl
  | cons line rest ih =>
    simp only [runs]
    split
    · rename_i other n more h
      rw [h] at ih
      split
      · rename_i heq
        subst heq
        simpa [List.replicate_succ] using ih
      · simpa using ih
    · rename_i h
      rw [h] at ih
      simpa using ih

end ScriptMachine
