namespace ScriptMachine

inductive FileFault where
  | absent
  | isDirectory
  | notDirectory
  | nameTooLong
  | nulInName
  | notText
deriving DecidableEq, Repr

namespace FileFault

def text : FileFault → String
  | absent => "No such file or directory (os error 2)"
  | isDirectory => "Is a directory (os error 21)"
  | notDirectory => "Not a directory (os error 20)"
  | nameTooLong => "File name too long (os error 36)"
  | nulInName => "file name contained an unexpected NUL byte"
  | notText => "stream did not contain valid UTF-8"

def className : FileFault → String
  | absent => "entity not found"
  | isDirectory => "is a directory"
  | notDirectory => "not a directory"
  | nameTooLong => "invalid filename"
  | nulInName => "invalid input parameter"
  | notText => "invalid data"

end FileFault

end ScriptMachine
