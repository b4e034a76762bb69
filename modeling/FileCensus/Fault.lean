import FileCensus.Text.Quoted

/-!
What can go wrong outside the program's own rules: an answer of the operating system. A fault either carries a number, the
system's text for it and perhaps the file concerned, or is no more than a message.
-/

namespace FileCensus

inductive Fault where
  | coded (number : Int) (text : String) (file : Option String)
  | plain (message : String)
  deriving DecidableEq, Repr

/-- The causes that path resolution can report. -/
inductive PathFault where
  | missing
  | exists_
  | notDirectory
  | isDirectory
  | nameTooLong
  | tooManyLinks
  deriving DecidableEq, Repr

namespace PathFault

def number : PathFault → Int
  | .missing => 2
  | .exists_ => 17
  | .notDirectory => 20
  | .isDirectory => 21
  | .nameTooLong => 36
  | .tooManyLinks => 40

def text : PathFault → String
  | .missing => "No such file or directory"
  | .exists_ => "File exists"
  | .notDirectory => "Not a directory"
  | .isDirectory => "Is a directory"
  | .nameTooLong => "File name too long"
  | .tooManyLinks => "Too many levels of symbolic links"

/-- The fault as it is reported for the file `file`. -/
def onFile (f : PathFault) (file : String) : Fault :=
    .coded f.number f.text (some file)

end PathFault

namespace Fault

def message : Fault → String
  | .coded n t none => "[Errno " ++ toString n ++ "] " ++ t
  | .coded n t (some f) => "[Errno " ++ toString n ++ "] " ++ t ++ ": " ++ Text.quoted f
  | .plain m => m

/-- The system's own words, or the whole message where there are none. -/
def reason (f : Fault) : String :=
    match f with
    | .coded _ t _ => if t = "" then f.message else t
    | .plain m => m

def file? : Fault → Option String
  | .coded _ _ f => f
  | .plain _ => none

/-- The class of a fault, as it is named where a failure has no message of its own. -/
def kind : Fault → String
  | .coded n _ _ =>
      if n = 1 ∨ n = 13 then "PermissionError"
      else if n = 2 then "FileNotFoundError"
      else if n = 17 then "FileExistsError"
      else if n = 20 then "NotADirectoryError"
      else if n = 21 then "IsADirectoryError"
      else if n = 32 then "BrokenPipeError"
      else "OSError"
  | .plain _ => "OSError"

end Fault

end FileCensus
