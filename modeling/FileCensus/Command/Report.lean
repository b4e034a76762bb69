import FileCensus.Command.Usage
import FileCensus.FileSystem.Node

/-!
What a command leaves behind: its exit code, the texts on its two streams, and the file tree. A command line that is refused
is answered with a hint on how to use the program; any other refusal is one line.
-/

namespace FileCensus.Command

structure Report where
  code : Nat
  out : String
  err : String
  fs : FileSystem

def programName : String := "treescan"

def scanName : String := "scan"

def lineOf (s : String) : String :=
    s ++ "\n"

/-- How the program, or a command of it, is called. -/
def callOf : Option String → String
  | none => programName
  | some name => programName ++ " " ++ name

def usageLine : Option String → String
  | none => "Usage: " ++ callOf none ++ " [OPTIONS] COMMAND [ARGS]..."
  | some name => "Usage: " ++ callOf (some name) ++ " [OPTIONS] ROOTS..."

def complaint (text : String) : String :=
    lineOf ("Error: " ++ text)

namespace Report

def ofUsage (fs : FileSystem) (command : Option String) (fault : UsageFault) : Report where
  code := 2
  out := ""
  err := lineOf (usageLine command) ++ lineOf ("Try '" ++ callOf command ++ " --help' for help.") ++ lineOf "" ++
    complaint fault.message
  fs := fs

def help (fs : FileSystem) (command : Option String) : Report where
  code := 0
  out := lineOf (usageLine command)
  err := ""
  fs := fs

/-- The answer to a command line without words. -/
def hint (fs : FileSystem) : Report where
  code := 2
  out := ""
  err := lineOf (usageLine none)
  fs := fs

def refused (fs : FileSystem) (text : String) : Report where
  code := 1
  out := ""
  err := complaint text
  fs := fs

end Report

end FileCensus.Command
