import FileCensus.Command.Line
import FileCensus.Config.Options
import FileCensus.Decimal.Integer
import FileCensus.Failure
import FileCensus.FileSystem.Access
import FileCensus.Log.Level

/-!
What a command line asks for. Of an option that takes one value the last mention counts, and of two opposite flags the last
one; patterns add up. Values are checked in the order in which their options are first mentioned, the roots after them.
-/

namespace FileCensus.Command

/-- Why a command does not get to its work. -/
inductive Halt where
  | usage (fault : UsageFault)
  | failure (f : Failure)
  deriving DecidableEq, Repr

/-- What stands before the name of the command. -/
structure General where
  level : Log.Level
  logFile : Option Path
  deriving DecidableEq, Repr

structure Request where
  roots : List Path
  configFile : Option Path
  include_ : List String
  exclude : List String
  includeHidden : Option Bool
  includeSystem : Option Bool
  followLinks : Option Bool
  maxDepth : Option Nat
  queueSize : Nat
  output : Option Path
  showsProgress : Bool
  deriving DecidableEq, Repr

def helpFlag : String := "--help"

namespace General

def table : OptionTable :=
    ⟨["--verbose", "--quiet", helpFlag], ["--log-file"]⟩

/-- The wish for quiet outdoes the wish for detail. -/
def levelOf (l : Line) : Log.Level :=
    if l.mentions? "--quiet" then .warning else if l.mentions? "--verbose" then .debug else .info

end General

/-- A path that is taken as it is written. -/
def pathArgument (text : String) : Except Halt Path :=
    if text.contains '\x00' then .error (.failure .embeddedNul) else .ok (.parse text)

/-- A path to a file; one that leads to a directory is refused. -/
def fileArgument (fs : FileSystem) (option text : String) : Except Halt Path := do
    let p ← pathArgument text
    if text ≠ "" ∧ fs.isDirectory p then .error (.usage (.directory option text)) else .ok p

def numberArgument (option : String) (least : Nat) (text : String) : Except Halt Nat :=
    match Decimal.integer? text with
    | none => .error (.usage (.notInteger option text))
    | some n => if n < Int.ofNat least then .error (.usage (.belowLeast option n least)) else .ok n.toNat

def General.ofLine (l : Line) : Except Halt General :=
    match l.lastValue "--log-file" with
    | none => .ok ⟨levelOf l, none⟩
    | some text => (pathArgument text).map fun p => ⟨levelOf l, some p⟩

namespace Request

def table : OptionTable :=
    ⟨["--include-hidden", "--ignore-hidden", "--include-os-files", "--ignore-os-files", "--follow-symlinks",
        "--no-follow-symlinks", "--progress", helpFlag],
      ["--config-file", "--include", "--exclude", "--max-depth", "--queue-size", "--output"]⟩

/-- Options that may be given several values. -/
def repeatable : List String :=
    ["--include", "--exclude"]

def usualQueueSize : Nat := 1024

def usual : Request where
  roots := []
  configFile := none
  include_ := []
  exclude := []
  includeHidden := none
  includeSystem := none
  followLinks := none
  maxDepth := none
  queueSize := usualQueueSize
  output := none
  showsProgress := false

def apply (fs : FileSystem) (r : Request) (option value : String) : Except Halt Request :=
    match option with
    | "--config-file" => (fileArgument fs option value).map fun p => { r with configFile := some p }
    | "--include" => .ok { r with include_ := r.include_ ++ [value] }
    | "--exclude" => .ok { r with exclude := r.exclude ++ [value] }
    | "--max-depth" => (numberArgument option 0 value).map fun n => { r with maxDepth := some n }
    | "--queue-size" => (numberArgument option 1 value).map fun n => { r with queueSize := n }
    | "--output" => (fileArgument fs option value).map fun p => { r with output := some p }
    | "--include-hidden" => .ok { r with includeHidden := some true }
    | "--ignore-hidden" => .ok { r with includeHidden := some false }
    | "--include-os-files" => .ok { r with includeSystem := some true }
    | "--ignore-os-files" => .ok { r with includeSystem := some false }
    | "--follow-symlinks" => .ok { r with followLinks := some true }
    | "--no-follow-symlinks" => .ok { r with followLinks := some false }
    | "--progress" => .ok { r with showsProgress := true }
    | _ => .ok r

/-- The value that counts for a mention. -/
def settledValue (l : Line) (m : Mention) : String :=
    ((if repeatable.contains m.option then m.value else l.lastValue m.option)).getD ""

def rootsOf (operands : List String) : Except Halt (List Path) :=
    if operands.isEmpty then .error (.usage .noRoots) else operands.mapM pathArgument

def ofLine (fs : FileSystem) (l : Line) : Except Halt Request := do
    let r ← l.mentions.foldlM (fun r m => r.apply fs m.option (settledValue l m)) usual
    let roots ← rootsOf l.operands
    .ok { r with roots := roots }

/-- The options that a request overrides. -/
def options (r : Request) : Options where
  includeHidden := r.includeHidden
  includeSystem := r.includeSystem
  includePattern := if r.include_.isEmpty then none else some r.include_
  excludePattern := if r.exclude.isEmpty then none else some r.exclude
  followLinks := r.followLinks
  maxDepth := r.maxDepth.map some

end Request

end FileCensus.Command
