import FileCensus.Config.Error
import FileCensus.Fault
import FileCensus.FileSystem.Resolve
import FileCensus.Log.Template
import FileCensus.Log.Timestamp
import FileCensus.Yaml.Error

/-!
Everything that an operation can end with in place of a result. A failure has a kind and a message; the message may be
empty, and then a failure is known by its kind. Failures that have no message because the making of it fails in its turn are
left out.
-/

namespace FileCensus

inductive Failure where
  /-- A failure that is no more than a message. -/
  | invalid (message : String)
  | trouble (message : String)
  | system (fault : Fault)
  | embeddedNul
  | config (e : ConfigError)
  | glob (e : GlobError)
  | undecodable
  | scalar (fault : Yaml.ScalarFault)
  | cancelled (message : String)
  | traversal (reason : String) (path : Option String) (cause : Option Fault)
  | latchSealed
  | closed
  /-- The outcome of a job that was cancelled. -/
  | jobCancelled
  | jobUnfinished
  | jobFinished
  | jobNotStartable
  | fileClosed
  /-- An integer has too many digits to be printed. -/
  | longNumeral
  | loggerLevel
  | logFile
  | template (fault : Log.TemplateFault)
  | time (fault : Log.TimeFault)
  | interrupted
  deriving DecidableEq, Repr

namespace Failure

/-- A message that ends with a path, if there is one. -/
def atPath (reason : String) (path : Option String) : String :=
    match path with
    | some p => if p = "" then reason else reason ++ ": " ++ p
    | none => reason

def message : Failure → String
  | .invalid m => m
  | .trouble m => m
  | .system f => f.message
  | .embeddedNul => "embedded null byte"
  | .config e => e.message
  | .glob e => if e.isRefusal then ConfigError.labelled (some "pattern") e.message else e.message
  | .undecodable => ""
  | .scalar f => f.message
  | .cancelled m => m
  | .traversal reason path _ => atPath reason path
  | .latchSealed => "latch is sealed"
  | .closed => "scanner has been shut down"
  | .jobCancelled => ""
  | .jobUnfinished => ""
  | .jobFinished => ""
  | .jobNotStartable => "Future in unexpected state"
  | .fileClosed => "I/O operation on closed file."
  | .longNumeral =>
      "Exceeds the limit (4300 digits) for integer string conversion; use sys.set_int_max_str_digits() to increase the limit"
  | .loggerLevel => "Unable to configure logger 'treescan'"
  | .logFile => "Unable to configure handler 'main'"
  | .template f => f.message
  | .time f => f.message
  | .interrupted => ""

def kind : Failure → String
  | .invalid _ | .embeddedNul | .fileClosed | .longNumeral | .loggerLevel | .logFile => "ValueError"
  | .trouble _ | .jobNotStartable => "RuntimeError"
  | .system f => f.kind
  | .config _ => "ScanConfigError"
  | .glob e => if e.isRefusal then "ScanConfigError" else "error"
  | .undecodable => "UnicodeDecodeError"
  | .scalar f => f.kind
  | .cancelled _ => "ScanCancelledError"
  | .traversal .. => "ScanTraversalError"
  | .latchSealed => "LatchSealedError"
  | .closed => "ScanSchedulerClosedError"
  | .jobCancelled => "CancelledError"
  | .jobUnfinished => "TimeoutError"
  | .jobFinished => "InvalidStateError"
  | .template f => f.kind
  | .time f => f.kind
  | .interrupted => "KeyboardInterrupt"

/-- What is recorded of a failure. -/
def record (f : Failure) : String :=
    if f.message = "" then f.kind else f.message

/-- Whether a failure blames the configuration, so that it is reported as a usage error. -/
def isConfiguration : Failure → Bool
  | .config _ => true
  | .glob e => e.isRefusal
  | _ => false

/-- The option that a failure blames. -/
def option? : Failure → Option String
  | .config e => e.option?
  | .glob e => if e.isRefusal then some "pattern" else none
  | _ => none

def ofRefusal (path : String) : Refusal → Failure
  | .embeddedNul => .embeddedNul
  | .fault cause => .system (cause.onFile path)

end Failure

end FileCensus
