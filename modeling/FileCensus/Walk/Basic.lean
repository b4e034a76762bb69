import FileCensus.Filter.FilterSet
import FileCensus.Job.Future
import FileCensus.Progress
import FileCensus.Signal.Token
import FileCensus.Walk.Channel
import FileCensus.Walk.Notice
import FileCensus.Walk.Probe

/-!
A walk over one tree: what it is to do, how far it has come, and what it has done so far. Entries are made by a factory that
the plan brings along, so that their type is left open. A monitor may fail at any of its notifications.
-/

namespace FileCensus

structure Plan (ε : Type) where
  root : Path
  filters : FilterSet
  probe : Probe
  make : Path → Except Failure ε
  /-- Whether the notification after so many others fails; `none` for a walk without a monitor. -/
  monitor : Option (Nat → Bool)
  /-- The failure of a queue that takes nothing. -/
  refusal : Option Failure
  now : Float

/-- An open directory with the entries that are still to be visited. Entries of the root have depth 0. -/
structure Frame where
  path : Path
  relative : List String
  depth : Nat
  left : List Entry
  /-- The directory's identity, where links are followed. -/
  key : Option Place

/-- What a walk does next. -/
inductive Phase (ε : Type) where
  | idle
  | examining
  | opening (path : Path) (relative : List String) (depth : Nat)
  | turning
  | visiting (directory : Path) (entry : Entry) (relative : List String) (depth : Nat)
  /-- The root is a file and is judged itself. -/
  | judging
  | creating (path : Path)
  | offering (path : Path) (entry : ε)
  | putting (path : Path) (entry : ε)
  | counting (path : Path) (entry : ε)
  | signalling (path : Path) (entry : ε)
  | notifying (path : Path) (entry : ε)
  | ended (o : Outcome)

/-- What a walk has done. -/
inductive Event (ε : Type) where
  | said (n : Notice)
  | listed (path : Path)
  | visited (relative : List String)
  | asked (path : Path)
  | turnedAway
  | put (entry : ε)
  | counted
  | signalled
  | notified (entry : ε)

structure Walk (ε : Type) where
  phase : Phase ε
  progress : Progress Float
  /-- The innermost directory first. -/
  stack : List Frame
  /-- The identities of the directories that must not be entered again. -/
  ancestors : List Place
  /-- Whether the root directory has been opened. -/
  entered : Bool
  notifications : Nat
  /-- The latest event first. -/
  events : List (Event ε)

namespace Walk

variable {ε : Type}

def fresh (root : Path) : Walk ε :=
    ⟨.idle, .fresh root.text, [], [], false, 0, []⟩

def relativeText (relative : List String) : String :=
    "/".intercalate relative

def outcome? (w : Walk ε) : Option Outcome :=
    match w.phase with
    | .ended o => some o
    | _ => none

/-- The events in the order in which they happened. -/
def trace (w : Walk ε) : List (Event ε) :=
    w.events.reverse

def notices (w : Walk ε) : List Notice :=
    w.trace.filterMap fun e =>
      match e with
      | .said n => some n
      | _ => none

/-- The paths that the factory was asked for. -/
def asked (w : Walk ε) : List Path :=
    w.trace.filterMap fun e =>
      match e with
      | .asked p => some p
      | _ => none

def put (w : Walk ε) : List ε :=
    w.trace.filterMap fun e =>
      match e with
      | .put entry => some entry
      | _ => none

def notified (w : Walk ε) : List ε :=
    w.trace.filterMap fun e =>
      match e with
      | .notified entry => some entry
      | _ => none

/-- How often the queue was full. -/
def turnedAway (w : Walk ε) : Nat :=
    w.trace.countP fun e =>
      match e with
      | .turnedAway => true
      | _ => false

end Walk

end FileCensus
