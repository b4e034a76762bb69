import FileCensus.Decimal.Binary
import FileCensus.Digest.Sha256
import FileCensus.Failure
import FileCensus.FileSystem.Access
import FileCensus.Json.Value
import FileCensus.Text.LowerCase

/-!
What is reported of one file. The time is a whole number of seconds: the time of the file is first taken as a double, which
may round it up to the next second, and then cut toward zero.
-/

namespace FileCensus

structure FileEntry where
  path : String
  safeId : String
  name : String
  ext : String
  size : UInt64
  mtime : Decimal.Whole
  deriving DecidableEq, Repr

namespace FileEntry

/-- A time in nanoseconds as a double of seconds: the whole seconds plus the rest times the double nearest to 10⁻⁹. -/
def seconds (stamp : Int) : Float :=
    Float.ofInt (Int.fdiv stamp 1000000000) + 1e-9 * Float.ofInt (Int.fmod stamp 1000000000)

def wholeSeconds (stamp : Int) : Decimal.Whole :=
    Decimal.whole (seconds stamp)

def ofStatus (p : Path) (s : Status) : FileEntry :=
    ⟨p.text, Digest.sha256Text p.text, p.name, Text.lowerCase p.suffix, s.size, wholeSeconds s.stamp⟩

/-- The entry of a path; a link stands for the file that it leads to if `followLinks` holds. -/
def create (fs : FileSystem) (followLinks : Bool) (p : Path) : Except Failure FileEntry :=
    match fs.status followLinks p with
    | .ok s => .ok (ofStatus p s)
    | .error r => .error (.ofRefusal p.text r)

def fields (e : FileEntry) : List (String × Json.Value) :=
    [("path", .str e.path), ("safe_id", .str e.safeId), ("name", .str e.name), ("ext", .str e.ext), ("size", .int e.size.toNat),
      ("mtime", .int e.mtime.val)]

end FileEntry

end FileCensus
