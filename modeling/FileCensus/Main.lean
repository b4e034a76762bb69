import FileCensus.Command.Run
import FileCensus.Snapshot
import Std.Time.DateTime.Timestamp

/-!
The program. It takes a picture of the file tree, runs the command on it, prints what the command says, and writes the files
that the command has made.
-/

namespace FileCensus.Program

/-- More turns than a census takes. -/
def turns : Nat := 1000000000000000

def timeNow : IO String := do
    let elapsed := (← Std.Time.Timestamp.now).toNanosecondsSinceUnixEpoch.val
    let seconds := Float.ofInt (elapsed / 1000) / 1000000.0
    return (Log.timestamp (.double seconds)).toOption.getD ""

/-- Writes a file whose content the command has changed. -/
def save (before after : FileSystem) (p : Path) : IO Unit := do
    match after.content p with
    | .error _ => return
    | .ok bytes =>
        if (before.content p).toOption ≠ some bytes then
          IO.FS.createDirAll p.parent.text
          IO.FS.writeBinFile p.text ⟨bytes.toArray⟩

/-- The paths of files that a command line names as its log and its output. -/
def targets (words : List String) : List Path :=
    let table : Command.OptionTable :=
      ⟨Command.General.table.flags ++ Command.Request.table.flags,
        Command.General.table.valued ++ Command.Request.table.valued⟩
    let line := (Command.Line.read table true words).toOption.getD ⟨[], []⟩
    ["--log-file", "--output"].filterMap fun option => (line.lastValue option).map Path.parse

end FileCensus.Program

open FileCensus in
def main (words : List String) : IO UInt32 := do
    let snapshot ← Snapshot.ofWords words
    let env : Command.Environment := ⟨snapshot.fs, 0.0, ← Program.timeNow, fun _ => none, fun _ => none⟩
    match Command.run Program.turns env words with
    | .error f =>
        IO.eprintln (Log.failureText f)
        return 1
    | .ok r =>
        for p in Program.targets words do
          Program.save snapshot.fs r.fs p
        IO.print r.out
        IO.eprint r.err
        return r.code.toUInt32
