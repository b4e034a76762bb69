import FileCensus.Failure
import FileCensus.FileSystem.Access
import FileCensus.Json.Printer

/-!
An array of objects written one after the other, each on a line of its own. The text is complete once the writer is closed;
closing twice is harmless, while nothing can be written any more. An object that cannot be printed to its end is not counted,
but what was handed on of it stays.
-/

namespace FileCensus.Json

structure ArrayWriter where
  text : String
  count : Nat
  isClosed : Bool
  deriving DecidableEq, Repr

namespace ArrayWriter

def start : ArrayWriter :=
    ⟨"[\n", 0, false⟩

/-- Writes an object; a failure comes with the writer as it is then. -/
def write (w : ArrayWriter) (fields : Fields) : Except (Failure × ArrayWriter) ArrayWriter :=
    if w.isClosed then .error (.fileClosed, w)
    else
      let separator := if w.count = 0 then "" else ",\n"
      let printed := (Value.obj fields).print
      let text := w.text ++ separator ++ String.ofList printed.chars
      if printed.whole then .ok ⟨text, w.count + 1, false⟩ else .error (.longNumeral, { w with text := text })

def close (w : ArrayWriter) : ArrayWriter :=
    if w.isClosed then w else { w with text := w.text ++ "\n]\n", isClosed := true }

end ArrayWriter

end FileCensus.Json

namespace FileCensus.FileSystem

/-- Makes the directory of a file, if need be. -/
def makeParent (fs : FileSystem) (p : Path) : Except Failure FileSystem :=
    (fs.makeDirectories p.parent).mapError fun r => .ofRefusal r.1.text r.2

/-- Opens a new file in a directory that is made if need be. -/
def createFile (fs : FileSystem) (p : Path) (stamp : Int) : Except Failure (FileSystem × Place) := do
    let fs ← fs.makeParent p
    (fs.openForWriting p stamp).mapError (.ofRefusal p.text)

end FileCensus.FileSystem
