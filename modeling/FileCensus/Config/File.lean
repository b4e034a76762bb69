import FileCensus.Config.Options
import FileCensus.Failure
import FileCensus.FileSystem.Access
import FileCensus.Yaml.Load

/-!
Options from a configuration file. A file that does not exist, or that holds no more than null, gives no options. A document
that is malformed is a configuration error; a scalar that does not denote a value of its type is reported as it stands.
-/

namespace FileCensus.Options

/-- The fields of a mapping whose keys are texts; the last of several with one key counts. -/
def givenOf (fields : List (Datum × Datum)) : Given :=
    fields.reverse.filterMap fun f =>
      match f.1 with
      | .str key => some (key, f.2)
      | _ => .none

def ofDatum : Datum → Except Failure Options
  | .null => .ok none
  | .mapping fields => (ofGiven (givenOf fields)).mapError .config
  | _ => .error (.config .notMapping)

/-- The options in the text of the file that is shown as `file`. -/
def ofText (file : String) (cs : List Char) : Except Failure Options :=
    match Yaml.load cs with
    | .ok d => ofDatum d
    | .error .malformed => .error (.config (.unreadable file))
    | .error (.scalar fault) => .error (.scalar fault)

def ofBytes (file : String) (bytes : List UInt8) : Except Failure Options :=
    match String.fromUTF8? ⟨bytes.toArray⟩ with
    | some s => ofText file s.toList
    | .none => .error .undecodable

def ofFile (fs : FileSystem) (path : Path) : Except Failure Options := do
    let found ← (fs.exists? path).mapError (Failure.ofRefusal path.text)
    if !found then return none
    let bytes ← (fs.content path).mapError (Failure.ofRefusal path.text)
    ofBytes path.text bytes

end FileCensus.Options
