import FileCensus.Json.Value
import FileCensus.Json.Printer

/-!
Option values as they are given, before they are checked: the scalars and containers that a configuration file can hold.
-/

namespace FileCensus

inductive Datum where
  | null
  | bool (b : Bool)
  | int (n : Int)
  | float (x : Float)
  | str (s : String)
  /-- A text that holds half of a surrogate pair. -/
  | brokenText
  | bytes (bs : List UInt8)
  /-- A date or a time. -/
  | moment
  | list (items : List Datum)
  | set (items : List Datum)
  | mapping (fields : List (Datum × Datum))
  deriving Inhabited

namespace Datum

mutual

def ofJson : Json.Value → Datum
  | .null => .null
  | .bool b => .bool b
  | .int n => .int n
  | .float x => .float x
  | .str s => .str s
  | .arr items => .list (ofItems items)
  | .obj fields => .mapping (ofFields fields)

def ofItems : List Json.Value → List Datum
  | [] => []
  | v :: rest => ofJson v :: ofItems rest

def ofFields : List (String × Json.Value) → List (Datum × Datum)
  | [] => []
  | (n, v) :: rest => (.str n, ofJson v) :: ofFields rest

end

def commaSeparated (parts : List String) : String :=
    ", ".intercalate parts

mutual

/-- How a value is quoted in a message. -/
def shown : Datum → String
  | .null => "None"
  | .bool true => "True"
  | .bool false => "False"
  | .int n => toString n
  | .float x => Decimal.render x
  | .str s => Text.quoted s
  | .brokenText => "a broken text"
  | .bytes bs => "b" ++ Text.quoted (String.ofList (bs.map fun b => Char.ofNat b.toNat))
  | .moment => "a moment"
  | .list items => "[" ++ commaSeparated (shownItems items) ++ "]"
  | .set items => "\x7b" ++ commaSeparated (shownItems items) ++ "\x7d"
  | .mapping fields => "\x7b" ++ commaSeparated (shownFields fields) ++ "\x7d"

def shownItems : List Datum → List String
  | [] => []
  | d :: rest => shown d :: shownItems rest

def shownFields : List (Datum × Datum) → List String
  | [] => []
  | (k, v) :: rest => (shown k ++ ": " ++ shown v) :: shownFields rest

end

/-- Whether a value counts as true where any value is taken for a switch: all but null, false, zeros and what is empty. -/
def isTrue : Datum → Bool
  | .null => false
  | .bool b => b
  | .int n => n != 0
  | .float x => x != 0.0
  | .str s => s != ""
  | .bytes bs => !bs.isEmpty
  | .moment | .brokenText => true
  | .list items | .set items => !items.isEmpty
  | .mapping fields => !fields.isEmpty

end Datum

end FileCensus
