import FileCensus.Config.Datum
import FileCensus.Config.Error
import FileCensus.Decimal.Reading
import FileCensus.Text.Blank

/-!
From given values to switches, depth limits and patterns. The rules are lenient: a switch can be a word or one of the
numbers 0 and 1, a depth can be written as text, and a single pattern can stand without a list around it.
-/

namespace FileCensus.Datum

/-- The text in a value that is a text or the UTF-8 bytes of one; `none` for bytes that are not. -/
def words? : Datum → Option (Option String)
  | .str s => some (some s)
  | .brokenText => some none
  | .bytes bs => some (String.fromUTF8? ⟨bs.toArray⟩)
  | _ => none

def yesWords : List String := ["1", "true", "t", "yes", "y", "on"]

def noWords : List String := ["0", "false", "f", "no", "n", "off"]

def asciiLower (s : String) : String :=
    s.map Char.toLower

def switchOfWord (s : String) : Except OptionFault Bool :=
    let w := asciiLower s
    if yesWords.contains w then .ok true
    else if noWords.contains w then .ok false
    else .error .unknownSwitchWord

/-- The least and the greatest integer of 64 bits. -/
def leastWord : Int := -9223372036854775808

def greatestWord : Int := 9223372036854775807

def switchOfInteger (n : Int) : Except OptionFault Bool :=
    if n = 0 then .ok false
    else if n = 1 then .ok true
    else .error .unknownSwitchWord

/-- The whole number that a double of 64 bits is. -/
def integerOfFloat (x : Float) : Except OptionFault Int :=
    match Decimal.read x with
    | .finite b =>
        if !b.isIntegral then .error .fractional
        else
          let n := b.truncate
          if leastWord < n ∧ n ≤ greatestWord then .ok n else .error .integerTooLong
    | _ => .error .notFinite

/-- A switch: a blank text counts as given without a value, which means yes. -/
def toSwitch (d : Datum) : Except OptionFault Bool :=
    match d with
    | .bool b => .ok b
    | .int n => if leastWord ≤ n ∧ n ≤ greatestWord then switchOfInteger n else .error .notSwitch
    | .float x =>
        match integerOfFloat x with
        | .ok n => switchOfInteger n
        | .error _ => .error .notSwitch
    | .str s => if Text.allBlank s then .ok true else switchOfWord s
    | .bytes _ | .brokenText =>
        match d.words? with
        | some (some s) => switchOfWord s
        | _ => .error .unknownSwitchWord
    | _ => .error .notSwitch

/-- The digits of a number in which single underscores may stand between digits. -/
def plainDigits? : List Char → Option (List Char)
  | [] => none
  | [c] => if Decimal.isDigit c then some [c] else none
  | c :: '_' :: rest => if Decimal.isDigit c then (plainDigits? rest).map (c :: ·) else none
  | c :: rest => if Decimal.isDigit c then (plainDigits? rest).map (c :: ·) else none

/-- The number of digits up to which an integer is read. -/
def digitLimit : Nat := 4300

/-- An integer as text: a sign, digits, and a point followed by zeros, the last two of which may be missing. -/
def integerOfText (s : String) : Except OptionFault Int :=
    let cs := Text.trim Text.isSpace s.toList
    let (negative, body) := match cs with
      | '-' :: rest => (true, rest)
      | '+' :: rest => (false, rest)
      | _ => (false, cs)
    let whole := body.takeWhile (· != '.')
    let tail := body.drop whole.length
    let tailFits := match tail with
      | [] => true
      | _ :: zeros => !zeros.isEmpty && zeros.all (· == '0')
    match plainDigits? whole with
    | some ds =>
        if !tailFits then .error .unreadableInteger
        else
          let ds := ds.dropWhile (· == '0')
          if digitLimit < ds.length then .error .integerTooLong
          else
            let n := Int.ofNat (Decimal.ofDigits 10 ds)
            .ok (if negative then -n else n)
    | none => .error .unreadableInteger

def toInteger (d : Datum) : Except OptionFault Int :=
    match d with
    | .bool b => .ok (if b then 1 else 0)
    | .int n => .ok n
    | .float x => integerOfFloat x
    | .str s => integerOfText s
    | .bytes _ | .brokenText =>
        match d.words? with
        | some (some s) => integerOfText s
        | _ => .error .unreadableInteger
    | _ => .error .notInteger

/-- A depth limit; null and blank texts stand for no limit. -/
def toDepth (d : Datum) : Except OptionFault (Option Nat) :=
    let unlimited := match d with
      | .null => true
      | .str s => Text.allBlank s
      | _ => false
    if unlimited then .ok none
    else match d.toInteger with
      | .ok n => if n < 0 then .error .negative else .ok (some n.toNat)
      | .error e => .error e

def toPattern (d : Datum) : Except OptionFault String :=
    match d.words? with
    | some (some s) => .ok s
    | some none => .error .undecodableText
    | none => .error .notText

/-- The patterns of a list; a fault comes with the position of the item. -/
def toPatternsFrom (index : Nat) : List Datum → Except (Option Nat × OptionFault) (List String)
  | [] => .ok []
  | d :: rest =>
      match d.toPattern with
      | .error e => .error (some index, e)
      | .ok p => (toPatternsFrom (index + 1) rest).map (p :: ·)

/-- Patterns: null stands for none and a text for itself alone. -/
def toPatterns (d : Datum) : Except (Option Nat × OptionFault) (List String) :=
    match d with
    | .null => .ok []
    | .str s => .ok [s]
    | .brokenText => .error (some 0, .undecodableText)
    | .list items | .set items => toPatternsFrom 0 items
    | _ => .error (none, .notList)

end FileCensus.Datum
