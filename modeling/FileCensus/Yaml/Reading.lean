import FileCensus.Yaml.Scalar
import FileCensus.Yaml.Schema
import FileCensus.Config.Datum
import FileCensus.Decimal.Integer
import FileCensus.Text.LowerCase

/-!
From the text of a scalar and the type that it has, or is said to have, to its value. A stated type is stricter than a
recognised form: the text may then turn out not to denote a value of that type.
-/

namespace FileCensus.Yaml.Reading

open FileCensus.Decimal (isDigit)

def dropMarks (cs : List Char) : List Char :=
    cs.filter (· != '_')

/-- A sign and what follows it. -/
def splitSign : List Char → Bool × List Char
  | '-' :: rest => (true, rest)
  | '+' :: rest => (false, rest)
  | cs => (false, cs)

def negateIf (negative : Bool) (n : Int) : Int :=
    if negative then -n else n

/-- The letter that may stand after a zero before the digits of a base. -/
def baseMark : Nat → Option Char
  | 2 => some 'b'
  | 8 => some 'o'
  | 16 => some 'x'
  | _ => none

def dropBaseMark (base : Nat) (cs : List Char) : List Char :=
    match cs with
    | '0' :: c :: rest => if baseMark base == some c.toLower then rest else cs
    | _ => cs

/-- A number as it is read: without the white space around it, and with the digits of every script. -/
def numeral (cs : List Char) : List Char :=
    (Text.trim Text.isSpace cs).map fun c => (Text.decimalDigit? c).elim c fun d => Char.ofNat (0x30 + d)

/-- An integer in a base, after a sign. -/
def integer (base : Nat) (cs : List Char) : Except ScalarFault Int :=
    let (negative, rest) := splitSign (numeral cs)
    let digits := dropBaseMark base rest
    let run := digits.takeWhile fun c => (Decimal.digitValue base c).isSome
    if base = 10 && decide (Decimal.numeralLimit < run.length) then .error (.tooManyDigits run.length)
    else if run.isEmpty || run.length < digits.length then .error (.notInteger base (String.ofList cs))
    else .ok (negateIf negative (Decimal.ofDigits base run))

/-- The value of the parts of a number in base sixty, the leading one first. -/
def ofSixties (parts : List Int) : Int :=
    parts.foldl (fun n d => n * 60 + d) 0

def intOf (text : List Char) : Except ScalarFault Int :=
    let cs := dropMarks text
    let (negative, digits) := splitSign cs
    if cs.isEmpty || digits.isEmpty then .error .emptyNumber
    else (negateIf negative ·) <$>
      match digits with
      | ['0'] => .ok 0
      | '0' :: 'b' :: rest => integer 2 rest
      | '0' :: 'x' :: rest => integer 16 rest
      | '0' :: _ => integer 8 digits
      | _ =>
          if digits.contains ':' then ofSixties <$> (Schema.parts digits).mapM (integer 10)
          else integer 10 digits

def unsignedFloat? (cs : List Char) : Option Float :=
    let whole := cs.takeWhile isDigit
    let (fraction, rest) := match cs.drop whole.length with
      | '.' :: more => (more.takeWhile isDigit, more.dropWhile isDigit)
      | rest => ([], rest)
    if whole.isEmpty && fraction.isEmpty then none
    else match rest with
      | [] => some (Decimal.Scaled.ofParts whole fraction 0).toFloat
      | e :: more =>
          let (negative, digits) := splitSign more
          if (e == 'e' || e == 'E') && !digits.isEmpty && digits.all isDigit then
            some (Decimal.Scaled.ofParts whole fraction (negateIf negative (Decimal.ofDigits 10 digits))).toFloat
          else none

/-- A number in decimal notation, after a sign. -/
def float (cs : List Char) : Except ScalarFault Float :=
    let (negative, rest) := splitSign (numeral cs)
    let value? :=
      if rest == "inf".toList || rest == "infinity".toList then some Decimal.infinity
      else if rest == "nan".toList then some Decimal.notANumber
      else unsignedFloat? rest
    match value? with
    | some x => .ok (Decimal.signed negative x)
    | none => .error (.notNumber (String.ofList cs))

/-- The least whole number that no double comes near to. -/
def doubleLimit : Nat := Nat.pow 2 1024 - Nat.pow 2 970

/-- The sum of the parts of a number in base sixty, the last one first, in which `place` is the value of the next place. -/
def sumSixties (place : Nat) (sum : Float) : List Float → Except ScalarFault Float
  | [] => .ok sum
  | x :: rest =>
      if doubleLimit ≤ place then .error .numberTooLarge
      else sumSixties (place * 60) (sum + x * (Decimal.Scaled.toFloat ⟨place, 0⟩)) rest

def floatOf (text : List Char) : Except ScalarFault Float :=
    let cs := (Text.lowerCase (String.ofList (dropMarks text))).toList
    let (negative, digits) := splitSign cs
    if cs.isEmpty then .error .emptyNumber
    else if digits == ".inf".toList then .ok (Decimal.signed negative Decimal.infinity)
    else if digits == ".nan".toList then .ok Decimal.notANumber
    else (Decimal.signed negative ·) <$>
      if digits.contains ':' then
        (Schema.parts digits).mapM float >>= fun xs => sumSixties 1 0.0 xs.reverse
      else float digits

def switchOf (text : List Char) : Except ScalarFault Bool :=
    let word := Text.lowerCase (String.ofList text)
    if ["yes", "true", "on"].contains word then .ok true
    else if ["no", "false", "off"].contains word then .ok false
    else .error (.unknownSwitch word)

def isLeap (year : Nat) : Bool :=
    year % 4 = 0 && (year % 100 ≠ 0 || year % 400 = 0)

def daysIn (year month : Nat) : Nat :=
    if month = 2 then (if isLeap year then 29 else 28)
    else if [4, 6, 9, 11].contains month then 30
    else 31

def checkOffset (offset : Option Int) : Except ScalarFault Unit :=
    match offset with
    | some s => if -86400 < s && s < 86400 then .ok () else .error (.offsetOutOfRange s)
    | none => .ok ()

/-- The checks of a moment, in the order in which they are reported. -/
def checkMoment (m : Schema.Moment) : Except ScalarFault Unit := do
    if let some c := m.clock then checkOffset c.offset
    if m.year = 0 then .error (.yearOutOfRange m.year)
    if m.month = 0 || 12 < m.month then .error .monthOutOfRange
    if m.day = 0 || daysIn m.year m.month < m.day then .error .dayOutOfRange
    if let some c := m.clock then
      if 23 < c.hour then .error .hourOutOfRange
      if 59 < c.minute then .error .minuteOutOfRange
      if 59 < c.second then .error .secondOutOfRange

def momentOf (text : List Char) : Except ScalarFault Unit :=
    match Schema.moment? (Schema.body text) with
    | some m => checkMoment m
    | none => .error .notMoment

/-- The value of a character of the 64 that bytes are written with. -/
def sextet? (c : Char) : Option Nat :=
    if 'A' ≤ c && c ≤ 'Z' then some (c.toNat - 65)
    else if 'a' ≤ c && c ≤ 'z' then some (c.toNat - 71)
    else if isDigit c then some (c.toNat + 4)
    else if c == '+' then some 62
    else if c == '/' then some 63
    else none

/-- Reads groups of four characters as three bytes each. `held` holds the characters of the group so far and `pads` the
padding seen since the last one; other characters are passed over. -/
def bytesFrom : List Char → (held : List Nat) → (pads : Nat) → Option (List UInt8)
  | [], held, _ => if held.isEmpty then some [] else none
  | c :: rest, held, pads =>
      if c == '=' then
        if 2 ≤ held.length && 4 ≤ held.length + (pads + 1) then some []
        else bytesFrom rest held (if 2 ≤ held.length then pads + 1 else pads)
      else match sextet? c, held with
        | none, _ => bytesFrom rest held pads
        | some v, [] => bytesFrom rest [v] 0
        | some v, [a] => (UInt8.ofNat (a * 4 + v / 16) :: ·) <$> bytesFrom rest [a, v] 0
        | some v, [a, b] => (UInt8.ofNat (b % 16 * 16 + v / 4) :: ·) <$> bytesFrom rest [a, b, v] 0
        | some v, _ :: _ :: d :: _ => (UInt8.ofNat (d % 4 * 64 + v) :: ·) <$> bytesFrom rest [] 0

def bytesOf? (text : List Char) : Option (List UInt8) :=
    if text.any fun c => 0x7F < c.toNat then none else bytesFrom text [] 0

def scalar {α : Type} (result : Except ScalarFault α) (datum : α → Datum) : Except LoadError Datum :=
    match result with
    | .ok a => .ok (datum a)
    | .error fault => .error (.scalar fault)

/-- The value of a text of a type; types that no text can have are an error. -/
def datum (t : Tag) (text : ScalarText) : Except LoadError Datum :=
    match t with
    | .null => .ok .null
    | .bool => scalar (switchOf text.chars) .bool
    | .int => scalar (intOf text.chars) .int
    | .float => scalar (floatOf text.chars) .float
    | .str => .ok (if text.whole then .str text.text else .brokenText)
    | .binary => if text.whole then (bytesOf? text.chars).elim (.error .malformed) (.ok <| .bytes ·) else .error .malformed
    | .timestamp => scalar (momentOf text.chars) fun _ => .moment
    | _ => .error .malformed

end FileCensus.Yaml.Reading
