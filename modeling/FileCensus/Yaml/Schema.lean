import FileCensus.Yaml.Tag
import FileCensus.Decimal.Reading
import FileCensus.Text.Blank

/-!
The types of plain texts. A plain text without a tag is a switch, a number, a moment, a null or one of two special marks if
it has the form of one, and otherwise just a text. The forms are decided by the first character on; a line feed at the end
does not count.
-/

namespace FileCensus.Yaml.Schema

open FileCensus.Decimal (isDigit)

def isSign (c : Char) : Bool :=
    c == '+' || c == '-'

def unsigned : List Char → List Char
  | c :: rest => if isSign c then rest else c :: rest
  | [] => []

/-- A digit, or the mark that may stand among digits to group them. -/
def isGrouped (c : Char) : Bool :=
    isDigit c || c == '_'

def switchWords : List String :=
    ["yes", "Yes", "YES", "no", "No", "NO", "true", "True", "TRUE", "false", "False", "FALSE", "on", "On", "ON", "off",
      "Off", "OFF"]

def nullWords : List String := ["", "~", "null", "Null", "NULL"]

def infinityWords : List String := [".inf", ".Inf", ".INF"]

def notANumberWords : List String := [".nan", ".NaN", ".NAN"]

def isWord (words : List String) (cs : List Char) : Bool :=
    words.contains (String.ofList cs)

def isExponent : List Char → Bool
  | [] => true
  | e :: s :: d :: ds => (e == 'e' || e == 'E') && isSign s && (d :: ds).all isDigit
  | _ => false

/-- The parts of a text between its colons. -/
def parts : List Char → List (List Char)
  | [] => [[]]
  | c :: rest =>
      if c == ':' then [] :: parts rest
      else match parts rest with
        | part :: more => (c :: part) :: more
        | [] => [[c]]

/-- A number below sixty. -/
def isSixtieth : List Char → Bool
  | [a] => isDigit a
  | [a, b] => isDigit a && a ≤ '5' && isDigit b
  | _ => false

/-- What follows a number of at least one digit. -/
def afterDigits (first : Char → Bool) (cs : List Char) : Option (List Char) :=
    match cs with
    | c :: rest => if first c then some (rest.dropWhile isGrouped) else none
    | [] => none

/-- A number in base sixty with a fraction. -/
def isSixtiesBody (cs : List Char) : Bool :=
    let whole := cs.takeWhile (· != '.')
    match cs.drop whole.length, parts whole with
    | _ :: fraction, first :: second :: more =>
        fraction.all isGrouped && afterDigits isDigit first == some [] && (second :: more).all isSixtieth
    | _, _ => false

def isFloatBody (cs : List Char) : Bool :=
    isWord infinityWords cs || isSixtiesBody cs ||
      (match afterDigits isDigit cs with
        | some ('.' :: rest) => isExponent (rest.dropWhile isGrouped)
        | _ => false)

def isFloat (cs : List Char) : Bool :=
    isFloatBody (unsigned cs) || isWord notANumberWords cs ||
      (match cs with
        | '.' :: rest => (afterDigits isDigit rest).any isExponent
        | _ => false)

def isIntBody (cs : List Char) : Bool :=
    match cs with
    | ['0'] => true
    | '0' :: 'b' :: rest => !rest.isEmpty && rest.all fun c => c == '0' || c == '1' || c == '_'
    | '0' :: 'x' :: rest => !rest.isEmpty && rest.all fun c => isHexDigit c || c == '_'
    | '0' :: rest => rest.all fun c => ('0' ≤ c && c ≤ '7') || c == '_'
    | _ =>
        match parts cs with
        | first :: more => afterDigits isDigit first == some [] && more.all isSixtieth
        | [] => false

def isInt (cs : List Char) : Bool :=
    isIntBody (unsigned cs)

/-- The time of a moment; its distance from universal time, if stated, in seconds. -/
structure Clock where
  hour : Nat
  minute : Nat
  second : Nat
  offset : Option Int
  deriving DecidableEq, Repr

structure Moment where
  year : Nat
  month : Nat
  day : Nat
  clock : Option Clock
  deriving DecidableEq, Repr

/-- A number of at least `least` and at most `most` digits, as many as there are. -/
def digits (least most : Nat) (cs : List Char) : Option (Nat × List Char) :=
    let run := (cs.take most).takeWhile isDigit
    if run.length < least then none else some (Decimal.ofDigits 10 run, cs.drop run.length)

def after (c : Char) : List Char → Option (List Char)
  | d :: rest => if c == d then some rest else none
  | [] => none

def offset? (cs : List Char) : Option (Option Int) :=
    match cs.dropWhile isBlank with
    | [] => if cs.isEmpty then some none else none
    | ['Z'] => some (some 0)
    | s :: rest => do
        if !isSign s then none
        let (hours, rest) ← digits 1 2 rest
        let minutes ← match rest with
          | [] => some 0
          | ':' :: rest =>
              match digits 2 2 rest with
              | some (n, []) => some n
              | _ => none
          | _ => none
        let seconds : Int := (hours * 60 + minutes) * 60
        some (some (if s == '-' then -seconds else seconds))

def clock? (cs : List Char) : Option Clock := do
    let (hour, rest) ← digits 1 2 cs
    let (minute, rest) ← digits 2 2 (← after ':' rest)
    let (second, rest) ← digits 2 2 (← after ':' rest)
    let rest := match rest with
      | '.' :: more => more.dropWhile isDigit
      | _ => rest
    let offset ← offset? rest
    some ⟨hour, minute, second, offset⟩

/-- What separates a date from a time. -/
def afterDate : List Char → Option (List Char)
  | 'T' :: rest | 't' :: rest => some rest
  | c :: rest => if isBlank c then some (rest.dropWhile isBlank) else none
  | [] => none

def moment? (cs : List Char) : Option Moment := do
    let (year, rest) ← digits 4 4 cs
    let (month, rest) ← digits 1 2 (← after '-' rest)
    let (day, rest) ← digits 1 2 (← after '-' rest)
    if rest.isEmpty then some ⟨year, month, day, none⟩
    else some ⟨year, month, day, some (← clock? (← afterDate rest))⟩

/-- Without a time, a date is recognised only if its month and day have two digits. -/
def isMoment (cs : List Char) : Bool :=
    match moment? cs with
    | some m => m.clock.isSome || cs.length == 10
    | none => false

/-- A text without a line feed at its end. -/
def body (cs : List Char) : List Char :=
    if cs.getLast? == some '\n' then cs.dropLast else cs

/-- The type of a plain text. -/
def typeOf (cs : List Char) : Tag :=
    let b := body cs
    if cs.isEmpty then .null
    else if b.isEmpty then .str
    else if isWord switchWords b then .bool
    else if isFloat b then .float
    else if isInt b then .int
    else if b == ['<', '<'] then .merge
    else if isWord nullWords b then .null
    else if isMoment b then .timestamp
    else if b == ['='] then .value
    else if b == ['!'] || b == ['&'] || b == ['*'] then .unknown
    else .str

end FileCensus.Yaml.Schema
