import FileCensus.Config.Datum
import FileCensus.Decimal.Places

/-!
Messages with places for values. A place is a percent sign, optionally the name of a field in parentheses, then flags, a
width, a precision and a letter that says how the value is written. Values are taken in order, or by name when a single
mapping is given; all values in order have to be used up.
-/

namespace FileCensus.Log

inductive TemplateFault where
  | incomplete
  | incompleteKey
  | mappingRequired
  | missingField (name : String)
  | starNotInteger
  | starWidthTooBig
  | starPrecisionTooBig
  | widthTooBig
  | precisionTooBig
  | unknownLetter (letter : Char) (index : Nat)
  | tooFew
  | tooMany
  | realRequired (letter : Char) (given : String)
  | integerRequired (letter : Char) (given : String)
  | floatRequired (given : String)
  | integerTooLarge
  | infiniteInteger
  | notANumberInteger
  | notCharacter
  | characterOutOfRange
  deriving DecidableEq, Repr

namespace TemplateFault

def shownLetter (c : Char) : String :=
    if 31 ≤ c.toNat && c.toNat ≤ 126 then String.singleton c else "?"

def hex (n : Nat) : String :=
    String.ofList (Nat.toDigits 16 n)

def message : TemplateFault → String
  | .incomplete => "incomplete format"
  | .incompleteKey => "incomplete format key"
  | .mappingRequired => "format requires a mapping"
  | .missingField name => Text.quoted name
  | .starNotInteger => "* wants int"
  | .starWidthTooBig => "Python int too large to convert to C ssize_t"
  | .starPrecisionTooBig => "Python int too large to convert to C int"
  | .widthTooBig => "width too big"
  | .precisionTooBig => "precision too big"
  | .unknownLetter c i =>
      "unsupported format character '" ++ shownLetter c ++ "' (0x" ++ hex c.toNat ++ ") at index " ++ toString i
  | .tooFew => "not enough arguments for format string"
  | .tooMany => "not all arguments converted during string formatting"
  | .realRequired c given => "%" ++ String.singleton c ++ " format: a real number is required, not " ++ given
  | .integerRequired c given => "%" ++ String.singleton c ++ " format: an integer is required, not " ++ given
  | .floatRequired given => "must be real number, not " ++ given
  | .integerTooLarge => "int too large to convert to float"
  | .infiniteInteger => "cannot convert float infinity to integer"
  | .notANumberInteger => "cannot convert float NaN to integer"
  | .notCharacter => "%c requires int or char"
  | .characterOutOfRange => "%c arg not in range(0x110000)"

def kind : TemplateFault → String
  | .incomplete | .incompleteKey | .widthTooBig | .precisionTooBig | .unknownLetter .. | .notANumberInteger => "ValueError"
  | .missingField _ => "KeyError"
  | .starWidthTooBig | .starPrecisionTooBig | .integerTooLarge | .infiniteInteger | .characterOutOfRange =>
      "OverflowError"
  | _ => "TypeError"

end TemplateFault

/-- The name of a value's type, as messages give it. -/
def typeName : Datum → String
  | .null => "NoneType"
  | .bool _ => "bool"
  | .int _ => "int"
  | .float _ => "float"
  | .str _ | .brokenText => "str"
  | .bytes _ => "bytes"
  | .moment => "datetime"
  | .list _ => "list"
  | .set _ => "set"
  | .mapping _ => "dict"

/-- A value as text, texts standing for themselves. -/
def plainText : Datum → String
  | .str s => s
  | d => d.shown

/-- Writes characters outside ASCII by their code points. -/
def asciiText (s : String) : String :=
    String.ofList (s.toList.flatMap fun c => if c.toNat < 0x7F then [c] else Text.codePointEscape c)

structure Flags where
  left : Bool
  plus : Bool
  blank : Bool
  alternate : Bool
  zero : Bool
  deriving DecidableEq, Repr

/-- How a value is to be written. -/
structure Style where
  flags : Flags
  width : Nat
  precision : Option Nat
  letter : Char
  deriving DecidableEq, Repr

namespace Style

def fill (s : Style) (body : List Char) : List Char :=
    let blanks := List.replicate (s.width - body.length) ' '
    if s.flags.left then body ++ blanks else blanks ++ body

/-- A number of which `head` is written before its digits; zeros for the width come between the two. -/
def number (s : Style) (negative : Bool) (head digits : List Char) : List Char :=
    let sign := if negative then ['-'] else if s.flags.plus then ['+'] else if s.flags.blank then [' '] else []
    let front := sign ++ head
    if s.flags.zero && !s.flags.left then
      front ++ List.replicate (s.width - front.length - digits.length) '0' ++ digits
    else s.fill (front ++ digits)

def textOf (s : Style) (text : String) : List Char :=
    let cs := text.toList
    s.fill (match s.precision with
      | some n => cs.take n
      | none => cs)

def isUpper (s : Style) : Bool :=
    s.letter == 'X' || s.letter == 'E' || s.letter == 'F' || s.letter == 'G'

def cased (s : Style) (cs : List Char) : List Char :=
    if s.isUpper then cs.map Char.toUpper else cs

def integer (s : Style) (n : Int) : List Char :=
    let (base, head) := match s.letter with
      | 'o' => (8, ['0', 'o'])
      | 'x' => (16, ['0', 'x'])
      | 'X' => (16, ['0', 'X'])
      | _ => (10, [])
    let digits := s.cased (Nat.toDigits base n.natAbs)
    let digits := List.replicate (s.precision.getD 1 - digits.length) '0' ++ digits
    s.number (n < 0) (if s.flags.alternate then head else []) digits

def usualPrecision : Nat := 6

def float (s : Style) (x : Float) : List Char :=
    let precision := s.precision.getD usualPrecision
    match Decimal.read x with
    | .notANumber => s.number false [] (s.cased "nan".toList)
    | .infinite negative => s.number negative [] (s.cased "inf".toList)
    | .finite b =>
        let digits :=
          if s.letter == 'f' || s.letter == 'F' then b.fixed precision s.flags.alternate
          else if s.letter == 'e' || s.letter == 'E' then b.scientific precision s.flags.alternate
          else b.general precision s.flags.alternate
        s.number b.negative [] (s.cased digits)

end Style

/-- The integer that a value counts as, where any real number will do. -/
def realInteger (letter : Char) : Datum → Except TemplateFault Int
  | .int n => .ok n
  | .bool b => .ok (if b then 1 else 0)
  | .float x =>
      match Decimal.read x with
      | .finite b => .ok b.truncate
      | .infinite _ => .error .infiniteInteger
      | .notANumber => .error .notANumberInteger
  | d => .error (.realRequired letter (typeName d))

def exactInteger (letter : Char) : Datum → Except TemplateFault Int
  | .int n => .ok n
  | .bool b => .ok (if b then 1 else 0)
  | d => .error (.integerRequired letter (typeName d))

def doubleOf : Datum → Except TemplateFault Float
  | .float x => .ok x
  | .bool b => .ok (if b then 1.0 else 0.0)
  | .int n =>
      match Decimal.read (Float.ofInt n) with
      | .finite _ => .ok (Float.ofInt n)
      | _ => .error .integerTooLarge
  | d => .error (.floatRequired (typeName d))

def codePoint (n : Int) : Except TemplateFault (List Char) :=
    if 0 ≤ n && n < 0x110000 then .ok [Char.ofNat n.toNat] else .error .characterOutOfRange

def character : Datum → Except TemplateFault (List Char)
  | .int n => codePoint n
  | .bool b => codePoint (if b then 1 else 0)
  | .str s => if s.toList.length = 1 then .ok s.toList else .error .notCharacter
  | _ => .error .notCharacter

/-- Writes a value at the place whose letter stands at `index`. -/
def Style.write (s : Style) (index : Nat) (d : Datum) : Except TemplateFault (List Char) :=
    match s.letter with
    | 's' => .ok (s.textOf (plainText d))
    | 'r' => .ok (s.textOf d.shown)
    | 'a' => .ok (s.textOf (asciiText d.shown))
    | 'c' => s.fill <$> character d
    | 'd' | 'i' | 'u' => s.integer <$> realInteger s.letter d
    | 'o' | 'x' | 'X' => s.integer <$> exactInteger s.letter d
    | 'e' | 'E' | 'f' | 'F' | 'g' | 'G' => s.float <$> doubleOf d
    | c => .error (.unknownLetter c index)

/-- The values that are left, and the mapping that fields are looked up in. -/
structure Values where
  left : List Datum
  fields : Option (List (Datum × Datum))

namespace Values

/-- A single mapping that is not empty is both the only value and the place of the fields. -/
def ofArguments : List Datum → Values
  | [.mapping (f :: fs)] => ⟨[.mapping (f :: fs)], some (f :: fs)⟩
  | ds => ⟨ds, none⟩

def next (v : Values) : Except TemplateFault (Datum × Values) :=
    match v.left with
    | d :: rest => .ok (d, { v with left := rest })
    | [] => .error .tooFew

def isField (name : String) : Datum → Bool
  | .str s => s == name
  | _ => false

/-- Makes a field of the mapping the only value. -/
def select (v : Values) (name : String) : Except TemplateFault Values :=
    match v.fields with
    | none => .error .mappingRequired
    | some fields =>
        match fields.find? (isField name ·.1) with
        | some f => .ok { v with left := [f.2] }
        | none => .error (.missingField name)

def finish (v : Values) : Except TemplateFault Unit :=
    if v.fields.isNone && !v.left.isEmpty then .error .tooMany else .ok ()

end Values

/-- The name of a field up to the parenthesis that closes it, and what follows. -/
def fieldName : (depth : Nat) → (done : List Char) → List Char → Except TemplateFault (String × List Char)
  | _, _, [] => .error .incompleteKey
  | depth, done, c :: rest =>
      if c == ')' then
        match depth with
        | 0 => .ok (String.ofList done.reverse, rest)
        | depth + 1 => fieldName depth (c :: done) rest
      else fieldName (if c == '(' then depth + 1 else depth) (c :: done) rest

def isFlag (c : Char) : Bool :=
    c == '-' || c == '+' || c == ' ' || c == '#' || c == '0'

def flagsOf (cs : List Char) : Flags :=
    ⟨cs.contains '-', cs.contains '+', cs.contains ' ', cs.contains '#', cs.contains '0'⟩

def isDigitChar (c : Char) : Bool :=
    '0' ≤ c && c ≤ '9'

def numberOf (cs : List Char) : Nat :=
    cs.foldl (fun n c => n * 10 + (c.toNat - 48)) 0

def widthLimit : Int := 9223372036854775807

def precisionLimit : Int := 2147483647

/-- A number written out, or an asterisk for one of the values. A value beyond the limit is reported with `tooBig`. -/
def measure (limit : Int) (tooBig : TemplateFault) (cs : List Char) (v : Values) :
    Except TemplateFault (Option Int × List Char × Values) :=
    match cs with
    | '*' :: rest => do
        let (d, v) ← v.next
        match d with
        | .int n => if limit < n || n < -limit - 1 then .error tooBig else .ok (some n, rest, v)
        | .bool b => .ok (some (if b then 1 else 0), rest, v)
        | _ => .error .starNotInteger
    | _ =>
        let run := cs.takeWhile isDigitChar
        .ok (if run.isEmpty then none else some (numberOf run), cs.drop run.length, v)

def isLength (c : Char) : Bool :=
    c == 'h' || c == 'l' || c == 'L'

/-- Reads a place after its percent sign: how the value is written, and what follows. -/
def style (cs : List Char) (v : Values) : Except TemplateFault (Style × List Char × Values) := do
    let (cs, v) ← match cs with
      | '(' :: rest => do
          if v.fields.isNone then .error .mappingRequired
          let (name, rest) ← fieldName 0 [] rest
          .ok (rest, ← v.select name)
      | _ => .ok (cs, v)
    let marks := cs.takeWhile isFlag
    let flags := flagsOf marks
    let (width, cs, v) ← measure widthLimit .starWidthTooBig (cs.drop marks.length) v
    if widthLimit < width.getD 0 then .error .widthTooBig
    let flags := if width.getD 0 < 0 then { flags with left := true } else flags
    let (precision, cs, v) ← match cs with
      | '.' :: rest => do
          let (n, rest, v) ← measure precisionLimit .starPrecisionTooBig rest v
          if precisionLimit < n.getD 0 then .error .precisionTooBig
          .ok (some (n.getD 0).toNat, rest, v)
      | _ => .ok (none, cs, v)
    let cs := match cs with
      | c :: rest => if isLength c then rest else cs
      | [] => cs
    match cs with
    | c :: rest => .ok (⟨flags, (width.getD 0).natAbs, precision, c⟩, rest, v)
    | [] => .error .incomplete

/-- Fills in the rest of a template of `size` characters. -/
def fillFrom (size : Nat) : (fuel : Nat) → List Char → Values → List Char → Except TemplateFault (List Char)
  | 0, _, _, _ => .error .incomplete
  | fuel + 1, cs, v, done =>
      match cs with
      | [] => v.finish.map fun _ => done.reverse
      | '%' :: '%' :: rest => fillFrom size fuel rest v ('%' :: done)
      | '%' :: rest => do
          let (s, rest, v) ← style rest v
          let (d, v) ← v.next
          let text ← s.write (size - rest.length - 1) d
          fillFrom size fuel rest v (text.reverse ++ done)
      | c :: rest => fillFrom size fuel rest v (c :: done)

/-- The message of a template; without values the template is the message. -/
def fillIn (template : String) (arguments : List Datum) : Except TemplateFault String :=
    if arguments.isEmpty then .ok template
    else
      let cs := template.toList
      String.ofList <$> fillFrom cs.length (cs.length + 1) cs (.ofArguments arguments) []

end FileCensus.Log
