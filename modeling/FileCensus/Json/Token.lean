import FileCensus.Decimal.Reading

/-!
The lexemes of JSON text. White space between lexemes is skipped; a string lexeme holds the text that it stands for, with
every escape resolved and surrogate pairs joined.
-/

namespace FileCensus.Json

inductive Token where
  | openArray
  | closeArray
  | openObject
  | closeObject
  | colon
  | comma
  | text (s : String)
  | word (w : List Char)

/-- What is being read; the characters and units read so far stand last first. -/
inductive Lexing where
  | between
  | word (read : List Char)
  | string (units : List Nat)
  | escape (units : List Nat)
  | hex (units : List Nat) (missing : Nat) (value : Nat)

def isBetween (c : Char) : Bool :=
    c == ' ' || c == '\n' || c == '\r' || c == '\t'

def Token.mark? (c : Char) : Option Token :=
    if c == '[' then some .openArray
    else if c == ']' then some .closeArray
    else if c == '\x7b' then some .openObject
    else if c == '\x7d' then some .closeObject
    else if c == ':' then some .colon
    else if c == ',' then some .comma
    else none

def simpleEscape? (c : Char) : Option Nat :=
    if c == '\x22' || c == '\\' || c == '/' then some c.toNat
    else if c == 'n' then some 0x0A
    else if c == 'r' then some 0x0D
    else if c == 't' then some 0x09
    else if c == 'b' then some 0x08
    else if c == 'f' then some 0x0C
    else none

/-- Joins each high surrogate with the low one after it; a surrogate that stands alone has no character. -/
def joinUnits : List Nat → Option (List Char)
  | [] => some []
  | a :: b :: rest =>
      if 0xD800 ≤ a && a < 0xDC00 then
        if 0xDC00 ≤ b && b < 0xE000 then
          (joinUnits rest).map (Char.ofNat (0x10000 + (a - 0xD800) * 0x400 + (b - 0xDC00)) :: ·)
        else none
      else if 0xDC00 ≤ a && a < 0xE000 then none
      else (joinUnits (b :: rest)).map (Char.ofNat a :: ·)
  | [a] => if 0xD800 ≤ a && a < 0xE000 then none else some [Char.ofNat a]

/-- Reads one character between lexemes; `done` holds the lexemes so far, last first. -/
def lexBetween (c : Char) (done : List Token) : Lexing × List Token :=
    if isBetween c then (.between, done)
    else if c == '\x22' then (.string [], done)
    else match Token.mark? c with
      | some t => (.between, t :: done)
      | none => (.word [c], done)

def lexStep (state : Lexing) (done : List Token) (c : Char) : Option (Lexing × List Token) :=
    match state with
    | .between => some (lexBetween c done)
    | .word read =>
        if isBetween c || c == '\x22' || (Token.mark? c).isSome then
          some (lexBetween c (.word read.reverse :: done))
        else some (.word (c :: read), done)
    | .string units =>
        if c == '\x22' then
          (joinUnits units.reverse).map fun cs => (.between, .text (String.ofList cs) :: done)
        else if c == '\\' then some (.escape units, done)
        else if c.toNat < 0x20 then none
        else some (.string (c.toNat :: units), done)
    | .escape units =>
        if c == 'u' then some (.hex units 4 0, done)
        else (simpleEscape? c).map fun n => (.string (n :: units), done)
    | .hex units missing value =>
        (Decimal.digitValue 16 c).map fun d =>
          let v := value * 16 + d
          if missing == 1 then (.string (v :: units), done) else (.hex units (missing - 1) v, done)

def lexFrom (state : Lexing) (done : List Token) : List Char → Option (List Token)
  | [] =>
      match state with
      | .between => some done.reverse
      | .word read => some (.word read.reverse :: done).reverse
      | _ => none
  | c :: rest =>
      match lexStep state done c with
      | some (next, done) => lexFrom next done rest
      | none => none

/-- The lexemes of a text, unless a string in it is malformed. -/
def lex (cs : List Char) : Option (List Token) :=
    lexFrom .between [] cs

end FileCensus.Json
