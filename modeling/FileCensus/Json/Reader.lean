import FileCensus.Json.Token
import FileCensus.Json.Value

/-!
Reading JSON text. A document is one value with nothing but white space around it; the words for numbers that are not finite
are read as well. In an object a repeated name keeps its first place and its last value.
-/

namespace FileCensus.Json

/-- Splits off the longest run of digits. -/
def digitsOf (cs : List Char) : List Char × List Char :=
    (cs.takeWhile Decimal.isDigit, cs.dropWhile Decimal.isDigit)

def wholePart? (ds : List Char) : Bool :=
    match ds with
    | [] => false
    | ['0'] => true
    | d :: _ => d != '0'

/-- The exponent that `cs` holds, zero for an empty text. -/
def exponentOf? (cs : List Char) : Option Int :=
    match cs with
    | [] => some 0
    | e :: rest =>
        if e == 'e' || e == 'E' then
          let (negative, ds) := match rest with
            | '-' :: ds => (true, ds)
            | '+' :: ds => (false, ds)
            | ds => (false, ds)
          if ds.isEmpty || !ds.all Decimal.isDigit then none
          else
            let n := Int.ofNat (Decimal.ofDigits 10 ds)
            some (if negative then -n else n)
        else none

/-- The number that an unsigned word writes. -/
def number? (negative : Bool) (cs : List Char) : Option Value :=
    let (whole, rest) := digitsOf cs
    if !wholePart? whole then none
    else match rest with
      | [] =>
          let n := Int.ofNat (Decimal.ofDigits 10 whole)
          some (.int (if negative then -n else n))
      | '.' :: more =>
          let (fraction, tail) := digitsOf more
          if fraction.isEmpty then none
          else (exponentOf? tail).map fun e =>
            .float (Decimal.signed negative (Decimal.Scaled.ofParts whole fraction e).toFloat)
      | tail =>
          (exponentOf? tail).map fun e =>
            .float (Decimal.signed negative (Decimal.Scaled.ofParts whole [] e).toFloat)

def wordValue? (w : List Char) : Option Value :=
    if w == "null".toList then some .null
    else if w == "true".toList then some (.bool true)
    else if w == "false".toList then some (.bool false)
    else if w == "NaN".toList then some (.float Decimal.notANumber)
    else if w == "Infinity".toList then some (.float Decimal.infinity)
    else if w == "-Infinity".toList then some (.float (-Decimal.infinity))
    else match w with
      | '-' :: rest => number? true rest
      | _ => number? false w

mutual

/-- One value at the head of the lexemes, and the lexemes after it; `depth` bounds the number of steps. -/
def valueFrom : (depth : Nat) → List Token → Option (Value × List Token)
  | 0, _ => none
  | depth + 1, tokens =>
      match tokens with
      | .word w :: rest => (wordValue? w).map fun v => (v, rest)
      | .text s :: rest => some (.str s, rest)
      | .openArray :: .closeArray :: rest => some (.arr [], rest)
      | .openArray :: rest => (itemsFrom depth rest).map fun r => (.arr r.1, r.2)
      | .openObject :: .closeObject :: rest => some (.obj [], rest)
      | .openObject :: rest => (fieldsFrom depth rest).map fun r => (.obj (Fields.ofPairs r.1), r.2)
      | _ => none

def itemsFrom : (depth : Nat) → List Token → Option (List Value × List Token)
  | 0, _ => none
  | depth + 1, tokens =>
      match valueFrom depth tokens with
      | some (v, .comma :: rest) => (itemsFrom depth rest).map fun r => (v :: r.1, r.2)
      | some (v, .closeArray :: rest) => some ([v], rest)
      | _ => none

def fieldsFrom : (depth : Nat) → List Token → Option (List (String × Value) × List Token)
  | 0, _ => none
  | depth + 1, tokens =>
      match tokens with
      | .text n :: .colon :: rest =>
          match valueFrom depth rest with
          | some (v, .comma :: rest) => (fieldsFrom depth rest).map fun r => ((n, v) :: r.1, r.2)
          | some (v, .closeObject :: rest) => some ([(n, v)], rest)
          | _ => none
      | _ => none

end

/-- The value that a text writes, if it writes one. -/
def parse? (s : String) : Option Value :=
    match lex s.toList with
    | some tokens =>
        match valueFrom (2 * tokens.length + 1) tokens with
        | some (v, []) => some v
        | _ => none
    | none => none

end FileCensus.Json
