import FileCensus.Text.Blank
import FileCensus.Text.DecimalDigit

/-!
Integers as they are written by hand: white space around, a sign, and digits of any script with single underscores between
them. A numeral of very many digits is neither read nor written.
-/

namespace FileCensus.Decimal

/-- The values of digits among which single underscores may stand. -/
def groupedDigits? : List Char → Option (List Nat)
  | [] => none
  | [c] => (Text.decimalDigit? c).map fun d => [d]
  | c :: '_' :: rest => do
      let d ← Text.decimalDigit? c
      let ds ← groupedDigits? rest
      some (d :: ds)
  | c :: rest => do
      let d ← Text.decimalDigit? c
      let ds ← groupedDigits? rest
      some (d :: ds)

/-- The number of digits up to which a numeral is read or written, leading zeros included. -/
def numeralLimit : Nat := 4300

def integer? (s : String) : Option Int :=
    let cs := Text.trim Text.isSpace s.toList
    let (negative, body) := match cs with
      | '-' :: rest => (true, rest)
      | '+' :: rest => (false, rest)
      | _ => (false, cs)
    match groupedDigits? body with
    | none => none
    | some ds =>
        if numeralLimit < ds.length then none
        else
          let n := Int.ofNat (ds.foldl (fun n d => n * 10 + d) 0)
          some (if negative then -n else n)

end FileCensus.Decimal
