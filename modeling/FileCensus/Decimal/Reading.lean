import FileCensus.Decimal.Shortest

/-!
From decimal digits to the nearest double. Exponents far outside the range of doubles are settled before any power is
computed.
-/

namespace FileCensus.Decimal

/-- The value of a digit character below `base`, letters standing for ten and above. -/
def digitValue (base : Nat) (c : Char) : Option Nat :=
    let v :=
      if '0' ≤ c && c ≤ '9' then c.toNat - 48
      else if 'a' ≤ c && c ≤ 'z' then c.toNat - 87
      else if 'A' ≤ c && c ≤ 'Z' then c.toNat - 55
      else 36
    if v < base then some v else none

def isDigit (c : Char) : Bool :=
    '0' ≤ c && c ≤ '9'

/-- The number written by digits of a base, the leading one first; characters that are no digits count as zero. -/
def ofDigits (base : Nat) (cs : List Char) : Nat :=
    cs.foldl (fun n c => n * base + (digitValue base c).getD 0) 0

def infinity : Float :=
    Float.ofBits 0x7FF0000000000000

def notANumber : Float :=
    Float.ofBits 0x7FF8000000000000

/-- The double nearest to `digits · 10 ^ exponent`. -/
def Scaled.toFloat (s : Scaled) : Float :=
    let point := Int.ofNat (digitCount s.digits) + s.exponent
    if s.digits == 0 || point < -400 then 0.0
    else if 400 < point then infinity
    else if s.exponent < 0 then Float.ofScientific s.digits true s.exponent.natAbs
    else Float.ofScientific s.digits false s.exponent.toNat

/-- The number with the given whole, fractional and exponent digits. -/
def Scaled.ofParts (whole fraction : List Char) (exponent : Int) : Scaled :=
    ⟨ofDigits 10 (whole ++ fraction), exponent - Int.ofNat fraction.length⟩

def signed (negative : Bool) (x : Float) : Float :=
    if negative then -x else x

end FileCensus.Decimal
