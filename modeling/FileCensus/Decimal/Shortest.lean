import FileCensus.Decimal.Binary

/-!
The shortest decimal that reads back as a given double. For one digit, two digits and so on up to seventeen, the two
neighbours of the value on the decimal grid of that many digits are tested; the first grid on which one of them lies within
the interval of numbers that round to the double decides, and the nearer of two hits is taken, the even one on a tie.
-/

namespace FileCensus.Decimal

/-- The number `digits · 10 ^ exponent`. -/
structure Scaled where
  digits : Nat
  exponent : Int

/-- The numbers that round to a double, as numerators over a common denominator. -/
structure Interval where
  low : Nat
  value : Nat
  high : Nat
  denominator : Nat
  inclusive : Bool

/-- Half-way to the neighbouring doubles. The gap below a power of two is half the gap above it, save at the least
exponent. -/
def Binary.interval (b : Binary) : Interval :=
    let narrow := b.mantissa == Nat.pow 2 52 && b.exponent != -1074
    let low := if narrow then 4 * b.mantissa - 1 else 4 * b.mantissa - 2
    let up := if b.exponent < 2 then 1 else Nat.pow 2 (b.exponent - 2).toNat
    let denominator := if b.exponent < 2 then Nat.pow 2 (2 - b.exponent).toNat else 1
    ⟨low * up, 4 * b.mantissa * up, (4 * b.mantissa + 2) * up, denominator, b.mantissa % 2 == 0⟩

def scale (n : Nat) (exponent : Int) : Nat :=
    if exponent < 0 then n else n * Nat.pow 10 exponent.toNat

/-- Whether `digits · 10 ^ exponent` rounds to the double. -/
def Interval.holds (i : Interval) (s : Scaled) : Bool :=
    let point := scale s.digits s.exponent * i.denominator
    let low := scale i.low (-s.exponent)
    let high := scale i.high (-s.exponent)
    if i.inclusive then low ≤ point && point ≤ high else low < point && point < high

/-- The number of decimal digits of `n`. -/
def digitCount (n : Nat) : Nat :=
    (Nat.toDigits 10 n).length

/-- The least `e` with `num / den < 10 ^ e`. -/
def magnitude (num den : Nat) : Int :=
    let guess : Int := Int.ofNat (digitCount num) - Int.ofNat (digitCount den)
    let below (e : Int) : Bool := scale num (-e) < scale den e
    if below (guess - 1) then guess - 1 else if below guess then guess else guess + 1

/-- The neighbour of the value on the grid of step `10 ^ exponent` that rounds to the double, if one does. -/
def Interval.onGrid (i : Interval) (exponent : Int) : Option Scaled :=
    let num := scale i.value (-exponent)
    let den := scale i.denominator exponent
    let low : Scaled := ⟨num / den, exponent⟩
    let high : Scaled := ⟨num / den + 1, exponent⟩
    let near : Scaled := ⟨nearest num den, exponent⟩
    if i.holds near && near.digits != 0 then some near
    else if i.holds low && low.digits != 0 then some low
    else if i.holds high then some high
    else none

/-- The same number without trailing zeros among its digits; at most `count` of them are dropped. -/
def Scaled.dropZeros : (count : Nat) → Scaled → Scaled
  | 0, s => s
  | count + 1, s => if s.digits % 10 == 0 then dropZeros count ⟨s.digits / 10, s.exponent + 1⟩ else s

/-- The digits of a positive double, without trailing zeros. -/
def Binary.shortest (b : Binary) : Scaled :=
    let i := b.interval
    let m := magnitude i.value i.denominator
    let found := (List.range 17).findSome? fun k => i.onGrid (m - 1 - Int.ofNat k)
    Scaled.dropZeros 17 (found.getD ⟨b.mantissa, b.exponent⟩)

/-- How a number is laid out once its digits are chosen: positionally while its decimal point stands after more than
`-4` and at most `16` digits, with an exponent of at least two digits otherwise. -/
structure Layout where
  lowest : Int := -4
  highest : Int := 16

def padExponent (n : Nat) : String :=
    if n < 10 then "0" ++ toString n else toString n

def Scaled.text (layout : Layout) (s : Scaled) : String :=
    let ds := Nat.toDigits 10 s.digits
    let point := Int.ofNat ds.length + s.exponent
    if layout.lowest < point && point ≤ layout.highest then
      if point ≤ 0 then String.ofList ('0' :: '.' :: (List.replicate (-point).toNat '0' ++ ds))
      else if Int.ofNat ds.length ≤ point then
        String.ofList (ds ++ List.replicate s.exponent.toNat '0' ++ ['.', '0'])
      else String.ofList (ds.take point.toNat ++ '.' :: ds.drop point.toNat)
    else
      let head := match ds with
        | d :: [] => [d]
        | d :: rest => d :: '.' :: rest
        | [] => []
      let e := point - 1
      String.ofList head ++ (if e < 0 then "e-" else "e+") ++ padExponent e.natAbs

/-- Numbers are shown with the fewest digits that read back. -/
def render (x : Float) : String :=
    match read x with
    | .notANumber => "nan"
    | .infinite negative => if negative then "-inf" else "inf"
    | .finite b =>
        let sign := if b.negative then "-" else ""
        if b.mantissa == 0 then sign ++ "0.0" else sign ++ b.shortest.text {}

end FileCensus.Decimal
