import FileCensus.Decimal.Shortest

/-!
Doubles with a stated number of places. The exact value is rounded to the nearest number of the grid, ties going to the even
neighbour. In the general layout the number of digits is stated, and the layout is positional for exponents from `-4` up to
that number.
-/

namespace FileCensus.Decimal

/-- The digits of `n`, with zeros in front up to a width. -/
def paddedDigits (width n : Nat) : List Char :=
    let ds := Nat.toDigits 10 n
    List.replicate (width - ds.length) '0' ++ ds

/-- Digits with a point before the last `places` of them; a point with nothing after it is written only if asked for. -/
def withPoint (places : Nat) (showPoint : Bool) (ds : List Char) : List Char :=
    let whole := ds.take (ds.length - places)
    let fraction := ds.drop (ds.length - places)
    if fraction.isEmpty && !showPoint then whole else whole ++ '.' :: fraction

def Binary.fixed (b : Binary) (places : Nat) (showPoint : Bool) : List Char :=
    let n := nearest (b.ratio.1 * Nat.pow 10 places) b.ratio.2
    withPoint places showPoint (paddedDigits (places + 1) n)

/-- The value rounded to `places + 1` digits, as digits and the exponent of the first of them. -/
def Binary.rounded (b : Binary) (places : Nat) : Nat × Int :=
    if b.mantissa == 0 then (0, 0)
    else
      let (num, den) := b.ratio
      let exponent := magnitude num den - 1
      let shift := Int.ofNat places - exponent
      let n := nearest (scale num shift) (scale den (-shift))
      if n == Nat.pow 10 (places + 1) then (Nat.pow 10 places, exponent + 1) else (n, exponent)

def exponentText (e : Int) : List Char :=
    'e' :: (if e < 0 then '-' else '+') :: paddedDigits 2 e.natAbs

def scientificText (places : Nat) (showPoint : Bool) (digits : List Char) (exponent : Int) : List Char :=
    withPoint places showPoint digits ++ exponentText exponent

def Binary.scientific (b : Binary) (places : Nat) (showPoint : Bool) : List Char :=
    let (n, e) := b.rounded places
    scientificText places showPoint (paddedDigits (places + 1) n) e

/-- Drops the zeros at the end of digits of which `places` stand after the point; the places that are left come first. -/
def dropZeroPlaces (places : Nat) (ds : List Char) : Nat × List Char :=
    let zeros := min places (ds.reverse.takeWhile (· == '0')).length
    (places - zeros, ds.take (ds.length - zeros))

/-- The general layout with `digits` digits, of which trailing zeros are kept only if `keepZeros` holds. -/
def Binary.general (b : Binary) (digits : Nat) (keepZeros : Bool) : List Char :=
    let count := max digits 1
    let (n, e) := b.rounded (count - 1)
    let ds := paddedDigits count n
    if -4 ≤ e && e < Int.ofNat count then
      let places := (Int.ofNat count - 1 - e).toNat
      let ds := List.replicate (places + 1 - ds.length) '0' ++ ds
      let (places, ds) := if keepZeros then (places, ds) else dropZeroPlaces places ds
      withPoint places keepZeros ds
    else
      let (places, ds) := if keepZeros then (count - 1, ds) else dropZeroPlaces (count - 1) ds
      scientificText places keepZeros ds e

end FileCensus.Decimal
