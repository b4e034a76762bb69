/-!
Binary floating-point numbers as exact values. A finite double is `mantissa · 2 ^ exponent` up to its sign; every comparison
and rounding below is done on that exact value in whole numbers.
-/

namespace FileCensus.Decimal

structure Binary where
  negative : Bool
  mantissa : Nat
  exponent : Int

/-- A double as an exact value or as what it is instead of one. -/
inductive Reading where
  | finite (value : Binary)
  | infinite (negative : Bool)
  | notANumber

def read (x : Float) : Reading :=
    let bits := x.toBits.toNat
    let negative := bits / Nat.pow 2 63 == 1
    let exponent := bits / Nat.pow 2 52 % Nat.pow 2 11
    let fraction := bits % Nat.pow 2 52
    if exponent == 2047 then
      if fraction == 0 then .infinite negative else .notANumber
    else if exponent == 0 then .finite ⟨negative, fraction, -1074⟩
    else .finite ⟨negative, fraction + Nat.pow 2 52, Int.ofNat exponent - 1075⟩

/-- The magnitude as a fraction of whole numbers, numerator first. -/
def Binary.ratio (b : Binary) : Nat × Nat :=
    if b.exponent < 0 then (b.mantissa, Nat.pow 2 b.exponent.natAbs) else (b.mantissa * Nat.pow 2 b.exponent.toNat, 1)

def Binary.isIntegral (b : Binary) : Bool :=
    b.ratio.1 % b.ratio.2 == 0

/-- The value with its fractional part dropped. -/
def Binary.truncate (b : Binary) : Int :=
    let n := Int.ofNat (b.ratio.1 / b.ratio.2)
    if b.negative then -n else n

/-- The least number with more binary digits than a mantissa of `m` digits and `e` zeros after it. -/
def wholeLimit (m e : Nat) : Nat :=
    Nat.pow 2 (m + e)

/-- The whole numbers that doubles can be cut to. -/
abbrev Whole := { n : Int // n.natAbs < wholeLimit 53 971 }

theorem read_finite {x : Float} {b : Binary} (h : read x = .finite b) :
    b.mantissa < Nat.pow 2 53 ∧ b.exponent ≤ 971 := by
  have fraction : x.toBits.toNat % Nat.pow 2 52 < Nat.pow 2 52 := Nat.mod_lt _ (Nat.two_pow_pos 52)
  have exponent : x.toBits.toNat / Nat.pow 2 52 % Nat.pow 2 11 < Nat.pow 2 11 := Nat.mod_lt _ (Nat.two_pow_pos 11)
  have twice : Nat.pow 2 53 = Nat.pow 2 52 + Nat.pow 2 52 := rfl
  have digits : Nat.pow 2 11 = 2048 := rfl
  rw [read] at h
  generalize x.toBits.toNat % Nat.pow 2 52 = fraction at *
  generalize x.toBits.toNat / Nat.pow 2 52 % Nat.pow 2 11 = exponent at *
  split at h
  · split at h <;> cases h
  · next ordinary =>
    split at h <;> cases h
    · dsimp only
      omega
    · simp only [beq_iff_eq] at ordinary
      simp only [Int.ofNat_eq_natCast]
      omega

theorem Binary.truncate_lt (b : Binary) {m e : Nat} (mantissa : b.mantissa < Nat.pow 2 m) (exponent : b.exponent ≤ e) :
    b.truncate.natAbs < wholeLimit m e := by
  have size : b.truncate.natAbs = b.ratio.1 / b.ratio.2 := by
    simp only [truncate, Int.ofNat_eq_natCast]
    split
    · rw [Int.natAbs_neg, Int.natAbs_natCast]
    · rw [Int.natAbs_natCast]
  have limit : wholeLimit m e = Nat.pow 2 m * Nat.pow 2 e := Nat.pow_add 2 m e
  rw [size, limit]
  refine Nat.lt_of_le_of_lt (Nat.div_le_self _ _) ?_
  rw [ratio]
  split
  · exact Nat.lt_of_lt_of_le mantissa (Nat.le_mul_of_pos_right _ (Nat.two_pow_pos e))
  · have power := Nat.pow_le_pow_right Nat.two_pos (Int.toNat_le.mpr exponent)
    exact Nat.mul_lt_mul_of_lt_of_le mantissa power (Nat.two_pow_pos e)

theorem wholeLimit_pos (m e : Nat) : (0 : Int).natAbs < wholeLimit m e :=
    Nat.two_pow_pos (m + e)

/-- A double with its fractional part dropped, zero if it is not finite. -/
def whole (x : Float) : Whole :=
    match h : read x with
    | .finite b => ⟨b.truncate, b.truncate_lt (read_finite h).1 (read_finite h).2⟩
    | _ => ⟨0, wholeLimit_pos 53 971⟩

/-- The whole number nearest to `num / den`, the even one of two that are equally near. -/
def nearest (num den : Nat) : Nat :=
    let low := num / den
    let twice := 2 * (num % den)
    if twice < den || (twice == den && low % 2 == 0) then low else low + 1

/-- The double nearest to `x` among the multiples of `10 ^ -places`, ties between them going to the even multiple. -/
def roundTo (places : Nat) (x : Float) : Float :=
    match read x with
    | .finite b =>
        let n := nearest (b.ratio.1 * Nat.pow 10 places) b.ratio.2
        let y := Float.ofScientific n true places
        if b.negative then -y else y
    | _ => x

end FileCensus.Decimal
