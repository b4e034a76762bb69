import FileCensus.Json.Printer
import FileCensus.Json.Reader
import Mathlib.Tactic.IntervalCases
import Mathlib.Data.Nat.Digits.Defs

/-!
Printed numbers are read as numbers. A whole number of any size is read as itself. Of a double it is
only shown that its text is read as some double: whether it is the same one depends on arithmetic
that is not opened here.
-/

namespace FileCensus.Decimal

theorem isDigit_toDigits {n : Nat} {c : Char} (h : c ∈ Nat.toDigits 10 n) : isDigit c = true :=
  Nat.isDigit_of_mem_toDigits (by decide) (by decide) h

theorem digitValue_of_isDigit {c : Char} (h : isDigit c = true) :
    digitValue 10 c = some (c.toNat - 48) := by
  have range : '0' ≤ c ∧ c ≤ '9' := by simpa [isDigit] using h
  have below : c.toNat ≤ 57 := range.2
  simp only [digitValue, range.1, range.2, decide_true, Bool.and_self, if_true]
  rw [if_pos (by omega)]

theorem ofDigits_eq (cs : List Char) (h : ∀ c ∈ cs, isDigit c = true) (n : Nat) :
    cs.foldl (fun n c => n * 10 + (digitValue 10 c).getD 0) n = Nat.ofDigitChars 10 cs n := by
  induction cs generalizing n with
  | nil => rfl
  | cons c cs ih =>
      rw [List.foldl_cons, Nat.ofDigitChars_cons, ih fun d hd => h d (List.mem_cons_of_mem _ hd),
        digitValue_of_isDigit (h c List.mem_cons_self), Nat.mul_comm]
      rfl

theorem ofDigits_toDigits (n : Nat) : ofDigits 10 (Nat.toDigits 10 n) = n :=
  (ofDigits_eq _ (fun _ => isDigit_toDigits) 0).trans Nat.ofDigitChars_ten_toDigits

theorem digitChar_ne_zero {d : Nat} (h : d < 10) (positive : d ≠ 0) : Nat.digitChar d ≠ '0' := by
  interval_cases d <;> first | exact absurd rfl positive | decide

/-- Only zero is written with a zero in front. -/
theorem toDigits_leading {n : Nat} (positive : n ≠ 0) :
    ∃ d ds, Nat.toDigits 10 n = d :: ds ∧ d ≠ '0' := by
  induction n using Nat.strong_induction_on with
  | _ n ih =>
      by_cases small : n < 10
      · exact ⟨_, [], Nat.toDigits_of_lt_base small, digitChar_ne_zero small positive⟩
      · obtain ⟨d, ds, front, nonzero⟩ := ih (n / 10) (by omega) (by omega)
        refine ⟨d, ds ++ [Nat.digitChar (n % 10)], ?_, nonzero⟩
        rw [Nat.toDigits_of_base_le (by decide) (by omega), front, List.cons_append]

theorem Scaled.dropZeros_digits {s : Scaled} (positive : s.digits ≠ 0) (count : Nat) :
    (Scaled.dropZeros count s).digits ≠ 0 := by
  induction count generalizing s with
  | zero => exact positive
  | succ count ih =>
      rw [Scaled.dropZeros]
      split
      case isTrue round =>
        have tens : s.digits % 10 = 0 := by simpa using round
        exact ih (s := ⟨s.digits / 10, s.exponent + 1⟩) (show s.digits / 10 ≠ 0 by omega)
      case isFalse => exact positive

theorem Interval.onGrid_digits {i : Interval} {exponent : Int} {s : Scaled}
    (h : i.onGrid exponent = some s) : s.digits ≠ 0 := by
  simp only [Interval.onGrid] at h
  split at h
  case isTrue near =>
    cases h
    simpa using (Bool.and_eq_true_iff.mp near).2
  case isFalse =>
    split at h
    case isTrue low =>
      cases h
      simpa using (Bool.and_eq_true_iff.mp low).2
    case isFalse =>
      split at h
      · cases h
        exact Nat.succ_ne_zero _
      · cases h

theorem Binary.shortest_digits {b : Binary} (positive : b.mantissa ≠ 0) :
    b.shortest.digits ≠ 0 := by
  apply Scaled.dropZeros_digits
  cases found : (List.range 17).findSome? fun k =>
      b.interval.onGrid (magnitude b.interval.value b.interval.denominator - 1 - Int.ofNat k) with
  | none => exact positive
  | some s =>
      obtain ⟨k, -, onGrid⟩ := List.exists_of_findSome?_eq_some found
      exact Interval.onGrid_digits onGrid

end FileCensus.Decimal

namespace FileCensus.Json

/-- The digits before the point of a number: no zero in front, save of zero itself. -/
structure IsWhole (ds : List Char) : Prop where
  digits : ∀ c ∈ ds, Decimal.isDigit c = true
  leading : wholePart? ds = true

theorem IsWhole.cons {d : Char} {ds : List Char} (digits : ∀ c ∈ d :: ds, Decimal.isDigit c = true)
    (leading : d ≠ '0') : IsWhole (d :: ds) := by
  refine ⟨digits, ?_⟩
  unfold wholePart?
  split
  · contradiction
  · rfl
  case h_3 first _ _ same =>
    cases same
    simpa using leading

theorem isDigit_zero : ∀ c ∈ ['0'], Decimal.isDigit c = true :=
  List.all_eq_true.mp (by decide)

theorem IsWhole.zero : IsWhole ['0'] :=
  ⟨isDigit_zero, rfl⟩

theorem IsWhole.toDigits (n : Nat) : IsWhole (Nat.toDigits 10 n) := by
  rcases Nat.eq_zero_or_pos n with rfl | positive
  · exact IsWhole.zero
  · obtain ⟨d, ds, written, leading⟩ := Decimal.toDigits_leading (Nat.ne_of_gt positive)
    rw [written]
    exact .cons (fun c hc => Decimal.isDigit_toDigits (written ▸ hc)) leading

theorem IsWhole.ne_nil {ds : List Char} (h : IsWhole ds) : ds ≠ [] := by
  rintro rfl
  exact Bool.false_ne_true h.leading

/-- The exponent part as it is printed. -/
inductive IsExponent : List Char → Prop
  | intro {sign : Char} {ds : List Char} (signed : sign = '-' ∨ sign = '+')
      (digits : ∀ c ∈ ds, Decimal.isDigit c = true) (some : ds ≠ []) :
      IsExponent ('e' :: sign :: ds)

/-- An unsigned number with a point, an exponent or both. -/
inductive IsFractional : List Char → Prop
  | point {whole fraction tail : List Char} (front : IsWhole whole)
      (digits : ∀ c ∈ fraction, Decimal.isDigit c = true) (some : fraction ≠ [])
      (after : tail = [] ∨ IsExponent tail) : IsFractional (whole ++ '.' :: (fraction ++ tail))
  | exponent {whole tail : List Char} (front : IsWhole whole) (after : IsExponent tail) :
      IsFractional (whole ++ tail)

theorem digitsOf_append {ds : List Char} (rest : List Char)
    (digits : ∀ c ∈ ds, Decimal.isDigit c = true)
    (stops : ∀ c, rest.head? = some c → Decimal.isDigit c = false) :
    digitsOf (ds ++ rest) = (ds, rest) := by
  rw [digitsOf, List.takeWhile_append_of_pos digits, List.dropWhile_append_of_pos digits]
  cases rest with
  | nil => simp
  | cons c rest => simp [stops c rfl]

theorem exponentOf?_of_isExponent {tail : List Char} (h : IsExponent tail) :
    ∃ e, exponentOf? tail = some e := by
  obtain ⟨signed, digits, nonempty⟩ := h
  rename_i sign ds
  have all : ds.all Decimal.isDigit = true := List.all_eq_true.mpr digits
  have shown : ds.isEmpty = false := by simpa using nonempty
  rcases signed with rfl | rfl <;> simp [exponentOf?, all, shown]

theorem number?_whole (negative : Bool) {ds : List Char} (h : IsWhole ds) :
    number? negative ds = some (.int
      (if negative then -Int.ofNat (Decimal.ofDigits 10 ds)
        else Int.ofNat (Decimal.ofDigits 10 ds))) := by
  have split : digitsOf ds = (ds, []) := by
    simpa using digitsOf_append [] h.digits (by simp)
  simp [number?, split, h.leading]

theorem number?_fractional (negative : Bool) {cs : List Char} (h : IsFractional cs) :
    ∃ x, number? negative cs = some (.float x) := by
  cases h with
  | @point whole fraction tail front digits nonempty after =>
      have first := digitsOf_append ('.' :: (fraction ++ tail)) front.digits (by
        rintro c ⟨⟩
        decide)
      have second : digitsOf (fraction ++ tail) = (fraction, tail) := by
        refine digitsOf_append _ digits fun c hc => ?_
        rcases after with rfl | ⟨-, -, -⟩
        · cases hc
        · cases hc
          decide
      have shown : fraction.isEmpty = false := by simpa using nonempty
      obtain ⟨e, he⟩ : ∃ e, exponentOf? tail = some e := by
        rcases after with rfl | after
        · exact ⟨0, rfl⟩
        · exact exponentOf?_of_isExponent after
      simp [number?, first, second, front.leading, shown, he]
  | @exponent whole tail front after =>
      obtain ⟨e, he⟩ := exponentOf?_of_isExponent after
      have first : digitsOf (whole ++ tail) = (whole, tail) := by
        refine digitsOf_append _ front.digits fun c hc => ?_
        obtain ⟨-, -, -⟩ := after
        cases hc
        decide
      obtain ⟨signed, -, -⟩ := after
      simp [number?, first, front.leading, he]

theorem IsWhole.take {d : Char} {ds : List Char}
    (digits : ∀ c ∈ d :: ds, Decimal.isDigit c = true) (leading : d ≠ '0') {n : Nat}
    (positive : n ≠ 0) : IsWhole ((d :: ds).take n) := by
  obtain ⟨n, rfl⟩ := Nat.exists_eq_succ_of_ne_zero positive
  rw [List.take_succ_cons] at *
  exact .cons (fun c hc => digits c (List.mem_of_mem_take (i := n + 1) hc)) leading

theorem IsFractional.pointed {whole fraction : List Char} (front : IsWhole whole)
    (digits : ∀ c ∈ fraction, Decimal.isDigit c = true) (some : fraction ≠ []) :
    IsFractional (whole ++ '.' :: fraction) := by
  have withTail := IsFractional.point front digits some (.inl rfl)
  rwa [List.append_nil] at withTail

theorem padExponent_digits {n : Nat} {c : Char} (hc : c ∈ (Decimal.padExponent n).toList) :
    Decimal.isDigit c = true := by
  unfold Decimal.padExponent at hc
  split at hc
  · rcases List.mem_cons.mp (by simpa [Nat.toString_eq_ofList_toDigits] using hc) with rfl | hc
    · decide
    · exact Decimal.isDigit_toDigits hc
  · exact Decimal.isDigit_toDigits (by simpa [Nat.toString_eq_ofList_toDigits] using hc)

theorem padExponent_ne_nil (n : Nat) : (Decimal.padExponent n).toList ≠ [] := by
  unfold Decimal.padExponent
  split
  · simp
  · simp [Nat.toDigits_ne_nil]

theorem isExponent_text (e : Int) :
    IsExponent ((if e < 0 then "e-" else "e+") ++ Decimal.padExponent e.natAbs).toList := by
  rw [String.toList_append]
  split
  · exact .intro (.inl rfl) (fun _ => padExponent_digits) (padExponent_ne_nil _)
  · exact .intro (.inr rfl) (fun _ => padExponent_digits) (padExponent_ne_nil _)

theorem isDigit_replicate {n : Nat} {c : Char} (h : c ∈ List.replicate n '0') :
    Decimal.isDigit c = true := by
  rw [List.eq_of_mem_replicate h]
  decide

/-- Whatever the layout, the digits of a number other than zero are written with a point or an
exponent. -/
theorem isFractional_text (layout : Decimal.Layout) {s : Decimal.Scaled} (positive : s.digits ≠ 0) :
    IsFractional (s.text layout).toList := by
  have digits : ∀ c ∈ Nat.toDigits 10 s.digits, Decimal.isDigit c = true :=
    fun _ => Decimal.isDigit_toDigits
  obtain ⟨d, ds, written, leading⟩ := Decimal.toDigits_leading positive
  rw [written] at digits
  unfold Decimal.Scaled.text
  simp only [written]
  generalize Int.ofNat (d :: ds).length + s.exponent = point
  by_cases positional : layout.lowest < point ∧ point ≤ layout.highest
  case pos =>
    rw [if_pos (by simpa using positional)]
    by_cases front : point ≤ 0
    · rw [if_pos front, String.toList_ofList]
      exact IsFractional.pointed .zero
        (fun c hc => (List.mem_append.mp hc).elim isDigit_replicate (digits c)) (by simp)
    rw [if_neg front]
    by_cases behind : Int.ofNat (d :: ds).length ≤ point
    · rw [if_pos behind, String.toList_ofList]
      exact IsFractional.pointed
        (.cons (fun c hc => (List.mem_append.mp hc).elim (digits c) isDigit_replicate) leading)
        isDigit_zero (by simp)
    · rw [if_neg behind, String.toList_ofList]
      have within : point.toNat < (d :: ds).length := by
        rw [Int.ofNat_eq_natCast] at behind
        omega
      exact IsFractional.pointed (.take digits leading (by omega))
        (fun c hc => digits c (List.mem_of_mem_drop hc))
        (fun none => absurd (List.drop_eq_nil_iff.mp none) (by omega))
  case neg =>
    rw [if_neg (by simpa using positional), String.append_assoc, String.toList_append,
      String.toList_ofList]
    have exponent := isExponent_text (point - 1)
    cases ds with
    | nil => exact .exponent (.cons digits leading) exponent
    | cons e ds =>
        have front : IsWhole [d] := .cons (fun c hc => digits c (by simp_all)) leading
        exact IsFractional.point front (fun c hc => digits c (List.mem_cons_of_mem _ hc)) (by simp)
          (.inr exponent)

/-- A finite double is written as an unsigned number, perhaps behind a sign. -/
theorem render_finite {x : Float} {b : Decimal.Binary} (finite : Decimal.read x = .finite b) :
    ∃ cs, IsFractional cs ∧
      ((Decimal.render x).toList = cs ∨ (Decimal.render x).toList = '-' :: cs) := by
  refine ⟨(if b.mantissa == 0 then "0.0" else b.shortest.text {}).toList, ?_, ?_⟩
  · split
    case isTrue => exact IsFractional.pointed .zero isDigit_zero (by simp)
    case isFalse nonzero =>
      exact isFractional_text {} (Decimal.Binary.shortest_digits (by simpa using nonzero))
  · cases sign : b.negative <;> cases zero : b.mantissa == 0 <;>
      simp [Decimal.render, finite, sign, zero]

theorem IsWhole.leading_isDigit {cs : List Char} (h : IsWhole cs) :
    ∃ d ds, cs = d :: ds ∧ Decimal.isDigit d = true := by
  obtain ⟨d, ds, rfl⟩ := List.exists_cons_of_ne_nil h.ne_nil
  exact ⟨d, ds, rfl, h.digits d List.mem_cons_self⟩

theorem IsFractional.leading_isDigit {cs : List Char} (h : IsFractional cs) :
    ∃ d ds, cs = d :: ds ∧ Decimal.isDigit d = true := by
  cases h with
  | point front _ _ _ =>
      obtain ⟨d, ds, rfl, digit⟩ := front.leading_isDigit
      exact ⟨d, _, List.cons_append, digit⟩
  | exponent front _ =>
      obtain ⟨d, ds, rfl, digit⟩ := front.leading_isDigit
      exact ⟨d, _, List.cons_append, digit⟩

theorem wordValue?_unsigned {d : Char} (digit : Decimal.isDigit d = true) (ds : List Char) :
    wordValue? (d :: ds) = number? false (d :: ds) := by
  have letter : ∀ c : Char, Decimal.isDigit c = false → d ≠ c := by
    rintro _ other rfl
    exact Bool.false_ne_true (other.symm.trans digit)
  unfold wordValue?
  simp [letter 'n' (by decide), letter 't' (by decide), letter 'f' (by decide),
    letter 'N' (by decide), letter 'I' (by decide), letter '-' (by decide)]

theorem wordValue?_negative {d : Char} (digit : Decimal.isDigit d = true) (ds : List Char) :
    wordValue? ('-' :: d :: ds) = number? true (d :: ds) := by
  have letter : d ≠ 'I' := by
    rintro rfl
    exact absurd digit (by decide)
  unfold wordValue?
  simp [letter]

theorem intText_ofNat (n : Nat) : intText n = Nat.toDigits 10 n := by
  change (Nat.repr n).toList = _
  rw [Nat.repr_eq_ofList_toDigits, String.toList_ofList]

theorem intText_negSucc (n : Nat) : intText (.negSucc n) = '-' :: Nat.toDigits 10 (n + 1) := by
  change ("-" ++ Nat.repr (n + 1)).toList = _
  rw [String.toList_append, Nat.repr_eq_ofList_toDigits]
  simp

/-- A whole number is read back, however large it is. -/
theorem wordValue?_intText (n : Int) : wordValue? (intText n) = some (.int n) := by
  cases n with
  | ofNat n =>
      obtain ⟨d, ds, written, digit⟩ := (IsWhole.toDigits n).leading_isDigit
      rw [Int.ofNat_eq_natCast, intText_ofNat, written, wordValue?_unsigned digit, ← written,
        number?_whole _ (.toDigits n), Decimal.ofDigits_toDigits]
      rfl
  | negSucc n =>
      obtain ⟨d, ds, written, digit⟩ := (IsWhole.toDigits (n + 1)).leading_isDigit
      rw [intText_negSucc, written, wordValue?_negative digit, ← written,
        number?_whole _ (.toDigits (n + 1)), Decimal.ofDigits_toDigits]
      rfl

/-- The text of a double is read as a double. -/
theorem wordValue?_floatText (x : Float) : ∃ y, wordValue? (floatText x) = some (.float y) := by
  unfold floatText
  cases kind : Decimal.read x with
  | notANumber => exact ⟨_, rfl⟩
  | infinite negative =>
      cases negative with
      | true => exact ⟨_, rfl⟩
      | false => exact ⟨_, rfl⟩
  | finite b =>
      obtain ⟨cs, fractional, written⟩ := render_finite kind
      obtain ⟨d, ds, rfl, digit⟩ := fractional.leading_isDigit
      rcases written with written | written
      · simpa only [written, wordValue?_unsigned digit] using number?_fractional false fractional
      · simpa only [written, wordValue?_negative digit] using number?_fractional true fractional

end FileCensus.Json
