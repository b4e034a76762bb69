/-!
White space. `isSpace` is Unicode's White_Space property; `isBlank` adds the four information separators U+001C to
U+001F, which count as white space wherever a pattern or an option is tested for being blank. Trimming is stated for any
class of characters, so that both readings share it.
-/

namespace FileCensus.Text

/-- The characters with Unicode's White_Space property. -/
def isSpace (c : Char) : Bool :=
    let n := c.toNat
    (0x09 ≤ n && n ≤ 0x0D) || n == 0x20 || n == 0x85 || n == 0xA0 || n == 0x1680 ||
      (0x2000 ≤ n && n ≤ 0x200A) || n == 0x2028 || n == 0x2029 || n == 0x202F || n == 0x205F || n == 0x3000

def isBlank (c : Char) : Bool :=
    isSpace c || (0x1C ≤ c.toNat && c.toNat ≤ 0x1F)

def trimStart (p : Char → Bool) (cs : List Char) : List Char :=
    cs.dropWhile p

def trimEnd (p : Char → Bool) (cs : List Char) : List Char :=
    (cs.reverse.dropWhile p).reverse

def trim (p : Char → Bool) (cs : List Char) : List Char :=
    trimEnd p (trimStart p cs)

/-- A text is blank when it holds nothing but blank characters. -/
def allBlank (s : String) : Bool :=
    s.toList.all isBlank

theorem trimStart_eq_nil_iff (p : Char → Bool) (cs : List Char) :
    trimStart p cs = [] ↔ ∀ c ∈ cs, p c = true := by
  unfold trimStart
  induction cs with
  | nil => simp
  | cons c cs ih => by_cases h : p c <;> simp_all

theorem trimEnd_eq_nil_iff (p : Char → Bool) (cs : List Char) :
    trimEnd p cs = [] ↔ ∀ c ∈ cs, p c = true := by
  unfold trimEnd
  rw [List.reverse_eq_nil_iff]
  exact (trimStart_eq_nil_iff p cs.reverse).trans (by simp)

end FileCensus.Text
