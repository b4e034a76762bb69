import FileCensus.Glob.Error

/-!
Bracket expressions. After the opening bracket comes an optional `!` or `^` for the complement; a closing bracket that comes
next stands for itself, and the following one ends the expression. In between, `a-z` is a range and a backslash has no
special meaning. Without a closing bracket there is no expression, and the opening bracket stands for itself.
-/

namespace FileCensus.Glob

/-- A set of characters, as ranges with both ends included. -/
structure CharSet where
  negated : Bool
  ranges : List (Char × Char)
  deriving DecidableEq, Repr

namespace CharSet

def holds (s : CharSet) (c : Char) : Bool :=
    s.ranges.any (fun r => r.1 ≤ c && c ≤ r.2) != s.negated

/-- Ranges and single characters between the brackets. A hyphen at either end stands for itself. -/
def rangesOf : List Char → List (Char × Char)
  | a :: '-' :: c :: rest => (a, c) :: rangesOf rest
  | a :: rest => (a, a) :: rangesOf rest
  | [] => []

/-- The first range whose ends are reversed. -/
def reversed? (s : CharSet) : Option (Char × Char) :=
    s.ranges.find? fun r => r.2 < r.1

end CharSet

/-- Drops a leading character that satisfies `p` and tells whether there was one. -/
def dropLead (p : Char → Bool) (cs : List Char) : Bool × List Char :=
    match cs with
    | c :: rest => if p c then (true, rest) else (false, cs)
    | [] => (false, [])

/-- The set that a bracket expression writes and the characters after it; `cs` begins after the opening bracket. -/
def bracket? (cs : List Char) : Option (CharSet × List Char) :=
    let (negated, body) := dropLead (fun c => c == '!' || c == '^') cs
    let (first, body) := dropLead (· == ']') body
    let inner := body.takeWhile (· != ']')
    match body.drop inner.length with
    | [] => none
    | _ :: rest =>
        some (⟨negated, CharSet.rangesOf ((if first then [']'] else []) ++ inner)⟩, rest)

theorem dropLead_length (p : Char → Bool) (cs : List Char) : (dropLead p cs).2.length ≤ cs.length := by
  unfold dropLead
  split
  · split <;> simp
  · simp

theorem bracket?_length {cs rest : List Char} {s : CharSet} (h : bracket? cs = some (s, rest)) :
    rest.length < cs.length := by
  unfold bracket? at h
  simp only at h
  split at h
  · simp at h
  · rename_i c tail hd
    have h1 := dropLead_length (fun c => c == '!' || c == '^') cs
    have h2 := dropLead_length (fun c => c == ']') (dropLead (fun c => c == '!' || c == '^') cs).2
    have h3 := congrArg List.length hd
    simp only [List.length_drop, List.length_cons] at h3
    simp only [Option.some.injEq, Prod.mk.injEq] at h
    rw [← h.2]
    omega

end FileCensus.Glob
