import FileCensus.Text.CaseTable

/-!
Full lower-casing of text. Every character has its Unicode lower case; U+0130 becomes two characters, and a capital sigma
becomes the final form when it ends a word, that is, when the nearest character before it that is not case-ignorable has
a case and the nearest such character after it has none.
-/

namespace FileCensus.Text

def CaseRun.covers (r : CaseRun) (n : Nat) : Bool :=
    r.first ≤ n && n ≤ r.last && (n - r.first) % r.step == 0

def CaseRun.apply (r : CaseRun) (n : Nat) : Nat :=
    (Int.ofNat n + r.shift).toNat

def lowerChar (c : Char) : Char :=
    let n := c.toNat
    match lowerRuns.find? (·.covers n) with
    | some r => Char.ofNat (r.apply n)
    | none => c

def isCased (c : Char) : Bool :=
    inRanges casedRanges c.toNat

def isCaseIgnorable (c : Char) : Bool :=
    inRanges caseIgnorableRanges c.toNat

/-- Whether the first character of `cs` that is not case-ignorable has a case. -/
def meetsCased (cs : List Char) : Bool :=
    match cs.dropWhile isCaseIgnorable with
    | c :: _ => isCased c
    | [] => false

/-- The lower case of the characters that follow `seen`, which is given last character first. -/
def lowerAfter (seen : List Char) : List Char → List Char
  | [] => []
  | c :: rest =>
      let here :=
        if c == 'Σ' then
          if meetsCased seen && !meetsCased rest then ['ς'] else ['σ']
        else if c == 'İ' then ['i', '\u0307']
        else [lowerChar c]
      here ++ lowerAfter (c :: seen) rest

def lowerCase (s : String) : String :=
    String.ofList (lowerAfter [] s.toList)

end FileCensus.Text
