import FileCensus.Yaml.Cursor
import FileCensus.Decimal.Reading

/-!
The texts of scalars. A text is written plain, in single or double quotes, or as an indented block. In all of them a line
break inside the text is folded: a single one becomes a space, and of several the first is dropped. Blocks in the literal
style keep their breaks.
-/

namespace FileCensus.Yaml

/-- A scalar's text; an escape can name half of a surrogate pair, for which the text then has a stand-in and is not whole. -/
structure ScalarText where
  chars : List Char
  whole : Bool
  deriving DecidableEq, Repr

namespace ScalarText

def ofChars (cs : List Char) : ScalarText :=
    ⟨cs, true⟩

def append (a b : ScalarText) : ScalarText :=
    ⟨a.chars ++ b.chars, a.whole && b.whole⟩

def text (t : ScalarText) : String :=
    String.ofList t.chars

end ScalarText

/-- Folds the blanks and breaks that were passed between two parts of a text. -/
def foldBreaks (first : List Char) (more : List (List Char)) : List Char :=
    (if first != ['\n'] then first else if more.isEmpty then [' '] else []) ++ more.flatten

/-- A mark that may not stand inside a plain text of a flow collection. -/
def isFlowMark (c : Char) : Bool :=
    c == ',' || c == '?' || c == '[' || c == ']' || c == '{' || c == '}'

/-- Whether a colon followed by `c` ends a plain text. -/
def endsKey (flow : Bool) (c : Char) : Bool :=
    endsWord c || (flow && (isFlowMark c && c != '?'))

/-- The part of a plain text up to the next blank, break or mark. -/
def plainPart (flow : Bool) : List Char → List Char
  | [] => []
  | c :: rest =>
      if endsWord c || (c == ':' && endsKey flow (rest.headD ending)) || (flow && isFlowMark c) then []
      else c :: plainPart flow rest

/-- The breaks after the first one; `none` if a document begins or ends among them. -/
def plainBreaks : (fuel : Nat) → List (List Char) → Scan (Option (List (List Char)))
  | 0, _ => fail
  | fuel + 1, breaks => do
      let c ← get
      if c.peek == ' ' then
        skip 1
        plainBreaks fuel breaks
      else if isBreak c.peek then
        let b ← takeBreak
        if (← get).atDocumentMark then return none
        plainBreaks fuel (breaks ++ [b])
      else return some breaks

/-- What lies between two parts of a plain text, nothing where the text must end, and whether a line was begun. -/
def plainGap : Scan (List Char × Bool) := do
    let blanks ← takeWhile (· == ' ')
    let c ← get
    if !isBreak c.peek then return (blanks, false)
    let first ← takeBreak
    if (← get).atDocumentMark then return ([], true)
    match ← plainBreaks (c.rest.length + 1) [] with
    | none => return ([], true)
    | some more => return (foldBreaks first more, true)

/-- The rest of a plain text after `done` and the gap that follows it. -/
def plainFrom (flow : Bool) (indent : Nat) : (fuel : Nat) → (done gap : List Char) → (fresh : Bool) →
    Scan (List Char × Bool)
  | 0, _, _, _ => fail
  | fuel + 1, done, gap, fresh => do
      let c ← get
      let part := if c.peek == '#' then [] else plainPart flow c.rest
      if part.isEmpty then return (done, fresh)
      skip part.length
      let (gap', fresh') ← plainGap
      let done' := done ++ gap ++ part
      let c ← get
      if gap'.isEmpty || c.peek == '#' || (!flow && decide (c.column < indent)) then return (done', fresh')
      plainFrom flow indent fuel done' gap' fresh'

/-- A plain text, and whether the reading has come to a new line. -/
def plainText (flow : Bool) (indent : Nat) : Scan (ScalarText × Bool) := do
    let (cs, fresh) ← plainFrom flow indent ((← get).rest.length + 1) [] [] false
    return (.ofChars cs, fresh)

/-- The breaks inside a quoted text, where no document may begin or end. -/
def quotedBreaks : (fuel : Nat) → List (List Char) → Scan (List (List Char))
  | 0, _ => fail
  | fuel + 1, breaks => do
      if (← get).atDocumentMark then fail
      let _ ← takeWhile isBlank
      if isBreak (← peek) then
        let b ← takeBreak
        quotedBreaks fuel (breaks ++ [b])
      else return breaks

def quotedGap : Scan (List Char) := do
    let blanks ← takeWhile isBlank
    let c ← get
    if c.peek == ending then fail
    if !isBreak c.peek then return blanks
    let first ← takeBreak
    return foldBreaks first (← quotedBreaks (c.rest.length + 1) [])

def simpleEscapes : List (Char × Char) :=
    [('0', '\x00'), ('a', '\x07'), ('b', '\x08'), ('t', '\t'), ('\t', '\t'), ('n', '\n'), ('v', '\x0B'), ('f', '\x0C'),
      ('r', '\r'), ('e', '\x1B'), (' ', ' '), ('\x22', '\x22'), ('\\', '\\'), ('/', '/'), ('N', '\x85'), ('_', '\xA0'),
      ('L', '\u2028'), ('P', '\u2029')]

/-- The number of digits of an escape by code point. -/
def escapeWidth : Char → Option Nat
  | 'x' => some 2
  | 'u' => some 4
  | 'U' => some 8
  | _ => none

def replacement : Char := '\uFFFD'

/-- The text of one code point. -/
def ofCodePoint (n : Nat) : Except LoadError ScalarText :=
    if 0x7FFFFFFF < n then .error (.scalar .codePointTooLarge)
    else if 0x10FFFF < n then .error (.scalar .codePointOutOfRange)
    else if 0xD800 ≤ n && n ≤ 0xDFFF then .ok ⟨[replacement], false⟩
    else .ok (.ofChars [Char.ofNat n])

/-- An escape in double quotes, after its backslash. -/
def quotedEscape (fuel : Nat) : Scan ScalarText := do
    let ch ← peek
    match simpleEscapes.lookup ch, escapeWidth ch with
    | some c, _ =>
        skip 1
        return .ofChars [c]
    | none, some width =>
        skip 1
        let digits := (← get).rest.take width
        if digits.length < width || !digits.all isHexDigit then fail
        let t ← StateT.lift (ofCodePoint (Decimal.ofDigits 16 digits))
        skip width
        return t
    | none, none =>
        if !isBreak ch then fail
        let _ ← takeBreak
        return .ofChars (← quotedBreaks fuel []).flatten

/-- The characters that may have to be looked at one by one in a quoted text. -/
def isQuotedMark (c : Char) : Bool :=
    c == '\x27' || c == '\x22' || c == '\\' || endsWord c

/-- A stretch of a quoted text without blanks and breaks. -/
def quotedPart (double : Bool) : (fuel : Nat) → ScalarText → Scan ScalarText
  | 0, _ => fail
  | fuel + 1, done => do
      let done := done.append (.ofChars (← takeWhile (!isQuotedMark ·)))
      let c ← get
      let ch := c.peek
      if !double && ch == '\x27' && c.peekAt 1 == '\x27' then
        skip 2
        quotedPart double fuel (done.append (.ofChars ['\x27']))
      else if (double && ch == '\x27') || (!double && (ch == '\x22' || ch == '\\')) then
        skip 1
        quotedPart double fuel (done.append (.ofChars [ch]))
      else if double && ch == '\\' then
        skip 1
        let t ← quotedEscape c.rest.length
        quotedPart double fuel (done.append t)
      else return done

def quotedFrom (double : Bool) (quote : Char) : (fuel : Nat) → ScalarText → Scan ScalarText
  | 0, _ => fail
  | fuel + 1, done => do
      if (← peek) == quote then
        skip 1
        return done
      let gap ← quotedGap
      let done ← quotedPart double ((← get).rest.length + 1) (done.append (.ofChars gap))
      quotedFrom double quote fuel done

def quotedText (double : Bool) : Scan ScalarText := do
    skip 1
    let fuel := (← get).rest.length + 1
    let first ← quotedPart double fuel (.ofChars [])
    quotedFrom double (if double then '\x22' else '\x27') fuel first

/-- What is done with the breaks at the end of a block: one is kept unless the header says that all or none are. -/
inductive Chomping where
  | clip
  | strip
  | keep
  deriving DecidableEq, Repr

def chomping? : Char → Option Chomping
  | '+' => some .keep
  | '-' => some .strip
  | _ => none

def indentDigit? (c : Char) : Option Nat :=
    if Decimal.isDigit c then Decimal.digitValue 10 c else none

def takeChomping : Scan (Option Chomping) := do
    let mark := chomping? (← peek)
    if mark.isSome then skip 1
    return mark

/-- A stated indentation, which cannot be zero. -/
def takeIndent : Scan (Option Nat) := do
    match indentDigit? (← peek) with
    | none => return none
    | some n =>
        if n = 0 then fail
        skip 1
        return some n

/-- The two marks of a block's header, in either order. -/
def blockHeader : Scan (Chomping × Option Nat) := do
    let first ← takeChomping
    let indent ← takeIndent
    let second ← if first.isNone && indent.isSome then takeChomping else pure none
    if !endsItem (← peek) then fail
    return ((first.or second).getD .clip, indent)

/-- The empty lines before a block whose indentation is not stated, and the widest indentation among them. -/
def leadingBreaks : (fuel : Nat) → List (List Char) → (widest : Nat) → Scan (List (List Char) × Nat)
  | 0, _, _ => fail
  | fuel + 1, breaks, widest => do
      let ch ← peek
      if ch == ' ' then
        skip 1
        leadingBreaks fuel breaks (max widest (← get).column)
      else if isBreak ch then
        let b ← takeBreak
        leadingBreaks fuel (breaks ++ [b]) widest
      else return (breaks, widest)

def skipIndent (indent : Nat) : Scan Unit := do
    let c ← get
    let blanks := (c.rest.takeWhile (· == ' ')).length
    skip (min blanks (indent - c.column))

/-- The empty lines between two lines of a block. -/
def blockBreaks (indent : Nat) : (fuel : Nat) → List (List Char) → Scan (List (List Char))
  | 0, _ => fail
  | fuel + 1, breaks => do
      skipIndent indent
      if isBreak (← peek) then
        let b ← takeBreak
        blockBreaks indent fuel (breaks ++ [b])
      else return breaks

structure BlockLines where
  text : List Char
  lastBreak : List Char
  trailing : List (List Char)

def blockLines (folded : Bool) (indent : Nat) : (fuel : Nat) → BlockLines → Scan BlockLines
  | 0, _ => fail
  | fuel + 1, done => do
      let c ← get
      if c.column != indent || c.peek == ending then return done
      let line ← takeWhile (!endsLine ·)
      let text := done.text ++ done.trailing.flatten ++ line
      let lastBreak ← takeBreak
      let breaks ← blockBreaks indent (c.rest.length + 1) []
      let after ← get
      if after.column != indent || after.peek == ending then return ⟨text, lastBreak, breaks⟩
      let folds := folded && lastBreak == ['\n'] && !isBlank c.peek && !isBlank after.peek
      let joint := if !folds then lastBreak else if breaks.isEmpty then [' '] else []
      blockLines folded indent fuel ⟨text ++ joint, [], breaks⟩

/-- A block, for a parent whose contents have to be indented by `least` columns or more. -/
def blockText (folded : Bool) (least : Nat) : Scan ScalarText := do
    skip 1
    let (chomping, stated) ← blockHeader
    finishLine
    let least := max least 1
    let fuel := (← get).rest.length + 1
    let (breaks, indent) ← match stated with
      | some n => do
          let indent := least + n - 1
          pure (← blockBreaks indent fuel [], indent)
      | none => do
          let (breaks, widest) ← leadingBreaks fuel [] 0
          pure (breaks, max least widest)
    let lines ← blockLines folded indent fuel ⟨[], [], breaks⟩
    return .ofChars <| lines.text ++
      (if chomping = .strip then [] else lines.lastBreak) ++
      (if chomping = .keep then lines.trailing.flatten else [])

end FileCensus.Yaml
