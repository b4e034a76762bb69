import FileCensus.Yaml.Error

/-!
A place in a document: what is left to read, and how many characters, lines and columns have been passed. Reading past the
end gives NUL, a character that no document holds. A byte order mark has no width.
-/

namespace FileCensus.Yaml

structure Cursor where
  rest : List Char
  index : Nat
  line : Nat
  column : Nat
  deriving DecidableEq, Repr

/-- A computation on what is left of a document. -/
abbrev Scan := StateT Cursor (Except LoadError)

def fail {α : Type} : Scan α :=
    throw .malformed

def ending : Char := '\x00'

def byteOrderMark : Char := '\uFEFF'

def isBreak (c : Char) : Bool :=
    c == '\n' || c == '\x85' || c == '\u2028' || c == '\u2029'

def isBlank (c : Char) : Bool :=
    c == ' ' || c == '\t'

def endsLine (c : Char) : Bool :=
    c == ending || isBreak c

/-- A character after which a word is over. -/
def endsWord (c : Char) : Bool :=
    isBlank c || endsLine c

/-- As `endsWord`, where a tab does not count. -/
def endsItem (c : Char) : Bool :=
    c == ' ' || endsLine c

def isHexDigit (c : Char) : Bool :=
    ('0' ≤ c && c ≤ '9') || ('a' ≤ c && c ≤ 'f') || ('A' ≤ c && c ≤ 'F')

/-- The characters that names of anchors, directives and tag handles are made of. -/
def isNameChar (c : Char) : Bool :=
    ('0' ≤ c && c ≤ '9') || ('a' ≤ c && c ≤ 'z') || ('A' ≤ c && c ≤ 'Z') || c == '-' || c == '_'

namespace Cursor

def start (cs : List Char) : Cursor :=
    ⟨cs, 0, 0, 0⟩

def peekAt (c : Cursor) (n : Nat) : Char :=
    (c.rest[n]?).getD ending

def peek (c : Cursor) : Char :=
    c.peekAt 0

def next (c : Cursor) : Cursor :=
    match c.rest with
    | [] => c
    | ch :: rest =>
        if isBreak ch then ⟨rest, c.index + 1, c.line + 1, 0⟩
        else if ch == byteOrderMark then ⟨rest, c.index + 1, c.line, c.column⟩
        else ⟨rest, c.index + 1, c.line, c.column + 1⟩

def skip (c : Cursor) : (n : Nat) → Cursor
  | 0 => c
  | n + 1 => c.next.skip n

/-- Whether a line that starts here begins or ends a document. -/
def atDocumentMark (c : Cursor) : Bool :=
    (c.rest.take 3 == ['-', '-', '-'] || c.rest.take 3 == ['.', '.', '.']) && endsWord (c.peekAt 3)

end Cursor

def peek : Scan Char :=
    return (← get).peek

def skip (n : Nat) : Scan Unit :=
    modify (·.skip n)

/-- Takes the longest run of characters of a class. -/
def takeWhile (p : Char → Bool) : Scan (List Char) := do
    let c ← get
    let run := c.rest.takeWhile p
    set (c.skip run.length)
    return run

def skipSpaces : Scan Unit := do
    let _ ← takeWhile (· == ' ')

def skipComment : Scan Unit := do
    if (← peek) == '#' then
      let _ ← takeWhile (!endsLine ·)

/-- Takes one line break, if there is one, and gives the break that it stands for. -/
def takeBreak : Scan (List Char) := do
    let ch ← peek
    if !isBreak ch then return []
    skip 1
    return if ch == '\x85' then ['\n'] else [ch]

/-- Passes the rest of a line, which may hold nothing but a comment. -/
def finishLine : Scan Unit := do
    skipSpaces
    skipComment
    if !endsLine (← peek) then fail
    let _ ← takeBreak

end FileCensus.Yaml
