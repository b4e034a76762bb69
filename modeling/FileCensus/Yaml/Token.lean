import FileCensus.Yaml.Scalar
import FileCensus.Yaml.Tag

/-!
The tokens of a document. Indentation is turned into tokens that open and close block collections. Whether a text is a key
is only known when the colon after it is seen, so the place of each token that may begin a key is kept, one for each level
of flow collections, and the tokens that belong before it are inserted there later. Such a key must end on its line and
within 1024 characters.
-/

namespace FileCensus.Yaml

inductive Token where
  | directive (d : Directive)
  | documentStart
  | documentEnd
  | blockSequence
  | blockMapping
  | blockEnd
  | flowSequence
  | flowSequenceEnd
  | flowMapping
  | flowMappingEnd
  | item
  | separator
  | key
  | value
  | alias (name : String)
  | anchor (name : String)
  | tag (t : WrittenTag)
  | scalar (plain : Bool) (text : ScalarText)
  /-- The document cannot be cut into tokens from here on. -/
  | broken (e : LoadError)
  deriving DecidableEq, Repr

/-- A token that may turn out to begin a key. -/
structure KeyPlace where
  level : Nat
  token : Nat
  /-- A text at the indentation of a block must be a key. -/
  required : Bool
  index : Nat
  line : Nat
  column : Nat
  deriving DecidableEq, Repr

structure Lexing where
  cursor : Cursor
  /-- The tokens found so far, the last one first. -/
  found : List Token
  /-- The columns of the open block collections, the innermost first. -/
  indents : List Nat
  level : Nat
  keyAllowed : Bool
  places : List KeyPlace

/-- A computation that finds tokens. -/
abbrev Lex := StateT Lexing (Except LoadError)

def keyLimit : Nat := 1024

namespace Lexing

def start (cs : List Char) : Lexing :=
    ⟨.start cs, [], [], 0, true, []⟩

def push (s : Lexing) (t : Token) : Lexing :=
    { s with found := t :: s.found }

/-- Inserts a token before the one that was found as number `place`. -/
def insert (s : Lexing) (place : Nat) (t : Token) : Lexing :=
    let after := s.found.length - place
    { s with found := s.found.take after ++ t :: s.found.drop after }

def inFlow (s : Lexing) : Bool :=
    s.level != 0

def column (s : Lexing) : Nat :=
    s.cursor.column

/-- Opens a block collection at a column, if that is deeper than the current one. -/
def indent? (s : Lexing) (column : Nat) : Option Lexing :=
    match s.indents with
    | i :: _ => if i < column then some { s with indents := column :: s.indents } else none
    | [] => some { s with indents := [column] }

/-- The columns that close before a column; all of them at the end of a document. -/
def closing (s : Lexing) (column : Option Nat) : List Nat :=
    s.indents.takeWhile fun i => match column with
      | some c => c < i
      | none => true

def unwind (s : Lexing) (column : Option Nat) : Lexing :=
    if s.inFlow then s
    else
      let n := (s.closing column).length
      { s with indents := s.indents.drop n, found := List.replicate n .blockEnd ++ s.found }

/-- The column from which the contents of the innermost block are indented. -/
def least (s : Lexing) : Nat :=
    match s.indents with
    | i :: _ => i + 1
    | [] => 0

def place? (s : Lexing) : Option KeyPlace :=
    s.places.find? (·.level == s.level)

def isStale (s : Lexing) (p : KeyPlace) : Bool :=
    p.line != s.cursor.line || decide (keyLimit < s.cursor.index - p.index)

/-- The tokens that can be handed on already. Where a key may still turn out to begin, the next tokens have to be found first. -/
def settled (s : Lexing) : List Token :=
    match ((s.places.filter (!s.isStale ·)).map (·.token)).min? with
    | some n => s.found.drop (s.found.length - n)
    | none => s.found

end Lexing

/-- Gives up the key places of a class; one that was required is missing its colon. -/
def dropPlaces (p : KeyPlace → Bool) : Lex Unit := do
    let s ← get
    if s.places.any (fun k => p k && k.required) then throw .malformed
    set { s with places := s.places.filter (!p ·) }

def dropPlace : Lex Unit := do
    let s ← get
    dropPlaces (·.level == s.level)

def savePlace : Lex Unit := do
    let s ← get
    if s.keyAllowed then
      dropPlace
      let required := !s.inFlow && s.indents.head? == some s.column
      let c := s.cursor
      modify fun s =>
        { s with places := s.places ++ [⟨s.level, s.found.length, required, c.index, c.line, c.column⟩] }

def allowKey (b : Bool) : Lex Unit :=
    modify fun s => { s with keyAllowed := b }

def scanning {α : Type} (scan : Scan α) : Lex α := do
    let s ← get
    let (a, c) ← StateT.lift (scan.run s.cursor)
    set { s with cursor := c }
    return a

def push (t : Token) : Lex Unit :=
    modify (·.push t)

/-- Passes a mark of `n` characters and gives its token. -/
def mark (n : Nat) (t : Token) : Lex Unit := do
    scanning (skip n)
    push t

def requireKeyAllowed : Lex Unit := do
    let s ← get
    if !s.inFlow && !s.keyAllowed then throw .malformed

/-- Opens a block collection at the current column where none is open. -/
def openBlock (t : Token) : Lex Unit := do
    let s ← get
    if !s.inFlow then
      match s.indent? s.column with
      | some s => set (s.push t)
      | none => pure ()

/-- The end of an indentation: blocks are closed and no key can follow. -/
def closeBlocks : Lex Unit := do
    modify (·.unwind none)
    dropPlace
    allowKey false

/-- A token that can begin a key, after which none can begin. -/
def word (scan : Scan Token) : Lex Unit := do
    savePlace
    allowKey false
    push (← scanning scan)

def openFlow (t : Token) : Lex Unit := do
    savePlace
    modify fun s => { s with level := s.level + 1 }
    allowKey true
    mark 1 t

def closeFlow (t : Token) : Lex Unit := do
    dropPlace
    let s ← get
    if s.level = 0 then throw .malformed
    set { s with level := s.level - 1 }
    allowKey false
    mark 1 t

def separator : Lex Unit := do
    allowKey true
    dropPlace
    mark 1 .separator

def sequenceItem : Lex Unit := do
    requireKeyAllowed
    openBlock .blockSequence
    allowKey true
    dropPlace
    mark 1 .item

def statedKey : Lex Unit := do
    requireKeyAllowed
    openBlock .blockMapping
    allowKey (!(← get).inFlow)
    dropPlace
    mark 1 .key

/-- A colon, which turns the token at the kept place, if there is one, into a key. -/
def mappingValue : Lex Unit := do
    let s ← get
    match s.place? with
    | some p =>
        let s := { s with places := s.places.filter (·.level != s.level) }
        let s := s.insert p.token .key
        let s := if s.inFlow then s else match s.indent? p.column with
          | some s => s.insert p.token .blockMapping
          | none => s
        set { s with keyAllowed := false }
    | none =>
        requireKeyAllowed
        openBlock .blockMapping
        allowKey (!s.inFlow)
        dropPlace
    mark 1 .value

def plainScalar : Lex Unit := do
    savePlace
    let s ← get
    let (text, fresh) ← scanning (plainText s.inFlow s.least)
    allowKey fresh
    push (.scalar true text)

def blockScalar (folded : Bool) : Lex Unit := do
    allowKey true
    dropPlace
    let s ← get
    push (.scalar false (← scanning (blockText folded s.least)))

/-- Marks that cannot stand at the beginning of a plain text. -/
def indicators : List Char :=
    ['-', '?', ':', ',', '[', ']', '{', '}', '#', '&', '*', '!', '|', '>', '\x27', '\x22', '%', '@', '\x60']

def beginsPlain (flow : Bool) (c : Cursor) : Bool :=
    let ch := c.peek
    (!endsWord ch && !indicators.contains ch) ||
      (!endsWord (c.peekAt 1) && (ch == '-' || (!flow && (ch == '?' || ch == ':'))))

/-- Passes blanks, comments and line breaks; on a new line of a block a key may begin. -/
def skipToToken : (fuel : Nat) → Lex Unit
  | 0 => throw .malformed
  | fuel + 1 => do
      scanning skipSpaces
      scanning skipComment
      let b ← scanning takeBreak
      if !b.isEmpty then
        if !(← get).inFlow then allowKey true
        skipToToken fuel

/-- Finds the next tokens; whether there may be more. -/
def nextTokens : Lex Bool := do
    let c := (← get).cursor
    if c.index = 0 && c.peek == byteOrderMark then scanning (skip 1)
    skipToToken (c.rest.length + 1)
    let s ← get
    dropPlaces s.isStale
    modify fun s => s.unwind (some s.column)
    let s ← get
    let c := s.cursor
    let flow := s.inFlow
    let ch := c.peek
    if ch == ending then
      closeBlocks
      return false
    if ch == '%' && c.column == 0 then
      closeBlocks
      push (.directive (← scanning directive))
    else if ch == '-' && c.column == 0 && c.atDocumentMark then
      closeBlocks
      mark 3 .documentStart
    else if ch == '.' && c.column == 0 && c.atDocumentMark then
      closeBlocks
      mark 3 .documentEnd
    else if ch == '[' then openFlow .flowSequence
    else if ch == '{' then openFlow .flowMapping
    else if ch == ']' then closeFlow .flowSequenceEnd
    else if ch == '}' then closeFlow .flowMappingEnd
    else if ch == ',' then separator
    else if ch == '-' && endsWord (c.peekAt 1) then sequenceItem
    else if ch == '?' && (flow || endsWord (c.peekAt 1)) then statedKey
    else if ch == ':' && (flow || endsWord (c.peekAt 1)) then mappingValue
    else if ch == '*' then word (.alias <$> anchorName)
    else if ch == '&' then word (.anchor <$> anchorName)
    else if ch == '!' then word (.tag <$> writtenTag)
    else if ch == '|' && !flow then blockScalar false
    else if ch == '>' && !flow then blockScalar true
    else if ch == '\x27' then word (.scalar false <$> quotedText false)
    else if ch == '\x22' then word (.scalar false <$> quotedText true)
    else if beginsPlain flow c then plainScalar
    else throw .malformed
    return true

/-- Finds tokens up to the end of the document or the first place where there is none. -/
def tokensFrom : (fuel : Nat) → Lexing → List Token
  | 0, s => s.found.reverse
  | fuel + 1, s =>
      match nextTokens.run s with
      | .ok (true, s) => tokensFrom fuel s
      | .ok (false, s) => s.found.reverse
      | .error e => (Token.broken e :: s.settled).reverse

def tokens (cs : List Char) : List Token :=
    tokensFrom (cs.length + 1) (.start cs)

end FileCensus.Yaml
