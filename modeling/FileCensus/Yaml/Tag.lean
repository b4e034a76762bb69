import FileCensus.Yaml.Cursor
import FileCensus.Decimal.Integer
import FileCensus.Decimal.Reading

/-!
Tags, anchors and directives. A tag is written in full between angle brackets, or as a handle with a suffix, where the
handle stands for a text that directives can set. Of all tags only those of the standard types have a meaning here.
-/

namespace FileCensus.Yaml

/-- The type that a tag asks for. -/
inductive Tag where
  | null
  | bool
  | int
  | float
  | str
  | binary
  | timestamp
  | seq
  | map
  | set
  | omap
  | pairs
  | merge
  | value
  | unknown
  deriving DecidableEq, Repr

namespace Tag

def standardHead : String := "tag:yaml.org,2002:"

def standard : List (String × Tag) :=
    [("null", .null), ("bool", .bool), ("int", .int), ("float", .float), ("str", .str), ("binary", .binary),
      ("timestamp", .timestamp), ("seq", .seq), ("map", .map), ("set", .set), ("omap", .omap), ("pairs", .pairs),
      ("merge", .merge), ("value", .value)]

def ofText (s : String) : Tag :=
    (standard.find? fun p => standardHead ++ p.1 == s).elim .unknown (·.2)

end Tag

/-- A tag as it is written: a suffix, after a handle unless the tag is written in full. -/
structure WrittenTag where
  handle : Option String
  suffix : String
  deriving DecidableEq, Repr

/-- The tag that asks for no type in particular. -/
def openTag : String := "!"

inductive Directive where
  | version (major : Nat)
  | handle (handle value : String)
  | other
  deriving DecidableEq, Repr

def takeName : Scan String := do
    let name ← takeWhile isNameChar
    if name.isEmpty then fail
    return String.ofList name

/-- The name of an anchor, after its mark. -/
def anchorName : Scan String := do
    skip 1
    let name ← takeName
    let ch ← peek
    if !(endsWord ch || ['?', ':', ',', ']', '}', '%', '@', '\x60'].contains ch) then fail
    return name

def isUriChar (c : Char) : Bool :=
    isNameChar c || [';', '/', '?', ':', '@', '&', '=', '+', '$', ',', '.', '!', '~', '*', '\x27', '(', ')', '[', ']'].contains c

/-- A run of bytes given by two hexadecimal digits each, after percent signs. -/
def uriBytes : (fuel : Nat) → List UInt8 → Scan (List UInt8)
  | 0, _ => fail
  | fuel + 1, bytes => do
      let c ← get
      if c.peek != '%' then return bytes
      let digits := [c.peekAt 1, c.peekAt 2]
      if !digits.all isHexDigit then fail
      skip 3
      uriBytes fuel (bytes ++ [UInt8.ofNat (Decimal.ofDigits 16 digits)])

def uriFrom : (fuel : Nat) → List Char → Scan (List Char)
  | 0, _ => fail
  | fuel + 1, done => do
      let done := done ++ (← takeWhile isUriChar)
      let c ← get
      if c.peek != '%' then return done
      let bytes ← uriBytes (c.rest.length + 1) []
      match String.fromUTF8? ⟨bytes.toArray⟩ with
      | some s => uriFrom fuel (done ++ s.toList)
      | none => fail

def uri : Scan String := do
    let c ← get
    let cs ← uriFrom (c.rest.length + 1) []
    if (← get).index == c.index then fail
    return String.ofList cs

/-- A handle: one exclamation mark, or a possibly empty name between two. -/
def tagHandle : Scan String := do
    let c ← get
    if c.peek != '!' then fail
    skip 1
    if c.peekAt 1 == ' ' then return openTag
    let name ← takeWhile isNameChar
    if (← peek) != '!' then fail
    skip 1
    return String.ofList ('!' :: name ++ ['!'])

def writtenTag : Scan WrittenTag := do
    let c ← get
    let next := c.peekAt 1
    let t ← if next == '<' then do
        skip 2
        let suffix ← uri
        if (← peek) != '>' then fail
        skip 1
        pure (⟨none, suffix⟩ : WrittenTag)
      else if endsWord next then do
        skip 1
        pure ⟨none, openTag⟩
      else if ((c.rest.drop 1).takeWhile (!endsItem ·)).contains '!' then do
        let handle ← tagHandle
        pure ⟨some handle, ← uri⟩
      else do
        skip 1
        pure ⟨some openTag, ← uri⟩
    if !endsItem (← peek) then fail
    return t

def versionNumber : Scan Nat := do
    let digits ← takeWhile Decimal.isDigit
    if digits.isEmpty then fail
    if Decimal.numeralLimit < digits.length then throw (.scalar (.tooManyDigits digits.length))
    return Decimal.ofDigits 10 digits

def versionDirective : Scan Directive := do
    skipSpaces
    let major ← versionNumber
    if (← peek) != '.' then fail
    skip 1
    let _ ← versionNumber
    if !endsItem (← peek) then fail
    return .version major

def handleDirective : Scan Directive := do
    skipSpaces
    let handle ← tagHandle
    if (← peek) != ' ' then fail
    skipSpaces
    let value ← uri
    if !endsItem (← peek) then fail
    return .handle handle value

/-- A directive, from its percent sign to the end of its line. -/
def directive : Scan Directive := do
    skip 1
    let name ← takeName
    if !endsItem (← peek) then fail
    let d ← if name = "YAML" then versionDirective
      else if name = "TAG" then handleDirective
      else do
        let _ ← takeWhile (!endsLine ·)
        pure .other
    finishLine
    return d

end FileCensus.Yaml
