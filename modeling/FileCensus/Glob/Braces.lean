import FileCensus.Glob.Error

/-!
Brace groups. A pattern is read as signs, a backslash forming one sign with the character after it. Outside such escapes a
group runs from an opening brace to the next closing one and lists its alternatives between commas; groups do not nest.
Expansion chooses one alternative from every group, the leftmost group varying slowest, and keeps every sign as it is
written. Any number of groups is expanded: that the stack of the interpreter ends after about a thousand of them is not
modelled.
-/

namespace FileCensus.Glob

inductive Sign where
  | plain (c : Char)
  /-- A backslash and the character after it, if there is one. -/
  | escape (c : Option Char)
  deriving DecidableEq, Repr

namespace Sign

def ofChars : List Char → List Sign
  | [] => []
  | c :: rest =>
      if c == '\\' then
        match rest with
        | [] => [.escape none]
        | d :: rest => .escape (some d) :: ofChars rest
      else .plain c :: ofChars rest

def chars : Sign → List Char
  | .plain c => [c]
  | .escape none => ['\\']
  | .escape (some c) => ['\\', c]

def text (signs : List Sign) : String :=
    String.ofList (signs.flatMap chars)

def openBrace : Sign := .plain '\x7b'

def closeBrace : Sign := .plain '\x7d'

def comma : Sign := .plain ','

end Sign

/-- A stretch of a pattern: signs outside every group, or the alternatives of a group. -/
inductive Stretch where
  | literal (signs : List Sign)
  | group (alternatives : List (List Sign))
  deriving DecidableEq, Repr

/-- Where the reader stands; what was read last stands first. -/
inductive Reading where
  | outside (signs : List Sign)
  | inside (alternatives : List (List Sign)) (signs : List Sign)

namespace Stretch

/-- Reads stretches from a pattern. `since` holds the signs after the last group that was closed, which is the part of the
pattern that an error quotes. -/
def readFrom (since : List Sign) : Reading → List Sign → Except GlobError (List Stretch)
  | .outside signs, [] => .ok [.literal signs.reverse]
  | .inside _ _, [] => .error (.openGroup (Sign.text since))
  | .outside signs, s :: rest =>
      if s = Sign.openBrace then do
        let more ← readFrom since (.inside [] []) rest
        .ok (.literal signs.reverse :: more)
      else readFrom since (.outside (s :: signs)) rest
  | .inside alternatives signs, s :: rest =>
      if s = Sign.openBrace then .error (.nestedGroup (Sign.text since))
      else if s = Sign.closeBrace then do
        let more ← readFrom rest (.outside []) rest
        .ok (.group (signs.reverse :: alternatives).reverse :: more)
      else if s = Sign.comma then readFrom since (.inside (signs.reverse :: alternatives) []) rest
      else readFrom since (.inside alternatives (s :: signs)) rest

def ofSigns (signs : List Sign) : Except GlobError (List Stretch) :=
    readFrom signs (.outside []) signs

def choices : Stretch → List (List Sign)
  | .literal signs => [signs]
  | .group alternatives => alternatives

/-- All ways to choose from every stretch, the first stretch varying slowest. -/
def combinations : List Stretch → List (List Sign)
  | [] => [[]]
  | s :: rest => s.choices.flatMap fun choice => (combinations rest).map (choice ++ ·)

end Stretch

/-- The patterns without groups that a pattern stands for. -/
def expandBraces (pattern : String) : Except GlobError (List String) := do
    let stretches ← Stretch.ofSigns (Sign.ofChars pattern.toList)
    .ok ((Stretch.combinations stretches).map Sign.text)

end FileCensus.Glob
