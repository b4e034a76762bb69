import FileCensus.Glob.Regex
import FileCensus.Path
import FileCensus.Text.Blank

/-!
Patterns without groups, as lines of an ignore file. A line is cut at its slashes into segments. A segment `**` spans any
number of directories, and every other segment is matched within one name. A line with a slash before its last character is
anchored at the root of the walk; any other matches at every depth. What matches a directory also matches everything below
it. A blank line and a line that begins with `#` say nothing, and a leading `!` turns a line round.
-/

namespace FileCensus.Glob

/-- A compiled pattern: an expression for the head of a path, or one that may occur anywhere in it. -/
inductive Compiled where
  | atHead (r : Regex)
  | anywhere (r : Regex)
  deriving DecidableEq, Repr

def Compiled.accepts : Compiled → List Char → Bool
  | .atHead r, s => r.matchesHead s
  | .anywhere r, s => r.occursIn s

def Compiled.regex : Compiled → Regex
  | .atHead r | .anywhere r => r

def slash : Regex := .one (.exactly '/')

/-- One or more characters on a line. -/
def someOnLine : Regex := .seq (.one .notNewline) (.many .notNewline)

/-- One or more characters of a name. -/
def someOfName : Regex := .seq (.one .notSlash) (.many .notSlash)

/-- The expression for a segment, unless its last character is an escape with nothing to escape. -/
def segmentRegex? : List Char → Option Regex
  | [] => some .empty
  | c :: rest =>
      if c == '\\' then
        match rest with
        | [] => none
        | d :: rest => (segmentRegex? rest).map (.seq (.one (.exactly d)))
      else if c == '*' then (segmentRegex? rest).map (.seq (.many .notSlash))
      else if c == '?' then (segmentRegex? rest).map (.seq (.one .notSlash))
      else if c == '[' then
        match _h : bracket? rest with
        | some (set, after) => (segmentRegex? after).map (.seq (.one (.within set)))
        | none => (segmentRegex? rest).map (.seq (.one (.exactly '[')))
      else (segmentRegex? rest).map (.seq (.one (.exactly c)))
termination_by cs => cs.length
decreasing_by
  all_goals simp only [List.length_cons]
  all_goals first
    | omega
    | exact Nat.lt_succ_of_lt (bracket?_length (by assumption))

/-- A segment after the normal form has been reached. -/
inductive Segment where
  | spanning
  | anyName
  | name (cs : List Char)
  deriving DecidableEq, Repr

def Segment.ofChars (cs : List Char) : Segment :=
    if cs == ['*', '*'] then .spanning else if cs == ['*'] then .anyName else .name cs

/-- Drops each spanning segment that another one follows. -/
def collapse : List Segment → List Segment
  | a :: b :: rest => if a = .spanning ∧ b = .spanning then collapse (b :: rest) else a :: collapse (b :: rest)
  | short => short

/-- Whether a pattern can match directories only. The pattern that is a slash alone is not one of these. -/
def directoryOnly (pieces : List (List Char)) : Bool :=
    pieces != [[], []] && pieces.getLast? == some []

/-- Anchors a pattern: a leading slash is dropped, and a pattern of a single segment, whether or not a slash follows it, may
stand below any directory. -/
def anchorPieces (pieces : List (List Char)) : List (List Char) :=
    let any : List Char := ['*', '*']
    match pieces with
    | [] :: rest => rest
    | [p] => if p == any then [p] else [any, p]
    | [p, []] => if p == any then [p, []] else [any, p, []]
    | _ => pieces

/-- An empty last segment stands for everything below. -/
def openEnd : List (List Char) → List (List Char)
  | [] => []
  | [p] => if p.isEmpty then [['*', '*']] else [p]
  | p :: rest => p :: openEnd rest

def segmentsOf (pieces : List (List Char)) : List Segment :=
    collapse ((openEnd (anchorPieces pieces)).map Segment.ofChars)

def nameRegex? : Segment → Option Regex
  | .name cs => segmentRegex? cs
  | _ => some someOfName

/-- After the last name comes the end of the path or, below a directory, a slash. -/
def ending : Segment → Regex
  | .anyName => .seq (.optional slash) .edge
  | _ => .either slash .edge

/-- The expression for the segments that follow the first; `joined` tells whether a slash has to come next. -/
def restRegex? (joined : Bool) : List Segment → Option Regex
  | [] => some .empty
  | [.spanning] => some slash
  | .spanning :: rest =>
      (restRegex? true rest).map (.seq (.optional (.seq slash someOnLine)))
  | s :: rest => do
      let r ← nameRegex? s
      let more ← if rest.isEmpty then some (ending s) else restRegex? true rest
      some (.seq (if joined then slash else .empty) (.seq r more))

def compileSegments? (directory : Bool) : List Segment → Option Compiled
  | [.spanning] => some (.anywhere (if directory then slash else .one .notNewline))
  | [.spanning, .anyName] => some (.anywhere (.one .notNewline))
  | [.spanning, .anyName, .spanning] => some (.anywhere slash)
  | .spanning :: rest =>
      (restRegex? false rest).map fun r => .atHead (.seq (.optional (.seq someOnLine slash)) r)
  | segments => (restRegex? false segments).map .atHead

/-- Strips white space from the end of a line, unless the line ends in an escaped space. -/
def stripLine (cs : List Char) : List Char :=
    if ['\\', ' '].isSuffixOf cs then cs else Text.trimEnd Text.isBlank cs

/-- A leading `!` or `#` stands for itself. -/
def literalLead (cs : List Char) : List Char :=
    match cs with
    | c :: _ => if c == '!' || c == '#' then '\\' :: cs else cs
    | [] => []

/-- The line that an alternative makes. -/
def lineOf (alternative : String) : List Char :=
    literalLead alternative.toList

/-- A line that speaks of paths: what it matches is selected, or let go again if the line is negated. -/
structure Rule where
  selects : Bool
  compiled : Compiled
  deriving DecidableEq, Repr

/-- The ends of the first range in an expression that are reversed. -/
def reversedRange? (r : Regex) : Option (Char × Char) :=
    r.charTests.findSome? fun
      | .within s => s.reversed?
      | _ => none

/-- Compiles what a line matches; `line` is the whole line, as an error shows it. -/
def compileBody (pattern : String) (line body : List Char) : Except GlobError Compiled :=
    let pieces := Path.cut body
    match compileSegments? (directoryOnly pieces) (segmentsOf pieces) with
    | none => .error (.danglingEscape pattern (String.ofList line))
    | some compiled =>
        match reversedRange? compiled.regex with
        | some (low, high) => .error (.reversedRange low high)
        | none => .ok compiled

/-- Compiles a line made of an alternative of `pattern`. A blank line and a comment give nothing, and a leading `!` negates
the line. -/
def compileLine (pattern : String) (line : List Char) : Except GlobError (Option Rule) :=
    match stripLine line with
    | [] => .ok none
    | '#' :: _ => .ok none
    | '!' :: body => (compileBody pattern line body).map fun c => some ⟨false, c⟩
    | body => (compileBody pattern line body).map fun c => some ⟨true, c⟩

end FileCensus.Glob
