import FileCensus.Json.Value
import FileCensus.Decimal.Integer
import FileCensus.Decimal.Shortest
import FileCensus.Text.Quoted

/-!
JSON text on one line. A comma or a colon is followed by one space; characters outside ASCII stand as themselves; the
control characters below U+0020, the quote and the backslash are escaped, so that no line break can occur in the text.

A text can also be handed on piece by piece. An integer of too many digits has no text, and then the pieces before it have
been handed on already. Where a text is asked for as a whole its integers are counts, which never have so many digits.
-/

namespace FileCensus.Json

def escapeChar (c : Char) : List Char :=
    if c == '\x22' || c == '\\' then ['\\', c]
    else if c == '\n' then ['\\', 'n']
    else if c == '\r' then ['\\', 'r']
    else if c == '\t' then ['\\', 't']
    else if c == '\x08' then ['\\', 'b']
    else if c == '\x0c' then ['\\', 'f']
    else if c.toNat < 0x20 then '\\' :: 'u' :: Text.hexDigits 4 c.toNat
    else [c]

def stringText (s : String) : List Char :=
    '\x22' :: s.toList.flatMap escapeChar ++ ['\x22']

def intText (n : Int) : List Char :=
    (toString n).toList

/-- Doubles that are not finite have the names that readers of this format commonly know. -/
def floatText (x : Float) : List Char :=
    match Decimal.read x with
    | .notANumber => "NaN".toList
    | .infinite negative => (if negative then "-Infinity" else "Infinity").toList
    | .finite _ => (Decimal.render x).toList

mutual

def Value.chars : Value → List Char
  | .null => "null".toList
  | .bool true => "true".toList
  | .bool false => "false".toList
  | .int n => intText n
  | .float x => floatText x
  | .str s => stringText s
  | .arr items => '[' :: itemChars items ++ [']']
  | .obj fields => '\x7b' :: fieldChars fields ++ ['\x7d']

def itemChars : List Value → List Char
  | [] => []
  | [v] => v.chars
  | v :: rest => v.chars ++ ',' :: ' ' :: itemChars rest

def fieldChars : List (String × Value) → List Char
  | [] => []
  | [(n, v)] => stringText n ++ ':' :: ' ' :: v.chars
  | (n, v) :: rest => stringText n ++ ':' :: ' ' :: (v.chars ++ ',' :: ' ' :: fieldChars rest)

end

def Value.text (v : Value) : String :=
    String.ofList v.chars

/-- A piece of a text, unless it cannot be printed. -/
abbrev Piece := Option (List Char)

/-- Whether an integer has few enough digits to be printed. -/
def isShort (n : Int) : Bool :=
    n.natAbs < Nat.pow 10 Decimal.numeralLimit

/-- The text of a value that holds no others. -/
def Value.word : Value → Piece
  | .int n => if isShort n then some (intText n) else none
  | v => some v.chars

def Value.isCollection : Value → Bool
  | .arr _ | .obj _ => true
  | _ => false

mutual

/-- The pieces in which the text of a value is handed on. -/
def Value.pieces : Value → List Piece
  | .arr [] => [some ['[', ']']]
  | .arr items => itemPieces ['['] items ++ [some [']']]
  | .obj fields => some ['\x7b'] :: fieldPieces [] fields ++ [some ['\x7d']]
  | v => [v.word]

/-- The pieces of items after `lead`, which is one piece with an item that is a single word. -/
def itemPieces (lead : List Char) : List Value → List Piece
  | [] => []
  | v :: rest =>
      (if v.isCollection then some lead :: v.pieces else [v.word.map (lead ++ ·)]) ++ itemPieces [',', ' '] rest

def fieldPieces (lead : List Char) : List (String × Value) → List Piece
  | [] => []
  | (n, v) :: rest => some (lead ++ stringText n ++ [':', ' ']) :: v.pieces ++ fieldPieces [',', ' '] rest

end

/-- What has been handed on of a text, and whether that is all of it. -/
structure Printed where
  chars : List Char
  whole : Bool
  deriving DecidableEq, Repr

def handOn : List Piece → Printed
  | [] => ⟨[], true⟩
  | none :: _ => ⟨[], false⟩
  | some cs :: rest => ⟨cs ++ (handOn rest).chars, (handOn rest).whole⟩

def Value.print (v : Value) : Printed :=
    handOn v.pieces

end FileCensus.Json
