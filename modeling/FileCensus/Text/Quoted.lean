import FileCensus.Text.Printable

/-!
Text in quotes, as it stands in messages. The quotes are single unless the text holds a single quote and no double one. The
backslash, the quote in use, line feed, carriage return and tab have short escapes; every other character that is not
printable is written by its code point in the narrowest of the forms of two, four and eight hexadecimal digits.
-/

namespace FileCensus.Text

def hexDigit (n : Nat) : Char :=
    if n < 10 then Char.ofNat (48 + n) else Char.ofNat (87 + n)

/-- The last `width` hexadecimal digits of `n`, in lower case. -/
def hexDigits : (width : Nat) → (n : Nat) → List Char
  | 0, _ => []
  | width + 1, n => hexDigits width (n / 16) ++ [hexDigit (n % 16)]

def codePointEscape (c : Char) : List Char :=
    let n := c.toNat
    if n < 0x100 then '\\' :: 'x' :: hexDigits 2 n
    else if n < 0x10000 then '\\' :: 'u' :: hexDigits 4 n
    else '\\' :: 'U' :: hexDigits 8 n

def quoteChar (quote c : Char) : List Char :=
    if c == quote || c == '\\' then ['\\', c]
    else if c == '\n' then ['\\', 'n']
    else if c == '\r' then ['\\', 'r']
    else if c == '\t' then ['\\', 't']
    else if isPrintable c then [c]
    else codePointEscape c

/-- The quote that a text is written in. -/
def quoteFor (cs : List Char) : Char :=
    if cs.contains '\x27' && !cs.contains '\x22' then '\x22' else '\x27'

def quoted (s : String) : String :=
    let cs := s.toList
    let quote := quoteFor cs
    String.ofList (quote :: cs.flatMap (quoteChar quote) ++ [quote])

end FileCensus.Text
