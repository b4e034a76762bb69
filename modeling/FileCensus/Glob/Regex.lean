import FileCensus.Glob.Bracket

/-!
The expressions that globs are turned into, and how they are matched. `column r s below` holds one answer for every suffix
of `s`, the whole text first and the empty suffix last: whether `r` can match a piece at the head of that suffix and leave
a suffix that `below` accepts. Every answer is computed once, so matching takes time in proportion to the text and the
expression.
-/

namespace FileCensus.Glob

/-- What one character can be. -/
inductive CharTest where
  | exactly (c : Char)
  | notSlash
  | notNewline
  | within (set : CharSet)
  deriving DecidableEq, Repr

def CharTest.holds : CharTest → Char → Bool
  | .exactly a, c => c == a
  | .notSlash, c => c != '/'
  | .notNewline, c => c != '\n'
  | .within s, c => s.holds c

inductive Regex where
  | empty
  | one (t : CharTest)
  /-- Any number of characters that pass the test. -/
  | many (t : CharTest)
  /-- The end of the text, or the place before a final line feed. -/
  | edge
  | seq (a b : Regex)
  | either (a b : Regex)
  deriving DecidableEq, Repr

namespace Regex

def optional (r : Regex) : Regex :=
    .either r .empty

def concat (rs : List Regex) : Regex :=
    rs.foldr .seq .empty

def atEdge (s : List Char) : Bool :=
    s.isEmpty || s == ['\n']

/-- Answers for one character that passes a test. -/
def shift (t : CharTest) : List Char → List Bool → List Bool
  | c :: s, _ :: below => (t.holds c && below.headD false) :: shift t s below
  | _, _ => [false]

/-- Answers for a run of characters that pass a test. -/
def runs (t : CharTest) : List Char → List Bool → List Bool
  | c :: s, b :: below =>
      let after := runs t s below
      (b || (t.holds c && after.headD false)) :: after
  | _, below => [below.headD false]

def edges : List Char → List Bool → List Bool
  | c :: s, b :: below => (b && atEdge (c :: s)) :: edges s below
  | _, below => [below.headD false]

def column : Regex → List Char → List Bool → List Bool
  | .empty, _, below => below
  | .one t, s, below => shift t s below
  | .many t, s, below => runs t s below
  | .edge, s, below => edges s below
  | .seq a b, s, below => column a s (column b s below)
  | .either a b, s, below => List.zipWith (· || ·) (column a s below) (column b s below)

/-- The answers that accept every suffix. -/
def anything (s : List Char) : List Bool :=
    List.replicate (s.length + 1) true

/-- Whether the expression matches a piece at the head of the text. -/
def matchesHead (r : Regex) (s : List Char) : Bool :=
    (r.column s (anything s)).headD false

/-- Whether the expression matches a piece anywhere in the text. -/
def occursIn (r : Regex) (s : List Char) : Bool :=
    (r.column s (anything s)).any id

def charTests : Regex → List CharTest
  | .one t | .many t => [t]
  | .seq a b | .either a b => a.charTests ++ b.charTests
  | .empty | .edge => []

end Regex

end FileCensus.Glob
