import FileCensus.Glob.Braces
import FileCensus.Glob.Line

/-!
Globs. A pattern is expanded into its alternatives, each of which is a line of an ignore file: the last line that a path
matches decides about it, and a path that matches none is not selected. One slash, or else one `./`, at the head of a path is
not looked at.
-/

namespace FileCensus

structure Glob where
  pattern : String
  rules : List Glob.Rule
  deriving DecidableEq, Repr

namespace Glob

def compileLines (pattern : String) : List (List Char) → Except GlobError (List Rule)
  | [] => .ok []
  | line :: rest => do
      let rule ← compileLine pattern line
      let more ← compileLines pattern rest
      .ok (rule.toList ++ more)

def compile (pattern : String) : Except GlobError Glob := do
    if Text.allBlank pattern then .error (.blank pattern)
    let alternatives ← expandBraces pattern
    let rules ← compileLines pattern (alternatives.map lineOf)
    .ok ⟨pattern, rules⟩

/-- The part of a path that patterns are held against. -/
def subject (cs : List Char) : List Char :=
    match cs with
    | '/' :: rest => rest
    | '.' :: '/' :: rest => rest
    | _ => cs

/-- What the last line that matches says. -/
def verdict (rules : List Rule) (s : List Char) : Option Bool :=
    (rules.reverse.find? (·.compiled.accepts s)).map (·.selects)

def accepts (g : Glob) (path : String) : Bool :=
    (verdict g.rules (subject path.toList)).getD false

end Glob

end FileCensus
