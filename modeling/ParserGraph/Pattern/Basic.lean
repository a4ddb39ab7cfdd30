import ParserGraph.Pattern.Footprint
import ParserGraph.Pattern.Meaning
import ParserGraph.Pattern.Reading
import ParserGraph.Pattern.Search
import ParserGraph.Pattern.Words

/-!
# Patterns — regular expressions by their text

A pattern keeps the text it was written as, what is known about the length of
its matches, and the program that finds them. What a text means as a regular
expression is up to a dialect. Grammars are read, compiled and run in any
dialect; the plain one is there to run them in.
-/

namespace ParserGraph

/-- A regular expression that can be matched at a place in a text. -/
structure Pattern where
  /-- The text of the pattern. -/
  source : String
  /-- The fewest characters a match takes, if known. -/
  minLength : Option Nat
  /-- The program that finds matches. -/
  program : Pattern.Program

namespace Pattern

/-- What the texts of regular expressions mean: the fewest characters a match takes, if that is
known, and the program that finds matches; or why a text means nothing. -/
abbrev Dialect := String → Except String (Option Nat × Program)

/-- A text that means nothing as a regular expression. -/
structure Error where
  /-- The text. -/
  source : String
  /-- Why it means nothing, in the words of the dialect. -/
  reason : String
deriving DecidableEq, Repr

/-- The text of the error. -/
def Error.message (e : Error) : String := "invalid pattern /" ++ e.source ++ "/: " ++ e.reason

/-- The pattern that a text writes in a dialect. -/
def read (dialect : Dialect) (source : String) : Except Error Pattern :=
  match dialect source with
  | .ok (minLength, program) => .ok ⟨source, minLength, program⟩
  | .error reason => .error ⟨source, reason⟩

/-- The pattern a text writes in the plain dialect, if it is one and is not too large. An
expression whose automaton is too large may still be a choice between a few words. Classes of
characters by a property that is named (`\p` and `\P`) are no part of the plain dialect. -/
def ofSource? (source : String) : Option Pattern := do
  let e ← Expression.ofText? source
  let (r, _) ← e.regex? .initial
  let matched ← if r.fits then some r else r.asWords?
  some ⟨source, r.minLength, matched.program⟩

/-- The plain dialect. It does not tell one reason from another. -/
def Dialect.plain : Dialect := fun source =>
  match ofSource? source with
  | some p => .ok (p.minLength, p.program)
  | none => .error "regex parse error"

/-- Whether the pattern is known to match the empty text somewhere. -/
def isNullable (p : Pattern) : Bool := p.minLength = some 0

/-- How many characters the pattern takes between what lies behind, nearest first, and ahead. -/
def match? (p : Pattern) (behind ahead : List Char) : Option Nat :=
  p.program.match? behind.head? ahead

end Pattern

end ParserGraph
