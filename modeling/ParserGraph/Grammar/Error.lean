import ParserGraph.Graph.Basic
import ParserGraph.ParseError
import ParserGraph.Pattern.Basic
import ParserGraph.Validation.Basic

/-!
# Grammar errors — why a grammar is rejected

A grammar is rejected for its text, for the names it uses, for the parsers it
is bound to, or for the graph it would become.
-/

namespace ParserGraph

/-- What is wrong with the bounds of a repetition. -/
inductive BoundsError where
  /-- A bound is no machine word. -/
  | tooLarge (digits : String)
  /-- The upper bound is below the lower one. -/
  | inverted (min max : Nat)
  /-- The bounds are neither one nor two numbers. -/
  | malformed
deriving DecidableEq, Repr

/-- The text of what is wrong with bounds. -/
def BoundsError.message : BoundsError → String
  | tooLarge digits => "bad count " ++ digits ++ ": number too large to fit in target type"
  | inverted min max =>
    "bounds \x7b" ++ toString min ++ "," ++ toString max ++ "\x7d are inverted"
  | malformed => "malformed bounds"

/-- Why a grammar is rejected. -/
inductive GrammarError where
  /-- The text is no grammar. -/
  | unreadable (error : ParseError)
  /-- A rule is referred to and neither defined nor bound. -/
  | undefinedRule (name : String) (position : Position)
  /-- A rule is defined twice, or defined although it is bound to a finished parser. -/
  | duplicateRule (name : String) (position : Position)
  /-- Two bound parsers have one name. -/
  | duplicateBinding (name : String)
  /-- A bound parser has no name. -/
  | unnamedBinding (id : ParserId)
  /-- A regular expression is none. -/
  | invalidPattern (position : Position) (error : Pattern.Error)
  /-- The bounds of a repetition make no sense. -/
  | invalidRepetition (position : Position) (error : BoundsError)
  /-- The graph it becomes is not valid. -/
  | invalid (error : ValidationError)
  /-- A parser it is bound to cannot be used. -/
  | refused (error : GraphError)

/-- The text of a rejection. -/
def GrammarError.message : GrammarError → String
  | unreadable error => "invalid grammar: " ++ error.message
  | undefinedRule name position => position.text ++ ": undefined rule <" ++ name ++ ">"
  | duplicateRule name position => position.text ++ ": duplicate rule <" ++ name ++ ">"
  | duplicateBinding name => "more than one binding is called <" ++ name ++ ">"
  | unnamedBinding id => "bound parser " ++ id.text ++ " has no name"
  | invalidPattern position error => position.text ++ ": " ++ error.message
  | invalidRepetition position error =>
    position.text ++ ": invalid repetition: " ++ error.message
  | invalid error => error.message
  | refused error => error.message

end ParserGraph
