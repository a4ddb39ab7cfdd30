import ParserGraph.Graph.Basic
import ParserGraph.Text.Property.Alphabetic
import ParserGraph.Text.Property.WhiteSpace
import ParserGraph.Tree.Shape

/-!
# Building — one constructor for each parser

A constructor adds a node and yields its id. It is a misuse to build on an id
that names no node; the nodes added before are kept then.
-/

namespace ParserGraph

/-- A step that changes a graph, or is refused as a misuse and leaves what it did so far. -/
abbrev Build := EStateM Misuse Graph

namespace Build

/-- Adds a node of a kind whose operands must all live; the first one that does not is told. -/
def insert (kind : Kind) : Build ParserId := fun g =>
  match kind.operands.find? (!g.contains ·) with
  | some stale => .error (.usedAfterCleanup stale) g
  | none =>
    let (id, g) := g.place ⟨none, kind⟩
    .ok id g

/-- Names a node, which must live. -/
def named (id : ParserId) (name : String) : Build ParserId := fun g =>
  match g.node? id with
  | some node => .ok id (g.replace id { node with name := some name })
  | none => .error (.released id) g

/-! ## Terminals -/

/-- Matches any one character. -/
def any : Build ParserId := insert (.terminal .any)

/-- Matches exactly `c`. -/
def char (c : Char) : Build ParserId := insert (.terminal (.char c))

/-- Matches a character from `low` to `high`. -/
def range (low high : Char) : Build ParserId := insert (.terminal (.range low high))

/-- Matches a character that occurs in `set`. -/
def oneOf (set : String) : Build ParserId := insert (.terminal (.oneOf set))

/-- Matches a character that does not occur in `set`. -/
def noneOf (set : String) : Build ParserId := insert (.terminal (.noneOf set))

/-- Matches exactly `text`. -/
def literal (text : String) : Build ParserId := insert (.terminal (.literal text))

/-- Matches a character that `accepts` accepts; `description` is what it expects. -/
def satisfy (description : String) (accepts : Char → Bool) : Build ParserId :=
  insert (.terminal (.satisfy description accepts))

/-- Matches a regular expression at the place where it is tried. -/
def pattern (p : Pattern) : Build ParserId := insert (.terminal (.pattern p))

/-- Matches nothing at the start of the input. -/
def startOfInput : Build ParserId := insert (.terminal .startOfInput)

/-- Matches nothing at the end of the input. -/
def endOfInput : Build ParserId := insert (.terminal .endOfInput)

/-- Matches nothing anywhere. -/
def pass : Build ParserId := insert (.terminal .pass)

/-- Never matches and says why. -/
def fail (message : String) : Build ParserId := insert (.terminal (.fail message))

/-- Matches one white space character. -/
def whitespace : Build ParserId := satisfy "whitespace" CharSet.whiteSpace.contains

/-- Matches one ASCII digit. -/
def digit : Build ParserId := satisfy "digit" Char.isDigit

/-- Matches one letter. -/
def alpha : Build ParserId := satisfy "letter" CharSet.alphabetic.contains

/-! ## Combinations -/

/-- All of `parts` one after another. -/
def sequence (parts : List ParserId) : Build ParserId := insert (.sequence parts)

/-- The first of `branches` that matches. -/
def alternation (branches : List ParserId) : Build ParserId := insert (.alternation branches)

/-- `part` as often as it matches, between two bounds, which must be in order. -/
def repetition (part : ParserId) (min : Nat) (max : Option Nat) : Build ParserId :=
  match max with
  | some high =>
    if high < min then throw (.invertedBounds min high)
    else insert (.repetition part min max)
  | none => insert (.repetition part min max)

/-- `part` any number of times. -/
def many (part : ParserId) : Build ParserId := repetition part 0 none

/-- `part` at least once. -/
def many1 (part : ParserId) : Build ParserId := repetition part 1 none

/-- `part` exactly `n` times. -/
def count (part : ParserId) (n : Nat) : Build ParserId := repetition part n (some n)

/-- `part` or nothing. -/
def optional (part : ParserId) : Build ParserId := insert (.optional part)

/-- Nothing, where `part` matches. -/
def lookahead (part : ParserId) : Build ParserId := insert (.lookahead part false)

/-- Nothing, where `part` does not match. -/
def not (part : ParserId) : Build ParserId := insert (.lookahead part true)

/-- `part` with its tree reshaped by `mapping`. -/
def transform (part : ParserId) (mapping : Tree → Tree) : Build ParserId :=
  insert (.transform part mapping)

/-- `part` with the text it took as a single leaf. -/
def token (part : ParserId) : Build ParserId := insert (.token part)

/-- `part` with its failures told as `label`. -/
def expect (part : ParserId) (label : String) : Build ParserId := insert (.expect part label)

/-- A placeholder called `name`, to be defined later. -/
def rule (name : String) : Build ParserId := do
  let id ← insert (.rule none)
  named id name

/-- `part` with the empty tree in place of its own. -/
def skip (part : ParserId) : Build ParserId := transform part Tree.skip

/-- `part` and any white space after it, with the tree of `part`. -/
def lexeme (part : ParserId) : Build ParserId := do
  let space ← whitespace
  let spaces ← many space
  let both ← sequence [part, spaces]
  transform both Tree.first

end Build

end ParserGraph
