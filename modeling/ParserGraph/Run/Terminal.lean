import ParserGraph.Graph.Node
import ParserGraph.ParseError
import ParserGraph.Run.Cursor

/-!
# Terminals — what they take and what they say when they fail

A terminal looks at the place it is tried at and takes a number of
characters, or none of any number when it does not match. What it takes is
its leaf; taking nothing leaves the empty node.
-/

namespace ParserGraph

/-- One character if the next one is accepted. -/
def Cursor.one (cursor : Cursor) (accepts : Char → Bool) : Option Nat :=
  if cursor.peek.any accepts then some 1 else none

namespace Terminal

/-- How many characters a terminal takes at a cursor, if it matches there. -/
def span (t : Terminal) (cursor : Cursor) : Option Nat :=
  match t with
  | any => cursor.one fun _ => true
  | char c => cursor.one (· == c)
  | range low high => cursor.one fun c => low ≤ c && c ≤ high
  | oneOf set => cursor.one set.toList.contains
  | noneOf set => cursor.one (!set.toList.contains ·)
  | literal text =>
    if text.toList.isPrefixOf cursor.ahead then some text.toList.length else none
  | satisfy _ accepts => cursor.one accepts
  | pattern p => p.match? cursor.behind cursor.ahead
  | startOfInput => if cursor.behind.isEmpty then some 0 else none
  | endOfInput => if cursor.ahead.isEmpty then some 0 else none
  | pass => some 0
  | fail _ => none

/-- The failure of a terminal at a cursor. -/
def failureAt (t : Terminal) (cursor : Cursor) : ParseError :=
  match t with
  | fail message => .failing cursor.position message cursor.peek
  | t => .expecting cursor.position (t.expectation?.getD "") cursor.peek

end Terminal

end ParserGraph
