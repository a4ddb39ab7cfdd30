import ParserGraph.ItemSet
import ParserGraph.Position
import ParserGraph.Text.Json
import ParserGraph.Text.Quoted

/-!
# Parse errors — what was expected where

A match that fails says where, what would have been accepted there and what
stands there instead. Of two failures the one further into the text counts;
at one place they pool what they expected.
-/

namespace ParserGraph

/-- Why a match failed. -/
structure ParseError where
  /-- Where it failed. -/
  position : Position
  /-- What would have been accepted. -/
  expected : ItemSet
  /-- The character that stands there, none at the end of the text. -/
  found : Option Char
  /-- An explicit message in place of expected items. -/
  failure : Option String
deriving DecidableEq, Inhabited

namespace ParseError

/-- The failure at `position` that expected `item`. -/
def expecting (position : Position) (item : String) (found : Option Char) : ParseError :=
  ⟨position, .singleton item, found, none⟩

/-- The failure at `position` that expected nothing in particular. -/
def unexpected (position : Position) (found : Option Char) : ParseError :=
  ⟨position, .empty, found, none⟩

/-- The failure at `position` with a message of its own. -/
def failing (position : Position) (message : String) (found : Option Char) : ParseError :=
  ⟨position, .empty, found, some message⟩

/-- The further of two errors; at one offset, the first with the items of both and the first
failure message of either. -/
def merge (e f : ParseError) : ParseError :=
  if f.position.offset < e.position.offset then e
  else if e.position.offset < f.position.offset then f
  else { e with expected := e.expected.union f.expected, failure := e.failure.or f.failure }

/-- What stands at the place of the error, in words. -/
def foundText (e : ParseError) : String :=
  match e.found with
  | some c => "'" ++ Quoted.ofChar c ++ "'"
  | none => "end of input"

/-- Items in words, the last one set off by “or”. -/
def choiceText : List String → String
  | [] => ""
  | [only] => only
  | [first, last] => first ++ " or " ++ last
  | first :: rest => first ++ ", " ++ choiceText rest

/-- What went wrong, without the place. -/
def summary (e : ParseError) : String :=
  match e.failure, e.expected.items with
  | some message, _ => message
  | none, [] => "unexpected " ++ e.foundText
  | none, items => "expected " ++ choiceText items ++ " at " ++ e.foundText

/-- The error as one line of text. -/
def message (e : ParseError) : String :=
  e.position.text ++ ": error: " ++ e.summary

/-- The error as JSON text. -/
def json (e : ParseError) : String :=
  Json.text <| .object [
    ("offset", .number e.position.offset),
    ("line", .number e.position.line),
    ("column", .number e.position.column),
    ("expected", .array (e.expected.items.map .string)),
    ("found", match e.found with
      | some c => .string (String.singleton c)
      | none => .null),
    ("message", .string e.message)]

end ParseError

end ParserGraph
