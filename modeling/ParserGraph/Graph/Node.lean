import ParserGraph.Pattern.Basic
import ParserGraph.Text.Quoted
import ParserGraph.Tree.Basic

/-!
# Nodes — what a parser of a graph does

A parser is a node of a graph and refers to other parsers by their ids. A
terminal matches text on its own; every other kind combines the parsers it
refers to, its operands. An id names a place in the graph and the generation
of the node that lives there, so an id outlived by its node names nothing.
-/

namespace ParserGraph

/-- A handle to a node: a place in the graph and a generation. -/
structure ParserId where
  /-- The place. -/
  index : Nat
  /-- How many nodes lived there before, modulo the word size. -/
  generation : UInt32
deriving DecidableEq, Repr, Inhabited

/-- The text of an id, which leaves the generation out. -/
def ParserId.text (id : ParserId) : String := "#" ++ toString id.index

/-- A parser without operands. -/
inductive Terminal where
  /-- Any one character. -/
  | any
  /-- Exactly this character. -/
  | char (c : Char)
  /-- A character from `low` to `high`. -/
  | range (low high : Char)
  /-- A character that occurs in the text. -/
  | oneOf (set : String)
  /-- A character that does not occur in the text. -/
  | noneOf (set : String)
  /-- Exactly this text. -/
  | literal (text : String)
  /-- A character that a predicate accepts. -/
  | satisfy (description : String) (accepts : Char → Bool)
  /-- A regular expression. -/
  | pattern (pattern : Pattern)
  /-- Nothing, at the start of the input. -/
  | startOfInput
  /-- Nothing, at the end of the input. -/
  | endOfInput
  /-- Nothing, anywhere. -/
  | pass
  /-- No text at all; the message says why. -/
  | fail (message : String)

/-- What a parser does, with the parsers it refers to. -/
inductive Kind where
  /-- Matches text on its own. -/
  | terminal (terminal : Terminal)
  /-- All operands one after another. -/
  | sequence (parts : List ParserId)
  /-- The first operand that matches. -/
  | alternation (branches : List ParserId)
  /-- The operand as often as it matches, between two bounds; no upper bound is `none`. -/
  | repetition (part : ParserId) (min : Nat) (max : Option Nat)
  /-- The operand or nothing. -/
  | optional (part : ParserId)
  /-- Nothing, where the operand matches, or where it does not if negated. -/
  | lookahead (part : ParserId) (negated : Bool)
  /-- The operand with its tree reshaped. -/
  | transform (part : ParserId) (mapping : Tree → Tree)
  /-- The operand with the text it took as a single leaf. -/
  | token (part : ParserId)
  /-- The operand with its failures told as `label`. -/
  | expect (part : ParserId) (label : String)
  /-- A placeholder, which stands for its body once it has one. -/
  | rule (body : Option ParserId)

/-- A parser: what it does and what it is called. -/
structure Node where
  /-- The name, which tags what the parser yields. -/
  name : Option String
  /-- What the parser does. -/
  kind : Kind

namespace Terminal

/-- The name of what a terminal does. -/
def kindName : Terminal → String
  | any => "any"
  | char _ => "char"
  | range _ _ => "range"
  | oneOf _ => "one_of"
  | noneOf _ => "none_of"
  | literal _ => "literal"
  | satisfy _ _ => "satisfy"
  | pattern _ => "pattern"
  | startOfInput => "start_of_input"
  | endOfInput => "end_of_input"
  | pass => "pass"
  | fail _ => "fail"

/-- What a terminal expects, in words; a terminal that always or never matches expects nothing. -/
def expectation? : Terminal → Option String
  | any => some "any character"
  | char c => some ("'" ++ Quoted.ofChar c ++ "'")
  | range low high =>
    some ("character between '" ++ Quoted.ofChar low ++ "' and '" ++ Quoted.ofChar high ++ "'")
  | oneOf set => some ("one of \"" ++ Quoted.ofString set ++ "\"")
  | noneOf set => some ("none of \"" ++ Quoted.ofString set ++ "\"")
  | literal text => some ("\"" ++ Quoted.ofString text ++ "\"")
  | satisfy description _ => some description
  | pattern p => some ("/" ++ p.source ++ "/")
  | startOfInput => some "start of input"
  | endOfInput => some "end of input"
  | pass => none
  | fail _ => none

end Terminal

namespace Kind

/-- The parsers a kind refers to, in order. -/
def operands : Kind → List ParserId
  | terminal _ => []
  | sequence parts => parts
  | alternation branches => branches
  | repetition part _ _ => [part]
  | optional part => [part]
  | lookahead part _ => [part]
  | transform part _ => [part]
  | token part => [part]
  | expect part _ => [part]
  | rule body => body.toList

/-- The name of a kind. -/
def kindName : Kind → String
  | terminal t => t.kindName
  | sequence _ => "sequence"
  | alternation _ => "alternation"
  | repetition _ _ _ => "repetition"
  | optional _ => "optional"
  | lookahead _ _ => "lookahead"
  | transform _ _ => "transform"
  | token _ => "token"
  | expect _ _ => "expect"
  | rule _ => "rule"

/-- Whether the kind matches text on its own. -/
def isTerminal : Kind → Bool
  | terminal _ => true
  | _ => false

/-- What a terminal expects, in words. -/
def expectation? : Kind → Option String
  | terminal t => t.expectation?
  | _ => none

end Kind

/-- A node in words: a rule in angles, any other node by its name, or else what it expects. -/
def Node.describe (n : Node) : String :=
  match n.kind, n.name with
  | .rule _, some name => "<" ++ name ++ ">"
  | _, some name => name
  | kind, none => kind.expectation?.getD kind.kindName

end ParserGraph
