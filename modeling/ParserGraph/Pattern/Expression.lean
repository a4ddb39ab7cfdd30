import ParserGraph.Text.CharSet

/-!
# Pattern expressions — what a pattern says, as it is written

The tree of a pattern before its flags take effect: a flag group is a node of
its own, a class keeps its ranges and its set operations, and an assertion
does not know yet whether it looks at lines or at the whole text.
-/

namespace ParserGraph.Pattern

/-- A switch that a pattern can turn on or off for what follows. -/
inductive Flag where
  /-- Letters match whatever their case. -/
  | ignoreCase
  /-- The line assertions hold at every line. -/
  | multiLine
  /-- The dot also matches a newline. -/
  | dotAll
  /-- Repetitions are lazy, and greedy when marked. -/
  | swapGreed
  /-- Classes and word boundaries go by Unicode. -/
  | unicode
  /-- A carriage return ends a line too. -/
  | crlf
  /-- Blanks and comments in the pattern mean nothing. -/
  | ignoreSpace
deriving DecidableEq, Repr

/-- Switches with the state each one is put in. -/
abbrev FlagChange := List (Flag × Bool)

/-- A place in the text that an assertion asks for. -/
inductive Assertion where
  /-- The start of a line, or of the text. -/
  | lineStart
  /-- The end of a line, or of the text. -/
  | lineEnd
  /-- The start of the text. -/
  | textStart
  /-- The end of the text. -/
  | textEnd
  /-- Between a word character and another one or an end. -/
  | wordBoundary
  /-- Anywhere but at a word boundary. -/
  | notWordBoundary
  /-- Where a word starts. -/
  | wordStart
  /-- Where a word ends. -/
  | wordEnd
  /-- After no word character. -/
  | wordStartHalf
  /-- Before no word character. -/
  | wordEndHalf
deriving DecidableEq, Repr

/-- A character of a pattern; `byte` marks the two-digit form `\xNN`. -/
structure Literal where
  /-- The character. -/
  char : Char
  /-- Whether it was given by two hexadecimal digits. -/
  byte : Bool
deriving DecidableEq, Repr

/-- The classes with a one-letter escape. -/
inductive Shorthand where
  /-- Decimal digits. -/
  | digit
  /-- White space. -/
  | space
  /-- Word characters. -/
  | word
deriving DecidableEq, Repr

/-- An operation on two classes. -/
inductive SetOp where
  /-- The characters in both. -/
  | intersection
  /-- The characters in the first only. -/
  | difference
  /-- The characters in exactly one. -/
  | symmetricDifference
deriving DecidableEq, Repr

mutual

/-- One item between the brackets of a class. -/
inductive ClassItem where
  /-- A character. -/
  | literal (c : Literal)
  /-- All characters from one to another. -/
  | range (low high : Literal)
  /-- A named ASCII class or all but it. -/
  | named (ranges : List (Nat × Nat)) (negated : Bool)
  /-- A one-letter class or all but it. -/
  | shorthand (kind : Shorthand) (negated : Bool)
  /-- A class in a class. -/
  | nested (negated : Bool) (body : ClassBody)

/-- What stands between the brackets of a class. -/
inductive ClassBody where
  /-- Items side by side. -/
  | items (items : List ClassItem)
  /-- Two bodies with an operation between them. -/
  | binary (op : SetOp) (left right : ClassBody)

end

/-- How a group was opened. -/
inductive GroupKind where
  /-- A group that is counted or named. -/
  | capture
  /-- A group that only groups, with the switches it sets inside. -/
  | plain (flags : FlagChange)
deriving DecidableEq, Repr

/-- The tree of a pattern as it is written. -/
inductive Expression where
  /-- Nothing at all. -/
  | empty
  /-- Switches for the rest of the group. -/
  | flags (change : FlagChange)
  /-- A character. -/
  | literal (c : Literal)
  /-- Any character but a line end. -/
  | dot
  /-- A place in the text. -/
  | assertion (a : Assertion)
  /-- A one-letter class or all but it. -/
  | shorthand (kind : Shorthand) (negated : Bool)
  /-- A bracketed class or all but it. -/
  | bracketed (negated : Bool) (body : ClassBody)
  /-- An item several times. -/
  | repeated (item : Expression) (min : Nat) (max : Option Nat) (greedy : Bool)
  /-- A group. -/
  | group (kind : GroupKind) (item : Expression)
  /-- Items one after another. -/
  | concat (items : List Expression)
  /-- Items of which the first that leads to a match counts. -/
  | alternation (items : List Expression)

/-! ## How deep an expression nests -/

mutual

/-- How deep an item of a class nests. -/
def ClassItem.depth : ClassItem → Nat
  | .nested _ body => body.depth + 1
  | _ => 0

/-- How deep the deepest of several items nests. -/
def ClassItem.depthAll : List ClassItem → Nat
  | [] => 0
  | item :: items => max item.depth (ClassItem.depthAll items)

/-- How deep a class nests; several items side by side are one level. -/
def ClassBody.depth : ClassBody → Nat
  | .items items =>
    if items.length < 2 then ClassItem.depthAll items else ClassItem.depthAll items + 1
  | .binary _ left right => max left.depth right.depth + 1

end

mutual

/-- How deep an expression nests. -/
def Expression.depth : Expression → Nat
  | .bracketed _ body => body.depth + 1
  | .repeated item _ _ _ => item.depth + 1
  | .group _ item => item.depth + 1
  | .concat items => Expression.depthAll items + 1
  | .alternation items => Expression.depthAll items + 1
  | _ => 0

/-- How deep the deepest of several expressions nests. -/
def Expression.depthAll : List Expression → Nat
  | [] => 0
  | item :: items => max item.depth (Expression.depthAll items)

end

end ParserGraph.Pattern
