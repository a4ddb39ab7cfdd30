import ParserGraph.Pattern.Basic
import ParserGraph.Position

/-!
# Definitions — what a grammar says

A grammar is a list of definitions, each with a name, a body and perhaps a
label that its failures are told as. Bodies refer to rules by name and keep
where they do.
-/

namespace ParserGraph.Grammar

/-- The right-hand side of a definition. -/
inductive Expr where
  /-- One character. -/
  | char (c : Char)
  /-- A text that is not one character long. -/
  | literal (text : String)
  /-- A regular expression. -/
  | pattern (p : Pattern)
  /-- A rule by its name, with the place of the reference. -/
  | reference (name : String) (position : Position)
  /-- Items one after another. -/
  | sequence (items : List Expr)
  /-- The first item that matches. -/
  | alternation (items : List Expr)
  /-- An item as often as it matches, between two bounds. -/
  | repetition (item : Expr) (min : Nat) (max : Option Nat)
  /-- An item or nothing. -/
  | optional (item : Expr)
  /-- Nothing, where an item does not match. -/
  | absent (item : Expr)

mutual

/-- The references of a body with their places, in the order of the text. -/
def Expr.references : Expr → List (String × Position)
  | .char _ => []
  | .literal _ => []
  | .pattern _ => []
  | .reference name position => [(name, position)]
  | .sequence items => Expr.referencesAll items
  | .alternation items => Expr.referencesAll items
  | .repetition item _ _ => item.references
  | .optional item => item.references
  | .absent item => item.references

/-- The references of several bodies in order. -/
def Expr.referencesAll : List Expr → List (String × Position)
  | [] => []
  | item :: items => item.references ++ Expr.referencesAll items

end

/-- One statement of a grammar. -/
structure Definition where
  /-- The name of the rule. -/
  name : String
  /-- What its failures are told as. -/
  label : Option String
  /-- What it matches. -/
  body : Expr
  /-- Where its name stands. -/
  position : Position

end ParserGraph.Grammar
