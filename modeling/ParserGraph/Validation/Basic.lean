import ParserGraph.Validation.Leading
import ParserGraph.Validation.Owners

/-!
# Validation — graphs that can be run without surprise

A graph is valid from given roots when every placeholder has a body, nothing
that can match the empty text is repeated without bound, and no parser can
call itself before it has taken anything. The three conditions are checked in
this order over what the roots lead to.
-/

namespace ParserGraph

/-- What is wrong with a graph. -/
inductive ValidationError where
  /-- A placeholder has no body. -/
  | undefinedRule (name : String)
  /-- Something nullable is repeated without bound, in or below the named parser. -/
  | nullableRepetition (context : String)
  /-- The named parser can call itself before taking anything. -/
  | leftRecursion (context : String)
deriving DecidableEq, Repr

/-- The text of what is wrong. -/
def ValidationError.message : ValidationError → String
  | undefinedRule name => "rule <" ++ name ++ "> is referenced but never defined"
  | nullableRepetition context =>
    "unbounded repetition in <" ++ context ++ "> can match without consuming input"
  | leftRecursion context => "rule <" ++ context ++ "> is left-recursive"

/-- Whether a kind repeats something nullable without bound. -/
def Kind.repeatsNullable (nullable : ParserId → Bool) : Kind → Bool
  | .repetition part _ none => nullable part
  | _ => false

namespace Graph

/-- Checks what the roots lead to; placeholders in `pending` may still lack a body. -/
def validateExcept (g : Graph) (pending roots : List ParserId) : Except ValidationError Unit :=
  let ids := g.reachable roots
  match ids.find? fun id => g.isUndefinedRule id && !pending.contains id with
  | some id => .error (.undefinedRule ((g.name? id).getD ""))
  | none =>
    let owners := g.ownersAmong ids
    let nullable := g.nullableAmong ids
    match ids.find? fun id => (g.kind? id).any (Kind.repeatsNullable nullable.contains) with
    | some id => .error (.nullableRepetition (g.context owners id))
    | none =>
      match g.searchCycles ids nullable [] ids with
      | .error id => .error (.leftRecursion (g.context owners id))
      | .ok _ => .ok ()

/-- Checks what the roots lead to. -/
def validate (g : Graph) (roots : List ParserId) : Except ValidationError Unit :=
  g.validateExcept [] roots

end Graph

end ParserGraph
