import ParserGraph.Grammar.Definition
import ParserGraph.Grammar.Error
import ParserGraph.Grammar.Language

/-!
# Reading grammars — from text to definitions

The tree of a grammar is turned into definitions from left to right, so of
several faults the first in the text is told. A part that the language always
yields is looked up by its tag; were it missing, that would be told as a
fault of the text. Regular expressions are read in the dialect that is asked
for.
-/

namespace ParserGraph.Grammar

/-- The highest number a bound may be. -/
def maxBound : Nat := 18446744073709551615

/-- The text between two delimiters. -/
def undelimited (text : String) : List Char := text.toList.tail.dropLast

/-- A text with its backslash escapes resolved; an unknown escape is the character itself. -/
def unescape : List Char → List Char
  | [] => []
  | ['\\'] => ['\\']
  | '\\' :: c :: text =>
    (match c with
      | 'n' => '\n'
      | 't' => '\t'
      | 'r' => '\r'
      | '0' => '\x00'
      | c => c) :: unescape text
  | c :: text => c :: unescape text

/-- A text with each escaped slash as a plain one. -/
def unescapeSlashes : List Char → List Char
  | [] => []
  | '\\' :: '/' :: text => '/' :: unescapeSlashes text
  | c :: text => c :: unescapeSlashes text

/-- The fault of a tree that lacks a part. -/
def missing (t : Tree) (what : String) : GrammarError :=
  .unreadable (.failing t.position ("malformed grammar: missing " ++ what) none)

/-- The first child with a tag, which has to be there. -/
def part (t : Tree) (tag : String) : Except GrammarError Tree :=
  match t.find? tag with
  | some child => .ok child
  | none => .error (missing t tag)

/-- A quoted text as an expression. -/
def Expr.ofText (text : List Char) : Expr :=
  match text with
  | [c] => .char c
  | text => .literal (String.ofList text)

/-- The value of decimal digits. -/
def decimal (digits : List Char) : Nat :=
  digits.foldl (fun n c => 10 * n + (c.toNat - '0'.toNat)) 0

/-- The bound a number stands for. -/
def bound (position : Position) (digits : String) : Except GrammarError Nat :=
  let n := decimal digits.toList
  if n ≤ maxBound then .ok n else .error (.invalidRepetition position (.tooLarge digits))

/-- An item between the bounds of a suffix. -/
def bounded (item : Expr) (position : Position) (bounds : List Nat) (openEnded : Bool) :
    Except GrammarError Expr :=
  match bounds, openEnded with
  | [n], false => .ok (.repetition item n (some n))
  | [n], true => .ok (.repetition item n none)
  | [min, max], true =>
    if max < min then .error (.invalidRepetition position (.inverted min max))
    else .ok (.repetition item min (some max))
  | _, _ => .error (.invalidRepetition position .malformed)

/-- An item with the suffix that follows it. -/
def suffixed (item : Expr) (suffix : Tree) : Except GrammarError Expr :=
  if suffix.isLeaf then
    .ok <| match suffix.contents with
      | "*" => .repetition item 0 none
      | "+" => .repetition item 1 none
      | "?" => .optional item
      | _ => .absent item
  else do
    let digits := suffix.children.filter (·.hasTag "digits")
    let bounds ← digits.mapM fun t => bound suffix.position t.contents
    bounded item suffix.position bounds (suffix.children.any (·.contents = ","))

/-- The regular expression of a delimited text. -/
def patternOf (dialect : Pattern.Dialect) (t : Tree) : Except GrammarError Expr :=
  match Pattern.read dialect (String.ofList (unescapeSlashes (undelimited t.contents))) with
  | .ok p => .ok (.pattern p)
  | .error e => .error (.invalidPattern t.position e)

/-- The rule that a reference names. -/
def referenceOf (t : Tree) : Except GrammarError Expr := do
  let ident ← if t.isLeaf then .ok t else part t "ident"
  .ok (.reference ident.contents ident.position)

mutual

/-- The expression of alternatives; a single one is itself. -/
def alternativesOf (dialect : Pattern.Dialect) : Tree → Except GrammarError Expr
  | ⟨_, _, _, children⟩ => do
    match ← sequencesOf dialect children with
    | [only] => .ok only
    | branches => .ok (.alternation branches)

/-- The expressions of the sequences among several trees. -/
def sequencesOf (dialect : Pattern.Dialect) : List Tree → Except GrammarError (List Expr)
  | [] => .ok []
  | t :: ts =>
    if t.hasTag "seq" then do
      let item ← sequenceOf dialect t
      let items ← sequencesOf dialect ts
      .ok (item :: items)
    else sequencesOf dialect ts

/-- The expression of a sequence; a single factor is itself. -/
def sequenceOf (dialect : Pattern.Dialect) : Tree → Except GrammarError Expr
  | ⟨_, _, _, children⟩ => do
    match ← factorsOf dialect children with
    | [only] => .ok only
    | factors => .ok (.sequence factors)

/-- The expressions of the factors among several trees. -/
def factorsOf (dialect : Pattern.Dialect) : List Tree → Except GrammarError (List Expr)
  | [] => .ok []
  | t :: ts =>
    if t.hasTag "factor" then do
      let item ← factorOf dialect t
      let items ← factorsOf dialect ts
      .ok (item :: items)
    else factorsOf dialect ts

/-- The expression of a factor: what it starts with, under its suffix if it has one. -/
def factorOf (dialect : Pattern.Dialect) : Tree → Except GrammarError Expr
  | ⟨tag, contents, position, []⟩ =>
    .error (missing ⟨tag, contents, position, []⟩ "operand")
  | ⟨_, _, _, base :: rest⟩ => do
    let item ← baseOf dialect base
    match (base :: rest).find? (·.hasTag "suffix") with
    | some suffix => suffixed item suffix
    | none => .ok item

/-- The expression that a factor starts with. -/
def baseOf (dialect : Pattern.Dialect) : Tree → Except GrammarError Expr
  | ⟨tag, contents, position, children⟩ =>
    let t : Tree := ⟨tag, contents, position, children⟩
    if t.hasTag "string" || t.hasTag "char" then
      .ok (.ofText (unescape (undelimited contents)))
    else if t.hasTag "regex" then patternOf dialect t
    else if t.hasTag "ref" then referenceOf t
    else if t.hasTag "group" then groupOf dialect t children
    else .error (missing t "operand")

/-- The expression of a group: its alternatives. -/
def groupOf (dialect : Pattern.Dialect) (group : Tree) : List Tree → Except GrammarError Expr
  | [] => .error (missing group "alt")
  | t :: ts => if t.hasTag "alt" then alternativesOf dialect t else groupOf dialect group ts

end

/-- The definition of a statement. -/
def Definition.ofTree (dialect : Pattern.Dialect) (t : Tree) : Except GrammarError Definition := do
  let ident ← part t "ident"
  let label := (t.find? "label").map fun label =>
    String.ofList (unescape (undelimited label.contents))
  let body ← alternativesOf dialect (← part t "alt")
  .ok ⟨ident.contents, label, body, ident.position⟩

/-- The definitions that a text states, in order. -/
def definitions (dialect : Pattern.Dialect) (text : String) :
    Except Misuse (Except GrammarError (List Definition)) := do
  match ← Language.parse text with
  | .error e => .ok (.error (.unreadable e))
  | .ok t => .ok ((t.children.filter (·.hasTag "stmt")).mapM (Definition.ofTree dialect))

end ParserGraph.Grammar
