import ParserGraph.Text.Property.Alphabetic
import ParserGraph.Text.Property.Numeric

/-!
# Arguments — what the command is asked to do

The command takes one grammar file and a few options, in any order. A setting
takes its value after an equals sign or from the next argument, whatever that
looks like; given twice, the last one counts. A switch is turned on however
it is written, also with a value. The grammar file stands by itself or is
given like a setting. Long names may be written in any of the usual ways to
join words.
-/

namespace ParserGraph

/-- What the command is asked to do. -/
structure Arguments where
  /-- The file that holds the grammar. -/
  grammar : String
  /-- The rule to match the input with. -/
  rule : String
  /-- The file that holds the input; standard input if there is none. -/
  input : Option String
  /-- Whether to write JSON. -/
  json : Bool
  /-- Whether white space in the input counts. -/
  sensitive : Bool
  /-- The limit on nested parsers, if it is not the usual one. -/
  maxDepth : Option Nat
deriving DecidableEq, Repr

/-! ## Names in lower case with underscores -/

/-- How the letters just before a place in a name are cased. -/
inductive LetterCase where
  /-- No letter since the word began. -/
  | unknown
  /-- Lower case. -/
  | lower
  /-- Upper case. -/
  | upper
deriving DecidableEq

/-- Splits letters and digits where a word ends inside them; `word` is the word so far, the last
character in front. A word ends before an upper-case letter after a lower-case one, and before
the last of several upper-case letters when a lower-case one follows. -/
def splitCase (before : LetterCase) (word : List Char) : List Char → List (List Char)
  | [] => if word.isEmpty then [] else [word.reverse]
  | [c] => [(c :: word).reverse]
  | c :: d :: rest =>
    let after := if c.isLower then .lower else if c.isUpper then .upper else before
    if after = .lower && d.isUpper then
      (c :: word).reverse :: splitCase .unknown [] (d :: rest)
    else if before = .upper && c.isUpper && d.isLower then
      word.reverse :: splitCase .unknown [c] (d :: rest)
    else splitCase after (c :: word) (d :: rest)

/-- Whether a character belongs to a word of a name: letters and numbers of any script do. -/
def isNamePart (c : Char) : Bool := CharSet.alphabetic.contains c || CharSet.numeric.contains c

/-- Splits a text at every character that is neither letter nor number. -/
def splitJoints (word : List Char) : List Char → List (List Char)
  | [] => [word.reverse]
  | c :: rest =>
    if isNamePart c then splitJoints (c :: word) rest
    else word.reverse :: splitJoints [] rest

/-- A name with its words in lower case, joined with underscores. -/
def snakeCase (name : String) : String :=
  let words := (splitJoints [] name.toList).flatMap (splitCase .unknown [])
  "_".intercalate (words.map fun word => String.ofList (word.map Char.toLower))

/-! ## Values -/

/-- The highest number an option may be given. -/
def maxNumber : Nat := 18446744073709551615

/-- The number a text writes in decimal, a plus sign in front being allowed. -/
def number? (text : String) : Option Nat :=
  let digits := match text.toList with
    | '+' :: rest => rest
    | cs => cs
  let n := digits.foldl (fun n c => 10 * n + (c.toNat - '0'.toNat)) 0
  if !digits.isEmpty && digits.all Char.isDigit && n ≤ maxNumber then some n else none

/-! ## Options -/

/-- An option that is on or off. -/
inductive Switch where
  /-- JSON output. -/
  | json
  /-- White space that counts. -/
  | sensitive
deriving DecidableEq, Repr

/-- An option with a value. -/
inductive Setting where
  /-- The grammar file. -/
  | grammar
  /-- The rule to match with. -/
  | rule
  /-- The input file. -/
  | input
  /-- The limit on nested parsers. -/
  | maxDepth
deriving DecidableEq, Repr

/-- An option of the command. -/
inductive Choice where
  /-- A switch to turn on. -/
  | turnOn (switch : Switch)
  /-- A setting to give a value. -/
  | give (setting : Setting)
deriving DecidableEq, Repr

namespace Choice

/-- The option with a long name. -/
def long? (name : String) : Option Choice :=
  match snakeCase name with
  | "grammar" => some (give .grammar)
  | "rule" => some (give .rule)
  | "input" => some (give .input)
  | "json" => some (turnOn .json)
  | "whitespace_sensitive" => some (turnOn .sensitive)
  | "max_depth" => some (give .maxDepth)
  | _ => none

/-- The option with a one-letter name. -/
def short? (name : String) : Option Choice :=
  match name with
  | "r" => some (give .rule)
  | "i" => some (give .input)
  | _ => none

end Choice

/-- The arguments read so far. -/
structure GivenArguments where
  /-- The grammar file. -/
  grammar : Option String
  /-- The rule. -/
  rule : Option String
  /-- The input file. -/
  input : Option String
  /-- JSON output. -/
  json : Bool
  /-- White space that counts. -/
  sensitive : Bool
  /-- The limit on nested parsers. -/
  maxDepth : Option Nat

namespace GivenArguments

/-- Nothing read yet. -/
def nothing : GivenArguments := ⟨none, none, none, false, false, none⟩

/-- With a grammar file that stands by itself, which must be the only one. -/
def position? (g : GivenArguments) (file : String) : Option GivenArguments :=
  if g.grammar.isSome then none else some { g with grammar := some file }

/-- With a value for a setting, if it makes sense. -/
def give? (g : GivenArguments) (setting : Setting) (value : String) : Option GivenArguments :=
  match setting with
  | .grammar => some { g with grammar := some value }
  | .rule => some { g with rule := some value }
  | .input => some { g with input := some value }
  | .maxDepth => (number? value).map fun n => { g with maxDepth := some n }

/-- With a switch turned on. -/
def turnOn (g : GivenArguments) (switch : Switch) : GivenArguments :=
  match switch with
  | .json => { g with json := true }
  | .sensitive => { g with sensitive := true }

/-- The whole request, once nothing is missing. -/
def complete? (g : GivenArguments) : Option Arguments := do
  let grammar ← g.grammar
  let rule ← g.rule
  some ⟨grammar, rule, g.input, g.json, g.sensitive, g.maxDepth⟩

end GivenArguments

/-- What one argument looks like by itself. -/
inductive Shape where
  /-- Two hyphens: no options from here on. -/
  | noMoreOptions
  /-- An option by its name, perhaps with a value after an equals sign. -/
  | choice (choice : Option Choice) (value : Option String)
  /-- A value that belongs to no option. -/
  | plain

/-- A text split at its first equals sign. -/
def splitEquals (cs : List Char) : String × Option String :=
  match cs.span (· != '=') with
  | (name, _ :: value) => (String.ofList name, some (String.ofList value))
  | (name, []) => (String.ofList name, none)

/-- What an argument looks like. -/
def Shape.of (arg : String) : Shape :=
  match arg.toList with
  | ['-', '-'] => noMoreOptions
  | '-' :: '-' :: rest =>
    let (name, value) := splitEquals rest
    choice (Choice.long? name) value
  | '-' :: rest =>
    let (name, value) := splitEquals rest
    choice (Choice.short? name) value
  | _ => plain

namespace GivenArguments

/-- Reads arguments after which no options come. -/
def readPlain? : GivenArguments → List String → Option GivenArguments
  | g, [] => some g
  | g, arg :: args => do readPlain? (← g.position? arg) args

/-- Reads arguments, or gives up at the first that makes no sense. -/
def read? : GivenArguments → List String → Option GivenArguments
  | g, [] => some g
  | g, arg :: args =>
    match Shape.of arg, args with
    | .noMoreOptions, args => readPlain? g args
    | .plain, args => do read? (← g.position? arg) args
    | .choice none _, _ => none
    | .choice (some (.turnOn switch)) _, args => read? (g.turnOn switch) args
    | .choice (some (.give setting)) (some value), args => do
      read? (← g.give? setting value) args
    | .choice (some (.give setting)) none, value :: args => do
      read? (← g.give? setting value) args
    | .choice (some (.give _)) none, [] => none

end GivenArguments

/-- The request that the arguments make. -/
def Arguments.read? (args : List String) : Option Arguments := do
  (← GivenArguments.nothing.read? args).complete?

end ParserGraph
