import ParserGraph.CommandLine.Arguments
import ParserGraph.Grammar.Compile
import ParserGraph.Tree.Listing

/-!
# The command line — matching one input with one rule of a grammar

The command reads a grammar and an input and writes the tree, or says why
there is none. The exit code is 0 when the input matches, 1 when it does not,
and 2 when the command cannot get that far. In which dialect it reads regular
expressions is given along with the files.
-/

namespace ParserGraph.CommandLine

/-- Why a text cannot be read. -/
inductive ReadError where
  /-- There is no such file. -/
  | notFound
  /-- The bytes are no UTF-8. -/
  | notText
  /-- Something else, in the words of the system. -/
  | other (message : String)
deriving DecidableEq, Repr

/-- The text of why something cannot be read. -/
def ReadError.message : ReadError → String
  | notFound => "No such file or directory (os error 2)"
  | notText => "stream did not contain valid UTF-8"
  | other message => message

/-- The text that bytes encode. -/
def decode (bytes : ByteArray) : Except ReadError String :=
  match String.fromUTF8? bytes with
  | some text => .ok text
  | none => .error .notText

/-- What the command comes to. -/
structure Exit where
  /-- The exit code. -/
  code : Nat
  /-- What it writes to standard output. -/
  output : String
  /-- What it writes to standard error. -/
  errors : String
deriving DecidableEq, Repr

namespace Exit

/-- The exit of a command that cannot get as far as matching. -/
def unusable (message : String) : Exit := ⟨2, "", "error: " ++ message ++ "\n"⟩

/-- The exit of a command whose arguments make no sense. -/
def usage : Exit := ⟨2, "", "Could not parse CLI arguments\n"⟩

/-- The exit of a command that used the library against its contract. -/
def misused (m : Misuse) : Exit := ⟨101, "", m.message ++ "\n"⟩

/-- The exit with a tree. -/
def matched (json : Bool) (t : Tree) : Exit :=
  ⟨0, if json then t.json ++ "\n" else t.text, ""⟩

/-- The exit with an error. -/
def failed (json : Bool) (e : ParseError) : Exit :=
  if json then ⟨1, e.json ++ "\n", ""⟩ else ⟨1, "", e.message ++ "\n"⟩

end Exit

/-- Matches `input` with the rule asked for, in a graph that holds just the grammar. -/
def matchInput (dialect : Pattern.Dialect) (args : Arguments) (grammar input : String) : Exit :=
  match Grammar.compile dialect grammar [] args.sensitive Graph.empty with
  | .error m _ => .misused m
  | .ok (.error e) _ => .unusable (args.grammar ++ ": " ++ e.message)
  | .ok (.ok c) g =>
    match c.table.get? args.rule with
    | none => .unusable (args.grammar ++ " has no rule <" ++ args.rule ++ ">")
    | some rule =>
      match (g.setMaxDepth (args.maxDepth.getD g.maxDepth)).run rule input with
      | .error m => .misused m
      | .ok (.ok t) => .matched args.json t
      | .ok (.error e) => .failed args.json e

/-- Does what is asked, given what files and standard input hold. The grammar is read first. -/
def perform (dialect : Pattern.Dialect) (args : Arguments)
    (file : String → Except ReadError String) (standardInput : Except ReadError String) : Exit :=
  match file args.grammar with
  | .error e => .unusable ("cannot read " ++ args.grammar ++ ": " ++ e.message)
  | .ok grammar =>
    let (name, input) := match args.input with
      | some name => (name, file name)
      | none => ("standard input", standardInput)
    match input with
    | .error e => .unusable ("cannot read " ++ name ++ ": " ++ e.message)
    | .ok input => matchInput dialect args grammar input

/-- Does what the arguments ask. -/
def run (dialect : Pattern.Dialect) (args : List String)
    (file : String → Except ReadError String) (standardInput : Except ReadError String) : Exit :=
  match Arguments.read? args with
  | none => .usage
  | some args => perform dialect args file standardInput

end ParserGraph.CommandLine
