import ParserGraph.Graph.Build
import ParserGraph.Run.Basic

/-!
# The grammar language — written as a parser graph of its own

A grammar is read with the same engine it is written for. White space is
skipped after every token. A statement ends with a semicolon or, to tell why
reading stopped there, with the failure of one more factor; likewise the text
ends, or one more statement tells why it does not.
-/

namespace ParserGraph

/-- Gives a placeholder its body where nothing can stand against it. -/
def Build.define (rule body : ParserId) : Build Unit := fun g =>
  match g.define rule body with
  | .ok g => .ok () g
  | .error e => .error (.undefinable e) g

namespace Grammar.Language

/-- The characters that separate tokens. -/
def blanks : String := " \t\r\n\x0b\x0c"

/-- Whether a character can start a name. -/
def isNameStart (c : Char) : Bool := c.isAlpha || c = '_'

/-- Whether a character can go on a name. -/
def isNamePart (c : Char) : Bool := c.isAlphanum || c = '_'

/-- `part` and the blanks after it, with the tree of `part`. -/
def lexeme (spaces part : ParserId) : Build ParserId := do
  let both ← Build.sequence [part, spaces]
  Build.transform both Tree.first

/-- A character that is a token. -/
def symbol (spaces : ParserId) (c : Char) : Build ParserId := do
  let part ← Build.char c
  lexeme spaces part

/-- A token whose tree is its text, under a name. -/
def named (spaces part : ParserId) (name : String) : Build ParserId := do
  let text ← Build.token part
  let whole ← lexeme spaces text
  Build.named whole name

/-- Text between two `mark`s, in which a backslash takes the next character along. -/
def quoted (spaces : ParserId) (mark : Char) (name : String) : Build ParserId := do
  let opening ← Build.char mark
  let backslash ← Build.char '\\'
  let any ← Build.any
  let escape ← Build.sequence [backslash, any]
  let plain ← Build.noneOf (String.ofList [mark, '\\'])
  let piece ← Build.alternation [escape, plain]
  let body ← Build.many piece
  let closing ← Build.char mark
  let whole ← Build.sequence [opening, body, closing]
  named spaces whole name

/-- Parts one after another, their trees side by side. -/
def flat (parts : List ParserId) : Build ParserId := do
  let all ← Build.sequence parts
  Build.transform all Tree.flatten

/-- Any number of blanks, without a tree. -/
def blankRun : Build ParserId := do
  let blank ← Build.oneOf blanks
  let run ← Build.many blank
  Build.skip run

/-- A name: a letter or underscore, then letters, digits and underscores. -/
def identifier (spaces : ParserId) : Build ParserId := do
  let first ← Build.satisfy "identifier" isNameStart
  let other ← Build.satisfy "identifier character" isNamePart
  let others ← Build.many other
  let whole ← Build.sequence [first, others]
  named spaces whole "ident"

/-- A number. -/
def digits (spaces : ParserId) : Build ParserId := do
  let digit ← Build.digit
  let whole ← Build.many1 digit
  named spaces whole "digits"

/-- A reference: a name, in angles or bare. -/
def reference (spaces ident : ParserId) : Build ParserId := do
  let opening ← symbol spaces '<'
  let closing ← symbol spaces '>'
  let angled ← flat [opening, ident, closing]
  let either ← Build.alternation [angled, ident]
  Build.named either "ref"

/-- Alternatives in parentheses. -/
def group (spaces alt : ParserId) : Build ParserId := do
  let opening ← symbol spaces '('
  let closing ← symbol spaces ')'
  let whole ← flat [opening, alt, closing]
  Build.named whole "group"

/-- What may follow a factor: an operator, or counts in braces. -/
def suffix (spaces digits : ParserId) : Build ParserId := do
  let operators ← Build.oneOf "*+?!"
  let operator ← lexeme spaces operators
  let opening ← symbol spaces '\x7b'
  let comma ← symbol spaces ','
  let closing ← symbol spaces '\x7d'
  let upper ← Build.optional digits
  let more ← Build.sequence [comma, upper]
  let more ← Build.optional more
  let bounds ← flat [opening, digits, more, closing]
  let either ← Build.alternation [operator, bounds]
  let suffix ← Build.named either "suffix"
  Build.optional suffix

/-- Alternatives separated by bars, each of them factors side by side. -/
def alternatives (spaces factor : ParserId) : Build ParserId := do
  let factors ← Build.many factor
  let seq ← Build.transform factors Tree.flatten
  let seq ← Build.named seq "seq"
  let bar ← symbol spaces '|'
  let next ← Build.sequence [bar, seq]
  let others ← Build.many next
  flat [seq, others]

/-- A statement: a name, perhaps a label, a colon and alternatives. -/
def statement (spaces ident string alt factor : ParserId) : Build ParserId := do
  let semicolon ← symbol spaces ';'
  let terminator ← Build.alternation [semicolon, factor]
  let label ← Build.transform string id
  let label ← Build.named label "label"
  let label ← Build.optional label
  let colon ← symbol spaces ':'
  let whole ← flat [ident, label, colon, alt, terminator]
  Build.named whole "stmt"

/-- All of a grammar. -/
def grammar : Build ParserId := do
  let spaces ← blankRun
  let ident ← identifier spaces
  let digits ← digits spaces
  let string ← quoted spaces '"' "string"
  let char ← quoted spaces '\'' "char"
  let regex ← quoted spaces '/' "regex"
  let ref ← reference spaces ident
  let alt ← Build.rule "alt"
  let group ← group spaces alt
  let base ← Build.alternation [string, char, regex, ref, group]
  let suffix ← suffix spaces digits
  let factor ← flat [base, suffix]
  let factor ← Build.named factor "factor"
  let body ← alternatives spaces factor
  Build.define alt body
  let statement ← statement spaces ident string alt factor
  let start ← Build.startOfInput
  let stop ← Build.endOfInput
  let statements ← Build.many statement
  let ending ← Build.alternation [stop, statement]
  let whole ← flat [start, spaces, statements, ending]
  Build.named whole "grammar"

/-- The graph of the language and its root. -/
def graph : ParserId × Graph :=
  match grammar.run Graph.empty with
  | .ok root g => (root, g)
  | .error _ g => (default, g)

/-- Reads a text as a grammar into a tagged tree. -/
def parse (text : String) : Except Misuse (Except ParseError Tree) :=
  graph.2.run graph.1 text

end Grammar.Language

end ParserGraph
