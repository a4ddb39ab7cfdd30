import ParserGraph.Pattern.Expression
import ParserGraph.Text.Property.Alphabetic
import ParserGraph.Text.Property.Numeric
import ParserGraph.Text.Property.WhiteSpace

/-!
# Reading patterns — from text to expressions

Reading goes once over the text with the open groups and classes kept aside.
A step hands on what is left of the text, or nothing when the pattern is not
well formed. While blanks are ignored, white space and comments are stepped
over wherever a new piece of the pattern could start. Classes of characters by
a property that is named, such as that of all letters, are not read: where one
is written, the pattern is not well formed here.
-/

namespace ParserGraph.Pattern

/-- The highest count a repetition may ask for. -/
def maxCount : Nat := 4294967295

/-- The deepest nesting an expression may have. -/
def maxNesting : Nat := 250

/-! ## Blanks, numbers and names -/

/-- The text after its white space and comments; `comment` says that one is open. -/
def skipBlanks (comment : Bool) : List Char → List Char
  | [] => []
  | c :: cs =>
    if comment then skipBlanks (c != '\n') cs
    else if CharSet.whiteSpace.contains c then skipBlanks false cs
    else if c = '#' then skipBlanks true cs
    else c :: cs

/-- The text from its next piece on, blanks being stepped over if they are ignored. -/
def skipSpace (ignoring : Bool) (cs : List Char) : List Char :=
  if ignoring then skipBlanks false cs else cs

/-- The value of a hexadecimal digit. -/
def hexValue? (c : Char) : Option Nat :=
  if '0' ≤ c && c ≤ '9' then some (c.toNat - '0'.toNat)
  else if 'a' ≤ c && c ≤ 'f' then some (c.toNat - 'a'.toNat + 10)
  else if 'A' ≤ c && c ≤ 'F' then some (c.toNat - 'A'.toNat + 10)
  else none

/-- The character with a given code point, if there is one. -/
def charOf? (n : Nat) : Option Char := if n.isValidChar then some (Char.ofNat n) else none

/-- Reads decimal digits onto `value`; the flag tells whether there was one. -/
def readDigits (ignoring : Bool) : Nat → Nat → Bool → List Char → Nat × Bool × List Char
  | 0, value, any, cs => (value, any, cs)
  | _ + 1, value, any, [] => (value, any, [])
  | fuel + 1, value, any, c :: cs =>
    if '0' ≤ c && c ≤ '9' then
      readDigits ignoring fuel (10 * value + (c.toNat - '0'.toNat)) true (skipSpace ignoring cs)
    else (value, any, c :: cs)

/-- Reads a count with white space around it. -/
def readCount? (ignoring : Bool) (cs : List Char) : Option (Nat × List Char) :=
  let cs := cs.dropWhile CharSet.whiteSpace.contains
  let (value, any, rest) := readDigits ignoring cs.length 0 false cs
  if any && value ≤ maxCount then some (value, rest.dropWhile CharSet.whiteSpace.contains)
  else none

/-- Reads exactly `n` hexadecimal digits onto `value`. -/
def readHexDigits? (ignoring : Bool) : Nat → Nat → List Char → Option (Nat × List Char)
  | 0, value, cs => some (value, cs)
  | _ + 1, _, [] => none
  | n + 1, value, c :: cs => do
    let digit ← hexValue? c
    readHexDigits? ignoring n (16 * value + digit) (skipSpace ignoring cs)

/-- Reads hexadecimal digits up to a closing brace, at least one. -/
def readHexBraced? (ignoring : Bool) : Nat → Nat → Bool → List Char → Option (Nat × List Char)
  | 0, _, _, _ => none
  | fuel + 1, value, any, cs =>
    match skipSpace ignoring cs with
    | [] => none
    | '\x7d' :: rest => if any then some (value, skipSpace ignoring rest) else none
    | c :: rest => do
      let digit ← hexValue? c
      readHexBraced? ignoring fuel (16 * value + digit) true rest

/-- Reads the hexadecimal escape that takes `n` digits or any number in braces. -/
def readHex? (ignoring : Bool) (n : Nat) (cs : List Char) : Option (Literal × List Char) :=
  match skipSpace ignoring cs with
  | '\x7b' :: rest => do
    let (value, rest) ← readHexBraced? ignoring (rest.length + 1) 0 false rest
    let c ← charOf? value
    some (⟨c, false⟩, rest)
  | cs => do
    let (value, rest) ← readHexDigits? ignoring n 0 cs
    let c ← charOf? value
    some (⟨c, n = 2⟩, rest)

/-- Whether a character may stand in the name of a group. -/
def isNameChar (leading : Bool) (c : Char) : Bool :=
  c = '_' || CharSet.alphabetic.contains c ||
    !leading && (c = '.' || c = '[' || c = ']' || CharSet.numeric.contains c)

/-- Reads the name of a group up to its closing angle. -/
def readName? (leading : Bool) : List Char → Option (List Char × List Char)
  | [] => none
  | c :: cs =>
    if c = '>' then if leading then none else some ([], cs)
    else if isNameChar leading c then do
      let (name, rest) ← readName? false cs
      some (c :: name, rest)
    else none

/-! ## Escapes -/

/-- One piece of a pattern that is a character, a class or a place. -/
inductive Piece where
  /-- A character. -/
  | literal (c : Literal)
  /-- A one-letter class or all but it. -/
  | shorthand (kind : Shorthand) (negated : Bool)
  /-- A place in the text. -/
  | assertion (a : Assertion)

/-- The expression of one piece. -/
def Piece.expression : Piece → Expression
  | .literal c => .literal c
  | .shorthand kind negated => .shorthand kind negated
  | .assertion a => .assertion a

/-- The piece as an item of a class, where no place can stand. -/
def Piece.classItem? : Piece → Option ClassItem
  | .literal c => some (.literal c)
  | .shorthand kind negated => some (.shorthand kind negated)
  | .assertion _ => none

/-- The piece as the end of a range, which only a character can be. -/
def Piece.literal? : Piece → Option Literal
  | .literal c => some c
  | _ => none

/-- The character with a meaning of its own after a backslash. -/
def controlEscape? : Char → Option Char
  | 'a' => some '\x07'
  | 'f' => some '\x0c'
  | 't' => some '\t'
  | 'n' => some '\n'
  | 'r' => some '\r'
  | 'v' => some '\x0b'
  | _ => none

/-- Whether a backslash before the character stands for the character itself. -/
def isEscapable (c : Char) : Bool :=
  c.toNat < 0x80 && !c.isAlphanum && c != '<' && c != '>'

/-- Whether the character may stand in the name of a braced word boundary. -/
def isBoundaryChar (c : Char) : Bool := c.isAlpha || c = '-'

/-- Reads the letters of a braced word boundary. -/
def readBoundaryName (ignoring : Bool) : Nat → List Char → List Char × List Char
  | 0, cs => ([], cs)
  | _ + 1, [] => ([], [])
  | fuel + 1, c :: cs =>
    if isBoundaryChar c then
      let (name, rest) := readBoundaryName ignoring fuel (skipSpace ignoring cs)
      (c :: name, rest)
    else ([], c :: cs)

/-- The word boundary called by a name in braces. -/
def boundaryNamed? (name : List Char) : Option Assertion :=
  match String.ofList name with
  | "start" => some .wordStart
  | "end" => some .wordEnd
  | "start-half" => some .wordStartHalf
  | "end-half" => some .wordEndHalf
  | _ => none

/-- Reads what follows the escape of a word boundary; a brace that no letter follows is left to
a repetition. -/
def readBoundary? (ignoring : Bool) (cs : List Char) : Option (Assertion × List Char) :=
  match cs with
  | '\x7b' :: rest =>
    match skipSpace ignoring rest with
    | [] => none
    | c :: rest =>
      if isBoundaryChar c then
        match readBoundaryName ignoring (rest.length + 1) (c :: rest) with
        | (name, '\x7d' :: rest) => (boundaryNamed? name).map (·, rest)
        | _ => none
      else some (.wordBoundary, cs)
  | cs => some (.wordBoundary, cs)

/-- Reads what follows a backslash. -/
def readEscape? (ignoring : Bool) : List Char → Option (Piece × List Char)
  | [] => none
  | c :: cs =>
    match c with
    | 'x' => (readHex? ignoring 2 cs).map fun (l, rest) => (.literal l, rest)
    | 'u' => (readHex? ignoring 4 cs).map fun (l, rest) => (.literal l, rest)
    | 'U' => (readHex? ignoring 8 cs).map fun (l, rest) => (.literal l, rest)
    | 'd' => some (.shorthand .digit false, cs)
    | 'D' => some (.shorthand .digit true, cs)
    | 's' => some (.shorthand .space false, cs)
    | 'S' => some (.shorthand .space true, cs)
    | 'w' => some (.shorthand .word false, cs)
    | 'W' => some (.shorthand .word true, cs)
    | 'A' => some (.assertion .textStart, cs)
    | 'z' => some (.assertion .textEnd, cs)
    | 'b' => (readBoundary? ignoring cs).map fun (a, rest) => (.assertion a, rest)
    | 'B' => some (.assertion .notWordBoundary, cs)
    | '<' => some (.assertion .wordStart, cs)
    | '>' => some (.assertion .wordEnd, cs)
    | c =>
      if isEscapable c then some (.literal ⟨c, false⟩, cs)
      else (controlEscape? c).map fun c => (.literal ⟨c, false⟩, cs)

/-! ## Classes -/

/-- The ASCII class called by a name between colons. -/
def namedClass? (name : List Char) : Option (List (Nat × Nat)) :=
  match String.ofList name with
  | "alnum" => some [(0x30, 0x39), (0x41, 0x5A), (0x61, 0x7A)]
  | "alpha" => some [(0x41, 0x5A), (0x61, 0x7A)]
  | "ascii" => some [(0x00, 0x7F)]
  | "blank" => some [(0x09, 0x09), (0x20, 0x20)]
  | "cntrl" => some [(0x00, 0x1F), (0x7F, 0x7F)]
  | "digit" => some [(0x30, 0x39)]
  | "graph" => some [(0x21, 0x7E)]
  | "lower" => some [(0x61, 0x7A)]
  | "print" => some [(0x20, 0x7E)]
  | "punct" => some [(0x21, 0x2F), (0x3A, 0x40), (0x5B, 0x60), (0x7B, 0x7E)]
  | "space" => some [(0x09, 0x0D), (0x20, 0x20)]
  | "upper" => some [(0x41, 0x5A)]
  | "word" => some [(0x30, 0x39), (0x41, 0x5A), (0x5F, 0x5F), (0x61, 0x7A)]
  | "xdigit" => some [(0x30, 0x39), (0x41, 0x46), (0x61, 0x66)]
  | _ => none

/-- Reads the name of an ASCII class up to its closing `:]`. -/
def readNamed? (negated : Bool) (cs : List Char) : Option (ClassItem × List Char) :=
  match cs.span (· != ':') with
  | (name, ':' :: ']' :: rest) =>
    (namedClass? name).map fun ranges => (.named ranges negated, rest)
  | _ => none

/-- Reads an ASCII class after its opening bracket. -/
def readNamedClass? : List Char → Option (ClassItem × List Char)
  | ':' :: '^' :: cs => readNamed? true cs
  | ':' :: cs => readNamed? false cs
  | _ => none

/-- A class that is still open. -/
structure OpenClass where
  /-- Whether it stands for all other characters. -/
  negated : Bool
  /-- What stands before the last operation, with the operation. -/
  before : Option (ClassBody × SetOp)
  /-- The items since then, newest first. -/
  items : List ClassItem

namespace OpenClass

/-- What the class holds so far. -/
def body (c : OpenClass) : ClassBody :=
  match c.before with
  | none => .items c.items.reverse
  | some (left, op) => .binary op left (.items c.items.reverse)

/-- The class with one more item. -/
def add (c : OpenClass) (item : ClassItem) : OpenClass := { c with items := item :: c.items }

/-- The class with an operation after what it holds so far. -/
def operate (c : OpenClass) (op : SetOp) : OpenClass := ⟨c.negated, some (c.body, op), []⟩

end OpenClass

/-- The item of a character that stands for itself. -/
def plainItem (c : Char) : ClassItem := .literal ⟨c, false⟩

/-- Reads the hyphens a class may start with. -/
def readHyphens (ignoring : Bool) : Nat → OpenClass → List Char → OpenClass × List Char
  | 0, level, cs => (level, cs)
  | fuel + 1, level, cs =>
    match cs with
    | '-' :: rest => readHyphens ignoring fuel (level.add (plainItem '-')) (skipSpace ignoring rest)
    | cs => (level, cs)

/-- Reads the start of a class after its opening bracket: the sign for all other characters,
hyphens, and a closing bracket that stands for itself. -/
def openClass (ignoring : Bool) (cs : List Char) : OpenClass × List Char :=
  let (negated, cs) := match skipSpace ignoring cs with
    | '^' :: rest => (true, skipSpace ignoring rest)
    | cs => (false, cs)
  let (level, cs) := readHyphens ignoring cs.length ⟨negated, none, []⟩ cs
  match level.items, cs with
  | [], ']' :: rest => (level.add (plainItem ']'), skipSpace ignoring rest)
  | _, cs => (level, cs)

/-- Reads a character or an escape inside a class. -/
def readClassPiece? (ignoring : Bool) : List Char → Option (Piece × List Char)
  | [] => none
  | '\\' :: cs => readEscape? ignoring cs
  | c :: cs => some (.literal ⟨c, false⟩, cs)

/-- The character that decides whether a hyphen makes a range. While blanks are ignored it is the
next one past white space and the mark of a comment, so that it may lie inside the comment; where
nothing is left it is the next one after all. -/
def deciding? (ignoring : Bool) (cs : List Char) : Option Char :=
  if ignoring then
    let rest := match cs.dropWhile CharSet.whiteSpace.contains with
      | '#' :: rest => rest.dropWhile CharSet.whiteSpace.contains
      | rest => rest
    rest.head?.or cs.head?
  else cs.head?

/-- Reads an item of a class: a piece, or a range when a hyphen and an end follow. -/
def readClassItem? (ignoring : Bool) (cs : List Char) : Option (ClassItem × List Char) := do
  let (low, rest) ← readClassPiece? ignoring cs
  match skipSpace ignoring rest with
  | [] => none
  | '-' :: rest =>
    let next := deciding? ignoring rest
    if next = some ']' || next = some '-' then low.classItem?.map (·, '-' :: rest)
    else
      let (high, rest) ← readClassPiece? ignoring (skipSpace ignoring rest)
      let low ← low.literal?
      let high ← high.literal?
      if low.char ≤ high.char then some (.range low high, rest) else none
  | rest => low.classItem?.map (·, rest)

/-- Reads the rest of a class with `outer` classes open around it. -/
def readClass? (ignoring : Bool) :
    Nat → OpenClass → List OpenClass → List Char → Option (Expression × List Char)
  | 0, _, _, _ => none
  | fuel + 1, level, outer, cs =>
    match skipSpace ignoring cs with
    | [] => none
    | '[' :: rest =>
      match readNamedClass? rest with
      | some (item, rest) => readClass? ignoring fuel (level.add item) outer rest
      | none =>
        let (inner, rest) := openClass ignoring rest
        readClass? ignoring fuel inner (level :: outer) rest
    | ']' :: rest =>
      match outer with
      | [] => some (.bracketed level.negated level.body, rest)
      | parent :: outer =>
        readClass? ignoring fuel (parent.add (.nested level.negated level.body)) outer rest
    | '&' :: '&' :: rest => readClass? ignoring fuel (level.operate .intersection) outer rest
    | '-' :: '-' :: rest => readClass? ignoring fuel (level.operate .difference) outer rest
    | '~' :: '~' :: rest =>
      readClass? ignoring fuel (level.operate .symmetricDifference) outer rest
    | cs => do
      let (item, rest) ← readClassItem? ignoring cs
      readClass? ignoring fuel (level.add item) outer rest

/-! ## Groups -/

/-- The switch called by a letter. -/
def flag? : Char → Option Flag
  | 'i' => some .ignoreCase
  | 'm' => some .multiLine
  | 's' => some .dotAll
  | 'U' => some .swapGreed
  | 'u' => some .unicode
  | 'R' => some .crlf
  | 'x' => some .ignoreSpace
  | _ => none

/-- Reads switches up to the colon or bracket that ends them, which is handed on with the rest.
A hyphen turns off what follows it; no switch and no hyphen comes twice, and something must
follow the hyphen. -/
def readFlags? (change : FlagChange) (off dangling : Bool) :
    List Char → Option (FlagChange × List Char)
  | [] => none
  | c :: cs =>
    if c = ':' || c = ')' then
      if dangling then none else some (change.reverse, c :: cs)
    else if c = '-' then
      if off then none else readFlags? change true true cs
    else do
      let flag ← flag? c
      if change.any (·.1 = flag) then none
      else readFlags? ((flag, !off) :: change) off false cs

/-- The state a change puts a switch in, if it sets it. -/
def FlagChange.state? (change : FlagChange) (flag : Flag) : Option Bool := change.lookup flag

/-- What an opening bracket starts. -/
inductive Opening where
  /-- Switches for the rest of the group around. -/
  | flags (change : FlagChange)
  /-- A group, with its name if it has one. -/
  | group (kind : GroupKind) (name : Option (List Char))

/-- Reads what follows an opening bracket. Looking around is not supported. -/
def readOpening? (ignoring : Bool) (cs : List Char) : Option (Opening × List Char) :=
  match skipSpace ignoring cs with
  | '?' :: '=' :: _ => none
  | '?' :: '!' :: _ => none
  | '?' :: '<' :: '=' :: _ => none
  | '?' :: '<' :: '!' :: _ => none
  | '?' :: 'P' :: '<' :: rest =>
    (readName? true rest).map fun (name, rest) => (.group .capture (some name), rest)
  | '?' :: '<' :: rest =>
    (readName? true rest).map fun (name, rest) => (.group .capture (some name), rest)
  | '?' :: rest => do
    let (change, rest) ← readFlags? [] false false rest
    match rest with
    | ')' :: rest => if change.isEmpty then none else some (.flags change, rest)
    | _ :: rest => some (.group (.plain change) none, rest)
    | [] => none
  | cs => some (.group .capture none, cs)

/-! ## The whole pattern -/

/-- The items of one branch as an expression. -/
def joined : List Expression → Expression
  | [] => .empty
  | [only] => only
  | items => .concat items

/-- The branches of a group as an expression. -/
def chosen : List Expression → Expression
  | [only] => only
  | branches => .alternation branches

/-- A group that is still open, with what came before it. -/
structure OpenGroup where
  /-- How the group was opened. -/
  kind : GroupKind
  /-- The finished branches around it, newest first. -/
  branches : List Expression
  /-- The items before it in its branch, newest first. -/
  items : List Expression
  /-- Whether blanks were ignored around it. -/
  ignoring : Bool

/-- A pattern read so far. -/
structure Reader where
  /-- The groups still open, innermost first. -/
  groups : List OpenGroup
  /-- The finished branches of the innermost group, newest first. -/
  branches : List Expression
  /-- The items of the branch being read, newest first. -/
  items : List Expression
  /-- The names given to groups. -/
  names : List (List Char)
  /-- Whether blanks are ignored. -/
  ignoring : Bool

namespace Reader

/-- Nothing read yet. -/
def start : Reader := ⟨[], [], [], [], false⟩

/-- The innermost group as it would be if it ended here. -/
def body (r : Reader) : Expression := chosen (r.branches.reverse ++ [joined r.items.reverse])

/-- One more item in the branch being read. -/
def add (r : Reader) (item : Expression) : Reader := { r with items := item :: r.items }

/-- The next branch. -/
def branch (r : Reader) : Reader :=
  { r with branches := joined r.items.reverse :: r.branches, items := [] }

/-- What an opening bracket does; names of groups may not repeat. -/
def enter? (r : Reader) : Opening → Option Reader
  | .flags change =>
    some { r.add (.flags change) with
      ignoring := (FlagChange.state? change .ignoreSpace).getD r.ignoring }
  | .group kind name =>
    let inner := match kind with
      | .plain change => (FlagChange.state? change .ignoreSpace).getD r.ignoring
      | .capture => r.ignoring
    let named := name.toList
    if named.any r.names.contains then none
    else some ⟨⟨kind, r.branches, r.items, r.ignoring⟩ :: r.groups, [], [], named ++ r.names, inner⟩

/-- What a closing bracket does. -/
def leave? (r : Reader) : Option Reader :=
  match r.groups with
  | [] => none
  | g :: groups =>
    some ⟨groups, g.branches, .group g.kind r.body :: g.items, r.names, g.ignoring⟩

/-- Puts a repetition on the last item, which may be neither missing nor a change of switches. -/
def repeat? (r : Reader) (min : Nat) (max : Option Nat) (greedy : Bool) : Option Reader :=
  match r.items with
  | [] => none
  | .empty :: _ => none
  | .flags _ :: _ => none
  | item :: items => some { r with items := .repeated item min max greedy :: items }

/-- Reads the mark that makes a repetition lazy. -/
def readGreedy : List Char → Bool × List Char
  | '?' :: cs => (false, cs)
  | cs => (true, cs)

/-- Reads the counts of a repetition after the opening brace. -/
def readBounds? (ignoring : Bool) (cs : List Char) : Option ((Nat × Option Nat) × List Char) := do
  let (min, rest) ← readCount? ignoring (skipSpace ignoring cs)
  match rest with
  | '\x7d' :: rest => some ((min, some min), rest)
  | ',' :: rest =>
    match skipSpace ignoring rest with
    | '\x7d' :: rest => some ((min, none), rest)
    | cs =>
      let (max, rest) ← readCount? ignoring cs
      match rest with
      | '\x7d' :: rest => if min ≤ max then some ((min, some max), rest) else none
      | _ => none
  | _ => none

/-- Reads one piece of the pattern. -/
def step? (r : Reader) (c : Char) (cs : List Char) : Option (Reader × List Char) :=
  match c with
  | '(' => do
    let (opening, rest) ← readOpening? r.ignoring cs
    (r.enter? opening).map (·, rest)
  | ')' => r.leave?.map (·, cs)
  | '|' => some (r.branch, cs)
  | '[' => do
    let (level, rest) := openClass r.ignoring cs
    let (item, rest) ← readClass? r.ignoring (rest.length + 1) level [] rest
    some (r.add item, rest)
  | '?' =>
    let (greedy, rest) := readGreedy cs
    (r.repeat? 0 (some 1) greedy).map (·, rest)
  | '*' =>
    let (greedy, rest) := readGreedy cs
    (r.repeat? 0 none greedy).map (·, rest)
  | '+' =>
    let (greedy, rest) := readGreedy cs
    (r.repeat? 1 none greedy).map (·, rest)
  | '\x7b' => do
    let ((min, max), rest) ← readBounds? r.ignoring cs
    let (greedy, rest) := readGreedy (skipSpace r.ignoring rest)
    (r.repeat? min max greedy).map (·, rest)
  | '\\' => do
    let (piece, rest) ← readEscape? r.ignoring cs
    some (r.add piece.expression, rest)
  | '.' => some (r.add .dot, cs)
  | '^' => some (r.add (.assertion .lineStart), cs)
  | '$' => some (r.add (.assertion .lineEnd), cs)
  | c => some (r.add (.literal ⟨c, false⟩), cs)

/-- Reads the rest of the pattern piece by piece. -/
def finish? : Nat → Reader → List Char → Option Expression
  | 0, _, _ => none
  | fuel + 1, r, cs =>
    match skipSpace r.ignoring cs with
    | [] => if r.groups.isEmpty then some r.body else none
    | c :: cs => do
      let (r, rest) ← r.step? c cs
      finish? fuel r rest

end Reader

/-- The expression a text writes, if it is well formed and does not nest too deep. -/
def Expression.ofText? (source : String) : Option Expression := do
  let cs := source.toList
  let e ← Reader.finish? (cs.length + 1) .start cs
  if e.depth ≤ maxNesting then some e else none

end ParserGraph.Pattern
