import ParserGraph.Pattern.Expression
import ParserGraph.Pattern.Regex
import ParserGraph.Text.Property.CaseFolding
import ParserGraph.Text.Property.DecimalNumber
import ParserGraph.Text.Property.WhiteSpace
import ParserGraph.Text.Property.Word

/-!
# Switches — what an expression means while some of them are on

The meaning of an expression is a regular expression in which every class is
a set of characters and every assertion knows what it looks at. Switches set
inside a group end with it. An expression whose switches ask for bytes that
are no text has no meaning.
-/

namespace ParserGraph.Pattern

/-- The state of the switches at a place in a pattern. -/
structure Flags where
  /-- Letters match whatever their case. -/
  ignoreCase : Bool
  /-- The line assertions hold at every line. -/
  multiLine : Bool
  /-- The dot also matches a newline. -/
  dotAll : Bool
  /-- Repetitions are lazy, and greedy when marked. -/
  swapGreed : Bool
  /-- Classes and word boundaries go by Unicode. -/
  unicode : Bool
  /-- A carriage return ends a line too. -/
  crlf : Bool
deriving DecidableEq, Repr

namespace Flags

/-- The switches at the start of a pattern. -/
def initial : Flags := ⟨false, false, false, false, true, false⟩

/-- The switches with one of them set. -/
def set (f : Flags) (flag : Flag) (on : Bool) : Flags :=
  match flag with
  | .ignoreCase => { f with ignoreCase := on }
  | .multiLine => { f with multiLine := on }
  | .dotAll => { f with dotAll := on }
  | .swapGreed => { f with swapGreed := on }
  | .unicode => { f with unicode := on }
  | .crlf => { f with crlf := on }
  | .ignoreSpace => f

/-- The switches after a change. -/
def apply (f : Flags) (change : FlagChange) : Flags :=
  change.foldl (fun f (flag, on) => f.set flag on) f

end Flags

/-! ## Classes -/

/-- What classes are made of. -/
def Flags.alphabet (f : Flags) : Alphabet := if f.unicode then .characters else .bytes

/-- The ASCII letters, lower and upper case, of a set in both cases. -/
def closeAsciiCase (s : CharSet) : CharSet :=
  let letters := CharSet.mk [(0x41, 0x5A)] |>.union ⟨[(0x61, 0x7A)]⟩
  let shifted := (s.inter letters).ranges.flatMap fun (low, high) =>
    (List.range (high - low + 1)).map fun k =>
      let n := low + k
      if n ≤ 0x5A then (n + 0x20, n + 0x20) else (n - 0x20, n - 0x20)
  .ofRanges (s.ranges ++ shifted)

/-- The set with both cases of its letters if case is ignored. -/
def Flags.close (f : Flags) (s : CharSet) : CharSet :=
  if !f.ignoreCase then s else if f.unicode then s.closeCase else closeAsciiCase s

/-- The set or all but it; without Unicode only ASCII may come out. -/
def Flags.negate? (f : Flags) (negated : Bool) (s : CharSet) : Option CharSet :=
  let s := if negated then s.negation else s
  if f.unicode || s.isAscii then some s else none

/-- The set of a one-letter class. -/
def Flags.shorthand? (f : Flags) (kind : Shorthand) (negated : Bool) : Option CharSet :=
  f.negate? negated <|
    if f.unicode then
      match kind with
      | .digit => .decimalNumber
      | .space => .whiteSpace
      | .word => .word
    else
      match kind with
      | .digit => ⟨[(0x30, 0x39)]⟩
      | .space => ⟨[(0x09, 0x0D), (0x20, 0x20)]⟩
      | .word => ⟨[(0x30, 0x39), (0x41, 0x5A), (0x5F, 0x5F), (0x61, 0x7A)]⟩

/-- A character as it may stand in a class; without Unicode it is ASCII. -/
def Flags.classChar? (f : Flags) (c : Literal) : Option Nat :=
  if f.unicode || c.char.toNat < 0x80 then some c.char.toNat else none

/-- What an operation makes of two sets. -/
def SetOp.apply : SetOp → CharSet → CharSet → CharSet
  | .intersection, s, t => s.inter t
  | .difference, s, t => s.diff t
  | .symmetricDifference, s, t => s.symmDiff t

mutual

/-- The set an item of a class stands for. -/
def ClassItem.set? (f : Flags) : ClassItem → Option CharSet
  | .literal c => do
    let n ← f.classChar? c
    some ⟨[(n, n)]⟩
  | .range low high => do
    let l ← f.classChar? low
    let h ← f.classChar? high
    some (.ofRanges [(l, h)])
  | .named ranges negated => f.negate? negated (f.close (.ofRanges ranges))
  | .shorthand kind negated => f.shorthand? kind negated
  | .nested negated body => do
    let s ← body.set? f
    f.negate? negated (f.close s)

/-- The set of all items side by side. -/
def ClassItem.setAll? (f : Flags) : List ClassItem → Option CharSet
  | [] => some .empty
  | item :: items => do
    let s ← item.set? f
    let rest ← ClassItem.setAll? f items
    some (s.union rest)

/-- The set a class stands for before case and negation. -/
def ClassBody.set? (f : Flags) : ClassBody → Option CharSet
  | .items items => ClassItem.setAll? f items
  | .binary op left right => do
    let l ← left.set? f
    let r ← right.set? f
    some (op.apply (f.close l) (f.close r))

end

/-! ## From expressions to regular expressions -/

/-- What a character means; without Unicode two digits past ASCII are a byte and no text. -/
def Flags.literal? (f : Flags) (c : Literal) : Option Regex :=
  if !f.unicode && c.byte && 0x80 ≤ c.char.toNat then none
  else if f.unicode || c.char.toNat < 0x80 then
    some (.ofSet f.alphabet (f.close (.singleton c.char)))
  else some (.literal [c.char])

/-- What the dot means; without Unicode it would match bytes that are no text. -/
def Flags.dot? (f : Flags) : Option Regex :=
  if !f.unicode then none
  else if f.dotAll then some (.ofSet .characters CharSet.all)
  else if f.crlf then some (.ofSet .characters (CharSet.ofChars ['\n', '\r']).negation)
  else some (.ofSet .characters (CharSet.singleton '\n').negation)

/-- The condition an assertion stands for. -/
def Flags.look (f : Flags) : Assertion → Look
  | .lineStart => if f.multiLine then .lineStart f.crlf else .textStart
  | .lineEnd => if f.multiLine then .lineEnd f.crlf else .textEnd
  | .textStart => .textStart
  | .textEnd => .textEnd
  | .wordBoundary => .boundary f.unicode
  | .notWordBoundary => .notBoundary f.unicode
  | .wordStart => .wordStart f.unicode
  | .wordEnd => .wordEnd f.unicode
  | .wordStartHalf => .wordStartHalf f.unicode
  | .wordEndHalf => .wordEndHalf f.unicode

mutual

/-- The meaning of an expression under given switches, with the switches it leaves behind. -/
def Expression.regex? (f : Flags) : Expression → Option (Regex × Flags)
  | .empty => some (.empty, f)
  | .flags change => some (.empty, f.apply change)
  | .literal c => (f.literal? c).map (·, f)
  | .dot => f.dot?.map (·, f)
  | .assertion a => some (.look (f.look a), f)
  | .shorthand kind negated => (f.shorthand? kind negated).map fun s => (.ofSet f.alphabet s, f)
  | .bracketed negated body => do
    let s ← body.set? f
    let s ← f.negate? negated (f.close s)
    some (.ofSet f.alphabet s, f)
  | .repeated item min max greedy => do
    let (r, f) ← item.regex? f
    some (r.times min max (greedy != f.swapGreed), f)
  | .group .capture item => do
    let (r, _) ← item.regex? f
    some (.capture r, f)
  | .group (.plain change) item => do
    let (r, _) ← item.regex? (f.apply change)
    some (r, f)
  | .concat items => do
    let (rs, f) ← Expression.regexAll? f items
    some (.sequence rs, f)
  | .alternation items => do
    let (rs, f) ← Expression.regexAll? f items
    some (.alternatives rs, f)

/-- The meanings of expressions that are read one after another. -/
def Expression.regexAll? (f : Flags) : List Expression → Option (List Regex × Flags)
  | [] => some ([], f)
  | item :: items => do
    let (r, f) ← item.regex? f
    let (rs, f) ← Expression.regexAll? f items
    some (r :: rs, f)

end

end ParserGraph.Pattern
