import ParserGraph.Text.CharSet

/-!
# Regular expressions — in reduced form

A regular expression over characters, and the functions that build one in
reduced form: texts side by side are one text, single characters and classes
side by side in an alternation are one class, and alternatives that begin
with the same parts have them lifted out. Lifting counts for the choice of a
match: what the shared parts take is settled before the alternatives differ.
The least length of a match is known unless a part can never match.
-/

namespace ParserGraph.Pattern

/-- A condition on the characters around a place; `unicode` says which words count. -/
inductive Look where
  /-- The start of the text. -/
  | textStart
  /-- The end of the text. -/
  | textEnd
  /-- The start of a line; `crlf` lets a carriage return end lines too. -/
  | lineStart (crlf : Bool)
  /-- The end of a line; `crlf` lets a carriage return end lines too. -/
  | lineEnd (crlf : Bool)
  /-- Between a word character and another one or an end. -/
  | boundary (unicode : Bool)
  /-- Anywhere but at a word boundary. -/
  | notBoundary (unicode : Bool)
  /-- Where a word starts. -/
  | wordStart (unicode : Bool)
  /-- Where a word ends. -/
  | wordEnd (unicode : Bool)
  /-- After no word character. -/
  | wordStartHalf (unicode : Bool)
  /-- Before no word character. -/
  | wordEndHalf (unicode : Bool)
deriving DecidableEq, Repr

/-- What a class was made of; classes of the two kinds are never taken for the same. -/
inductive Alphabet where
  /-- All characters. -/
  | characters
  /-- The bytes that are characters by themselves. -/
  | bytes
deriving DecidableEq, Repr

/-- A regular expression over characters. -/
inductive Regex where
  /-- The empty text. -/
  | empty
  /-- Exactly one text, which is not empty. -/
  | literal (text : List Char)
  /-- One character of a set. -/
  | one (alphabet : Alphabet) (set : CharSet)
  /-- No text, at a place that meets a condition. -/
  | look (condition : Look)
  /-- An item several times, as often or as rarely as the rest allows. -/
  | repeated (item : Regex) (min : Nat) (max : Option Nat) (greedy : Bool)
  /-- A captured group. -/
  | capture (item : Regex)
  /-- Items one after another. -/
  | concat (items : List Regex)
  /-- Items of which the first that leads to a match counts. -/
  | alternation (items : List Regex)

namespace Regex

/-- What no text matches. -/
def fail : Regex := .one .bytes .empty

/-! ## What takes nothing and what is the same -/

mutual

/-- Whether every match of the expression is of the empty text. -/
def takesNothing : Regex → Bool
  | .empty => true
  | .literal _ => false
  | .one _ _ => false
  | .look _ => true
  | .repeated item _ _ _ => takesNothing item
  | .capture item => takesNothing item
  | .concat items => takeNothing items
  | .alternation items => takeNothing items

/-- Whether every match of any of the expressions is of the empty text. -/
def takeNothing : List Regex → Bool
  | [] => true
  | item :: items => takesNothing item && takeNothing items

end

mutual

/-- Whether two expressions are the same; two captured groups never are. -/
def agrees : Regex → Regex → Bool
  | .empty, .empty => true
  | .literal s, .literal t => s = t
  | .one a s, .one b t => a = b && s = t
  | .look a, .look b => a = b
  | .repeated item min max greedy, .repeated item' min' max' greedy' =>
    min = min' && max = max' && greedy = greedy' && agrees item item'
  | .concat items, .concat items' => agreeAll items items'
  | .alternation items, .alternation items' => agreeAll items items'
  | _, _ => false

/-- Whether two lists hold the same expressions in the same order. -/
def agreeAll : List Regex → List Regex → Bool
  | [], [] => true
  | item :: items, item' :: items' => agrees item item' && agreeAll items items'
  | _, _ => false

end

/-! ## Classes and repetitions -/

/-- One character of a set; the only character of a set is a text. -/
def ofSet (alphabet : Alphabet) (set : CharSet) : Regex :=
  if set.isEmpty then fail
  else match set.only? with
    | some c => .literal [c]
    | none => .one alphabet set

/-- An item between two numbers of times; no times is the empty text, once is the item. -/
def between (item : Regex) (min : Nat) (max : Option Nat) (greedy : Bool) : Regex :=
  if max = some 0 then .empty
  else if min = 1 && max = some 1 then item
  else .repeated item min max greedy

/-- An item several times; what takes nothing is worth trying only once. -/
def times (item : Regex) (min : Nat) (max : Option Nat) (greedy : Bool) : Regex :=
  if item.takesNothing then item.between (Min.min min 1) (some (Min.min (max.getD 1) 1)) greedy
  else item.between min max greedy

/-! ## Sequences -/

/-- The parts an item adds to a sequence around it. -/
def parts : Regex → List Regex
  | .empty => []
  | .concat items => items
  | item => [item]

/-- An item before others; two texts that meet are one. -/
def attach : Regex → List Regex → List Regex
  | .literal s, .literal t :: rest => .literal (s ++ t) :: rest
  | item, rest => item :: rest

/-- The sequence of given parts. -/
def ofParts : List Regex → Regex
  | [] => .empty
  | [only] => only
  | items => .concat items

/-- Items one after another, without empty ones. -/
def sequence (items : List Regex) : Regex := ofParts ((items.flatMap parts).foldr attach [])

/-! ## Alternations -/

/-- The branches an item adds to an alternation around it. -/
def branches : Regex → List Regex
  | .alternation items => items
  | item => [item]

/-- The character an item stands for, if it is just that. -/
def char? : Regex → Option Char
  | .literal [c] => some c
  | _ => none

/-- The text an item stands for, if it is just that. -/
def text? : Regex → Option (List Char)
  | .literal text => some text
  | _ => none

/-- The set of characters an item stands for, if it is a class. -/
def set? : Regex → Option CharSet
  | .one _ set => some set
  | _ => none

/-- Alternatives in order; characters side by side and classes side by side are one class. -/
def choice (items : List Regex) : Regex :=
  match items.flatMap branches with
  | [] => fail
  | [only] => only
  | items =>
    match items.mapM char? with
    | some chars => ofSet .characters (.ofChars chars)
    | none =>
      match items.mapM set? with
      | some sets => ofSet .characters (.ofRanges (sets.flatMap CharSet.ranges))
      | none => .alternation items

/-- The parts of an item that is a sequence. -/
def steps : Regex → List Regex
  | .concat items => items
  | _ => []

/-- The parts that two sequences begin with. -/
def sharedParts : List Regex → List Regex → List Regex
  | item :: items, item' :: items' =>
    if item.agrees item' then item :: sharedParts items items' else []
  | _, _ => []

/-- The parts that all of several items begin with; only sequences begin with any. -/
def commonParts : List Regex → List Regex
  | [] => []
  | item :: items => items.foldl (fun front item => sharedParts front item.steps) item.steps

/-- Alternatives in order, with the parts that all of them begin with in front of the choice. What
is left after those has no common beginning any more, so one lift is enough. -/
def alternatives (items : List Regex) : Regex :=
  let items := items.flatMap branches
  match commonParts items with
  | [] => choice items
  | front =>
    let rests := items.map fun item => ofParts (item.steps.drop front.length)
    sequence (front ++ [choice rests])

/-! ## The least length of a match -/

mutual

/-- The fewest characters a match takes, none when a part can never match. -/
def minLength : Regex → Option Nat
  | .empty => some 0
  | .literal text => some text.length
  | .one _ set => if set.isEmpty then none else some 1
  | .look _ => some 0
  | .repeated item min _ _ => (minLength item).map (· * min)
  | .capture item => minLength item
  | .concat items => minLengthSum items
  | .alternation items => minLengthLeast items

/-- The fewest characters of items one after another. -/
def minLengthSum : List Regex → Option Nat
  | [] => some 0
  | item :: items =>
    match minLength item, minLengthSum items with
    | some m, some n => some (m + n)
    | _, _ => none

/-- The fewest characters of any of several items, all of which must be known. -/
def minLengthLeast : List Regex → Option Nat
  | [] => none
  | [item] => minLength item
  | item :: items =>
    match minLength item, minLengthLeast items with
    | some m, some n => some (min m n)
    | _, _ => none

end

end Regex

end ParserGraph.Pattern
