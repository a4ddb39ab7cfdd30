import ParserGraph.Pattern.Regex
import ParserGraph.Text.Utf8

/-!
# Beginnings — what the matches of an expression begin with

The beginnings of an expression are texts, as bytes, of which each match begins
with one, in the order in which the expression prefers its matches. A beginning
that is whole is a match by itself. There are never many of them and none is
long: what would be too long is cut, and is not whole any more, and where
there would be too many nothing is known.
-/

namespace ParserGraph.Pattern

/-- Bytes that matches begin with. -/
structure Beginning where
  /-- The bytes. -/
  bytes : List UInt8
  /-- Whether they are all of a match. -/
  whole : Bool
deriving DecidableEq, Repr

/-- The beginnings of an expression, preferred ones first, if they are known. -/
abbrev Beginnings := Option (List Beginning)

namespace Beginning

/-- The most characters of a class that are told apart. -/
def mostChars : Nat := 10

/-- The most times an item is followed through. -/
def mostTimes : Nat := 10

/-- The most bytes of a beginning. -/
def mostBytes : Nat := 100

/-- The most beginnings of an expression. -/
def most : Nat := 250

/-- The empty text as a match. -/
def nothing : Beginning := ⟨[], true⟩

/-- At most a number of bytes. -/
def cut (n : Nat) (b : Beginning) : Beginning :=
  if b.bytes.length ≤ n then b else ⟨b.bytes.take n, false⟩

/-- The beginning as one that something follows. -/
def unfinished (b : Beginning) : Beginning := { b with whole := false }

/-- Beginnings with those side by side that have the same bytes as one. It is whole if all are. -/
def merged : List Beginning → List Beginning
  | b :: b' :: rest =>
    if b.bytes = b'.bytes then merged (⟨b.bytes, b.whole && b'.whole⟩ :: rest)
    else b :: merged (b' :: rest)
  | bs => bs
termination_by bs => bs.length

/-- The beginnings of one expression and then another, given both. What a whole one is followed by
belongs to it. -/
def followedBy (bs bs' : List Beginning) : List Beginning :=
  merged (bs.flatMap fun b =>
    if b.whole then bs'.map fun b' => ⟨b.bytes ++ b'.bytes, b'.whole⟩ else [b])

end Beginning

namespace Beginnings

open Beginning

/-- Beginnings none of which is whole. -/
def unfinished (bs : Beginnings) : Beginnings := bs.map (List.map Beginning.unfinished)

/-- Whether nothing that follows can change the beginnings. -/
def isSettled (bs : Beginnings) : Bool := bs.all fun bs => bs.all fun b => !b.whole

/-- The beginnings of one expression and then another. -/
def followedBy (bs bs' : Beginnings) : Beginnings := do
  let bs ← bs
  let joined ←
    match bs' with
    | some bs' =>
      if bs.length * bs'.length ≤ most then some (Beginning.followedBy bs bs') else unknown bs
    | none => unknown bs
  some (joined.map (cut mostBytes))
where
  /-- The beginnings when it is not known what follows. -/
  unknown (bs : List Beginning) : Beginnings :=
    if bs.any fun b => b.bytes.isEmpty then none else some (bs.map Beginning.unfinished)

/-- The beginnings of one expression or else another. Where there are too many of them, their first
bytes may still be few. -/
def orElse (bs bs' : Beginnings) : Beginnings := do
  let bs ← bs
  let bs' ← bs'
  if bs.length + bs'.length ≤ most then some (merged (bs ++ bs'))
  else
    let bs := merged (bs.map (cut 4))
    let bs' := merged (bs'.map (cut 4))
    if bs.length + bs'.length ≤ most then some (merged (bs ++ bs')) else none

/-- The beginnings of an item a number of times. -/
def times (item : Beginnings) : Nat → Beginnings → Beginnings
  | 0, bs => bs
  | n + 1, bs => if bs.isSettled then bs else times item n (bs.followedBy item)

/-- The characters of a set, if they are few. -/
def ofSet (set : CharSet) : Beginnings :=
  let chars := set.ranges.foldr (fun (low, high) n => high - low + 1 + n) 0
  if mostChars < chars then none
  else
    some <| set.ranges.flatMap fun (low, high) =>
      (List.range (high - low + 1)).map fun k =>
        ⟨String.utf8EncodeChar (Char.ofNat (low + k)), true⟩

/-- The beginnings of an item several times, given those of the item. -/
def repeated (item : Beginnings) (min : Nat) (max : Option Nat) (greedy : Bool) : Beginnings :=
  if min = 0 then
    let item := if max = some 1 then item else item.unfinished
    if greedy then item.orElse (some [nothing]) else orElse (some [nothing]) item
  else
    let bs := item.times (Min.min min mostTimes) (some [nothing])
    if max = some min && min ≤ mostTimes then bs else bs.unfinished

end Beginnings

namespace Regex

mutual

/-- What the matches of an expression begin with. -/
def beginnings : Regex → Beginnings
  | .empty => some [.nothing]
  | .literal text => some [Beginning.cut Beginning.mostBytes ⟨bytesOf text, true⟩]
  | .one _ set => .ofSet set
  | .look _ => some [.nothing]
  | .repeated item min max greedy => .repeated (beginnings item) min max greedy
  | .capture item => beginnings item
  | .concat items => beginningsInOrder (some [.nothing]) items
  | .alternation items => beginningsOfAny (some []) items

/-- What the matches begin with of expressions after one with given beginnings. -/
def beginningsInOrder (bs : Beginnings) : List Regex → Beginnings
  | [] => bs
  | item :: items =>
    if bs.isSettled then bs else beginningsInOrder (bs.followedBy (beginnings item)) items

/-- What the matches begin with of an expression with given beginnings or else of others. -/
def beginningsOfAny (bs : Beginnings) : List Regex → Beginnings
  | [] => bs
  | item :: items => beginningsOfAny (bs.orElse (beginnings item)) items

end

end Regex

end ParserGraph.Pattern
