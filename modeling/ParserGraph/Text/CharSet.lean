/-!
# Character sets — ascending ranges of code points

A set of characters is a list of closed ranges of code points, ascending and
apart from each other, with a character at both ends of each. A range may run
over the surrogates, which are no characters. Classes of characters and the
sets of patterns are both written this way; membership stops at the first
range that starts past the character.
-/

namespace ParserGraph

/-- A set of characters as ascending closed ranges of code points. -/
structure CharSet where
  /-- The ranges, lowest first, both ends included. -/
  ranges : List (Nat × Nat)
deriving DecidableEq, Repr, Inhabited

namespace CharSet

/-- Whether a code point lies in one of the ranges. -/
def covers : List (Nat × Nat) → Nat → Bool
  | [], _ => false
  | (low, high) :: rest, n =>
    if n < low then false else n ≤ high || covers rest n

/-- Whether the set holds `c`. -/
def contains (s : CharSet) (c : Char) : Bool := covers s.ranges c.toNat

/-- The set without a character. -/
def empty : CharSet := ⟨[]⟩

/-- Whether no character is in the set. -/
def isEmpty (s : CharSet) : Bool := s.ranges.isEmpty

/-- The highest code point. -/
def top : Nat := 0x10FFFF

/-- Joins a range to ascending ranges it starts before or inside of. -/
def join (low high : Nat) : List (Nat × Nat) → List (Nat × Nat)
  | [] => [(low, high)]
  | (low', high') :: rest =>
    if low' ≤ high + 1 then join low (max high high') rest
    else (low, high) :: (low', high') :: rest

/-- Ascending ranges of which none touches the next, from ranges sorted by their start. -/
def mergeSorted : List (Nat × Nat) → List (Nat × Nat)
  | [] => []
  | (low, high) :: rest => join low high (mergeSorted rest)

/-- The code point of the next character; the surrogates are passed over. -/
def next (n : Nat) : Nat := if n = 0xD7FF then 0xE000 else n + 1

/-- The code point of the character before; the surrogates are passed over. -/
def previous (n : Nat) : Nat := if n = 0xE000 then 0xD7FF else n - 1

/-- The first and the last character of each gap after `high` in ascending ranges. -/
def gapsAfter (high : Nat) : List (Nat × Nat) → List (Nat × Nat)
  | [] => if high < top then [(next high, top)] else []
  | (low', high') :: rest => (next high, previous low') :: gapsAfter high' rest

/-- The first and the last character of each gap in ascending ranges. Where a range ends and the
next begins at the surrogates the gap holds no character and its last one comes before its first. -/
def gaps : List (Nat × Nat) → List (Nat × Nat)
  | [] => [(0, top)]
  | (low, high) :: rest => (if 0 < low then [(0, previous low)] else []) ++ gapsAfter high rest

/-- The ranges common to two ascending lists of ranges. -/
def common (left right : List (Nat × Nat)) : List (Nat × Nat) :=
  left.flatMap fun (low, high) =>
    right.filterMap fun (low', high') =>
      let l := max low low'
      let h := min high high'
      if l ≤ h then some (l, h) else none

/-- The set of all characters. -/
def all : CharSet := ⟨[(0, top)]⟩

/-- The set of characters in any of `ranges`, given in any order. -/
def ofRanges (ranges : List (Nat × Nat)) : CharSet :=
  ⟨mergeSorted (ranges.mergeSort fun a b => a.1 ≤ b.1)⟩

/-- The set of the listed characters. -/
def ofChars (chars : List Char) : CharSet :=
  ofRanges (chars.map fun c => (c.toNat, c.toNat))

/-- The set of one character. -/
def singleton (c : Char) : CharSet := ⟨[(c.toNat, c.toNat)]⟩

/-- The only character of the set, if it has exactly one. -/
def only? (s : CharSet) : Option Char :=
  match s.ranges with
  | [(low, high)] => if low = high then some (Char.ofNat low) else none
  | _ => none

/-- The characters of either set. -/
def union (s t : CharSet) : CharSet := ofRanges (s.ranges ++ t.ranges)

/-- The ranges of a negated set: its gaps. A gap at the surrogates that holds no character stands
for the two characters beside it, so these are in the set and in its negation. -/
def negation (s : CharSet) : CharSet :=
  ⟨(gaps s.ranges).map fun (first, last) => (min first last, max first last)⟩

/-- The characters of both sets. -/
def inter (s t : CharSet) : CharSet := ⟨common s.ranges t.ranges⟩

/-- The characters of `s` that are not in `t`. -/
def diff (s t : CharSet) : CharSet :=
  ⟨common s.ranges ((gaps t.ranges).filter fun (first, last) => first ≤ last)⟩

/-- The characters of exactly one of the sets. -/
def symmDiff (s t : CharSet) : CharSet := (s.union t).diff (s.inter t)

/-- Whether every character of the set is ASCII. -/
def isAscii (s : CharSet) : Bool := s.ranges.all fun r => r.2 < 0x80

end CharSet

end ParserGraph
