import ParserGraph.Text.CharSet

/-!
# UTF-8 — sets of characters as sequences of byte ranges

The characters of a set, spelled in UTF-8, are covered by sequences of byte
ranges: a text of one character is spelled by a sequence when each byte lies
in the range at its place. The sequences of a set are few, ascending and
apart from each other, and two of them begin either with the same range or
with ranges that have no byte in common.
-/

namespace ParserGraph

/-- A range of bytes, both ends included. -/
abbrev ByteRange := Nat × Nat

/-- One of the ways UTF-8 spells code points. -/
structure SpelledForm where
  /-- The lowest code point it is for. -/
  low : Nat
  /-- The highest code point it is for. -/
  high : Nat
  /-- What marks the first byte. -/
  mark : Nat
  /-- How many bytes follow the first. -/
  following : Nat

namespace SpelledForm

/-- All ways, for the lowest code points first; three bytes are used on both sides of the
surrogates. -/
def all : List SpelledForm :=
  [⟨0x00, 0x7F, 0x00, 0⟩, ⟨0x80, 0x7FF, 0xC0, 1⟩, ⟨0x800, 0xD7FF, 0xE0, 2⟩,
    ⟨0xE000, 0xFFFF, 0xE0, 2⟩, ⟨0x10000, 0x10FFFF, 0xF0, 3⟩]

end SpelledForm

/-- The sequences that spell the numbers from `low` to `high` with a marked byte and a number of
bytes after it, which have six bits each. Numbers that share their first byte are spelled by what
follows it; between them lie the first bytes after which anything may follow. -/
def spellings (mark : Nat) : Nat → Nat → Nat → List (List ByteRange)
  | 0, low, high => [[(mark + low, mark + high)]]
  | n + 1, low, high =>
    let unit := 64 ^ (n + 1)
    let below (first last low high : Nat) :=
      (spellings 0x80 n low high).map ((mark + first, mark + last) :: ·)
    let first := low / unit
    let last := high / unit
    if first = last then below first first (low % unit) (high % unit)
    else
      let cutLow := low % unit != 0
      let cutHigh := high % unit != unit - 1
      let start := if cutLow then first + 1 else first
      let stop := if cutHigh then last else last + 1
      (if cutLow then below first first (low % unit) (unit - 1) else []) ++
      (if start < stop then below start (stop - 1) 0 (unit - 1) else []) ++
      (if cutHigh then below last last 0 (high % unit) else [])

/-- The sequences that spell the code points of a range. -/
def spellingsOfRange (low high : Nat) : List (List ByteRange) :=
  SpelledForm.all.flatMap fun form =>
    let low := max low form.low
    let high := min high form.high
    if low ≤ high then spellings form.mark form.following low high else []

/-- The sequences that spell the characters of a set. -/
def CharSet.spellings (s : CharSet) : List (List ByteRange) :=
  s.ranges.flatMap fun (low, high) => spellingsOfRange low high

/-- The bytes of a text. -/
def bytesOf (text : List Char) : List UInt8 := text.flatMap String.utf8EncodeChar

end ParserGraph
