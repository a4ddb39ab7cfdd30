import ParserGraph.Position

/-!
# Cursors — a place in an input, with the text on both sides

A cursor keeps the characters it has passed, those still ahead, and its
position. Going back is keeping an older cursor.
-/

namespace ParserGraph

/-- A place in an input. -/
structure Cursor where
  /-- The characters before it, nearest first. -/
  behind : List Char
  /-- The characters after it. -/
  ahead : List Char
  /-- Its position in the input. -/
  position : Position
deriving DecidableEq, Repr

namespace Cursor

/-- The start of an input. -/
def start (input : String) : Cursor := ⟨[], input.toList, .start⟩

/-- The next character, none at the end. -/
def peek (c : Cursor) : Option Char := c.ahead.head?

/-- The cursor after the next `n` characters, or at the end if there are fewer. -/
def advance (cursor : Cursor) : Nat → Cursor
  | 0 => cursor
  | n + 1 =>
    match cursor.ahead with
    | [] => cursor
    | c :: ahead => advance ⟨c :: cursor.behind, ahead, cursor.position.advance c⟩ n

/-- The next `n` characters as text. -/
def next (cursor : Cursor) (n : Nat) : String := String.ofList (cursor.ahead.take n)

/-- The text from a cursor up to a later one. -/
def upTo (cursor stop : Cursor) : String :=
  cursor.next (cursor.ahead.length - stop.ahead.length)

/-! ## Where advancing leads -/

/-- Advancing takes characters from what is ahead. -/
theorem ahead_advance (cursor : Cursor) (n : Nat) :
    (cursor.advance n).ahead = cursor.ahead.drop n := by
  fun_induction advance cursor n with simp_all

/-- Advancing puts the characters it takes behind, the last one nearest. -/
theorem behind_advance (cursor : Cursor) (n : Nat) :
    (cursor.advance n).behind = (cursor.ahead.take n).reverse ++ cursor.behind := by
  fun_induction advance cursor n with simp_all

/-- Advancing moves the position over the characters it takes. -/
theorem position_advance (cursor : Cursor) (n : Nat) :
    (cursor.advance n).position = cursor.position.after (cursor.ahead.take n) := by
  fun_induction advance cursor n with simp_all

end Cursor

end ParserGraph
