import ParserGraph.Pattern.Program
import ParserGraph.Text.Property.Word

/-!
# Matching patterns — all ways at once, in order of preference

A match is looked for character by character. The states that can be reached
are kept in the order of preference, each once; the first that ends a match
hides those after it, and the last end found is the end of the match.
-/

namespace ParserGraph.Pattern

/-- Whether a character belongs to a word. -/
def isWord (unicode : Bool) (c : Char) : Bool :=
  if unicode then CharSet.word.contains c else c.isAlphanum || c = '_'

/-- Whether a condition holds between two characters, either missing at an end of the text. -/
def Look.holds (previous next : Option Char) : Look → Bool
  | .textStart => previous.isNone
  | .textEnd => next.isNone
  | .lineStart false => previous.isNone || previous = some '\n'
  | .lineStart true =>
    previous.isNone || previous = some '\n' || previous = some '\r' && next != some '\n'
  | .lineEnd false => next.isNone || next = some '\n'
  | .lineEnd true =>
    next.isNone || next = some '\r' || next = some '\n' && previous != some '\r'
  | .boundary u => previous.any (isWord u) != next.any (isWord u)
  | .notBoundary u => previous.any (isWord u) == next.any (isWord u)
  | .wordStart u => !previous.any (isWord u) && next.any (isWord u)
  | .wordEnd u => previous.any (isWord u) && !next.any (isWord u)
  | .wordStartHalf u => !previous.any (isWord u)
  | .wordEndHalf u => !next.any (isWord u)

/-- States reached at one place: which ones, and those that take a character or end a match,
least preferred first. -/
structure Reached where
  /-- For each state whether it was reached. -/
  seen : Array Bool
  /-- The states to go on from. -/
  threads : List Nat

namespace Program

/-- Nothing reached yet. -/
def unreached (p : Program) : Reached := ⟨Array.replicate p.states.size false, []⟩

/-- Adds every state that `pending` leads to without taking a character. -/
def follow (p : Program) (previous next : Option Char) : Nat → List Nat → Reached → Reached
  | 0, _, reached => reached
  | _ + 1, [], reached => reached
  | fuel + 1, s :: pending, reached =>
    if reached.seen[s]?.getD true then follow p previous next fuel pending reached
    else
      let reached := { reached with seen := reached.seen.setIfInBounds s true }
      match p.states[s]? with
      | none => follow p previous next fuel pending reached
      | some (.take _ _) | some .accept =>
        follow p previous next fuel pending { reached with threads := s :: reached.threads }
      | some (.fork first second) =>
        follow p previous next fuel (first :: second :: pending) reached
      | some (.check condition target) =>
        if condition.holds previous next then
          follow p previous next fuel (target :: pending) reached
        else follow p previous next fuel pending reached

/-- Adds what one state leads to; each state is expanded once, so twice their number is enough. -/
def reach (p : Program) (previous next : Option Char) (s : Nat) (reached : Reached) : Reached :=
  p.follow previous next (2 * p.states.size + 1) [s] reached

/-- What the threads, most preferred first, lead to over `c`, and whether one of them ends a
match here. -/
def step (p : Program) (c next : Option Char) : List Nat → Reached → Bool × Reached
  | [], reached => (false, reached)
  | s :: threads, reached =>
    match p.states[s]? with
    | some .accept => (true, reached)
    | some (.take set target) =>
      if c.any set.contains then step p c next threads (p.reach c next target reached)
      else step p c next threads reached
    | _ => step p c next threads reached

/-- Goes on from `threads`, most preferred first, with `count` characters taken and `best` the
last end found. -/
def search (p : Program) (threads : List Nat) (count : Nat) (best : Option Nat) :
    List Char → Option Nat
  | [] => if (p.step none none threads p.unreached).1 then some count else best
  | c :: ahead =>
    let (ended, reached) := p.step (some c) ahead.head? threads p.unreached
    let best := if ended then some count else best
    if reached.threads.isEmpty then best
    else p.search reached.threads.reverse (count + 1) best ahead

/-- How many characters a match at a place takes, given the character before it and the text
after it. -/
def match? (p : Program) (previous : Option Char) (ahead : List Char) : Option Nat :=
  p.search (p.reach previous ahead.head? p.start p.unreached).threads.reverse 0 none ahead

end Program

end ParserGraph.Pattern
