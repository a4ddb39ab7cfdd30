import Std.Data.HashMap

/-!
# Extent — the states of an automaton, counted as they come

The states of an automaton are numbered in the order they are added, and each
takes some memory. Of an automaton that is not built, these two counts are
all that is kept. States that are made of the same things can be shared: a
store finds a state again by a key. A store has few places, and a key whose
place is taken by another one takes the place over, so what is shared depends
on the numbers of the states.
-/

namespace ParserGraph.Pattern

/-- The memory of a state. -/
def stateCost : Nat := 32

/-- The further memory for each state that a fork leads to. -/
def wayCost : Nat := 4

/-- The further memory for each range of bytes that a state tells apart. -/
def arcCost : Nat := 8

/-- The most memory an automaton may take. -/
def footprintLimit : Nat := 10485760

/-- What has been counted of an automaton. -/
structure Extent where
  /-- How many states there are; the next one has this number. -/
  states : Nat
  /-- The memory they take. -/
  bytes : Nat
deriving DecidableEq, Repr, Inhabited

/-- What a part of an automaton adds to the states before it. -/
abbrev Growth := Extent → Extent

namespace Extent

/-- No state at all. -/
def empty : Extent := ⟨0, 0⟩

/-- One more state, which takes some memory beyond that of every state. -/
def add (further : Nat) : Growth := fun e => ⟨e.states + 1, e.bytes + stateCost + further⟩

/-- One more state that only leads on. -/
def pass : Growth := add 0

/-- One more state that leads several ways. -/
def fork (ways : Nat) : Growth := add (wayCost * ways)

/-- One more state that tells ranges of bytes apart. -/
def split (arcs : Nat) : Growth := add (arcCost * arcs)

/-- As many more states as a text has bytes. -/
def text (bytes : Nat) : Growth := fun e => ⟨e.states + bytes, e.bytes + stateCost * bytes⟩

/-- Another automaton beside this one. -/
def append (e e' : Extent) : Extent := ⟨e.states + e'.states, e.bytes + e'.bytes⟩

/-- Whether the memory is not too much. -/
def isWithinLimit (e : Extent) : Bool := e.bytes ≤ footprintLimit

end Extent

/-- A part a number of times; once there is too much memory, no more is counted. -/
def Growth.times (part : Growth) : Nat → Growth
  | 0, e => e
  | n + 1, e => if e.isWithinLimit then Growth.times part n (part e) else e

/-! ## Shared states -/

/-- An automaton with a store of states that may be shared. -/
structure Sharing where
  /-- What has been counted. -/
  extent : Extent
  /-- How many places the store has. -/
  places : Nat
  /-- For the places that are taken, the key and the number of the state kept there. -/
  kept : Std.HashMap Nat (List Nat × Nat)

namespace Sharing

/-- An automaton with an empty store. -/
def start (places : Nat) (e : Extent) : Sharing := ⟨e, places, ∅⟩

/-- The 64-bit hash of a key, which takes in one number after another. -/
def hash (key : List Nat) : UInt64 :=
  key.foldl (fun h n => (h ^^^ n.toUInt64) * 1099511628211) 14695981039346656037

/-- The state of a key: the one that is kept for it, or else one more, which is kept from now on. -/
def state (key : List Nat) (grow : Growth) (s : Sharing) : Nat × Sharing :=
  let place := (hash key).toNat % s.places
  match s.kept[place]? with
  | some (key', state) => if key' = key then (state, s) else more place
  | none => more place
where
  /-- One more state, kept at a place. -/
  more (place : Nat) : Nat × Sharing :=
    let state := s.extent.states
    (state, { s with extent := grow s.extent, kept := s.kept.insert place (key, state) })

end Sharing

end ParserGraph.Pattern
