import ParserGraph.Pattern.Regex

/-!
# Programs — regular expressions as states to step through

A regular expression becomes a list of numbered states. A fork prefers its
first way, which is how greedy and lazy repetition and the order of
alternatives are kept. A repetition whose item may match the empty text asks
once whether to match at all, then after each match whether to match again.
-/

namespace ParserGraph.Pattern

/-- One state of a program; the numbers say which states follow. -/
inductive State where
  /-- Takes a character of a set. -/
  | take (set : CharSet) (next : Nat)
  /-- Goes the first way, or else the second. -/
  | fork (first second : Nat)
  /-- Goes on where a condition holds. -/
  | check (condition : Look) (next : Nat)
  /-- Ends a match. -/
  | accept
deriving DecidableEq, Repr

/-- Numbered states and the one to start in. -/
structure Program where
  /-- The states by number. -/
  states : Array State
  /-- The state to start in. -/
  start : Nat

namespace Regex

/-- States under construction: extends them, given what comes next, and hands on where to start. -/
abbrev Build := Nat → Array State → Nat × Array State

/-- Puts a new state at the end. -/
def push (state : State) (states : Array State) : Nat × Array State :=
  (states.size, states.push state)

/-- A fork that prefers to enter an item if greedy and to pass it by if not. -/
def forkTo (greedy : Bool) (enter pass : Nat) : State :=
  if greedy then .fork enter pass else .fork pass enter

/-- The characters of a text. -/
def buildText (text : List Char) : Build := fun next states =>
  text.foldr (fun c (next, states) => push (.take (.singleton c) next) states) (next, states)

/-- An item a fixed number of times, built from the last time on. -/
def buildExactly (item : Build) : Nat → Build
  | 0, next, states => (next, states)
  | n + 1, next, states =>
    let (start, states) := item next states
    buildExactly item n start states

/-- An item up to a number of times, built from the last time on; any of them leads to `stop`. -/
def buildUpTo (item : Build) (greedy : Bool) (stop : Nat) : Nat → Build
  | 0, next, states => (next, states)
  | n + 1, next, states =>
    let (start, states) := item next states
    let (start, states) := push (forkTo greedy start stop) states
    buildUpTo item greedy stop n start states

/-- An item once or more: after each time a fork leads back. -/
def buildAgain (item : Build) (greedy : Bool) : Build := fun next states =>
  let (again, states) := push .accept states
  let (start, states) := item again states
  (start, states.setIfInBounds again (forkTo greedy start next))

/-- An item that always takes a character, any number of times: one fork enters and leads back. -/
def buildAny (item : Build) (greedy : Bool) : Build := fun next states =>
  let (again, states) := push .accept states
  let (start, states) := item again states
  (again, states.setIfInBounds again (forkTo greedy start next))

mutual

/-- The states of an expression. -/
def build : Regex → Build
  | .empty, next, states => (next, states)
  | .literal text, next, states => buildText text next states
  | .one _ set, next, states => push (.take set next) states
  | .look condition, next, states => push (.check condition next) states
  | .repeated item min (some max) greedy, next, states =>
    let (start, states) := buildUpTo (build item) greedy next (max - min) next states
    buildExactly (build item) min start states
  | .repeated item 0 none greedy, next, states =>
    if item.minLength.any (0 < ·) then buildAny (build item) greedy next states
    else
      let (start, states) := buildAgain (build item) greedy next states
      push (forkTo greedy start next) states
  | .repeated item (min + 1) none greedy, next, states =>
    let (start, states) := buildAgain (build item) greedy next states
    buildExactly (build item) min start states
  | .capture item, next, states => build item next states
  | .concat items, next, states => buildAll items next states
  | .alternation items, next, states => buildFirst items next states

/-- The states of expressions one after another. -/
def buildAll : List Regex → Build
  | [], next, states => (next, states)
  | item :: items, next, states =>
    let (start, states) := buildAll items next states
    build item start states

/-- The states of alternatives in order. -/
def buildFirst : List Regex → Build
  | [], next, states => (next, states)
  | [item], next, states => build item next states
  | item :: items, next, states =>
    let (others, states) := buildFirst items next states
    let (start, states) := build item next states
    push (.fork start others) states

end

/-- The program of an expression. -/
def program (r : Regex) : Program :=
  let (start, states) := r.build 0 #[.accept]
  ⟨states, start⟩

end Regex

end ParserGraph.Pattern
