import ParserGraph.Graph.Basic
import ParserGraph.Run.Terminal

/-!
# Attempts — what a parser call yields and what it leaves behind

A call matches, with a tree and a cursor, or fails with an error; the caller
goes on from the cursor it kept. Beside that a run remembers the furthest
error of an attempt that was given up on after it had made progress. Nesting
too deep ends the run, and so does an id that names no node.

Memory is taken to be without end: the children of a repetition that stalls are
made as many as it asks for (`padded`), however many these are.
-/

namespace ParserGraph

/-- How a parser call ended. -/
inductive Outcome where
  /-- It matched up to a cursor. -/
  | matched (tree : Tree) (stop : Cursor)
  /-- It did not match. -/
  | failed (error : ParseError)

/-- Why a run ends inside a call, whatever the calls around it would make of a failure. -/
inductive Halt where
  /-- Too many parsers were nested. -/
  | tooDeep (error : ParseError)
  /-- An id was used that names no node. -/
  | misuse (misuse : Misuse)

/-- A part of a run; the state is the error that was kept aside. -/
abbrev Attempt := StateT (Option ParseError) (Except Halt)

/-- How a parser is called inside a run. -/
abbrev Call := ParserId → Cursor → Attempt Outcome

/-- An error after those before it. -/
def ParseError.joinTo (e : ParseError) (before : Option ParseError) : ParseError :=
  match before with
  | some first => first.merge e
  | none => e

namespace Attempt

/-- Keeps the error of an attempt aside, if it got past the place where the attempt started. -/
def abandon (start : Position) (e : ParseError) : Attempt Unit :=
  modify fun kept => if e.position.offset ≤ start.offset then kept else some (e.joinTo kept)

/-- A call whose kept errors are forgotten. -/
def isolated (call : Attempt Outcome) : Attempt Outcome := do
  let outer ← get
  set (none : Option ParseError)
  let outcome ← call
  set outer
  pure outcome

/-- Several calls one after another, up to the first that fails. -/
def inOrder (call : Call) : List ParserId → Cursor →
    Attempt (Except ParseError (List Tree × Cursor))
  | [], cursor => pure (.ok ([], cursor))
  | id :: ids, cursor => do
    match ← call id cursor with
    | .failed e => pure (.error e)
    | .matched tree stop =>
      match ← inOrder call ids stop with
      | .error e => pure (.error e)
      | .ok (trees, stop) => pure (.ok (tree :: trees, stop))

/-- All operands one after another. -/
def sequence (call : Call) (parts : List ParserId) (cursor : Cursor) : Attempt Outcome := do
  match ← inOrder call parts cursor with
  | .error e => pure (.failed e)
  | .ok (trees, stop) => pure (.matched (.branch trees cursor.position) stop)

/-- The first operand that matches; `failure` is what the operands before came to. -/
def firstOf (call : Call) (cursor : Cursor) : Option ParseError → List ParserId → Attempt Outcome
  | none, [] => pure (.failed (.unexpected cursor.position cursor.peek))
  | some failure, [] => pure (.failed failure)
  | failure, id :: ids => do
    match ← call id cursor with
    | .matched tree stop => pure (.matched tree stop)
    | .failed e => firstOf call cursor (some (e.joinTo failure)) ids

/-- The operand or nothing. -/
def optional (call : Call) (part : ParserId) (cursor : Cursor) : Attempt Outcome := do
  match ← call part cursor with
  | .matched tree stop => pure (.matched tree stop)
  | .failed e =>
    abandon cursor.position e
    pure (.matched (.empty cursor.position) cursor)

/-- How the rounds of a repetition came to an end. -/
inductive Ending where
  /-- There was no round left. -/
  | full
  /-- A round took nothing, so that every further one would do the same. -/
  | stalled
  /-- A round failed. -/
  | gaveUp (start : Position) (error : ParseError)

/-- Calls a parser again and again, at most `n` times. -/
def rounds (call : Call) (part : ParserId) (unbounded : Bool) : Nat → Cursor →
    Attempt (List Tree × Cursor × Ending)
  | 0, cursor => pure ([], cursor, .full)
  | n + 1, cursor => do
    match ← call part cursor with
    | .failed e => pure ([], cursor, .gaveUp cursor.position e)
    | .matched tree stop =>
      if unbounded && stop.position = cursor.position then pure ([tree], stop, .stalled)
      else
        let (trees, stop, ending) ← rounds call part unbounded n stop
        pure (tree :: trees, stop, ending)

/-- The trees with the last one repeated until there are `min`. -/
def padded (min : Nat) (trees : List Tree) : List Tree :=
  match trees.getLast? with
  | some last => trees ++ List.replicate (min - trees.length) last
  | none => trees

/-- The operand as often as it matches. Without an upper bound each round but the last takes a
character, so one more round than there are characters is enough. -/
def repetition (call : Call) (part : ParserId) (min : Nat) (max : Option Nat) (cursor : Cursor) :
    Attempt Outcome := do
  let (trees, stop, ending) ←
    rounds call part max.isNone (max.getD (cursor.ahead.length + 1)) cursor
  let matched (trees : List Tree) : Outcome := .matched (.branch trees cursor.position) stop
  match ending with
  | .stalled => pure (matched (padded min trees))
  | .full =>
    if trees.length < min then pure (.failed (.unexpected cursor.position stop.peek))
    else pure (matched trees)
  | .gaveUp start e =>
    if trees.length < min then pure (.failed e)
    else
      abandon start e
      pure (matched trees)

/-- Nothing, where the operand matches, or where it does not if negated; `description` says what
the operand is. -/
def lookahead (call : Call) (part : ParserId) (negated : Bool) (description : String)
    (cursor : Cursor) : Attempt Outcome := do
  match ← isolated (call part cursor), negated with
  | .matched _ _, false => pure (.matched (.empty cursor.position) cursor)
  | .failed _, true => pure (.matched (.empty cursor.position) cursor)
  | .failed e, false => pure (.failed e)
  | .matched _ _, true =>
    pure (.failed (.expecting cursor.position ("not " ++ description) cursor.peek))

/-- The operand with its tree reshaped. -/
def transform (call : Call) (part : ParserId) (mapping : Tree → Tree) (cursor : Cursor) :
    Attempt Outcome := do
  match ← call part cursor with
  | .matched tree stop => pure (.matched (mapping tree) stop)
  | .failed e => pure (.failed e)

/-- The operand with the text it took as a single leaf. -/
def token (call : Call) (part : ParserId) (cursor : Cursor) : Attempt Outcome := do
  match ← call part cursor with
  | .matched _ stop => pure (.matched (.leaf (cursor.upTo stop) cursor.position) stop)
  | .failed e => pure (.failed e)

/-- The operand with its failures told as `label`. -/
def expect (call : Call) (part : ParserId) (label : String) (cursor : Cursor) :
    Attempt Outcome := do
  match ← isolated (call part cursor) with
  | .matched tree stop => pure (.matched tree stop)
  | .failed _ => pure (.failed (.expecting cursor.position label cursor.peek))

/-- A terminal. -/
def terminal (t : Terminal) (cursor : Cursor) : Outcome :=
  match t.span cursor with
  | some n => .matched (.leaf (cursor.next n) cursor.position) (cursor.advance n)
  | none => .failed (t.failureAt cursor)

/-- The failure of a placeholder without a body. -/
def undefinedRule (name : Option String) (cursor : Cursor) : ParseError :=
  .failing cursor.position ("rule <" ++ name.getD "" ++ "> is undefined") cursor.peek

end Attempt

end ParserGraph
