import ParserGraph.Run.Attempt

/-!
# Runs — matching an input with a parser of a graph

A parser is matched by recursive descent over the graph. Every call takes one
step of a limited depth, and a call that finds no depth left ends the run. A
run that fails tells whichever error got further: the one it came to in the
end or the one that was kept aside.
-/

namespace ParserGraph

namespace Node

/-- What a node does at a cursor, its operands being called by `call`. -/
def perform (node : Node) (g : Graph) (call : Call) (cursor : Cursor) : Attempt Outcome :=
  match node.kind with
  | .terminal t => pure (Attempt.terminal t cursor)
  | .sequence parts => Attempt.sequence call parts cursor
  | .alternation branches => Attempt.firstOf call cursor none branches
  | .repetition part min max => Attempt.repetition call part min max cursor
  | .optional part => Attempt.optional call part cursor
  | .lookahead part negated => Attempt.lookahead call part negated (g.describe part) cursor
  | .transform part mapping => Attempt.transform call part mapping cursor
  | .token part => Attempt.token call part cursor
  | .expect part label => Attempt.expect call part label cursor
  | .rule (some body) => call body cursor
  | .rule none => pure (.failed (Attempt.undefinedRule node.name cursor))

/-- The tree of a node, tagged with its name if it has one. -/
def label (node : Node) (tree : Tree) : Tree :=
  match node.name with
  | some name => tree.tagged name
  | none => tree

end Node

namespace Graph

/-- Calls a parser, which must live, and tags its tree. -/
def enter (g : Graph) (call : Call) : Call := fun id cursor =>
  match g.node? id with
  | none => throw (.misuse (.usedAfterCleanup id))
  | some node => do
    match ← node.perform g call cursor with
    | .matched tree stop => pure (.matched (node.label tree) stop)
    | .failed e => pure (.failed e)

/-- The error of a call that finds no depth left. -/
def tooDeep (g : Graph) (cursor : Cursor) : ParseError :=
  .failing cursor.position
    ("input nests deeper than " ++ toString g.maxDepth ++ " parsers") cursor.peek

/-- Calls a parser with room for a number of nested calls. -/
def parse (g : Graph) : Nat → Call
  | 0 => fun _ cursor => throw (.tooDeep (g.tooDeep cursor))
  | room + 1 => g.enter (g.parse room)

/-- Matches the start of an input with a parser, which need not take all of it. -/
def run (g : Graph) (id : ParserId) (input : String) : Except Misuse (Except ParseError Tree) :=
  match (g.parse g.maxDepth id (Cursor.start input)).run none with
  | .error (.tooDeep e) => .ok (.error e)
  | .error (.misuse m) => .error m
  | .ok (.matched tree _, _) => .ok (.ok tree)
  | .ok (.failed e, none) => .ok (.error e)
  | .ok (.failed e, some kept) => .ok (.error (e.merge kept))

end Graph

end ParserGraph
