import ParserGraph.Graph.Reach

/-!
# Nullability — which parsers can match without taking anything

A parser is nullable when its operands being nullable lets it match nothing.
The set is grown from nothing by sweeping over the nodes until a sweep adds
none; a sweep that adds takes at least one node out of those left, so there
are at most as many as nodes.
-/

namespace ParserGraph

/-- Whether a terminal can match without taking anything. -/
def Terminal.isNullable : Terminal → Bool
  | .literal text => text.isEmpty
  | .pattern p => p.isNullable
  | .startOfInput => true
  | .endOfInput => true
  | .pass => true
  | _ => false

/-- Whether a kind can match without taking anything, given which operands can. -/
def Kind.isNullable (nullable : ParserId → Bool) : Kind → Bool
  | .terminal t => t.isNullable
  | .sequence parts => parts.all nullable
  | .alternation branches => branches.any nullable
  | .repetition part min _ => min = 0 || nullable part
  | .optional _ => true
  | .lookahead _ _ => true
  | .transform part _ => nullable part
  | .token part => nullable part
  | .expect part _ => nullable part
  | .rule body => body.any nullable

namespace Graph

/-- Adds one node if it is nullable and not known to be so. -/
def noteNullable (g : Graph) (known : List ParserId) (id : ParserId) : List ParserId :=
  if known.contains id then known
  else if (g.kind? id).any (Kind.isNullable known.contains) then id :: known
  else known

/-- One sweep over the nodes. -/
def sweepNullable (g : Graph) (ids known : List ParserId) : List ParserId :=
  ids.foldl g.noteNullable known

/-- Sweeps until nothing is added, at most a number of times. -/
def settleNullable (g : Graph) (ids : List ParserId) : Nat → List ParserId → List ParserId
  | 0, known => known
  | n + 1, known =>
    let next := g.sweepNullable ids known
    if next.length = known.length then known else settleNullable g ids n next

/-- The nullable ones among given nodes. -/
def nullableAmong (g : Graph) (ids : List ParserId) : List ParserId :=
  g.settleNullable ids ids.length []

/-- The nullable nodes that can be reached from the roots, by slot. -/
def nullable (g : Graph) (roots : List ParserId) : List ParserId :=
  (g.nullableAmong (g.reachable roots)).mergeSort fun a b => a.index ≤ b.index

end Graph

end ParserGraph
