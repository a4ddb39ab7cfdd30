import ParserGraph.Text.Json
import ParserGraph.Text.Quoted
import ParserGraph.Tree.Basic

/-!
# Listings — a tree as rows, as indented text and as JSON

A tree is told node by node, parents before their children. A row keeps the
depth and the number of children, which is all it takes to put the tree
together again.
-/

namespace ParserGraph

/-- One node of a listing. -/
structure Row where
  /-- How many nodes the node lies below the root. -/
  depth : Nat
  /-- The tag of the node. -/
  tag : String
  /-- The matched text of a leaf. -/
  contents : String
  /-- The line the match started on. -/
  line : Nat
  /-- The column the match started at. -/
  column : Nat
  /-- The number of children. -/
  children : Nat
deriving DecidableEq, Repr

namespace Row

/-- A row as a JSON object. -/
def json (r : Row) : Json :=
  .object [("depth", .number r.depth), ("tag", .string r.tag), ("contents", .string r.contents),
    ("line", .number r.line), ("column", .number r.column), ("children", .number r.children)]

end Row

namespace Tree

mutual

/-- The nodes of a tree with their depths, parents before their children. -/
def preorderFrom (depth : Nat) : Tree → List (Nat × Tree)
  | ⟨tag, contents, position, children⟩ =>
    (depth, ⟨tag, contents, position, children⟩) :: preorderAll (depth + 1) children

/-- The nodes of several trees at one depth, tree after tree. -/
def preorderAll (depth : Nat) : List Tree → List (Nat × Tree)
  | [] => []
  | t :: ts => preorderFrom depth t ++ preorderAll depth ts

end

/-- The nodes of the tree with their depths, parents before their children. -/
def preorder (t : Tree) : List (Nat × Tree) := preorderFrom 0 t

/-- The row a node takes in a listing. -/
def row (depth : Nat) (t : Tree) : Row :=
  ⟨depth, t.tag, t.contents, t.position.line, t.position.column, t.children.length⟩

/-- The listing of the tree. -/
def rows (t : Tree) : List Row := t.preorder.map fun (depth, node) => node.row depth

/-- The listing as JSON text. -/
def json (t : Tree) : String := (Json.array (t.rows.map Row.json)).text

/-- The line of a node: a leaf shows its place and its text, an inner node its tag alone. -/
def line (depth : Nat) (t : Tree) : String :=
  let indent := String.ofList (List.replicate (2 * depth) ' ')
  let tag := if t.tag = "" then "_" else t.tag
  if t.isLeaf then
    indent ++ tag ++ ":" ++ t.position.text ++ " '" ++ Quoted.ofString t.contents ++ "'\n"
  else indent ++ tag ++ "\n"

/-- The tree as indented lines. -/
def text (t : Tree) : String :=
  String.join (t.preorder.map fun (depth, node) => node.line depth)

end Tree

end ParserGraph
