import ParserGraph.Tree.Basic

/-!
# Reshaping — flattening and folding trees

A match wraps each group of parts in a node of its own. Flattening takes the
anonymous inner nodes among the children apart and drops the empty ones;
folding also lets an anonymous node with a single child be that child.
-/

namespace ParserGraph.Tree

mutual

/-- What a child becomes when its parent is flattened: nothing, its own parts, or itself. -/
def splice : Tree → List Tree
  | ⟨tag, contents, position, children⟩ =>
    if tag = "" && contents = "" && children.isEmpty then []
    else if tag = "" && !children.isEmpty then spliceAll children
    else [⟨tag, contents, position, children⟩]

/-- What a list of children becomes when their parent is flattened. -/
def spliceAll : List Tree → List Tree
  | [] => []
  | t :: ts => splice t ++ spliceAll ts

end

/-- The node with anonymous inner children taken apart and empty ones dropped. -/
def flatten (t : Tree) : Tree := { t with children := spliceAll t.children }

/-- The first child, or the empty node when there is none. -/
def first (t : Tree) : Tree := t.children.head?.getD (empty t.position)

/-- The flattened node, or its only child when it is anonymous and has just one. -/
def fold (t : Tree) : Tree :=
  let flat := t.flatten
  if flat.tag = "" && flat.children.length = 1 then flat.first else flat

/-- The empty node in place of the tree. -/
def skip (t : Tree) : Tree := empty t.position

/-- The tree as the only child of an anonymous node. -/
def wrap (t : Tree) : Tree := branch [t] t.position

end ParserGraph.Tree
