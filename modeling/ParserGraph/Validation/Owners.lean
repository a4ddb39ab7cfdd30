import ParserGraph.Graph.Reach

/-!
# Owners — the nearest named parser above each node

Reports name a place in a graph by the nearest parser that has a name. The
search goes breadth first from all named nodes at once, so the first name to
arrive at a node comes from as near as any.
-/

namespace ParserGraph

/-- Nodes with the names of their owners. -/
abbrev Owners := List (ParserId × String)

namespace Graph

/-- The operands of a node that are among `ids` and have no owner yet, each once. -/
def unowned (ids : List ParserId) (owned : List ParserId) : List ParserId → List ParserId
  | [] => []
  | id :: rest =>
    if ids.contains id && !owned.contains id then id :: unowned ids (id :: owned) rest
    else unowned ids owned rest

/-- Hands names down from the nodes in `queue`, the first in front, to nodes without an owner. -/
def spreadOwners (g : Graph) (ids : List ParserId) :
    Nat → List (ParserId × String) → Owners → Owners
  | 0, _, owners => owners
  | _ + 1, [], owners => owners
  | n + 1, (id, name) :: queue, owners =>
    let found := (unowned ids (owners.map Prod.fst) (g.operands id)).map (·, name)
    spreadOwners g ids n (queue ++ found) (owners ++ found)

/-- The named nodes with their own names. -/
def namedAmong (g : Graph) (ids : List ParserId) : Owners :=
  ids.filterMap fun id => (g.name? id).map (id, ·)

/-- The owners of given nodes; each node is queued once, so one step for each is enough. -/
def ownersAmong (g : Graph) (ids : List ParserId) : Owners :=
  let named := g.namedAmong ids
  g.spreadOwners ids ids.length named named

/-- How a report names a node: by its owner, or else by what it is. -/
def context (g : Graph) (owners : Owners) (id : ParserId) : String :=
  (owners.lookup id).getD (g.describe id)

end Graph

end ParserGraph
