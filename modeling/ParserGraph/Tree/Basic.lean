import ParserGraph.Position

/-!
# Trees — what a successful match leaves behind

Every parser yields a tree of one kind. A leaf carries the text that was
matched, an inner node carries children; a tag says which named parsers the
node came from, outermost first, joined with bars.
-/

namespace ParserGraph

/-- A node of a parse tree. -/
structure Tree where
  /-- The names of the parsers it came from, joined with bars; empty for none. -/
  tag : String
  /-- The matched text of a leaf. -/
  contents : String
  /-- Where the match started. -/
  position : Position
  /-- The parts in the order of the match. -/
  children : List Tree
deriving Inhabited

namespace Tree

/-! ## Equality -/

mutual

/-- Whether two trees are the same in every part. -/
def same : Tree → Tree → Bool
  | ⟨tag, contents, position, children⟩, ⟨tag', contents', position', children'⟩ =>
    tag = tag' && contents = contents' && position = position' && sameAll children children'

/-- Whether two lists hold the same trees in the same order. -/
def sameAll : List Tree → List Tree → Bool
  | [], [] => true
  | t :: ts, t' :: ts' => same t t' && sameAll ts ts'
  | _, _ => false

end

mutual

theorem same_iff_eq : ∀ t t' : Tree, same t t' = true ↔ t = t'
  | ⟨tag, contents, position, children⟩, ⟨tag', contents', position', children'⟩ => by
    simp [same, sameAll_iff_eq children children', and_assoc]

theorem sameAll_iff_eq : ∀ ts ts' : List Tree, sameAll ts ts' = true ↔ ts = ts'
  | [], [] => by simp [sameAll]
  | t :: ts, t' :: ts' => by simp [sameAll, same_iff_eq t t', sameAll_iff_eq ts ts']
  | [], _ :: _ => by simp [sameAll]
  | _ :: _, [] => by simp [sameAll]

end

instance : DecidableEq Tree := fun t t' => decidable_of_iff _ (same_iff_eq t t')

/-! ## Making trees -/

/-- An anonymous leaf holding `contents`. -/
def leaf (contents : String) (position : Position) : Tree := ⟨"", contents, position, []⟩

/-- An anonymous node over `children`. -/
def branch (children : List Tree) (position : Position) : Tree := ⟨"", "", position, children⟩

/-- The node with no tag, no contents and no children. -/
def empty (position : Position) : Tree := ⟨"", "", position, []⟩

/-- The node with its tag replaced. -/
def withTag (t : Tree) (tag : String) : Tree := { t with tag }

/-- The node as the result of a parser called `name`, which goes before the tag it had. -/
def tagged (t : Tree) (name : String) : Tree :=
  t.withTag (if t.tag = "" then name else name ++ "|" ++ t.tag)

/-! ## Looking at trees -/

/-- Whether the node has no children. -/
def isLeaf (t : Tree) : Bool := t.children.isEmpty

/-- Whether the node has neither tag nor contents nor children. -/
def isEmpty (t : Tree) : Bool := t.tag = "" && t.contents = "" && t.children.isEmpty

/-- The names a tag is joined from. -/
def components : List Char → List (List Char)
  | [] => [[]]
  | c :: rest =>
    if c = '|' then [] :: components rest
    else match components rest with
      | [] => [[c]]
      | first :: others => (c :: first) :: others

/-- Whether `name` is one of the names in the tag. -/
def hasTag (t : Tree) (name : String) : Bool := (components t.tag.toList).contains name.toList

/-- The first child with `name` in its tag. -/
def find? (t : Tree) (name : String) : Option Tree := t.children.find? (·.hasTag name)

/-- The child at a place, if there is one. -/
def child? (t : Tree) (index : Nat) : Option Tree := t.children[index]?

end Tree

end ParserGraph
