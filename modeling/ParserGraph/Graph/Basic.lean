import ParserGraph.Graph.Node

/-!
# Graphs — an arena of parsers

Nodes live in numbered slots. Releasing a node raises the generation of its
slot and puts the slot on a stack; the next node takes the slot released
last, or a new one when none is free. An id whose generation is not the one
of its slot is stale and names nothing.
-/

namespace ParserGraph

/-- A place for a node, with the generation of the node that is there or comes next. -/
inductive Slot where
  /-- A node lives here. -/
  | live (generation : UInt32) (node : Node)
  /-- Nothing lives here. -/
  | free (generation : UInt32)

/-- The generation a slot is in. -/
def Slot.generation : Slot → UInt32
  | live generation _ => generation
  | free generation => generation

/-- Whether a node lives in the slot. -/
def Slot.isLive : Slot → Bool
  | live _ _ => true
  | free _ => false

/-- The node that lives in the slot, if it is of the given generation. -/
def Slot.node? (generation : UInt32) : Slot → Option Node
  | live generation' node => if generation' = generation then some node else none
  | free _ => none

/-- How many parsers may be nested during a run unless told otherwise. -/
def defaultMaxDepth : Nat := 256

/-- An arena of parsers. -/
structure Graph where
  /-- The slots by number. -/
  slots : Array Slot
  /-- The numbers of the free slots, the one released last in front. -/
  free : List Nat
  /-- How many nodes live. -/
  live : Nat
  /-- How many parsers may be nested during a run. -/
  maxDepth : Nat

/-- Why a change to a graph is refused. -/
inductive GraphError where
  /-- The id names no node. -/
  | released (id : ParserId)
  /-- The node is no placeholder. -/
  | notARule (id : ParserId)
  /-- The placeholder has a body already. -/
  | alreadyDefined (name : String)
deriving DecidableEq, Repr

/-- The text of a refusal. -/
def GraphError.message : GraphError → String
  | released id => "parser " ++ id.text ++ " has been released"
  | notARule id => "parser " ++ id.text ++ " is not a rule placeholder"
  | alreadyDefined name => "rule <" ++ name ++ "> is already defined"

/-- A use of the library that its contract rules out. -/
inductive Misuse where
  /-- A parser refers to, or a run enters, an id that names no node. -/
  | usedAfterCleanup (id : ParserId)
  /-- A name is given to an id that names no node. -/
  | released (id : ParserId)
  /-- A repetition is asked for at most fewer times than at least. -/
  | invertedBounds (min max : Nat)
  /-- A table is asked for a rule it has not. -/
  | noRule (name : String)
  /-- A tree is asked for a child it has not. -/
  | noChild (count index : Nat)
  /-- A placeholder that must be free to define is not. -/
  | undefinable (error : GraphError)
deriving DecidableEq, Repr

/-- The text of a misuse. -/
def Misuse.message : Misuse → String
  | usedAfterCleanup id => "parser " ++ id.text ++ " used after cleanup"
  | released id => "parser " ++ id.text ++ " has been released"
  | invertedBounds min max =>
    "repetition bounds " ++ toString min ++ ".." ++ toString max ++ " are inverted"
  | noRule name => "grammar has no rule <" ++ name ++ ">"
  | noChild count index =>
    "index out of bounds: the len is " ++ toString count ++ " but the index is " ++ toString index
  | undefinable error => error.message

/-- The child of a tree at a place that must exist. -/
def Tree.child (t : Tree) (index : Nat) : Except Misuse Tree :=
  match t.child? index with
  | some child => .ok child
  | none => .error (.noChild t.children.length index)

namespace Graph

/-- The graph without a node. -/
def empty : Graph := ⟨#[], [], 0, defaultMaxDepth⟩

instance : Inhabited Graph := ⟨empty⟩

/-! ## Looking nodes up -/

/-- The node an id names, if it lives. -/
def node? (g : Graph) (id : ParserId) : Option Node :=
  g.slots[id.index]?.bind (Slot.node? id.generation)

/-- Whether an id names a node. -/
def contains (g : Graph) (id : ParserId) : Bool := (g.node? id).isSome

/-- The name of a node, if it lives and has one. -/
def name? (g : Graph) (id : ParserId) : Option String := (g.node? id).bind Node.name

/-- What a node does, if it lives. -/
def kind? (g : Graph) (id : ParserId) : Option Kind := (g.node? id).map Node.kind

/-- The operands of a node; none if it does not live. -/
def operands (g : Graph) (id : ParserId) : List ParserId :=
  ((g.kind? id).map Kind.operands).getD []

/-- Whether an id names a placeholder without a body. -/
def isUndefinedRule (g : Graph) (id : ParserId) : Bool :=
  match g.kind? id with
  | some (.rule none) => true
  | _ => false

/-- A parser in words. -/
def describe (g : Graph) (id : ParserId) : String :=
  match g.node? id with
  | some node => node.describe
  | none => "<released " ++ id.text ++ ">"

/-- The id of the node in a slot, if one lives there. -/
def idAt? (g : Graph) (index : Nat) : Option ParserId :=
  match g.slots[index]? with
  | some (.live generation _) => some ⟨index, generation⟩
  | _ => none

/-- The ids of all nodes, by slot. -/
def liveIds (g : Graph) : List ParserId := (List.range g.slots.size).filterMap g.idAt?

/-! ## Changing graphs -/

/-- Puts a node into a slot, which keeps its generation. -/
def put (g : Graph) (index : Nat) (node : Node) : ParserId × Graph :=
  let generation := (g.slots[index]?.map Slot.generation).getD 0
  (⟨index, generation⟩, { g with slots := g.slots.setIfInBounds index (.live generation node) })

/-- Puts a node into the slot released last, or a new one. -/
def place (g : Graph) (node : Node) : ParserId × Graph :=
  match g.free with
  | index :: free =>
    let (id, g) := g.put index node
    (id, { g with free, live := g.live + 1 })
  | [] =>
    (⟨g.slots.size, 0⟩, { g with slots := g.slots.push (.live 0 node), live := g.live + 1 })

/-- Takes a node out of the graph, whatever refers to it. -/
def release? (g : Graph) (id : ParserId) : Option (Node × Graph) :=
  (g.node? id).map fun node =>
    (node, { g with
      slots := g.slots.setIfInBounds id.index (.free (id.generation + 1))
      free := id.index :: g.free
      live := g.live - 1 })

/-- Replaces the node an id names. -/
def replace (g : Graph) (id : ParserId) (node : Node) : Graph :=
  { g with slots := g.slots.setIfInBounds id.index (.live id.generation node) }

/-- Gives a placeholder its body. The body is looked at first. -/
def define (g : Graph) (rule body : ParserId) : Except GraphError Graph :=
  if !g.contains body then .error (.released body)
  else match g.node? rule with
    | none => .error (.released rule)
    | some node =>
      match node.kind with
      | .rule none => .ok (g.replace rule { node with kind := .rule (some body) })
      | .rule (some _) => .error (.alreadyDefined (node.name.getD ""))
      | _ => .error (.notARule rule)

/-- Takes the body of a placeholder away. -/
def undefine (g : Graph) (rule : ParserId) : Graph :=
  match g.node? rule with
  | some ⟨name, .rule _⟩ => g.replace rule ⟨name, .rule none⟩
  | _ => g

/-- The graph with another limit on nested parsers. -/
def setMaxDepth (g : Graph) (depth : Nat) : Graph := { g with maxDepth := depth }

/-! ## What changes do to lookups -/

/-- An id names a node exactly when its slot holds one of its generation. -/
theorem node?_eq_some_iff {g : Graph} {id : ParserId} {node : Node} :
    g.node? id = some node ↔ g.slots[id.index]? = some (.live id.generation node) := by
  unfold node?
  cases hs : g.slots[id.index]? with
  | none => simp
  | some slot =>
    cases slot with
    | live generation node' =>
      by_cases h : generation = id.generation <;> simp [Slot.node?, h]
    | free generation => simp [Slot.node?]

@[simp]
theorem node?_empty (id : ParserId) : empty.node? id = none := rfl

@[simp]
theorem node?_setMaxDepth (g : Graph) (depth : Nat) (id : ParserId) :
    (g.setMaxDepth depth).node? id = g.node? id := rfl

/-- Two nodes never live in one slot, so ids of one slot that both name nodes are equal. -/
theorem eq_of_index_eq {g : Graph} {id id' : ParserId} {node node' : Node}
    (h : g.node? id = some node) (h' : g.node? id' = some node') (hi : id.index = id'.index) :
    id = id' := by
  rw [node?_eq_some_iff] at h h'
  rw [hi, h'] at h
  simp only [Option.some.injEq, Slot.live.injEq] at h
  obtain ⟨index, generation⟩ := id
  obtain ⟨index', generation'⟩ := id'
  simp_all

/-- After a change to one slot, an id is looked up in what the slot holds now or as before. -/
theorem node?_setSlot (g : Graph) (index : Nat) (slot : Slot) (free : List Nat) (live : Nat)
    (hi : index < g.slots.size) (id : ParserId) :
    node? ⟨g.slots.setIfInBounds index slot, free, live, g.maxDepth⟩ id =
      if id.index = index then slot.node? id.generation else g.node? id := by
  unfold node?
  by_cases h : id.index = index
  · simp [h, hi]
  · simp [h, Ne.symm h]

/-- Replacing a node changes what its own id names and nothing else. -/
theorem node?_replace {g : Graph} {id : ParserId} {old : Node} (h : g.node? id = some old)
    (node : Node) (id' : ParserId) :
    (g.replace id node).node? id' = if id' = id then some node else g.node? id' := by
  have hi : id.index < g.slots.size := (Array.getElem?_eq_some_iff.1 (node?_eq_some_iff.1 h)).1
  rw [replace, node?_setSlot g _ _ _ _ hi]
  by_cases he : id' = id
  · simp [he, Slot.node?]
  · rw [if_neg he]
    by_cases hidx : id'.index = id.index
    · have hold : g.node? id' = none := Option.eq_none_iff_forall_ne_some.2 fun node' h' =>
        he (eq_of_index_eq h' h hidx)
      have hgen : id.generation ≠ id'.generation := fun hgen => he <| by
        obtain ⟨index, generation⟩ := id
        obtain ⟨index', generation'⟩ := id'
        simp_all
      simp [hidx, Slot.node?, hgen, hold]
    · simp [hidx]

/-- Releasing a node makes its id stale and leaves all others as they are. -/
theorem node?_release? {g g' : Graph} {id : ParserId} {node : Node}
    (h : g.release? id = some (node, g')) (id' : ParserId) :
    g'.node? id' = if id' = id then none else g.node? id' := by
  simp only [release?, Option.map_eq_some_iff, Prod.mk.injEq] at h
  obtain ⟨node', hnode, -, rfl⟩ := h
  have hi : id.index < g.slots.size :=
    (Array.getElem?_eq_some_iff.1 (node?_eq_some_iff.1 hnode)).1
  rw [node?_setSlot g _ _ _ _ hi]
  by_cases he : id' = id
  · simp [he, Slot.node?]
  · rw [if_neg he]
    by_cases hidx : id'.index = id.index
    · have hold : g.node? id' = none := Option.eq_none_iff_forall_ne_some.2 fun node' h' =>
        he (eq_of_index_eq h' hnode hidx)
      simp [hidx, Slot.node?, hold]
    · simp [hidx]

/-- A node is released exactly if it lives, and is what is taken out. -/
theorem release?_fst (g : Graph) (id : ParserId) :
    (g.release? id).map Prod.fst = g.node? id := by
  simp [release?, Function.comp_def]

end Graph

end ParserGraph
