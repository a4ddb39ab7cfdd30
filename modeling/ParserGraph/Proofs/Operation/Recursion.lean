import ParserGraph.Proofs.Graph.Release
import ParserGraph.Proofs.Operation.Lifetime
import ParserGraph.Proofs.Validation.Owners

/-!
# Left recursion of programs — whose name is told of a cycle

Only a placeholder can be given an operand that was made after it, and
placeholders have names. So in the graph of a program every node without a
name was made after its operands (`Graph.Sorted`), whatever operations were
made (`Operation.founded_runAll`), and a cycle of calls cannot go through such
nodes only (`Graph.Sorted.exists_name`). What validation tells of left
recursion is therefore always the name of a node, from which unnamed operands
lead to a cycle (`Operation.validate_leftRecursion_named`). That node may lie
on no cycle at all (`Operation.validate_leftRecursion_outside`).
-/

namespace ParserGraph

open Event ParserGraph.Graph
open scoped List

/-- What comes before something in a list without repetitions has a lower index. -/
theorem idxOf_lt_idxOf {α : Type} [BEq α] [LawfulBEq α] {order : List α} {o p : α}
    (hnodup : order.Nodup) (h : [o, p] <+ order) : order.idxOf o < order.idxOf p := by
  induction order with
  | nil => exact nomatch h
  | cons x order ih =>
    obtain ⟨hx, hnodup⟩ := List.nodup_cons.1 hnodup
    cases h with
    | cons _ h =>
      have hmem := h.subset
      have ho : x ≠ o := fun he => hx (he ▸ hmem List.mem_cons_self)
      have hp : x ≠ p := fun he => hx (he ▸ hmem (List.mem_cons_of_mem _ List.mem_cons_self))
      rw [List.idxOf_cons_ne _ ho, List.idxOf_cons_ne _ hp]
      exact Nat.succ_lt_succ (ih hnodup h)
    | cons_cons _ h =>
      have hp : o ≠ p := fun he => hx (he ▸ h.subset List.mem_cons_self)
      rw [List.idxOf_cons_self, List.idxOf_cons_ne _ hp]
      exact Nat.succ_pos _

namespace Graph

variable {g g' : Graph} {order order' : List ParserId} {id : ParserId} {node : Node}
  {es : List Event}

/-! ## Nodes in the order in which they were made -/

/-- A node that may stand behind the ids of some order: it has a name, or is no rule and has its
operands among them. -/
def MayFollow (order : List ParserId) (node : Node) : Prop :=
  node.name = none → (∀ body, node.kind ≠ .rule body) ∧ ∀ o ∈ node.kind.operands, o ∈ order

/-- A node without a name is no rule, and its operands come before it in the order in which ids were
given out. -/
def Sorted (order : List ParserId) (g : Graph) : Prop :=
  ∀ id node, g.node? id = some node → node.name = none →
    (∀ body, node.kind ≠ .rule body) ∧ ∀ o ∈ node.kind.operands, [o, id] <+ order

namespace Sorted

theorem empty : Graph.empty.Sorted [] := fun _ _ hnode => nomatch hnode

/-- Giving out more ids, and taking nodes away, leaves the rest in order. -/
theorem mono (h : g.Sorted order) (horder : order <+ order')
    (hsub : ∀ id node, g'.node? id = some node → g.node? id = some node) : g'.Sorted order' := by
  intro id node hnode hname
  obtain ⟨hkind, hops⟩ := h id node (hsub id node hnode) hname
  exact ⟨hkind, fun o ho => (hops o ho).trans horder⟩

/-- A node that is added comes behind its operands. -/
theorem added (h : g.Sorted order) (hadded : g.Added id node g') (hnode : MayFollow order node) :
    g'.Sorted (order ++ [id]) := by
  intro id' node' hnode' hname
  rw [hadded.node?_eq] at hnode'
  split at hnode'
  · next hid =>
    cases hnode'
    obtain ⟨hkind, hops⟩ := hnode hname
    refine ⟨hkind, fun o ho => ?_⟩
    rw [hid]
    exact (List.singleton_sublist.2 (hops o ho)).append (List.Sublist.refl [id])
  · obtain ⟨hkind, hops⟩ := h id' node' hnode' hname
    exact ⟨hkind, fun o ho => (hops o ho).trans (List.sublist_append_left _ _)⟩

/-- A node with a name may take the place of another. -/
theorem replace {old : Node} (h : g.Sorted order) (hold : g.node? id = some old)
    (hname : node.name ≠ none) : (g.replace id node).Sorted order := by
  intro id' node' hnode' hname'
  rw [node?_replace hold] at hnode'
  split at hnode'
  · cases hnode'
    exact absurd hname' hname
  · exact h id' node' hnode' hname'

/-- A placeholder that is given a body has a name. -/
theorem define {rule body : ParserId} (h : g.Sorted order) (hdefine : g.define rule body = .ok g') :
    g'.Sorted order := by
  obtain ⟨-, name, hrule, rfl⟩ := define_eq_ok hdefine
  exact h.replace hrule fun hname => (h rule _ hrule hname).1 none rfl

/-- **A cycle of calls goes through a node with a name**, or is led to from one: nodes without names
call only what was made before them. -/
theorem exists_name {roots : List ParserId} (h : g.Sorted order) (hnodup : order.Nodup)
    (hid : g.OnCycle roots id) :
    ∃ n, g.InReach roots n ∧ g.name? n ≠ none ∧
      Relation.ReflTransGen (g.CallsInReach roots) n id := by
  by_contra hnone
  have hunnamed : ∀ p o, g.CallsInReach roots p o →
      Relation.ReflTransGen (g.CallsInReach roots) p id → order.idxOf o < order.idxOf p := by
    intro p o hcall hpath
    have hname : g.name? p = none := by
      by_contra hname
      exact hnone ⟨p, hcall.1, hname, hpath⟩
    obtain ⟨node, hnode⟩ := contains_iff.1 hcall.1.contains
    rw [name?, hnode] at hname
    have hoperand : o ∈ node.kind.operands := by
      rw [← operands_of_node? hnode]
      exact hcall.2.2.mem_operands
    exact idxOf_lt_idxOf hnodup ((h p node hnode hname).2 o hoperand)
  -- so the index goes down along the cycle
  have hdown : ∀ p, Relation.TransGen (g.CallsInReach roots) p id →
      order.idxOf id < order.idxOf p := by
    intro p hpath
    induction hpath using Relation.TransGen.head_induction_on with
    | single hcall => exact hunnamed _ _ hcall (.single hcall)
    | head hcall hrest ih =>
      exact Nat.lt_trans ih (hunnamed _ _ hcall (.head hcall hrest.to_reflTransGen))
  exact Nat.lt_irrefl _ (hdown id hid)

end Sorted

/-! ## Graphs and the events they came about through -/

/-- Only ids that were given out name nodes. -/
theorem Past.mem_createdIds (h : g.Past es) (hid : g.contains id) : id ∈ createdIds es := by
  induction h generalizing id with
  | empty =>
    obtain ⟨node, hnode⟩ := contains_iff.1 hid
    exact nomatch hnode
  | @placed es g node h ih =>
    obtain ⟨node', hnode⟩ := contains_iff.1 hid
    rw [(place_added h.sound node).node?_eq] at hnode
    rw [createdIds_created, List.mem_append]
    split at hnode
    · next heq => exact .inr (List.mem_singleton.2 heq)
    · exact .inl (ih (contains_iff.2 ⟨node', hnode⟩))
  | released h hr ih =>
    obtain ⟨node', hnode⟩ := contains_iff.1 hid
    rw [node?_release? hr] at hnode
    rw [createdIds_released]
    split at hnode
    · exact nomatch hnode
    · exact ih (contains_iff.2 ⟨node', hnode⟩)
  | replaced node h hold ih => exact ih ((contains_replace hold _ _).1 hid)
  | limited depth h ih => exact ih hid

/-- A graph that came about through some events, with its nodes in the order of these. -/
structure Founded (es : List Event) (g : Graph) : Prop where
  past : g.Past es
  sorted : g.Sorted (createdIds es)

/-- Operands that live were given out. -/
theorem Founded.mayFollow (h : g.Founded es) (hkind : ∀ body, node.kind ≠ .rule body)
    (hops : ∀ o ∈ node.kind.operands, g.contains o) : MayFollow (createdIds es) node :=
  fun _ => ⟨hkind, fun o ho => h.past.mem_createdIds (hops o ho)⟩

end Graph

/-! ## Building steps -/

namespace Build

variable {α : Type} {es : List Event} {g : Graph}

/-- A step that adds a node of its own, if it is not refused, keeps nodes in order. -/
theorem carries_founded {step : Build ParserId} (hstep : step.Makes (creates step))
    (hok : ∀ es g id g', g.Founded es → step g = .ok id g' →
      ∃ node, g.Added id node g' ∧ MayFollow (createdIds es) node)
    (herror : ∀ g m g', g.Sound → step g = .error m g' → g' = g) :
    step.Carries (fun es g => g.Founded es) (creates step) := by
  intro es g hg
  refine ⟨hstep es g hg.past, ?_⟩
  rw [leaves, creates, createsThen]
  cases h : step g with
  | ok id g' =>
    obtain ⟨node, hadded, hnode⟩ := hok es g id g' hg h
    rw [createdIds_created]
    exact hg.sorted.added hadded hnode
  | error m g' =>
    rw [herror g m g' hg.past.sound h, List.append_nil]
    exact hg.sorted

theorem insert_founded (kind : Kind) (hkind : ∀ body, kind ≠ .rule body) :
    (insert kind).Carries (fun es g => g.Founded es) (creates (insert kind)) := by
  refine carries_founded (insert_makes kind) (fun es g id g' hg h => ?_) fun g m g' _ h => ?_
  · obtain ⟨hadded, hops⟩ := insert_eq_ok hg.past.sound h
    exact ⟨_, hadded, hg.mayFollow hkind hops⟩
  · unfold insert at h
    split at h
    · cases h
      rfl
    · exact nomatch h

theorem repetition_founded (part : ParserId) (min : Nat) (max : Option Nat) :
    (repetition part min max).Carries (fun es g => g.Founded es)
      (creates (repetition part min max)) := by
  unfold repetition
  cases max with
  | none => exact insert_founded _ nofun
  | some high =>
    dsimp only
    split
    · -- bounds that are not in order are refused before anything is done
      intro es g hg
      have hcreates : creates (throw (.invertedBounds min high) : Build ParserId) g = [] := rfl
      rw [hcreates, List.append_nil]
      exact hg
    · exact insert_founded _ nofun

theorem rule_founded (name : String) :
    (rule name).Carries (fun es g => g.Founded es) (creates (rule name)) := by
  refine carries_founded (rule_makes name) (fun es g id g' hg h => ?_) fun g m g' hsound h => ?_
  · exact ⟨_, rule_eq_ok hg.past.sound h, fun hname => nomatch hname⟩
  · rw [rule_eq hsound] at h
    exact nomatch h

theorem whitespace_founded :
    whitespace.Carries (fun es g => g.Founded es) (creates whitespace) :=
  insert_founded (.terminal (.satisfy "whitespace" CharSet.whiteSpace.contains)) nofun

theorem lexeme_founded (part : ParserId) :
    (lexeme part).Carries (fun es g => g.Founded es) (lexemeEvents part) :=
  whitespace_founded.bind fun space =>
    (repetition_founded space 0 none).bind fun spaces =>
      (insert_founded (.sequence [part, spaces]) nofun).bind fun both =>
        insert_founded (.transform both Tree.first) nofun

theorem named_founded (id : ParserId) (name : String) :
    (named id name).Carries (fun es g => g.Founded es) fun _ => [] := by
  intro es g hg
  refine ⟨named_makes id name es g hg.past, ?_⟩
  rw [List.append_nil, leaves, named]
  cases h : g.node? id with
  | none => exact hg.sorted
  | some node => exact hg.sorted.replace h (Option.some_ne_none name)

end Build

/-! ## Compiling -/

namespace Grammar

variable {es : List Event} {g : Graph}

/-- **No change to a draft puts its nodes out of order.** -/
theorem Draft.stable_founded (es : List Event) :
    Draft.Stable fun d => d.graph.Founded (es ++ d.created.reverse.map .created) where
  insert := fun kind hkind => add_maintains (P := fun es g => g.Founded es)
    (Build.insert_founded kind fun body heq => by
      subst heq
      exact hkind)
  repetition := fun part min max => add_maintains (P := fun es g => g.Founded es)
    (Build.repetition_founded part min max)
  rule := fun name => add_maintains (P := fun es g => g.Founded es) (Build.rule_founded name)
  define := by
    intro rule body d hd
    rw [Drafting.leaves, Draft.define]
    cases h : d.graph.define rule body with
    | ok g => exact ⟨hd.past.define h, hd.sorted.define h⟩
    | error e => exact hd
  spaces := fun _ _ hd => hd

theorem assemble_founded (ds : List Definition) (bindings : List ParserId) (sensitive : Bool) :
    (assemble ds bindings sensitive).Carries (fun es g => g.Founded es)
      (assembleEvents ds bindings sensitive) := by
  intro es g hg
  refine ⟨assemble_makes ds bindings sensitive es g hg.past, ?_⟩
  rw [Build.leaves, assemble, assembleEvents]
  cases hcheck : check g ds bindings with
  | error e => exact (List.append_nil es).symm ▸ hg.sorted
  | ok bound =>
    dsimp only
    have hbuilt := (Draft.stable_founded es).build sensitive bound ds ⟨g, none, [], []⟩
      (by simpa using hg)
    rw [Drafting.leaves] at hbuilt
    cases hbuild : Draft.build sensitive bound ds ⟨g, none, [], []⟩ with
    | error m d =>
      rw [hbuild] at hbuilt
      exact hbuilt.sorted
    | ok r d =>
      rw [hbuild] at hbuilt
      cases r with
      | ok c => exact hbuilt.sorted
      | error e =>
        -- a draft that is undone leaves the nodes of the base
        obtain ⟨hover, -, -⟩ := Draft.build_spec hg.past.sound hcheck hbuild
        obtain ⟨-, -, hnode⟩ := hover.undone_restores
        refine hg.sorted.mono ?_ fun id node h => (hnode id).symm.trans h
        exact (List.sublist_append_left _ _).filterMap _

theorem compile_founded (dialect : Pattern.Dialect) (text : String) (bindings : List ParserId)
    (sensitive : Bool) :
    (compile dialect text bindings sensitive).Carries (fun es g => g.Founded es)
      (compileEvents dialect text bindings sensitive) := by
  intro es g hg
  rw [leaves_compile]
  unfold compileEvents
  generalize definitions dialect text = read
  cases read with
  | error m => exact (List.append_nil es).symm ▸ hg
  | ok read =>
    cases read with
    | error e => exact (List.append_nil es).symm ▸ hg
    | ok ds => exact assemble_founded ds bindings sensitive es g hg

end Grammar

/-! ## Operations -/

namespace Operation

/-- An operation that a program has: repetitions and placeholders are made by constructors of their
own. -/
def Direct : Operation → Prop
  | .insert kind => kind.Direct
  | _ => True

/-- **Every operation keeps nodes in the order in which they were made.** -/
theorem founded_run {op : Operation} (hop : op.Direct) (es : List Event) (g : Graph)
    (hg : g.Founded es) : (op.run g).Founded (es ++ op.events g) := by
  cases op with
  | insert kind =>
    refine Build.insert_founded kind (fun body heq => ?_) es g hg
    subst heq
    exact hop
  | repetition part min max => exact Build.repetition_founded part min max es g hg
  | lexeme part => exact Build.lexeme_founded part es g hg
  | rule name => exact Build.rule_founded name es g hg
  | named id name => exact Build.named_founded id name es g hg
  | define id body =>
    rw [run_define, events, List.append_nil]
    cases hdefine : g.define id body with
    | ok g' => exact ⟨hg.past.define hdefine, hg.sorted.define hdefine⟩
    | error e => exact hg
  | setMaxDepth depth =>
    rw [run, events, List.append_nil]
    exact ⟨hg.past.limited depth, hg.sorted⟩
  | cleanup roots =>
    refine ⟨hg.past.cleanup roots, hg.sorted.mono ?_ fun id node h => ?_⟩
    · exact (List.sublist_append_left _ _).filterMap _
    · rw [run, node?_cleanup] at h
      split at h
      · cases h
      · exact h
  | compile dialect text bindings sensitive =>
    exact Grammar.compile_founded dialect text bindings sensitive es g hg

theorem founded_runAll {ops : List Operation} (hops : ∀ op ∈ ops, op.Direct) :
    (runAll ops).Founded (eventsAll ops) :=
  foldl_run_carries (P := fun es g => g.Founded es) (fun op hop => founded_run (hops op hop))
    ⟨.empty, .empty⟩

/-- **What is told of left recursion is the name of a node that leads to a cycle.** In the graph of
a program, when validation tells of left recursion there is a cycle of calls made before anything is
taken. As long as no slot is released so often that its generations come round, what is told is the
name of a node from which operands without names lead to that cycle. This node lies on a cycle
itself if cycles are entered at nodes with names only. -/
theorem validate_leftRecursion_named (ops : List Operation) (hops : ∀ op ∈ ops, op.Direct)
    (roots : List ParserId) {context : String}
    (h : (runAll ops).validate roots = .error (.leftRecursion context)) :
    ∃ id, (runAll ops).OnCycle roots id ∧
      ((∀ index, releases (eventsAll ops) index < 2 ^ 32) →
        ∃ m, (runAll ops).InReach roots m ∧ (runAll ops).name? m = some context ∧
          Relation.ReflTransGen ((runAll ops).PassesOn ((runAll ops).reachable roots)) m id ∧
          ((runAll ops).EntersByName roots → (runAll ops).OnCycle roots m)) := by
  obtain ⟨id, hid, rfl⟩ := validate_leftRecursion h
  refine ⟨id, hid, fun hfew => ?_⟩
  have hfounded := founded_runAll hops
  obtain ⟨n, hn, hname, hcalls⟩ :=
    hfounded.sorted.exists_name (hfounded.past.identities hfew).nodup_created hid
  obtain ⟨name, howned⟩ := exists_owned hn hname hcalls
  rcases (runAll ops).owned_or_described ((runAll ops).reachable roots) id with
    ⟨m, hm, hbears, hpath⟩ | ⟨-, hnone⟩
  · exact ⟨m, mem_reachable.1 hm, hbears, hpath, fun henters => henters.onCycle hpath hid⟩
  · exact absurd howned (hnone name)

/-! ## A name from outside -/

/-- A program that makes a value of two layers, the inner of which is a value or nothing, and a
document of the inner layer alone. The document leads to the cycle past the name of the value, and
it is nearer to where it gets there. -/
def outside : List Operation :=
  [.rule "value", .insert (.optional ⟨0, 0⟩), .insert (.optional ⟨1, 0⟩), .define ⟨0, 0⟩ ⟨2, 0⟩,
    .insert (.sequence [⟨1, 0⟩]), .named ⟨3, 0⟩ "document"]

theorem runAll_outside : runAll outside =
    ⟨#[.live 0 ⟨some "value", .rule (some ⟨2, 0⟩)⟩, .live 0 ⟨none, .optional ⟨0, 0⟩⟩,
      .live 0 ⟨none, .optional ⟨1, 0⟩⟩, .live 0 ⟨some "document", .sequence [⟨1, 0⟩]⟩],
      [], 4, 256⟩ := by
  cbv

theorem eventsAll_outside : eventsAll outside =
    [.created ⟨0, 0⟩, .created ⟨1, 0⟩, .created ⟨2, 0⟩, .created ⟨3, 0⟩] := by
  cbv

/-- From the value, what is told is the name of the value, which lies on the cycle. -/
theorem validate_leftRecursion_value :
    (∀ op ∈ outside, op.Direct) ∧
      (runAll outside).validate [⟨0, 0⟩] = .error (.leftRecursion "value") ∧
      ∃ m, (runAll outside).name? m = some "value" ∧ (runAll outside).OnCycle [⟨0, 0⟩] m := by
  have hops : ∀ op ∈ outside, op.Direct := by
    simp [outside, Direct, Kind.Direct]
  have hvalidate : (runAll outside).validate [⟨0, 0⟩] = .error (.leftRecursion "value") := by
    rw [runAll_outside]
    cbv
  have hfew : ∀ index, releases (eventsAll outside) index < 2 ^ 32 := by
    intro index
    rw [eventsAll_outside]
    refine Nat.lt_of_le_of_lt List.countP_le_length ?_
    decide
  have henters : (runAll outside).EntersByName [⟨0, 0⟩] := by
    have hreachable : (runAll outside).reachable [⟨0, 0⟩] = [⟨0, 0⟩, ⟨2, 0⟩, ⟨1, 0⟩] := by
      rw [runAll_outside]
      cbv
    intro p o hp ho hname hcycle
    have hp : p ∈ (runAll outside).reachable [⟨0, 0⟩] := mem_reachable.2 hp
    rw [hreachable] at hp
    rw [runAll_outside] at ho hname hcycle ⊢
    obtain rfl | rfl | rfl : p = ⟨0, 0⟩ ∨ p = ⟨2, 0⟩ ∨ p = ⟨1, 0⟩ := by simpa using hp
    -- the cycle goes on from an operand to the node itself
    · obtain rfl : o = ⟨2, 0⟩ := List.mem_singleton.1 ho
      exact (hcycle.of_singleton rfl rfl).of_singleton rfl rfl
    · obtain rfl : o = ⟨1, 0⟩ := List.mem_singleton.1 ho
      exact (hcycle.of_singleton rfl rfl).of_singleton rfl rfl
    · obtain rfl : o = ⟨0, 0⟩ := List.mem_singleton.1 ho
      cases hname
  obtain ⟨id, -, hnamed⟩ := validate_leftRecursion_named outside hops [⟨0, 0⟩] hvalidate
  obtain ⟨m, -, hname, -, hcycle⟩ := hnamed hfew
  exact ⟨hops, hvalidate, m, hname, hcycle henters⟩

/-- **What is told of left recursion may be the name of a node that lies on no cycle.** From the
document, what is told is its own name, but nothing has the document for an operand. -/
theorem validate_leftRecursion_outside :
    (∀ op ∈ outside, op.Direct) ∧
      (runAll outside).validate [⟨3, 0⟩] = .error (.leftRecursion "document") ∧
      ¬ ∃ p, (runAll outside).name? p = some "document" ∧
        Relation.TransGen (runAll outside).MayCall p p := by
  refine ⟨by simp [outside, Direct, Kind.Direct], by rw [runAll_outside]; cbv, ?_⟩
  rintro ⟨p, hname, hcycle⟩
  obtain ⟨o, hfirst, -⟩ := Relation.TransGen.head'_iff.1 hcycle
  obtain ⟨q, -, hlast⟩ := Relation.TransGen.tail'_iff.1 hcycle
  have hids : ∀ id, (runAll outside).contains id → id ∈ createdIds (eventsAll outside) :=
    fun id => (past_runAll outside).mem_createdIds
  have hp := hids p (contains_of_mem_operands hfirst.mem_operands)
  have hq := hids q (contains_of_mem_operands hlast.mem_operands)
  have hno : ∀ p ∈ createdIds (eventsAll outside), (runAll outside).name? p = some "document" →
      ∀ q ∈ createdIds (eventsAll outside), p ∉ (runAll outside).operands q := by
    rw [runAll_outside, eventsAll_outside]
    decide
  exact hno p hp hname q hq hlast.mem_operands

end Operation

end ParserGraph
