import ParserGraph.Proofs.Operation.Basic
import ParserGraph.Proofs.Run.Location

/-!
# Bounds — the repetitions a program can make

The constructor of repetitions refuses bounds that are out of order, and every
other operation leaves the bounds of nodes as they are, compiling included, as
it makes repetitions by that constructor too. So a graph that a program came
to holds none but ordered ones (`Operation.ordered_runAll`), and in its runs
every place and every error is what the input makes it
(`Operation.runAll_calls_located`).
-/

namespace ParserGraph

/-! ## Changing one node -/

namespace Graph.Ordered

variable {g : Graph}

theorem empty : Graph.empty.Ordered := fun _ _ h => nomatch h

/-- A change to one slot keeps bounds in order if those of what the slot holds then are. -/
theorem setSlot (h : g.Ordered) {index live : Nat} {slot : Slot} {free : List Nat}
    (hslot : ∀ generation node, slot = .live generation node → node.kind.Ordered) :
    Graph.Ordered ⟨g.slots.setIfInBounds index slot, free, live, g.maxDepth⟩ := by
  intro id node hnode
  rw [node?_eq_some_iff] at hnode
  dsimp only at hnode
  by_cases hindex : index = id.index
  · subst hindex
    by_cases hlt : id.index < g.slots.size
    · rw [Array.getElem?_setIfInBounds_self_of_lt hlt] at hnode
      exact hslot _ _ (Option.some.inj hnode)
    · rw [Array.getElem?_eq_none (by simpa using Nat.le_of_not_lt hlt)] at hnode
      exact nomatch hnode
  · rw [Array.getElem?_setIfInBounds_ne hindex] at hnode
    exact h id node (node?_eq_some_iff.2 hnode)

theorem place (h : g.Ordered) {node : Node} (hnode : node.kind.Ordered) :
    (g.place node).2.Ordered := by
  unfold Graph.place
  split
  · refine setSlot h fun generation node' hslot => ?_
    cases hslot
    exact hnode
  · intro id node' hid
    rw [node?_eq_some_iff] at hid
    dsimp only at hid
    rw [Array.getElem?_push] at hid
    split at hid
    · obtain ⟨-, rfl⟩ := Slot.live.inj (Option.some.inj hid)
      exact hnode
    · exact h id node' (node?_eq_some_iff.2 hid)

theorem replace (h : g.Ordered) (id : ParserId) {node : Node} (hnode : node.kind.Ordered) :
    (g.replace id node).Ordered := by
  refine setSlot h fun generation node' hslot => ?_
  cases hslot
  exact hnode

theorem release? (h : g.Ordered) {id : ParserId} {r : Node × Graph}
    (hr : g.release? id = some r) : r.2.Ordered := by
  obtain ⟨node, -, rfl⟩ := Option.map_eq_some_iff.1 hr
  exact setSlot h fun _ _ hslot => nomatch hslot

theorem define (h : g.Ordered) {rule body : ParserId} {g' : Graph}
    (hdefine : g.define rule body = .ok g') : g'.Ordered := by
  obtain ⟨-, name, -, rfl⟩ := define_eq_ok hdefine
  exact h.replace rule trivial

theorem undefine (h : g.Ordered) (rule : ParserId) : (g.undefine rule).Ordered := by
  unfold Graph.undefine
  split
  · exact h.replace rule trivial
  · exact h

theorem cleanup (h : g.Ordered) (roots : List ParserId) : (g.cleanup roots).2.Ordered := by
  have hfrom : ∀ pending before, (g.cleanupFrom pending before).2.Ordered := by
    intro pending before
    fun_induction Graph.cleanupFrom g pending before with
    | case1 g before => exact h
    | case2 g before id pending hr ih => exact ih h
    | case3 g before id pending node g' hr ih => exact ih (h.release? hr)
  exact hfrom _ _

theorem discard (h : g.Ordered) (ids : List ParserId) : (g.discard ids).Ordered := by
  induction ids generalizing g with
  | nil => exact h
  | cons id ids ih =>
    have hnext : (((g.release? id).map Prod.snd).getD g).Ordered := by
      cases hr : g.release? id with
      | none => exact h
      | some r => exact h.release? hr
    exact ih hnext

end Graph.Ordered

/-- What is no repetition has no bounds. -/
theorem Kind.ordered_of_ne {kind : Kind} (h : ∀ part min max, kind ≠ .repetition part min max) :
    kind.Ordered := by
  cases kind with
  | repetition part min max => exact absurd rfl (h part min max)
  | _ => trivial

theorem Kind.Direct.ordered {kind : Kind} (h : kind.Direct) : kind.Ordered :=
  ordered_of_ne fun _ _ _ heq => by
    subst heq
    exact h

/-! ## Building steps -/

namespace Build

variable {α β : Type}

/-- A step that keeps bounds in order, whether it is refused or not. -/
def KeepsOrder (step : Build α) : Prop := ∀ g : Graph, g.Ordered → (step.leaves g).Ordered

theorem KeepsOrder.bind {step : Build α} {f : α → Build β} (hstep : step.KeepsOrder)
    (hf : ∀ a, (f a).KeepsOrder) : (step >>= f).KeepsOrder := by
  intro g hg
  have h := hstep g hg
  rw [leaves] at h
  rw [leaves_bind]
  cases hrun : step g with
  | ok a g' =>
    rw [hrun] at h
    exact hf a g' h
  | error m g' =>
    rw [hrun] at h
    exact h

theorem insert_keepsOrder (kind : Kind) (hkind : kind.Ordered) : (insert kind).KeepsOrder := by
  intro g hg
  unfold leaves insert
  split
  · next h =>
    split at h
    · exact nomatch h
    · cases h
      exact hg.place hkind
  · next h =>
    split at h
    · cases h
      exact hg
    · exact nomatch h

theorem repetition_keepsOrder (part : ParserId) (min : Nat) (max : Option Nat) :
    (repetition part min max).KeepsOrder := by
  unfold repetition
  cases max with
  | none => exact insert_keepsOrder _ trivial
  | some high =>
    dsimp only
    split
    · exact fun _ hg => hg
    · next hle => exact insert_keepsOrder _ (Nat.le_of_not_lt hle)

theorem named_keepsOrder (id : ParserId) (name : String) : (named id name).KeepsOrder := by
  intro g hg
  unfold leaves named
  cases hnode : g.node? id with
  | none => exact hg
  | some node => exact hg.replace id (hg id node hnode)

theorem rule_keepsOrder (name : String) : (rule name).KeepsOrder :=
  (insert_keepsOrder (.rule none) trivial).bind fun id => named_keepsOrder id name

theorem whitespace_keepsOrder : whitespace.KeepsOrder :=
  insert_keepsOrder (.terminal (.satisfy "whitespace" CharSet.whiteSpace.contains)) trivial

theorem lexeme_keepsOrder (part : ParserId) : (lexeme part).KeepsOrder :=
  whitespace_keepsOrder.bind fun space => (repetition_keepsOrder space 0 none).bind fun spaces =>
    (insert_keepsOrder (.sequence [part, spaces]) trivial).bind fun both =>
      insert_keepsOrder (.transform both Tree.first) trivial

end Build

/-! ## Compiling -/

namespace Grammar

theorem add_maintains_ordered {step : Build ParserId} (hstep : step.KeepsOrder) :
    (Draft.add step).Maintains fun d => d.graph.Ordered := by
  refine Drafting.Maintains.add (fun d id g hd h => ?_) fun d m g hd h => ?_
  · have hordered := hstep _ hd
    rw [Build.leaves, h] at hordered
    exact hordered
  · have hordered := hstep _ hd
    rw [Build.leaves, h] at hordered
    exact hordered

/-- **No change to a draft puts bounds out of order.** -/
theorem Draft.stable_ordered : Draft.Stable fun d => d.graph.Ordered where
  insert := fun kind hkind =>
    add_maintains_ordered (Build.insert_keepsOrder kind hkind.ordered)
  repetition := fun part min max =>
    add_maintains_ordered (Build.repetition_keepsOrder part min max)
  rule := fun name => add_maintains_ordered (Build.rule_keepsOrder name)
  define := by
    intro rule body d hd
    rw [Drafting.leaves, Draft.define]
    cases h : d.graph.define rule body with
    | ok g => exact Graph.Ordered.define hd h
    | error e => exact hd
  spaces := fun _ _ hd => hd

/-- Undoing a draft takes bodies and nodes away. -/
theorem Draft.ordered_undone {d : Draft} (h : d.graph.Ordered) : d.undone.Ordered := by
  have hfoldl : ∀ (rules : List ParserId) (g : Graph), g.Ordered →
      (rules.foldl Graph.undefine g).Ordered := by
    intro rules
    induction rules with
    | nil => exact fun _ hg => hg
    | cons rule rules ih => exact fun g hg => ih _ (hg.undefine rule)
  exact (hfoldl _ _ h).discard _

/-- **Compiling keeps bounds in order**, also when the grammar is rejected. -/
theorem compile_keepsOrder (dialect : Pattern.Dialect) (text : String) (bindings : List ParserId)
    (sensitive : Bool) : (compile dialect text bindings sensitive).KeepsOrder := by
  intro g hg
  rw [leaves_compile]
  split
  · next ds _ =>
    rw [Build.leaves, assemble]
    cases check g ds bindings with
    | error e => exact hg
    | ok bound =>
      have h := Draft.stable_ordered.build sensitive bound ds ⟨g, none, [], []⟩ hg
      rw [Drafting.leaves] at h
      dsimp only
      cases hbuild : Draft.build sensitive bound ds ⟨g, none, [], []⟩ with
      | error m d => rw [hbuild] at h; exact h
      | ok r d =>
        rw [hbuild] at h
        cases r with
        | ok c => exact h
        | error e => exact Draft.ordered_undone h
  · exact hg

end Grammar

/-! ## Operations -/

namespace Operation

/-- An operation that a program has: repetitions are made by their own constructor only. -/
def Offered : Operation → Prop
  | .insert kind => ∀ part min max, kind ≠ .repetition part min max
  | _ => True

theorem ordered_run {op : Operation} (hop : op.Offered) {g : Graph} (hg : g.Ordered) :
    (op.run g).Ordered := by
  cases op with
  | insert kind =>
    exact Build.insert_keepsOrder kind (Kind.ordered_of_ne hop) g hg
  | repetition part min max => exact Build.repetition_keepsOrder part min max g hg
  | lexeme part => exact Build.lexeme_keepsOrder part g hg
  | rule name => exact Build.rule_keepsOrder name g hg
  | named id name => exact Build.named_keepsOrder id name g hg
  | define id body =>
    rw [run_define]
    cases hdefine : g.define id body with
    | ok g' => exact hg.define hdefine
    | error e => exact hg
  | setMaxDepth depth => exact hg
  | cleanup roots => exact hg.cleanup roots
  | compile dialect text bindings sensitive =>
    exact Grammar.compile_keepsOrder dialect text bindings sensitive g hg

/-- **In a graph that a program came to, all bounds are in order.** -/
theorem ordered_runAll {ops : List Operation} (hops : ∀ op ∈ ops, op.Offered) :
    (runAll ops).Ordered :=
  @foldl_run_carries (fun _ g => g.Ordered) ops (fun op hop _ _ hg => ordered_run (hops op hop) hg)
    [] .empty .empty

/-! ## Calls in the graph of a program -/

/-- **Places and errors are what the input makes them.** In a graph that a program came to, a
machine does call by call what the engine does, and its calls keep every place and every error on
the input: they stand behind a beginning of it, with its bytes, lines and columns, and errors tell
the character that comes next. A call that matches moves on within the input; one that fails is back
where it started, and its error points there or further on. -/
theorem runAll_calls_located (ops : List Operation) (hops : ∀ op ∈ ops, op.Offered)
    (input : String) :
    (∀ room id c,
      Machine.Follows c (Machine.FitsFrom c) ((runAll ops).parse room id c)
        ((runAll ops).call room id)) ∧
      (∀ id, (runAll ops).execute id input = (runAll ops).run id input) ∧
      (Machine.start input).Sound input ∧
      ∀ room id (m : Machine) r m', m.Sound input →
        ((runAll ops).call room id).run m = .ok (r, m') →
          m'.Sound input ∧
          (∃ front back, input.toList = front ++ back ∧
            m'.cursor = ⟨front.reverse, back, .behind front⟩) ∧
          m'.cursor.position.offset ≤ input.utf8ByteSize ∧
          match r with
          | .ok _ => m.cursor.position.offset ≤ m'.cursor.position.offset
          | .error e =>
            m'.cursor = m.cursor ∧ e.LocatedIn input ∧
              m.cursor.position.offset ≤ e.position.offset := by
  refine ⟨(runAll ops).call_follows, fun id => (runAll ops).execute_eq_run id input,
    Machine.sound_start input, fun room id m r m' hm hrun => ?_⟩
  obtain ⟨hm', hr⟩ :=
    Graph.call_answers (ordered_runAll hops) input room id m.cursor m r m' hm rfl hrun
  obtain ⟨front, back, hinput, hplace⟩ := Cursor.exists_of_start_le hm'.cursor
  refine ⟨hm', ⟨front, back, hinput, hplace⟩, ?_, ?_⟩
  · have hbytes : bytes input.toList = bytes front + bytes back := by
      rw [hinput, bytes_append]
    have hoffset : m'.cursor.position.offset = bytes front := by rw [hplace]; rfl
    rw [← bytes_toList]
    omega
  · cases r with
    | ok tree => exact Cursor.offset_le hr
    | error e => exact hr

/-- A program that makes a sequence of an optional sequence and a character. -/
def retreat : List Operation :=
  [.insert (.terminal (.char 'é')), .insert (.terminal (.char '\n')),
    .insert (.terminal (.char 'b')), .insert (.sequence [⟨0, 0⟩, ⟨1, 0⟩, ⟨2, 0⟩]),
    .insert (.optional ⟨3, 0⟩), .insert (.terminal (.char 'x')),
    .insert (.sequence [⟨4, 0⟩, ⟨5, 0⟩])]

/-- The error kept aside points to the second line, three bytes in; the call is back at the start,
where its own error points. -/
theorem runAll_calls_located_retreat :
    (∀ op ∈ retreat, op.Offered) ∧ (Machine.start "é\nc").Sound "é\nc" ∧
      ∃ (e kept : ParseError) (m : Machine),
        ((runAll retreat).call 8 ⟨6, 0⟩).run (Machine.start "é\nc") = .ok (.error e, m) ∧
        m.cursor = Cursor.start "é\nc" ∧ m.kept = some kept ∧
        e = .expecting ⟨0, 1, 1⟩ "'x'" (some 'é') ∧ kept = .expecting ⟨3, 2, 1⟩ "'b'" (some 'c') ∧
        e.LocatedIn "é\nc" ∧ kept.LocatedIn "é\nc" := by
  have hops : ∀ op ∈ retreat, op.Offered := by
    simp [retreat, Offered]
  have hrun : ((runAll retreat).call 8 ⟨6, 0⟩).run (Machine.start "é\nc") =
      .ok (.error (.expecting ⟨0, 1, 1⟩ "'x'" (some 'é')),
        ⟨Cursor.start "é\nc", some (.expecting ⟨3, 2, 1⟩ "'b'" (some 'c')), none⟩) := rfl
  obtain ⟨-, -, hstart, hcalls⟩ := runAll_calls_located retreat hops "é\nc"
  obtain ⟨hsound, -, -, hcursor, he, -⟩ := hcalls 8 ⟨6, 0⟩ _ _ _ hstart hrun
  exact ⟨hops, hstart, _, _, _, hrun, hcursor, rfl, rfl, rfl, he, hsound.kept _ rfl⟩

end Operation

end ParserGraph
