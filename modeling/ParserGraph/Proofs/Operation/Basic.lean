import ParserGraph.Proofs.Grammar.Rollback
import ParserGraph.Proofs.Grammar.Steps
import ParserGraph.Proofs.Graph.History

/-!
# Operations — what a program may do to a graph, and what happens then

A program works on a graph by constructors, by naming and defining parsers,
by cleaning up and by compiling grammars. An operation may be refused, and a
refused one keeps what it did so far (`Operation.run`). What it gives ids to
and what it releases, in order, are its events (`Operation.events`): a
constructor tells by its result, cleanup by what it yields, compiling by the
record that its draft keeps. Every operation makes exactly the changes that
its events tell (`Operation.past_run`).
-/

namespace ParserGraph

open Event

/-! ## Building steps -/

namespace Build

variable {α : Type}

/-- The event of a step that gives out one id, and those of the steps that go on from it. -/
def createsThen (step : Build ParserId) (rest : ParserId → Graph → List Event) (g : Graph) :
    List Event :=
  match step g with
  | .ok id g => .created id :: rest id g
  | .error _ _ => []

/-- The event of a step that gives out one id. -/
def creates (step : Build ParserId) : Graph → List Event := createsThen step fun _ _ => []

/-- What happens when a terminal is wrapped with what skips the white space after it. -/
def lexemeEvents (part : ParserId) : Graph → List Event :=
  createsThen whitespace fun space =>
    createsThen (many space) fun spaces =>
      createsThen (sequence [part, spaces]) fun both => creates (transform both Tree.first)

/-- A step that keeps what holds of a graph and of the events that it came about through. -/
def Carries (P : List Event → Graph → Prop) (step : Build α) (events : Graph → List Event) : Prop :=
  ∀ es g, P es g → P (es ++ events g) (leaves step g)

/-- A step that makes the changes that some events tell. -/
def Makes (step : Build α) (events : Graph → List Event) : Prop :=
  ∀ es g, g.Past es → (leaves step g).Past (es ++ events g)

variable {step : Build ParserId}

/-- One step after another keeps what both keep. -/
theorem Carries.bind {P : List Event → Graph → Prop} {f : ParserId → Build α}
    {rest : ParserId → Graph → List Event} (hstep : step.Carries P (creates step))
    (hrest : ∀ id, (f id).Carries P (rest id)) :
    (step >>= f).Carries P (createsThen step rest) := by
  intro es g hg
  have hg' := hstep es g hg
  rw [creates, createsThen, leaves] at hg'
  rw [leaves_bind, createsThen]
  cases h : step g with
  | ok id g' =>
    rw [h] at hg'
    rw [List.append_cons]
    exact hrest id _ _ hg'
  | error m g' =>
    rw [h] at hg'
    exact hg'

/-- One step after another makes the changes of both. -/
theorem Makes.bind {f : ParserId → Build α} {rest : ParserId → Graph → List Event}
    (hstep : step.Makes (creates step)) (hrest : ∀ id, (f id).Makes (rest id)) :
    (step >>= f).Makes (createsThen step rest) :=
  Carries.bind (P := fun es g => g.Past es) hstep hrest

theorem insert_makes (kind : Kind) : (insert kind).Makes (creates (insert kind)) := by
  intro es g hpast
  cases h : kind.operands.find? (!g.contains ·) with
  | some stale =>
    have hinsert : insert kind g = .error (.usedAfterCleanup stale) g := by rw [insert, h]
    rw [leaves, creates, createsThen, hinsert, List.append_nil]
    exact hpast
  | none =>
    have hinsert : insert kind g = .ok (g.place ⟨none, kind⟩).1 (g.place ⟨none, kind⟩).2 := by
      rw [insert, h]
    rw [leaves, creates, createsThen, hinsert]
    exact hpast.placed _

theorem repetition_makes (part : ParserId) (min : Nat) (max : Option Nat) :
    (repetition part min max).Makes (creates (repetition part min max)) := by
  unfold repetition
  cases max with
  | none => exact insert_makes _
  | some high =>
    dsimp only
    split
    · -- bounds that are not in order are refused before anything is done
      intro es g hpast
      have hcreates : creates (throw (.invertedBounds min high) : Build ParserId) g = [] := rfl
      rw [hcreates, List.append_nil]
      exact hpast
    · exact insert_makes _

theorem whitespace_makes : whitespace.Makes (creates whitespace) :=
  insert_makes (.terminal (.satisfy "whitespace" CharSet.whiteSpace.contains))

/-- A placeholder is placed and then replaced by one that bears its name. -/
theorem rule_makes (name : String) : (rule name).Makes (creates (rule name)) := by
  intro es g hpast
  have hnode : (g.place ⟨none, .rule none⟩).2.node? (g.place ⟨none, .rule none⟩).1 =
      some ⟨none, .rule none⟩ := (Graph.place_added hpast.sound ⟨none, .rule none⟩).node?_self
  rw [leaves, creates, createsThen, rule_eq hpast.sound name]
  exact (hpast.placed _).replaced _ hnode

theorem lexeme_makes (part : ParserId) : (lexeme part).Makes (lexemeEvents part) :=
  whitespace_makes.bind fun space => (repetition_makes space 0 none).bind fun spaces =>
    (insert_makes (.sequence [part, spaces])).bind fun both =>
      insert_makes (.transform both Tree.first)

theorem named_makes (id : ParserId) (name : String) : (named id name).Makes fun _ => [] := by
  intro es g hpast
  rw [List.append_nil, leaves, named]
  cases h : g.node? id with
  | none => exact hpast
  | some node => exact hpast.replaced _ h

end Build

/-! ## Releasing -/

namespace Graph

variable {g : Graph} {es : List Event}

theorem Past.define {g' : Graph} {rule body : ParserId} (h : g.Past es)
    (hdefine : g.define rule body = .ok g') : g'.Past es := by
  obtain ⟨-, name, hrule, rfl⟩ := define_eq_ok hdefine
  exact h.replaced _ hrule

theorem Past.undefine (h : g.Past es) (rule : ParserId) : (g.undefine rule).Past es := by
  unfold Graph.undefine
  split
  · next name body hnode => exact h.replaced _ hnode
  · exact h

theorem Past.foldl_undefine (h : g.Past es) (rules : List ParserId) :
    (rules.foldl Graph.undefine g).Past es := by
  induction rules generalizing g with
  | nil => exact h
  | cons rule rules ih => exact ih (h.undefine rule)

/-- Cleanup releases what it yields, in that order. -/
theorem Past.cleanupFrom (h : g.Past es) (pending : List ParserId)
    (before : List (ParserId × Node)) :
    ∃ out, (g.cleanupFrom pending before).1 = out ++ before ∧
      (g.cleanupFrom pending before).2.Past (es ++ out.reverse.map fun r => .released r.1) := by
  fun_induction Graph.cleanupFrom g pending before generalizing es with
  | case1 g before => exact ⟨[], rfl, by simpa using h⟩
  | case2 g before id pending hr ih => exact ih h
  | case3 g before id pending node g' hr ih =>
    obtain ⟨out, hout, hpast⟩ := ih (h.released hr)
    refine ⟨out ++ [(id, node)], by rw [hout, List.append_assoc]; rfl, ?_⟩
    rw [List.append_assoc] at hpast
    rw [List.reverse_append]
    exact hpast

theorem Past.cleanup (h : g.Past es) (roots : List ParserId) :
    (g.cleanup roots).2.Past (es ++ (g.cleanup roots).1.map fun r => .released r.1) := by
  obtain ⟨out, hout, hpast⟩ := h.cleanupFrom roots.reverse []
  have hfst : (g.cleanup roots).1 = out.reverse := by
    change (g.cleanupFrom roots.reverse []).1.reverse = _
    rw [hout, List.append_nil]
  rw [hfst]
  exact hpast

/-- Releasing given nodes that live releases each of them. -/
theorem Past.discard {ids : List ParserId} (h : g.Past es) (hlive : ∀ id ∈ ids, g.contains id)
    (hnodup : ids.Nodup) : (g.discard ids).Past (es ++ ids.map .released) := by
  induction ids generalizing g es with
  | nil => exact (List.append_nil es).symm ▸ h
  | cons id ids ih =>
    obtain ⟨hnew, hnodup⟩ := List.nodup_cons.1 hnodup
    obtain ⟨node, hnode⟩ := Option.isSome_iff_exists.1 (hlive id List.mem_cons_self)
    have hr : ∃ g', g.release? id = some (node, g') := by
      rw [release?, hnode]
      exact ⟨_, rfl⟩
    obtain ⟨g', hr⟩ := hr
    -- the ids differ, so releasing the first leaves the others
    have hlive' : ∀ id' ∈ ids, g'.contains id' := by
      intro id' hid'
      have hne : id' ≠ id := fun he => hnew (he ▸ hid')
      rw [contains, node?_release? hr, if_neg hne]
      exact hlive id' (List.mem_cons_of_mem _ hid')
    have hcons : g.discard (id :: ids) = g'.discard ids := by
      rw [Graph.discard, List.foldl_cons, hr]
      rfl
    have hpast := ih (h.released hr) hlive' hnodup
    rw [hcons, List.map_cons, List.append_cons]
    exact hpast

end Graph

/-! ## Compiling -/

namespace Grammar

variable {α β : Type} {es : List Event} {d : Draft}

/-- A draft whose record tells all the ids it gave out after some events. -/
def Draft.Recorded (es : List Event) (d : Draft) : Prop :=
  d.graph.Past (es ++ d.created.reverse.map .created)

/-- Adding a node keeps what holds of the graph and of the ids on the record. -/
theorem add_maintains {P : List Event → Graph → Prop} {step : Build ParserId}
    (hstep : step.Carries P (Build.creates step)) :
    (Draft.add step).Maintains fun d => P (es ++ d.created.reverse.map .created) d.graph := by
  refine Drafting.Maintains.add (fun d id g hd h => ?_) fun d m g hd h => ?_
  · have hg := hstep _ _ hd
    rw [Build.creates, Build.createsThen, Build.leaves, h, List.append_assoc] at hg
    simpa using hg
  · have hg := hstep _ _ hd
    rw [Build.creates, Build.createsThen, Build.leaves, h, List.append_nil] at hg
    exact hg

/-- Adding a node puts its id on the record. -/
theorem add_maintains_recorded {step : Build ParserId} (hstep : step.Makes (Build.creates step)) :
    (Draft.add step).Maintains (Draft.Recorded es) :=
  add_maintains (P := fun es g => g.Past es) hstep

/-- **No change to a draft gives out an id that is not on its record.** -/
theorem Draft.stable_recorded (es : List Event) : Draft.Stable (Draft.Recorded es) where
  insert := fun kind _ => add_maintains_recorded (Build.insert_makes kind)
  repetition := fun part min max => add_maintains_recorded (Build.repetition_makes part min max)
  rule := fun name => add_maintains_recorded (Build.rule_makes name)
  define := by
    intro rule body d hd
    rw [Drafting.leaves, Draft.define]
    cases h : d.graph.define rule body with
    | ok g => exact Graph.Past.define hd h
    | error e => exact hd
  spaces := fun _ _ hd => hd

/-- What happens when definitions are built: nodes are added, and released again if they are
rejected for what they lead to. -/
def assembleEvents (ds : List Definition) (bindings : List ParserId) (sensitive : Bool)
    (g : Graph) : List Event :=
  match check g ds bindings with
  | .error _ => []
  | .ok bound =>
    match Draft.build sensitive bound ds ⟨g, none, [], []⟩ with
    | .error _ d => d.created.reverse.map .created
    | .ok (.error _) d => d.created.reverse.map .created ++ d.created.reverse.map .released
    | .ok (.ok _) d => d.created.reverse.map .created

/-- What happens when a grammar is compiled. -/
def compileEvents (dialect : Pattern.Dialect) (text : String) (bindings : List ParserId)
    (sensitive : Bool) (g : Graph) :
    List Event :=
  match definitions dialect text with
  | .ok (.ok ds) => assembleEvents ds bindings sensitive g
  | _ => []

theorem assemble_makes (ds : List Definition) (bindings : List ParserId) (sensitive : Bool) :
    (assemble ds bindings sensitive).Makes (assembleEvents ds bindings sensitive) := by
  intro es g hpast
  have hstart : Draft.Recorded es ⟨g, none, [], []⟩ := by
    rw [Draft.Recorded, List.reverse_nil, List.map_nil, List.append_nil]
    exact hpast
  rw [Build.leaves, assemble, assembleEvents]
  cases hcheck : check g ds bindings with
  | error e => exact (List.append_nil es).symm ▸ hpast
  | ok bound =>
    dsimp only
    have hbuilt := (Draft.stable_recorded es).build sensitive bound ds _ hstart
    rw [Drafting.leaves] at hbuilt
    cases hbuild : Draft.build sensitive bound ds ⟨g, none, [], []⟩ with
    | error m d =>
      rw [hbuild] at hbuilt
      exact hbuilt
    | ok r d =>
      rw [hbuild] at hbuilt
      cases r with
      | ok c => exact hbuilt
      | error e =>
        -- what was added lives still when it is released, each node once
        obtain ⟨hover, -, -⟩ := Draft.build_spec hpast.sound hcheck hbuild
        obtain ⟨hlive, hnodup⟩ := hover.created_undefined
        have hdiscarded := (hbuilt.foldl_undefine d.patched.reverse).discard hlive hnodup
        rw [List.append_assoc] at hdiscarded
        exact hdiscarded

theorem compile_makes (dialect : Pattern.Dialect) (text : String) (bindings : List ParserId)
    (sensitive : Bool) :
    (compile dialect text bindings sensitive).Makes
      (compileEvents dialect text bindings sensitive) := by
  intro es g hpast
  rw [leaves_compile]
  unfold compileEvents
  generalize definitions dialect text = read
  cases read with
  | error m => exact (List.append_nil es).symm ▸ hpast
  | ok read =>
    cases read with
    | error e => exact (List.append_nil es).symm ▸ hpast
    | ok ds => exact assemble_makes ds bindings sensitive es g hpast

end Grammar

/-! ## Operations -/

/-- What a program may do to a graph. -/
inductive Operation where
  /-- A constructor that adds one node, over operands that must live. -/
  | insert (kind : Kind)
  /-- A repetition, whose bounds must be in order. -/
  | repetition (part : ParserId) (min : Nat) (max : Option Nat)
  /-- A parser with the white space after it. -/
  | lexeme (part : ParserId)
  /-- A placeholder. -/
  | rule (name : String)
  /-- A name for a parser. -/
  | named (id : ParserId) (name : String)
  /-- A body for a placeholder. -/
  | define (id body : ParserId)
  /-- The limit on nested parsers. -/
  | setMaxDepth (depth : Nat)
  /-- Releasing all that some roots lead to. -/
  | cleanup (roots : List ParserId)
  /-- Compiling a grammar. -/
  | compile (dialect : Pattern.Dialect) (text : String) (bindings : List ParserId)
      (sensitive : Bool)

namespace Operation

/-- The graph that an operation leaves, whether it was refused or not. -/
def run : Operation → Graph → Graph
  | insert kind => (Build.insert kind).leaves
  | repetition part min max => (Build.repetition part min max).leaves
  | lexeme part => (Build.lexeme part).leaves
  | rule name => (Build.rule name).leaves
  | named id name => (Build.named id name).leaves
  | define id body => fun g =>
    match g.define id body with
    | .ok g => g
    | .error _ => g
  | setMaxDepth depth => fun g => g.setMaxDepth depth
  | cleanup roots => fun g => (g.cleanup roots).2
  | compile dialect text bindings sensitive =>
    (Grammar.compile dialect text bindings sensitive).leaves

theorem run_define (id body : ParserId) (g : Graph) :
    (define id body).run g = match g.define id body with
      | .ok g => g
      | .error _ => g := rfl

/-- What happens to ids during an operation. -/
def events : Operation → Graph → List Event
  | insert kind => (Build.insert kind).creates
  | repetition part min max => (Build.repetition part min max).creates
  | lexeme part => Build.lexemeEvents part
  | rule name => (Build.rule name).creates
  | named _ _ => fun _ => []
  | define _ _ => fun _ => []
  | setMaxDepth _ => fun _ => []
  | cleanup roots => fun g => (g.cleanup roots).1.map fun r => .released r.1
  | compile dialect text bindings sensitive =>
    Grammar.compileEvents dialect text bindings sensitive

/-- **An operation makes the changes that its events tell**, and no other to ids. -/
theorem past_run {es : List Event} {g : Graph} (op : Operation) (h : g.Past es) :
    (op.run g).Past (es ++ op.events g) := by
  cases op with
  | insert kind => exact Build.insert_makes kind es g h
  | repetition part min max => exact Build.repetition_makes part min max es g h
  | lexeme part => exact Build.lexeme_makes part es g h
  | rule name => exact Build.rule_makes name es g h
  | named id name => exact Build.named_makes id name es g h
  | define id body =>
    rw [run_define, events, List.append_nil]
    cases hdefine : g.define id body with
    | ok g' => exact h.define hdefine
    | error e => exact h
  | setMaxDepth depth =>
    rw [run, events, List.append_nil]
    exact h.limited depth
  | cleanup roots => exact h.cleanup roots
  | compile dialect text bindings sensitive =>
    exact Grammar.compile_makes dialect text bindings sensitive es g h

/-- The graph that operations make of the empty one. -/
def runAll (ops : List Operation) : Graph := ops.foldl (fun g op => op.run g) .empty

/-- What happens to ids from one graph on. -/
def eventsFrom : Graph → List Operation → List Event
  | _, [] => []
  | g, op :: ops => op.events g ++ eventsFrom (op.run g) ops

/-- What happens to ids from the empty graph on. -/
def eventsAll (ops : List Operation) : List Event := eventsFrom .empty ops

/-- What every operation keeps, all of them together keep. -/
theorem foldl_run_carries {P : List Event → Graph → Prop} {ops : List Operation}
    (hops : ∀ op ∈ ops, ∀ es g, P es g → P (es ++ op.events g) (op.run g)) {es : List Event}
    {g : Graph} (h : P es g) :
    P (es ++ eventsFrom g ops) (ops.foldl (fun g op => op.run g) g) := by
  induction ops generalizing g es with
  | nil => exact (List.append_nil es).symm ▸ h
  | cons op ops ih =>
    obtain ⟨hop, hops⟩ := List.forall_mem_cons.1 hops
    rw [eventsFrom, ← List.append_assoc]
    exact ih hops (hop es g h)

theorem past_foldl_run {es : List Event} {g : Graph} (h : g.Past es) (ops : List Operation) :
    (ops.foldl (fun g op => op.run g) g).Past (es ++ eventsFrom g ops) :=
  foldl_run_carries (P := fun es g => g.Past es) (fun op _ _ _ hg => op.past_run hg) h

/-- **So do all operations of a program together.** -/
theorem past_runAll (ops : List Operation) : (runAll ops).Past (eventsAll ops) :=
  past_foldl_run .empty ops

end Operation

end ParserGraph
