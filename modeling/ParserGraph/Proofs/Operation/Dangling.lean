import ParserGraph.Proofs.Grammar.Orphans
import ParserGraph.Proofs.Operation.Frame
import ParserGraph.Proofs.Run.Halt
import ParserGraph.Proofs.Run.Runner

/-!
# Dangling — programs that never leave an operand behind

A graph is intact when every operand of every node lives. All that a program
may do keeps it so, but for cleaning up: bodies and operands are looked up
before they are used, and a grammar that is rejected takes away only what
nothing else refers to (`Operation.intact_run`). Cleaning up keeps a graph
intact just where no node that stays refers to one that goes. In an intact
graph every run comes to an end without misuse, and all of its calls are in
reach of its parser (`Operation.runAll_never_dangles`).
-/

namespace ParserGraph

/-! ## Scripts and the parsers they call -/

namespace Script

variable {α β : Type} {calls : ParserId → Prop} {c : Cursor}

/-- A script that calls some parsers only. -/
def Asks (calls : ParserId → Prop) : Script α → Prop
  | done _ => True
  | call _ id _ next => calls id ∧ ∀ o, (next o).Asks calls
  | abandon _ _ next => next.Asks calls

theorem Asks.bind {s : Script α} {f : α → Script β} (hs : s.Asks calls)
    (hf : ∀ a, (f a).Asks calls) : (s >>= f).Asks calls := by
  change (s.bind f).Asks calls
  induction s with
  | done a => exact hf a
  | call alone id cursor next ih => exact ⟨hs.1, fun o => ih o (hs.2 o)⟩
  | abandon start e next ih => exact ih hs

theorem asks_ask {id : ParserId} (hid : calls id) : (ask id c).Asks calls := ⟨hid, fun _ => trivial⟩

theorem asks_askAlone {id : ParserId} (hid : calls id) : (askAlone id c).Asks calls :=
  ⟨hid, fun _ => trivial⟩

theorem asks_setAside (start : Position) (e : ParseError) : (setAside start e).Asks calls := trivial

theorem inOrder_asks {ids : List ParserId} (hids : ∀ id ∈ ids, calls id) :
    (inOrder ids c).Asks calls := by
  induction ids generalizing c with
  | nil => trivial
  | cons id ids ih =>
    obtain ⟨hid, hids⟩ := List.forall_mem_cons.1 hids
    refine (asks_ask hid).bind fun o => ?_
    cases o with
    | failed e => trivial
    | matched tree stop => exact (ih hids).bind fun r => by cases r <;> trivial

theorem firstOf_asks {ids : List ParserId} (hids : ∀ id ∈ ids, calls id)
    {failure : Option ParseError} : (firstOf c failure ids).Asks calls := by
  induction ids generalizing failure with
  | nil => cases failure <;> trivial
  | cons id ids ih =>
    obtain ⟨hid, hids⟩ := List.forall_mem_cons.1 hids
    rw [firstOf]
    refine (asks_ask hid).bind fun o => ?_
    cases o with
    | matched tree stop => trivial
    | failed e => exact ih hids

theorem rounds_asks {part : ParserId} (hpart : calls part) {unbounded : Bool} {n : Nat} :
    (rounds part unbounded n c).Asks calls := by
  induction n generalizing c with
  | zero => trivial
  | succ n ih =>
    refine (asks_ask hpart).bind fun o => ?_
    cases o with
    | failed e => trivial
    | matched tree stop =>
      dsimp only
      split
      · trivial
      · exact ih.bind fun r => trivial

theorem repetition_asks {part : ParserId} (hpart : calls part) {min : Nat} {max : Option Nat} :
    (repetition part min max c).Asks calls := by
  refine (rounds_asks hpart).bind fun r => ?_
  obtain ⟨trees, stop, ending⟩ := r
  cases ending with
  | stalled => trivial
  | full => dsimp only; split <;> trivial
  | gaveUp start e =>
    dsimp only
    split
    · trivial
    · exact (asks_setAside start e).bind fun _ => trivial

end Script

/-- **A node calls its operands only.** -/
theorem Node.script_asks (node : Node) (g : Graph) (c : Cursor) :
    (node.script g c).Asks (· ∈ node.kind.operands) := by
  obtain ⟨name, kind⟩ := node
  have hpart : ∀ part : ParserId, part ∈ [part] := List.mem_singleton_self
  cases kind with
  | terminal t => trivial
  | sequence parts =>
    exact (Script.inOrder_asks fun _ h => h).bind fun r => by cases r <;> trivial
  | alternation branches => exact Script.firstOf_asks fun _ h => h
  | repetition part min max => exact Script.repetition_asks (hpart part)
  | optional part =>
    refine (Script.asks_ask (hpart part)).bind fun o => ?_
    cases o with
    | matched tree stop => trivial
    | failed e => exact (Script.asks_setAside _ e).bind fun _ => trivial
  | lookahead part negated =>
    refine (Script.asks_askAlone (hpart part)).bind fun o => ?_
    cases o <;> cases negated <;> trivial
  | transform part mapping =>
    exact (Script.asks_ask (hpart part)).bind fun o => by cases o <;> trivial
  | token part => exact (Script.asks_ask (hpart part)).bind fun o => by cases o <;> trivial
  | expect part label =>
    exact (Script.asks_askAlone (hpart part)).bind fun o => by cases o <;> trivial
  | rule body =>
    cases body with
    | none => trivial
    | some body => exact Script.asks_ask (hpart body)

/-! ## The calls of a run -/

namespace Runner

variable {α : Type} {make : Routine} {calls among : ParserId → Prop} {r r' r'' : Runner}

/-- The calls that began between two states are of some parsers only. -/
def CallsAmong (among : ParserId → Prop) (r r' : Runner) : Prop :=
  ∀ visit, .begun visit ∈ r'.turns → .begun visit ∈ r.turns ∨ among visit.id

theorem CallsAmong.of_turns_eq (h : r'.turns = r.turns) : CallsAmong among r r' :=
  fun _ hvisit => Or.inl (h ▸ hvisit)

theorem CallsAmong.trans (h : CallsAmong among r r') (h' : CallsAmong among r' r'') :
    CallsAmong among r r'' := fun visit hvisit =>
  (h' visit hvisit).elim (h visit) Or.inr

/-- A script that calls some parsers only makes only the calls that these make. -/
theorem follow_callsAmong
    (hmake : ∀ id c r o r', calls id → (make id c).run r = .ok (o, r') → CallsAmong among r r')
    {s : Script α} {a : α} (hs : s.Asks calls) (h : (follow make s).run r = .ok (a, r')) :
    CallsAmong among r r' := by
  induction s generalizing r with
  | done b =>
    cases h
    exact .of_turns_eq rfl
  | call alone id cursor next ih =>
    rw [follow_call] at h
    obtain ⟨⟨o, r₂⟩, hcalling, hrest⟩ := except_bind_eq_ok h
    obtain ⟨r₁, hcall, rfl⟩ := calling_eq_ok hcalling
    -- what is kept aside is no turn
    have hbefore : CallsAmong among r { r with kept := if alone then none else r.kept } :=
      .of_turns_eq rfl
    have hcalled := hbefore.trans (hmake id cursor _ o r₁ hs.1 hcall)
    have hafter : CallsAmong among r₁ { r₁ with kept := if alone then r.kept else r₁.kept } :=
      .of_turns_eq rfl
    exact (hcalled.trans hafter).trans (ih o (hs.2 o) hrest)
  | abandon start e next ih =>
    rw [follow_abandon] at h
    have hbefore : CallsAmong among r { r with
        kept := if e.position.offset ≤ start.offset then r.kept else some (e.joinTo r.kept) } :=
      .of_turns_eq rfl
    exact hbefore.trans (ih hs h)

end Runner

namespace Graph

variable {g : Graph} {p id o : ParserId} {roots : List ParserId} {room : Nat} {c : Cursor}
  {outcome : Outcome} {r r' : Runner}

/-- Every operand of every node lives. -/
def Intact (g : Graph) : Prop := ∀ id, ∀ o ∈ g.operands id, g.contains o

theorem intact_iff_refersTo : g.Intact ↔ ∀ o, g.RefersTo o → g.contains o := by
  constructor
  · rintro h o ⟨id, node, hnode, ho⟩
    exact h id o (operands_of_node? hnode ▸ ho)
  · exact fun h id o ho => h o (.of_operands ho)

theorem Intact.closed (h : g.Intact) (hp : g.contains p) : g.Closed p :=
  ⟨hp, fun q _ => h q⟩

/-- What stays is what lived and was not in reach. -/
theorem contains_cleanup : (g.cleanup roots).2.contains id ↔
    g.contains id ∧ id ∉ g.reachable roots := by
  rw [contains, node?_cleanup, contains]
  split
  · next hgone => simp [hgone]
  · next hstays => simp [hstays]

/-- **Cleaning up keeps a graph intact just where no node that stays refers to one that goes.** -/
theorem Intact.cleanup_iff (h : g.Intact) : (g.cleanup roots).2.Intact ↔
    ∀ id, (g.cleanup roots).2.contains id → ∀ o ∈ g.operands id, o ∉ g.reachable roots := by
  have hstays : ∀ id, (g.cleanup roots).2.contains id →
      (g.cleanup roots).2.operands id = g.operands id := by
    intro id hid
    have hout := (contains_cleanup.1 hid).2
    exact operands_eq_of_node?_eq (by rw [node?_cleanup, if_neg hout])
  constructor
  · intro hafter id hid o ho
    rw [← hstays id hid] at ho
    exact (contains_cleanup.1 (hafter id o ho)).2
  · intro hapart id o ho
    have hid : (g.cleanup roots).2.contains id := contains_of_mem_operands ho
    rw [hstays id hid] at ho
    exact contains_cleanup.2 ⟨h id o ho, hapart id hid o ho⟩

/-- **Calls come to what their parser leads to**, if no operand was released. -/
theorem Intact.trace_callsAmong (h : g.Intact) (hid : g.Leads p id)
    (hrun : (g.trace room id c).run r = .ok (outcome, r')) : r.CallsAmong (g.Leads p) r' := by
  induction room using Nat.strongRecOn generalizing id c r outcome r' with
  | ind room ih =>
    -- the call itself, and those that it makes of its operands
    have hself : ∀ {r : Runner}, r.CallsAmong (g.Leads p) (r.noted (.begun (r.visiting id c))) := by
      intro r visit hvisit
      rcases List.mem_append.1 hvisit with hvisit | hvisit
      · exact Or.inl hvisit
      · cases List.mem_singleton.1 hvisit
        exact Or.inr hid
    have hended : ∀ {r : Runner} {visit : Visit} {o : Outcome},
        r.CallsAmong (g.Leads p) (r.noted (.ended visit o)) := by
      intro r visit o visit' hvisit
      rcases List.mem_append.1 hvisit with hvisit | hvisit
      · exact Or.inl hvisit
      · cases List.mem_singleton.1 hvisit
    cases Steps.of_trace hrun with
    | stopped _ => exact hself.trans hended
    | stops _ _ => exact hself.trans hended
    | @goes room node o r₁ _ _ hnode hfollow =>
      have hoperands : ∀ o ∈ node.kind.operands, g.Leads p o := by
        intro o ho
        rw [← operands_of_node? hnode] at ho
        exact hid.step ho (h id o ho)
      refine hself.trans ((Runner.follow_callsAmong (fun q c' _ _ _ hq hcall => ?_)
        (node.script_asks g c) hfollow).trans hended)
      exact ih room (Nat.lt_succ_self _) (hoperands q hq) hcall

/-- **In an intact graph every run comes to an end without misuse**, and its calls are in reach of
its parser. -/
theorem Intact.run_reaches (h : g.Intact) (hp : g.contains p) (input : String) :
    ∃ outcome r, g.traced p input = .ok (outcome, r) ∧
      g.run p input = .ok (Runner.verdict (outcome, r)) ∧
      ∀ visit, .begun visit ∈ r.turns → visit.id ∈ g.reachable [p] := by
  obtain ⟨result, hrun⟩ := (h.closed hp).run_eq_ok input
  rw [run_eq_traced] at hrun
  cases htraced : g.traced p input with
  | error m =>
    rw [htraced] at hrun
    exact nomatch hrun
  | ok q =>
    obtain ⟨outcome, r⟩ := q
    refine ⟨outcome, r, rfl, by rw [run_eq_traced, htraced]; rfl, fun visit hvisit => ?_⟩
    have hleads := (h.trace_callsAmong (.refl hp) htraced visit hvisit).resolve_left
      List.not_mem_nil
    exact mem_reachable.2 ⟨p, List.mem_singleton_self p, hleads⟩

/-- A run that starts at a root of a valid graph calls no placeholder without a body. -/
theorem not_isUndefinedRule_of_validate (hvalid : g.validate roots = .ok ()) (hp : p ∈ roots)
    (hid : id ∈ g.reachable [p]) : ¬ g.isUndefinedRule id := by
  obtain ⟨r, hr, hleads⟩ := mem_reachable.1 hid
  cases List.mem_singleton.1 hr
  exact fun hopen => List.not_mem_nil
    (mem_pending_of_validateExcept hvalid (mem_reachable.2 ⟨p, hp, hleads⟩) hopen)

end Graph

/-! ## Compiling -/

namespace Grammar

variable {g : Graph} {id : ParserId}

/-- What lives outlives a grammar that is compiled, be it rejected or not. -/
theorem contains_compile (dialect : Pattern.Dialect) (text : String) (bindings : List ParserId)
    (sensitive : Bool) (hsound : g.Sound) (hid : g.contains id) :
    ((compile dialect text bindings sensitive).leaves g).contains id := by
  rw [leaves_compile]
  split
  · next ds hdefs =>
    rw [Build.leaves, assemble]
    cases hcheck : check g ds bindings with
    | error e => exact hid
    | ok bound =>
      obtain ⟨r, d, hbuild⟩ :=
        Draft.build_succeeds sensitive hsound hcheck (definitions_ordered hdefs)
      obtain ⟨hover, -, -⟩ := Draft.build_spec hsound hcheck hbuild
      dsimp only
      rw [hbuild]
      cases r with
      | error e => exact (congrArg Option.isSome (hover.undone_restores.2.2 id)).trans hid
      | ok c => exact hover.contains_iff.2 (Or.inr hid)
  · exact hid

end Grammar

/-! ## Programs -/

namespace Operation

open ParserGraph.Graph

variable {g : Graph} {id : ParserId} {op : Operation}

/-- What lives outlives every operation but cleaning up. -/
theorem contains_run (hsound : g.Sound) (hop : ∀ roots, op ≠ .cleanup roots)
    (hid : g.contains id) : (op.run g).contains id := by
  cases op with
  | insert kind => exact (Build.insert_adds kind g hsound).extends_graph.contains hid
  | repetition part min max =>
    exact (Build.repetition_adds part min max g hsound).extends_graph.contains hid
  | lexeme part => exact (Build.lexeme_adds part g hsound).extends_graph.contains hid
  | rule name => exact (Build.rule_adds name g hsound).extends_graph.contains hid
  | named x name =>
    rw [run, Build.leaves, Build.named]
    cases hnode : g.node? x with
    | none => exact hid
    | some node => exact (contains_replace hnode _ id).2 hid
  | define x body =>
    rw [run_define]
    cases hdefine : g.define x body with
    | error e => exact hid
    | ok g' =>
      obtain ⟨-, name, hrule, rfl⟩ := define_eq_ok hdefine
      exact (contains_replace hrule _ id).2 hid
  | setMaxDepth depth => exact hid
  | cleanup roots => exact absurd rfl (hop roots)
  | compile dialect text bindings sensitive =>
    rw [run]
    exact Grammar.contains_compile dialect text bindings sensitive hsound hid

/-- **No operation but cleaning up leaves an operand behind.** -/
theorem intact_run (hsound : g.Sound) (hop : ∀ roots, op ≠ .cleanup roots) (h : g.Intact) :
    (op.run g).Intact := by
  refine intact_iff_refersTo.2 fun o ho => ?_
  rcases op.refersTo_run hsound ho with hbefore | hlive
  · exact contains_run hsound hop (intact_iff_refersTo.1 h o hbefore)
  · exact hlive

/-- A program that never cleans up makes an intact graph. -/
theorem intact_runAll {ops : List Operation} (h : ∀ roots, Operation.cleanup roots ∉ ops) :
    (runAll ops).Intact := by
  induction ops using List.reverseRecOn with
  | nil => exact fun id o ho => absurd ho List.not_mem_nil
  | append_singleton ops op ih =>
    have hops : ∀ roots, Operation.cleanup roots ∉ ops :=
      fun roots hmem => h roots (List.mem_append_left _ hmem)
    have hop : ∀ roots, op ≠ .cleanup roots := by
      rintro roots rfl
      exact h roots (List.mem_append_right _ (List.mem_singleton_self _))
    rw [runAll_concat]
    exact intact_run (past_runAll ops).sound hop (ih hops)

/-- **Programs leave no operand behind unless they clean up.** Whatever a program adds, names,
defines and compiles, every operand of every node lives; cleaning up an intact graph leaves it
intact just where no node that stays has an operand among those released. In an intact graph, no run
of a node that lives is misuse; every call of the run is of a parser in reach, and if the parser is a
root of a valid graph, none is of a placeholder without a body. -/
theorem runAll_never_dangles :
    (∀ ops : List Operation, (∀ roots, Operation.cleanup roots ∉ ops) → (runAll ops).Intact) ∧
      (∀ (g : Graph) (roots : List ParserId), g.Intact →
        ((g.cleanup roots).2.Intact ↔ ∀ id, (g.cleanup roots).2.contains id →
          ∀ o ∈ g.operands id, o ∉ (g.cleanup roots).1.map Prod.fst)) ∧
      ∀ (g : Graph) (p : ParserId) (input : String), g.Intact → g.contains p →
        ∃ outcome r, g.traced p input = .ok (outcome, r) ∧
          g.run p input = .ok (Runner.verdict (outcome, r)) ∧
          ∀ visit, .begun visit ∈ r.turns → visit.id ∈ g.reachable [p] ∧
            ∀ roots, p ∈ roots → g.validate roots = .ok () → ¬ g.isUndefinedRule visit.id := by
  refine ⟨fun ops h => intact_runAll h, fun g roots h => ?_, fun g p input h hp => ?_⟩
  · simp only [mem_map_fst_cleanup]
    exact h.cleanup_iff
  · obtain ⟨outcome, r, htraced, hrun, hcalls⟩ := h.run_reaches hp input
    exact ⟨outcome, r, htraced, hrun, fun visit hvisit => ⟨hcalls visit hvisit,
      fun roots hroots hvalid => not_isUndefinedRule_of_validate hvalid hroots (hcalls visit hvisit)⟩⟩

/-- A rule of one or more characters is intact until the character is released from under it, and
its runs are in reach of it and call no open placeholder. -/
theorem runAll_never_dangles_straight :
    (runAll straight).Intact ∧ ¬ ((runAll straight).cleanup [⟨1, 0⟩]).2.Intact ∧
      ∃ outcome r, (runAll straight).traced ⟨0, 0⟩ "aab" = .ok (outcome, r) ∧
        ∀ visit, .begun visit ∈ r.turns →
          visit.id ∈ straightIds ∧ ¬ (runAll straight).isUndefinedRule visit.id := by
  have hwalk : (runAll straight).reachable [⟨0, 0⟩] = straightIds := by cbv
  have hvalid : (runAll straight).validate [⟨0, 0⟩] = .ok () := by cbv
  have hstays : ((runAll straight).cleanup [⟨1, 0⟩]).2.contains ⟨3, 0⟩ := by cbv
  have hgone : ((runAll straight).cleanup [⟨1, 0⟩]).1.map Prod.fst = [⟨1, 0⟩] := by cbv
  obtain ⟨hprograms, hcleanup, hruns⟩ := runAll_never_dangles
  have hintact : (runAll straight).Intact := hprograms straight (by simp [straight])
  refine ⟨hintact, fun hafter => ?_, ?_⟩
  · refine (hcleanup _ _ hintact).1 hafter ⟨3, 0⟩ hstays ⟨1, 0⟩ (by decide) ?_
    rw [hgone]
    exact List.mem_singleton_self _
  · obtain ⟨outcome, r, htraced, -, hcalls⟩ := hruns _ ⟨0, 0⟩ "aab" hintact (by decide)
    refine ⟨outcome, r, htraced, fun visit hvisit => ⟨?_, ?_⟩⟩
    · exact hwalk ▸ (hcalls visit hvisit).1
    · exact (hcalls visit hvisit).2 [⟨0, 0⟩] (List.mem_singleton_self _) hvalid

end Operation

end ParserGraph
