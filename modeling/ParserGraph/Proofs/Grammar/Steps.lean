import ParserGraph.Proofs.Grammar.Build

/-!
# Steps — what a draft keeps whatever it does

Building is made of few changes: a node is added, a placeholder is added or
given its body, and the parser of skipped white space is remembered. What
every one of them keeps, be it refused or not, the whole of a build keeps
(`Draft.Stable.build`).
-/

namespace ParserGraph

/-! ## What a step leaves -/

section

variable {α β : Type}

/-- The graph that a step leaves, whether it was refused or not. -/
def Build.leaves (step : Build α) (g : Graph) : Graph :=
  match step g with
  | .ok _ g => g
  | .error _ g => g

/-- One step after another leaves what the last that was taken leaves. -/
theorem Build.leaves_bind (step : Build α) (f : α → Build β) (g : Graph) :
    (step >>= f).leaves g = match step g with
      | .ok a g' => (f a).leaves g'
      | .error _ g' => g' := by
  change leaves (EStateM.bind step f) g = _
  unfold leaves EStateM.bind
  cases step g <;> rfl

namespace Grammar

/-- The draft that a step leaves, whether it was refused or not. -/
def Drafting.leaves (x : Drafting α) (d : Draft) : Draft :=
  match x d with
  | .ok _ d => d
  | .error _ d => d

theorem Drafting.leaves_bind (x : Drafting α) (f : α → Drafting β) (d : Draft) :
    (x >>= f).leaves d = match x d with
      | .ok a d' => (f a).leaves d'
      | .error _ d' => d' := by
  change leaves (EStateM.bind x f) d = _
  unfold leaves EStateM.bind
  cases x d <;> rfl

/-- A step that keeps what holds of a draft, whether it is refused or not. -/
def Drafting.Maintains (P : Draft → Prop) (x : Drafting α) : Prop := ∀ d, P d → P (x.leaves d)

end Grammar

end

/-- A kind of nodes that are just added. Repetitions and placeholders have constructors that do
more. -/
def Kind.Direct : Kind → Prop
  | .repetition _ _ _ => False
  | .rule _ => False
  | _ => True

namespace Grammar

section

variable {α β : Type} {P : Draft → Prop}

namespace Drafting.Maintains

theorem bind {x : Drafting α} {f : α → Drafting β} (hx : x.Maintains P)
    (hf : ∀ a, (f a).Maintains P) : (x >>= f).Maintains P := by
  intro d hd
  have hd' := hx d hd
  rw [leaves] at hd'
  rw [leaves_bind]
  cases h : x d with
  | ok a d' =>
    rw [h] at hd'
    exact hf a d' hd'
  | error m d' =>
    rw [h] at hd'
    exact hd'

theorem pure (a : α) : (Pure.pure a : Drafting α).Maintains P := fun _ hd => hd

theorem throw (m : Misuse) : (MonadExcept.throw m : Drafting α).Maintains P := fun _ hd => hd

theorem get : (MonadState.get : Drafting Draft).Maintains P := fun _ hd => hd

/-- A step that adds a node keeps what holds if its graph does, with the id on the record. -/
theorem add {step : Build ParserId}
    (hok : ∀ d id g, P d → step d.graph = .ok id g →
      P { d with graph := g, created := id :: d.created })
    (herror : ∀ d m g, P d → step d.graph = .error m g → P { d with graph := g }) :
    (Draft.add step).Maintains P := by
  intro d hd
  rw [leaves, Draft.add]
  cases h : step d.graph with
  | ok id g => exact hok d id g hd h
  | error m g => exact herror d m g hd h

end Drafting.Maintains

/-! ## The steps of a build -/

/-- What every single change to a draft keeps. -/
structure Draft.Stable (P : Draft → Prop) : Prop where
  insert : ∀ kind, kind.Direct → (Draft.add (Build.insert kind)).Maintains P
  repetition : ∀ part min max, (Draft.add (Build.repetition part min max)).Maintains P
  rule : ∀ name, (Draft.add (Build.rule name)).Maintains P
  define : ∀ rule body, (Draft.define rule body).Maintains P
  spaces : ∀ d spaces, P d → P { d with spaces := spaces }

namespace Draft.Stable

open Drafting.Maintains

theorem skipper (h : Draft.Stable P) : Draft.skipper.Maintains P := by
  refine get.bind fun d => ?_
  cases d.spaces with
  | some spaces => exact pure _
  | none =>
    refine (h.insert (.terminal _) trivial).bind fun space => ?_
    refine (h.repetition space 0 none).bind fun run => ?_
    refine (h.insert (.transform run Tree.skip) trivial).bind fun skipped => ?_
    exact Drafting.Maintains.bind (fun d hd => h.spaces d _ hd) fun _ => pure skipped

theorem terminal (h : Draft.Stable P) (sensitive : Bool) (t : Terminal) :
    (Draft.terminal sensitive t).Maintains P := by
  refine (h.insert (.terminal t) trivial).bind fun id => ?_
  cases sensitive with
  | true => exact pure id
  | false =>
    refine h.skipper.bind fun spaces => ?_
    exact (h.insert (.sequence [id, spaces]) trivial).bind fun both =>
      h.insert (.transform both Tree.first) trivial

theorem folded (h : Draft.Stable P) {step : Build ParserId}
    (hstep : (Draft.add step).Maintains P) : (Draft.folded step).Maintains P :=
  hstep.bind fun whole => h.insert (.transform whole Tree.fold) trivial

theorem resolve (rules : RuleTable) (name : String) : (Draft.resolve rules name).Maintains P := by
  unfold Draft.resolve
  split
  · exact pure _
  · exact throw _

mutual

/-- **Adding an expression keeps what single additions keep.** -/
theorem expression (h : Draft.Stable P) (sensitive : Bool) (rules : RuleTable) (e : Expr) :
    (Draft.expression sensitive rules e).Maintains P := by
  cases e with
  | char c => exact h.terminal sensitive _
  | literal text => exact h.terminal sensitive _
  | pattern p => exact h.terminal sensitive _
  | reference name position => exact resolve rules name
  | sequence items =>
    exact (h.expressions sensitive rules items).bind fun parts =>
      h.folded (h.insert (.sequence parts) trivial)
  | alternation items =>
    exact (h.expressions sensitive rules items).bind fun branches =>
      h.insert (.alternation branches) trivial
  | repetition item min max =>
    exact (h.expression sensitive rules item).bind fun part => h.folded (h.repetition part min max)
  | optional item =>
    exact (h.expression sensitive rules item).bind fun part =>
      h.insert (.optional part) trivial
  | absent item =>
    exact (h.expression sensitive rules item).bind fun part =>
      h.insert (.lookahead part true) trivial

theorem expressions (h : Draft.Stable P) (sensitive : Bool) (rules : RuleTable)
    (items : List Expr) : (Draft.expressions sensitive rules items).Maintains P := by
  cases items with
  | nil => exact pure []
  | cons item items =>
    exact (h.expression sensitive rules item).bind fun id =>
      (h.expressions sensitive rules items).bind fun ids => pure (id :: ids)

end

theorem placeholders (h : Draft.Stable P) (rules : RuleTable) (ds : List Definition) :
    (Draft.placeholders rules ds).Maintains P := by
  induction ds generalizing rules with
  | nil => exact pure rules
  | cons d ds ih =>
    rw [Draft.placeholders]
    split
    · exact ih rules
    · exact (h.rule d.name).bind fun id => ih _

theorem labelled (h : Draft.Stable P) (label : Option String) (body : ParserId) :
    (Draft.labelled label body).Maintains P := by
  cases label with
  | none => exact pure body
  | some label => exact h.insert (.expect body label) trivial

theorem bodies (h : Draft.Stable P) (sensitive : Bool) (rules : RuleTable)
    (ds : List Definition) : (Draft.bodies sensitive rules ds).Maintains P := by
  induction ds with
  | nil => exact pure _
  | cons d ds ih =>
    rw [bodies_cons]
    refine (h.expression sensitive rules d.body).bind fun part => ?_
    refine (h.labelled d.label part).bind fun body => ?_
    refine (resolve rules d.name).bind fun rule => (h.define rule body).bind fun done => ?_
    cases done with
    | error e => exact pure _
    | ok u => exact ih

theorem resolveAll (rules : RuleTable) (names : List String) :
    (Draft.resolveAll rules names).Maintains P := by
  induction names with
  | nil => exact pure []
  | cons name names ih =>
    exact (resolve rules name).bind fun id => ih.bind fun ids => pure (id :: ids)

/-- **A build keeps what single changes keep.** -/
theorem build (h : Draft.Stable P) (sensitive : Bool) (bound : RuleTable)
    (ds : List Definition) : (Draft.build sensitive bound ds).Maintains P := by
  refine (h.placeholders bound ds).bind fun rules => (resolveAll rules _).bind fun defined => ?_
  refine (h.bodies sensitive rules ds).bind fun r => ?_
  cases r with
  | error e => exact pure _
  | ok u =>
    refine get.bind fun d => ?_
    dsimp only
    split <;> exact pure _

end Draft.Stable

end

/-! ## What compiling leaves -/

/-- Unless its definitions are assembled, a text leaves the graph as it is. -/
theorem leaves_compile (dialect : Pattern.Dialect) (text : String) (bindings : List ParserId)
    (sensitive : Bool) (g : Graph) :
    Build.leaves (compile dialect text bindings sensitive) g =
      match definitions dialect text with
      | .ok (.ok ds) => Build.leaves (assemble ds bindings sensitive) g
      | _ => g := by
  unfold Build.leaves compile
  generalize definitions dialect text = read
  cases read with
  | error m => rfl
  | ok read => cases read <;> rfl

end Grammar

end ParserGraph
