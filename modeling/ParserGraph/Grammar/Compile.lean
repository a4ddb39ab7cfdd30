import ParserGraph.Grammar.Checks
import ParserGraph.Grammar.Reading
import ParserGraph.Graph.Cleanup

/-!
# Compiling — grammars as parts of a graph

Compiling is all or nothing. A draft remembers which nodes it added and which
placeholders it gave a body; when the graph it leads to is not valid, the
bodies are taken away and the nodes released again. Unless white space
counts, every terminal skips the white space after it.
-/

namespace ParserGraph

/-- What a grammar became. -/
structure Compilation where
  /-- The parsers of its rules and of what it is bound to. -/
  table : RuleTable
  /-- The names of bound placeholders that still have no body. -/
  pending : List String

/-- What is to be said about a bound placeholder without a body. -/
def Compilation.warning (name : String) : String :=
  "bound rule <" ++ name ++ "> is still undefined; define it before running"

/-- What is to be said about a compiled grammar, in the order of names. -/
def Compilation.warnings (c : Compilation) : List String := c.pending.map Compilation.warning

namespace Grammar

/-- A grammar under construction. -/
structure Draft where
  /-- The graph so far. -/
  graph : Graph
  /-- The parser of skipped white space, once one was needed. -/
  spaces : Option ParserId
  /-- The nodes added, newest first. -/
  created : List ParserId
  /-- The placeholders given a body, newest first. -/
  patched : List ParserId

/-- A step that goes on with a draft. -/
abbrev Drafting := EStateM Misuse Draft

namespace Draft

/-- Adds a node and remembers it. -/
def add (step : Build ParserId) : Drafting ParserId := fun d =>
  match step d.graph with
  | .ok id g => .ok id { d with graph := g, created := id :: d.created }
  | .error m g => .error m { d with graph := g }

/-- The parser of skipped white space, which is added when it is needed first. -/
def skipper : Drafting ParserId := do
  match (← get).spaces with
  | some spaces => pure spaces
  | none =>
    let space ← add Build.whitespace
    let run ← add (Build.many space)
    let skipped ← add (Build.skip run)
    modify fun d => { d with spaces := some skipped }
    pure skipped

/-- A terminal; unless white space counts, with the white space after it. -/
def terminal (sensitive : Bool) (t : Terminal) : Drafting ParserId := do
  let id ← add (Build.insert (.terminal t))
  if sensitive then pure id
  else
    let spaces ← skipper
    let both ← add (Build.sequence [id, spaces])
    add (Build.transform both Tree.first)

/-- Parts whose trees are folded into one. -/
def folded (step : Build ParserId) : Drafting ParserId := do
  let whole ← add step
  add (Build.transform whole Tree.fold)

/-- The parser of a name. -/
def resolve (rules : RuleTable) (name : String) : Drafting ParserId :=
  match rules.get name with
  | .ok id => pure id
  | .error m => throw m

mutual

/-- Adds the nodes of an expression. -/
def expression (sensitive : Bool) (rules : RuleTable) : Expr → Drafting ParserId
  | .char c => terminal sensitive (.char c)
  | .literal text => terminal sensitive (.literal text)
  | .pattern p => terminal sensitive (.pattern p)
  | .reference name _ => resolve rules name
  | .sequence items => do
    let parts ← expressions sensitive rules items
    folded (Build.sequence parts)
  | .alternation items => do
    let branches ← expressions sensitive rules items
    add (Build.alternation branches)
  | .repetition item min max => do
    let part ← expression sensitive rules item
    folded (Build.repetition part min max)
  | .optional item => do
    let part ← expression sensitive rules item
    add (Build.optional part)
  | .absent item => do
    let part ← expression sensitive rules item
    add (Build.not part)

/-- Adds the nodes of several expressions in order. -/
def expressions (sensitive : Bool) (rules : RuleTable) : List Expr → Drafting (List ParserId)
  | [] => pure []
  | item :: items => do
    let id ← expression sensitive rules item
    let ids ← expressions sensitive rules items
    pure (id :: ids)

end

/-- Adds a placeholder for every rule that has none yet. -/
def placeholders : RuleTable → List Definition → Drafting RuleTable
  | rules, [] => pure rules
  | rules, d :: ds =>
    if rules.contains d.name then placeholders rules ds
    else do
      let id ← add (Build.rule d.name)
      placeholders (rules.insert d.name id) ds

/-- Gives the placeholder of a rule its body. -/
def define (rule body : ParserId) : Drafting (Except GraphError Unit) := fun d =>
  match d.graph.define rule body with
  | .ok g => .ok (.ok ()) { d with graph := g, patched := rule :: d.patched }
  | .error e => .ok (.error e) d

/-- Adds the body of each definition and gives it to the placeholder. -/
def bodies (sensitive : Bool) (rules : RuleTable) :
    List Definition → Drafting (Except GraphError Unit)
  | [] => pure (.ok ())
  | d :: ds => do
    let body ← expression sensitive rules d.body
    let body ← match d.label with
      | some label => add (Build.expect body label)
      | none => pure body
    let rule ← resolve rules d.name
    match ← define rule body with
    | .error e => pure (.error e)
    | .ok () => bodies sensitive rules ds

/-- The parsers of several names. -/
def resolveAll (rules : RuleTable) : List String → Drafting (List ParserId)
  | [] => pure []
  | name :: names => do
    let id ← resolve rules name
    let ids ← resolveAll rules names
    pure (id :: ids)

/-- The graph with all that the draft did undone: bodies are taken away in the order they were
given, nodes released in the order they were added. -/
def undone (d : Draft) : Graph :=
  (d.patched.reverse.foldl Graph.undefine d.graph).discard d.created.reverse

/-- The bound placeholders that have no body. -/
def pending (d : Draft) (bound : RuleTable) : List (String × ParserId) :=
  bound.rules.filter fun r => d.graph.isUndefinedRule r.2

/-- Adds all of a grammar and checks what it leads to. -/
def build (sensitive : Bool) (bound : RuleTable) (ds : List Definition) :
    Drafting (Except GrammarError Compilation) := do
  let rules ← placeholders bound ds
  let defined ← resolveAll rules (ds.map Definition.name)
  match ← bodies sensitive rules ds with
  | .error e => pure (.error (.refused e))
  | .ok () =>
    let d ← get
    let pending := d.pending bound
    match d.graph.validateExcept (pending.map Prod.snd) defined with
    | .error e => pure (.error (.invalid e))
    | .ok () => pure (.ok ⟨rules, pending.map Prod.fst⟩)

end Draft

/-- Builds the definitions into a graph, or leaves none of them behind. -/
def assemble (ds : List Definition) (bindings : List ParserId) (sensitive : Bool) :
    Build (Except GrammarError Compilation) := fun g =>
  match check g ds bindings with
  | .error e => .ok (.error e) g
  | .ok bound =>
    match Draft.build sensitive bound ds ⟨g, none, [], []⟩ with
    | .error m d => .error m d.graph
    | .ok (.error e) d => .ok (.error e) d.undone
    | .ok (.ok c) d => .ok (.ok c) d.graph

/-- Compiles a text into a graph; rules it does not define may be bound to parsers by their
names. -/
def compile (dialect : Pattern.Dialect) (text : String) (bindings : List ParserId)
    (sensitive : Bool) : Build (Except GrammarError Compilation) := fun g =>
  match definitions dialect text with
  | .error m => .error m g
  | .ok (.error e) => .ok (.error e) g
  | .ok (.ok ds) => assemble ds bindings sensitive g

end Grammar

end ParserGraph
