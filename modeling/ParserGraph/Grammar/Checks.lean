import ParserGraph.Grammar.Definition
import ParserGraph.Grammar.Error
import ParserGraph.Grammar.Table

/-!
# Checks — what is settled before a grammar is built

The parsers a grammar is bound to must live and have names of their own, no
rule may be defined twice, and every reference must lead somewhere. All this
is settled while the graph is still untouched.
-/

namespace ParserGraph.Grammar

/-- Adds parsers to the table of those bound so far, each under its name. -/
def bind (g : Graph) : RuleTable → List ParserId → Except GrammarError RuleTable
  | bound, [] => .ok bound
  | bound, id :: ids =>
    match g.node? id with
    | none => .error (.refused (.released id))
    | some ⟨none, _⟩ => .error (.unnamedBinding id)
    | some ⟨some name, _⟩ =>
      if (bound.get? name).any (· != id) then .error (.duplicateBinding name)
      else bind g (bound.insert name id) ids

/-- Checks that each rule is defined once and that what is bound is only defined if it may be. -/
def checkDefinitions (g : Graph) (bound : RuleTable) :
    List String → List Definition → Except GrammarError Unit
  | _, [] => .ok ()
  | seen, d :: ds =>
    if seen.contains d.name || (bound.get? d.name).any (!g.isUndefinedRule ·) then
      .error (.duplicateRule d.name d.position)
    else checkDefinitions g bound (d.name :: seen) ds

/-- Checks that every reference is to a rule that is defined or bound. -/
def checkReferences (bound : RuleTable) (ds : List Definition) : Except GrammarError Unit :=
  let defined := ds.map Definition.name
  match (ds.flatMap fun d => d.body.references).find? fun r =>
      !defined.contains r.1 && !bound.contains r.1 with
  | some (name, position) => .error (.undefinedRule name position)
  | none => .ok ()

/-- Checks all that can be checked before building; yields the table of what is bound. -/
def check (g : Graph) (ds : List Definition) (bindings : List ParserId) :
    Except GrammarError RuleTable := do
  let bound ← bind g .empty bindings
  checkDefinitions g bound [] ds
  checkReferences bound ds
  .ok bound

end ParserGraph.Grammar
