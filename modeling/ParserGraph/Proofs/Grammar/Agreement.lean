import ParserGraph.Proofs.Grammar.Evaluation
import ParserGraph.Proofs.Grammar.Nesting
import ParserGraph.Proofs.Run.Settled

/-!
# Agreement — a compiled rule matches what its grammar says

A finished call of a parser that realizes an expression comes to what the
expression evaluates to (`Agrees`). The proof goes by the room of the call:
one form of expression is a fixed pattern of a few nodes, and what these come
to is read off level by level, with less room for the parsers below. The
nodes that skip white space are followed to the end of the white space
(`Skips.finishes`). Since compiling realizes every definition
(`Draft.Complete`), the runs of a compiled rule agree with evaluation.
-/

namespace ParserGraph

namespace Graph

variable {g : Graph} {room : Nat} {id : ParserId} {c : Cursor} {m : Match Tree}

/-- A finished call of a node without a name, one level down. -/
theorem finishes_anonymous {kind : Kind} (hnode : g.node? id = some ⟨none, kind⟩)
    (h : (g.parse room).finishes id c m) :
    ∃ below, room = below + 1 ∧ kind.Yields (g.parse below).finishes c m := by
  cases room with
  | zero => exact absurd h not_parse_zero_finishes
  | succ below =>
    obtain ⟨node, hnode', m', hyields, rfl⟩ := parse_finishes h
    cases hnode.symm.trans hnode'
    have hlabel : m'.mapResult (Node.label ⟨none, kind⟩) = m' := by
      cases m' <;> rfl
    rw [hlabel]
    exact ⟨below, rfl, hyields⟩

/-- A finished call of a transformation is its operand's with the tree reshaped. -/
theorem finishes_transform {part : ParserId} {mapping : Tree → Tree}
    (hnode : g.node? id = some ⟨none, .transform part mapping⟩)
    (h : (g.parse room).finishes id c m) :
    ∃ below m', room = below + 1 ∧ (g.parse below).finishes part c m' ∧
      m = m'.mapResult mapping := by
  obtain ⟨below, rfl, hyields⟩ := finishes_anonymous hnode h
  cases hyields with
  | transform hpart => exact ⟨below, _, rfl, hpart, rfl⟩

/-- A finished call of a terminal is what it spans. -/
theorem finishes_terminal {t : Terminal} (hnode : g.node? id = some ⟨none, .terminal t⟩)
    (h : (g.parse room).finishes id c m) :
    m = (t.span c).map fun n => (.leaf (c.next n) c.position, c.advance n) := by
  obtain ⟨below, rfl, hyields⟩ := finishes_anonymous hnode h
  cases hyields with
  | terminal => rfl

end Graph

namespace Grammar

/-! ## White space -/

/-- As many rounds of a white space character as there are pass all white space. -/
theorem rounds_spaces {R : Account} {space : ParserId} {c : Cursor} {m : Match (List Tree)}
    (hspace : ∀ c m, R space c m → m = ((Terminal.satisfy "whitespace"
      CharSet.whiteSpace.contains).span c).map fun n => (.leaf (c.next n) c.position, c.advance n))
    (h : Rounds R space 0 none c m) : ∃ ts, m = some (ts, pastSpaces c) := by
  have hrounds := Rounds.of_one hspace h
  rw [if_pos (Nat.zero_le _)] at hrounds
  exact ⟨_, hrounds⟩

section

variable {g : Graph} {room : Nat} {id : ParserId} {c : Cursor} {m : Match Tree}

/-- **Skipping white space passes all of it and leaves an empty tree.** -/
theorem Skips.finishes (hid : Skips g id) (h : (g.parse room).finishes id c m) :
    m = some (.empty c.position, pastSpaces c) := by
  obtain ⟨run, space, hskip, hrun, hspace⟩ := hid
  obtain ⟨below, m', rfl, hpart, rfl⟩ := Graph.finishes_transform hskip h
  obtain ⟨below, rfl, hyields⟩ := Graph.finishes_anonymous hrun hpart
  cases hyields with
  | repetition hrounds =>
    obtain ⟨ts, rfl⟩ := rounds_spaces (fun c m hm => Graph.finishes_terminal hspace hm) hrounds
    rfl

/-- **A terminal comes to a leaf, with the white space behind it unless that counts.** -/
theorem RealizesTerminal.finishes {sensitive : Bool} {t : Terminal}
    (hid : RealizesTerminal g sensitive id t) (h : (g.parse room).finishes id c m) :
    m = leafOver sensitive c (t.span c) := by
  cases sensitive with
  | true => exact Graph.finishes_terminal hid h
  | false =>
    obtain ⟨both, bare, spaces, hfirst, hboth, hbare, hspaces⟩ := hid
    obtain ⟨below, m', rfl, hpart, rfl⟩ := Graph.finishes_transform hfirst h
    obtain ⟨below, rfl, hyields⟩ := Graph.finishes_anonymous hboth hpart
    cases hyields with
    | sequence hparts =>
      rw [leafOver]
      cases hparts with
      | fails hfail =>
        have hspan := Graph.finishes_terminal hbare hfail
        rw [Option.map_eq_none_iff.1 hspan.symm]
        rfl
      | cons hleaf hrest =>
        obtain ⟨n, hspan, hstop⟩ :=
          Option.map_eq_some_iff.1 (Graph.finishes_terminal hbare hleaf).symm
        cases hstop
        rw [hspan]
        cases hrest with
        | fails hfail => exact nomatch hspaces.finishes hfail
        | cons hskipped hnone =>
          cases hspaces.finishes hskipped
          cases hnone
          rfl

end

/-! ## Expressions -/

section

variable {g : Graph} {sensitive : Bool} {rules : RuleTable} {ds : List Definition}
  {room depth : Nat}

/-- Finished calls with some room come to what expressions evaluate to, at a depth of at least as
much. -/
def Agrees (g : Graph) (sensitive : Bool) (rules : RuleTable) (ds : List Definition)
    (room : Nat) : Prop :=
  ∀ id e c m, Realizes g sensitive rules id e → (g.parse room).finishes id c m →
    ∀ depth, room ≤ depth → e.evaluate sensitive (evaluate ds sensitive depth) c = some m

theorem Agrees.inOrder (hagrees : Agrees g sensitive rules ds room) (hdepth : room ≤ depth)
    {ids : List ParserId} {items : List Expr} {c : Cursor} {m : Match (List Tree)}
    (hids : RealizesAll g sensitive rules ids items)
    (h : InOrder (g.parse room).finishes ids c m) :
    evaluateInOrder sensitive (evaluate ds sensitive depth) items c = some m := by
  induction h generalizing items with
  | nil =>
    cases hids
    rfl
  | fails hfail =>
    cases hids with
    | cons hid _ => rw [evaluateInOrder, hagrees _ _ _ _ hid hfail depth hdepth]
  | cons ht _ ih =>
    cases hids with
    | cons hid hids =>
      rw [evaluateInOrder, hagrees _ _ _ _ hid ht depth hdepth]
      dsimp only
      rw [ih hids]
      rfl

theorem Agrees.firstOf (hagrees : Agrees g sensitive rules ds room) (hdepth : room ≤ depth)
    {ids : List ParserId} {items : List Expr} {c : Cursor} {m : Match Tree}
    (hids : RealizesAll g sensitive rules ids items)
    (h : FirstOf (g.parse room).finishes ids c m) :
    evaluateFirst sensitive (evaluate ds sensitive depth) items c = some m := by
  induction h generalizing items with
  | nil =>
    cases hids
    rfl
  | here hmatch =>
    cases hids with
    | cons hid _ => rw [evaluateFirst, hagrees _ _ _ _ hid hmatch depth hdepth]
  | later hfail _ ih =>
    cases hids with
    | cons hid hids =>
      rw [evaluateFirst, hagrees _ _ _ _ hid hfail depth hdepth]
      exact ih hids

theorem Agrees.rounds (hagrees : Agrees g sensitive rules ds room) (hdepth : room ≤ depth)
    {part : ParserId} {item : Expr} {min : Nat} {max : Option Nat} {c : Cursor}
    {m : Match (List Tree)} (hpart : Realizes g sensitive rules part item)
    (h : Rounds (g.parse room).finishes part min max c m) :
    evaluateRounds (fun c => item.evaluate sensitive (evaluate ds sensitive depth) c) max.isNone
      (max.getD (c.ahead.length + 1)) min c = some m := by
  refine evaluateRounds_eq (g.parse_endsAfter room)
    (fun c m hm => hagrees part item c m hpart hm depth hdepth) ?_ h
  cases max with
  | none => exact Or.inr ⟨rfl, Nat.lt_succ_self _⟩
  | some n => exact Or.inl rfl

/-- A rule of the table is the placeholder of a definition, with a body that realizes it. -/
def Rules (g : Graph) (sensitive : Bool) (rules : RuleTable) (ds : List Definition) : Prop :=
  ∀ name id, rules.get? name = some id → ∃ d body, ds.find? (·.name = name) = some d ∧
    g.node? id = some ⟨some name, .rule (some body)⟩ ∧ RealizesBody g sensitive rules body d

/-- What the right-hand side of a definition comes to, its body evaluates to; a label plays no
part. -/
theorem RealizesBody.evaluate_eq {d : Definition} {body : ParserId} {c : Cursor} {m : Match Tree}
    (hagrees : ∀ below ≤ room, Agrees g sensitive rules ds below) (hdepth : room ≤ depth)
    (hbody : RealizesBody g sensitive rules body d) (h : (g.parse room).finishes body c m) :
    d.body.evaluate sensitive (evaluate ds sensitive depth) c = some m := by
  unfold RealizesBody at hbody
  cases hlabel : d.label with
  | none =>
    rw [hlabel] at hbody
    exact hagrees room (Nat.le_refl _) body d.body c m hbody h depth hdepth
  | some label =>
    rw [hlabel] at hbody
    obtain ⟨part, hpart, hnode⟩ := hbody
    obtain ⟨below, rfl, hyields⟩ := Graph.finishes_anonymous hnode h
    cases hyields with
    | expect h =>
      exact hagrees below (Nat.le_succ _) part d.body c m hpart h depth (Nat.le_of_succ_le hdepth)

/-- **A finished call of a parser that realizes an expression comes to what it evaluates to.** -/
theorem agrees (hrules : Rules g sensitive rules ds) (room : Nat) :
    Agrees g sensitive rules ds room := by
  -- on the room, since a node may call two levels down before it reaches a part of the expression
  induction room using Nat.strongRecOn with
  | ind room ih =>
    intro id e c m hid h depth hdepth
    cases hid with
    | @char _ x ht =>
      have hspan : (Terminal.char x).span c = if c.peek = some x then some 1 else none := by
        rw [Terminal.span, Cursor.one]
        cases c.peek with
        | none => rfl
        | some y => simp
      rw [Expr.evaluate, ht.finishes h, hspan]
    | literal ht => rw [Expr.evaluate, ht.finishes h, Terminal.span]
    | pattern ht => rw [Expr.evaluate, ht.finishes h, Terminal.span]
    | @reference _ name position hname =>
      obtain ⟨d, body, hfind, hnode, hbody⟩ := hrules name id hname
      cases room with
      | zero => exact absurd h Graph.not_parse_zero_finishes
      | succ below =>
        cases depth with
        | zero => exact absurd hdepth (Nat.not_succ_le_zero _)
        | succ depth =>
          -- entering the placeholder uses up one room, as following the reference does a depth
          obtain ⟨node, hnode', m', hyields, rfl⟩ := Graph.parse_finishes h
          cases hnode.symm.trans hnode'
          cases hyields with
          | rule hcall =>
            have hm := hbody.evaluate_eq (fun b hb => ih b (Nat.lt_succ_of_le hb))
              (Nat.le_of_succ_le_succ hdepth) hcall
            rw [Expr.evaluate, evaluate, hfind]
            dsimp only
            rw [hm]
            rfl
    | sequence hparts hwhole hfold =>
      obtain ⟨below, m', rfl, hpart, rfl⟩ := Graph.finishes_transform hfold h
      obtain ⟨below, rfl, hyields⟩ := Graph.finishes_anonymous hwhole hpart
      cases hyields with
      | sequence hin =>
        rw [Expr.evaluate, (ih below (by omega)).inOrder (by omega) hparts hin, Option.map_some,
          Match.mapResult_mapResult]
    | alternation hbranches hnode =>
      obtain ⟨below, rfl, hyields⟩ := Graph.finishes_anonymous hnode h
      cases hyields with
      | alternation hfirst =>
        rw [Expr.evaluate]
        exact (ih below (by omega)).firstOf (by omega) hbranches hfirst
    | repetition hpart hwhole hfold =>
      obtain ⟨below, m', rfl, hcall, rfl⟩ := Graph.finishes_transform hfold h
      obtain ⟨below, rfl, hyields⟩ := Graph.finishes_anonymous hwhole hcall
      cases hyields with
      | repetition hrounds =>
        rw [Expr.evaluate, (ih below (by omega)).rounds (by omega) hpart hrounds, Option.map_some,
          Match.mapResult_mapResult]
    | optional hpart hnode =>
      obtain ⟨below, rfl, hyields⟩ := Graph.finishes_anonymous hnode h
      cases hyields with
      | optional hcall =>
        rw [Expr.evaluate, ih below (by omega) _ _ _ _ hpart hcall depth (by omega)]
        rfl
    | absent hpart hnode =>
      obtain ⟨below, rfl, hyields⟩ := Graph.finishes_anonymous hnode h
      cases hyields with
      | @lookahead _ _ _ m hcall =>
        rw [Expr.evaluate, ih below (by omega) _ _ _ _ hpart hcall depth (by omega)]
        cases m <;> rfl

end

/-! ## Rules -/

/-- Where all definitions are built, every rule of the table is one of them. -/
theorem Draft.Complete.rules {d : Draft} {sensitive : Bool} {ds : List Definition}
    {rules : RuleTable} (h : d.Complete sensitive .empty ds rules) :
    Rules d.graph sensitive rules ds := by
  intro name id hget
  obtain ⟨e, he, hname⟩ := h.exists_definition hget
  have hsome : (ds.find? (·.name = name)).isSome :=
    List.find?_isSome.2 ⟨e, he, decide_eq_true hname⟩
  obtain ⟨e', hfind⟩ := Option.isSome_iff_exists.1 hsome
  have hname' : e'.name = name := by simpa using List.find?_some hfind
  obtain ⟨id', body, hget', hnode, hbody⟩ := h.defined e' (List.mem_of_find?_eq_some hfind)
  rw [hname'] at hget' hnode
  cases hget.symm.trans hget'
  exact ⟨e', body, hfind, hnode, hbody⟩

/-- A finished call of a rule comes to what the rule evaluates to. -/
theorem evaluate_of_finishes {g : Graph} {sensitive : Bool} {rules : RuleTable}
    {ds : List Definition} {name : String} {id : ParserId} {room : Nat} {c : Cursor}
    {m : Match Tree} (hrules : Rules g sensitive rules ds) (hget : rules.get? name = some id)
    (h : (g.parse room).finishes id c m) : evaluate ds sensitive room name c = some m := by
  -- a rule is evaluated as a reference to it
  have hreference : Realizes g sensitive rules id (.reference name .start) := .reference hget
  have heval := agrees hrules room id _ c _ hreference h room (Nat.le_refl room)
  rwa [Expr.evaluate] at heval

/-- **A compiled rule matches what its grammar says.** Every rule of a grammar that is compiled
without bindings, in any dialect, has its parser, and a run of it that the nesting limit does not
stop ends as the definitions evaluate: with the same tree up to the same place, or with no
match. -/
theorem compile_run_eq_evaluate {g g' : Graph} {dialect : Pattern.Dialect} {text : String}
    {sensitive : Bool} {ds : List Definition} {c : Compilation} (hg : g.Built)
    (hdefs : definitions dialect text = .ok (.ok ds))
    (hcompile : compile dialect text [] sensitive g = .ok (.ok c) g') :
    ∀ d ∈ ds, ∃ id, c.table.get? d.name = some id ∧
      ∀ (input : String) (room : Nat) (kept : Option ParseError),
        (∃ e, ((g'.parse room) id (Cursor.start input)).run kept = .error (.tooDeep e)) ∨
          ∃ outcome kept',
            ((g'.parse room) id (Cursor.start input)).run kept = .ok (outcome, kept') ∧
            ∀ depth, room ≤ depth →
              evaluate ds sensitive depth d.name (Cursor.start input) = some outcome.toMatch := by
  obtain ⟨ds', draft, hdefs', rfl, hover, hcomplete⟩ := compile_nil_eq_ok hg.sound hcompile
  cases hdefs.symm.trans hdefs'
  intro d hd
  obtain ⟨id, body, hget, -, -⟩ := hcomplete.defined d hd
  refine ⟨id, hget, fun input room kept => ?_⟩
  have hclosed : draft.graph.Closed id := hover.closed (hcomplete.mem_created hget)
  cases hrun : ((draft.graph.parse room) id (Cursor.start input)).run kept with
  | error halt =>
    cases halt with
    | tooDeep e => exact Or.inl ⟨e, rfl⟩
    | misuse m => exact absurd hrun (Graph.parse_ne_misuse hclosed)
  | ok r =>
    obtain ⟨outcome, kept'⟩ := r
    refine Or.inr ⟨outcome, kept', rfl, fun depth hdepth => ?_⟩
    -- a rule is evaluated as a reference to it
    have hreference : Realizes draft.graph sensitive c.table id (.reference d.name d.position) :=
      .reference hget
    have heval := agrees hcomplete.rules room id _ _ _ hreference ⟨kept, outcome, kept', hrun, rfl⟩
      depth hdepth
    rw [Expr.evaluate] at heval
    exact heval

/-- The tree of a recursive rule that matched twice. -/
def recursiveTree : Tree :=
  ⟨"a", "", ⟨0, 1, 1⟩, [.leaf "x" ⟨0, 1, 1⟩, (Tree.leaf "y" ⟨2, 1, 3⟩).tagged "a"]⟩

/-- Over text with blanks in it, the rule evaluates to the tree that its run comes to. -/
theorem compile_run_eq_evaluate_recursive :
    definitions .plain "a:'x'a|'y';" = .ok (.ok [⟨"a", none,
        .alternation [.sequence [.char 'x', .reference "a" ⟨5, 1, 6⟩], .char 'y'], ⟨0, 1, 1⟩⟩]) ∧
      Graph.empty.Built ∧ compile .plain "a:'x'a|'y';" [] false Graph.empty =
        .ok (.ok ⟨RuleTable.empty.insert "a" ⟨0, 0⟩, []⟩) recursiveGraph ∧
      evaluate [⟨"a", none,
          .alternation [.sequence [.char 'x', .reference "a" ⟨5, 1, 6⟩], .char 'y'], ⟨0, 1, 1⟩⟩]
        false 16 "a" (Cursor.start "x y ") =
          some (some (recursiveTree, (Cursor.start "x y ").advance 4)) := by
  refine ⟨definitions_recursive, .empty, compile_recursive, ?_⟩
  obtain ⟨id, hget, hruns⟩ :=
    compile_run_eq_evaluate .empty definitions_recursive compile_recursive _
      (List.mem_singleton_self _)
  have hid : some (⟨0, 0⟩ : ParserId) = some id := hget
  cases hid
  have hrun : ∃ kept', ((recursiveGraph.parse 16) ⟨0, 0⟩ (Cursor.start "x y ")).run none =
      .ok (.matched recursiveTree ((Cursor.start "x y ").advance 4), kept') := ⟨_, rfl⟩
  obtain ⟨kept', hrun⟩ := hrun
  rcases hruns "x y " 16 none with ⟨e, hdeep⟩ | ⟨outcome, kept'', hok, heval⟩
  · exact nomatch hrun.symm.trans hdeep
  · cases hrun.symm.trans hok
    exact heval 16 (Nat.le_refl _)

end Grammar

end ParserGraph
