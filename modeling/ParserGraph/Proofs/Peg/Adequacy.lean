import ParserGraph.Proofs.Peg.Basic
import ParserGraph.Proofs.Run.Terminal
import ParserGraph.Proofs.Run.Halt

/-!
# Adequacy — the engine realises the grammar that a graph is

A graph is a parsing expression grammar once its names, mappings, labels and
descriptions are forgotten (`Graph.peg`). Whatever a call of the engine comes
to, the grammar derives: level by level, each kind carries over what holds of
the calls below it (`Kind.Yields.derives`), hence every finished call does
(`Graph.parse_derives`). The other direction needs no argument of its own,
since a goal has at most one result and a run that is not stopped by the
nesting limit has one.
-/

namespace ParserGraph

/-! ## The grammar of a graph -/

/-- What a kind stands for in a grammar. -/
def Kind.form : Kind → Peg.Form
  | .terminal t => .terminal t.Takes
  | .sequence parts => .sequence parts
  | .alternation branches => .choice branches
  | .repetition part min max => .repetition part min max
  | .optional part => .optional part
  | .lookahead part false => .andPredicate part
  | .lookahead part true => .notPredicate part
  | .transform part _ => .same part
  | .token part => .same part
  | .expect part _ => .same part
  | .rule (some body) => .same body
  | .rule none => .never

/-- The grammar that a graph is. -/
def Graph.peg (g : Graph) : Peg.Rules := fun id => (g.kind? id).map Kind.form

/-- Only terminals stand for terminals, and those are definite. -/
theorem Graph.peg_definite (g : Graph) : g.peg.Definite := by
  intro id takes h behind ahead m n hm hn
  obtain ⟨kind, -, hform⟩ := Option.map_eq_some_iff.1 h
  cases kind with
  | terminal t =>
    cases hform
    exact hm.det hn
  | lookahead part negated => cases negated <;> exact nomatch hform
  | rule body => cases body <;> exact nomatch hform
  | _ => exact nomatch hform

/-! ## From matches to offsets -/

/-- The offset a match ends at. -/
def Match.offset {α : Type} (m : Match α) : Option Nat := m.map fun r => r.2.position.offset

@[simp]
theorem Match.offset_none {α : Type} : Match.offset (none : Match α) = none := rfl

@[simp]
theorem Match.offset_some {α : Type} (r : α × Cursor) :
    Match.offset (some r) = some r.2.position.offset := rfl

@[simp]
theorem Match.offset_mapResult {α β : Type} (f : α → β) (m : Match α) :
    (m.mapResult f).offset = m.offset := by
  cases m <;> rfl

/-- An account of calls that agrees with a grammar at every place of an input. -/
def Account.Derived (R : Account) (P : Peg.Rules) (input : String) : Prop :=
  ∀ id c m, R id c m → Cursor.start input ≤ c →
    Peg.Derives P input.toList (.parser id) c.position.offset m.offset

section

variable {R : Account} {P : Peg.Rules} {input : String} {c : Cursor}

/-- A terminal comes to what its form derives. -/
theorem Terminal.span_derives (t : Terminal) (hc : Cursor.start input ≤ c) :
    Peg.Derives P input.toList (.form (.terminal t.Takes)) c.position.offset
      ((t.span c).map fun n => (c.advance n).position.offset) := by
  have htext : input.toList = c.behind.reverse ++ c.ahead := (Cursor.text_of_start_le hc).symm
  have hoffset : c.position.offset = bytes c.behind.reverse := by
    rw [bytes_reverse]
    exact Cursor.offset_of_start_le hc
  cases hspan : t.span c with
  | none =>
    refine .terminalFails htext hoffset fun n hn => ?_
    rw [List.reverse_reverse, ← span_eq_some_iff, hspan] at hn
    exact nomatch hn
  | some n =>
    have hlen : (c.ahead.take n).length = n := by
      rw [List.length_take]
      exact Nat.min_eq_left (span_le hspan)
    have hsplit : c.ahead = c.ahead.take n ++ c.ahead.drop n := (List.take_append_drop n _).symm
    rw [Option.map_some, Cursor.offset_advance]
    refine .terminal (htext.trans (congrArg _ hsplit)) hoffset ?_
    rw [List.reverse_reverse, ← hsplit, hlen]
    exact span_eq_some_iff.1 hspan

variable (hR : R.Derived P input) (hend : R.EndsAfter)
include hR hend

theorem InOrder.derives {ids : List ParserId} {m : Match (List Tree)} (h : InOrder R ids c m)
    (hc : Cursor.start input ≤ c) :
    Peg.Derives P input.toList (.parts ids) c.position.offset m.offset := by
  induction h with
  | nil => exact .partsNil
  | fails hid => exact .partsFail (hR _ _ _ hid hc)
  | cons hid _ ih =>
    rw [Match.offset_mapResult]
    exact .partsCons (hR _ _ _ hid hc) (ih (Cursor.le_trans hc (hend.le hid)))

omit hend in
theorem FirstOf.derives {ids : List ParserId} {m : Match Tree} (h : FirstOf R ids c m)
    (hc : Cursor.start input ≤ c) :
    Peg.Derives P input.toList (.branches ids) c.position.offset m.offset := by
  induction h with
  | nil => exact .branchesNil
  | here hid => exact .branchesHere (hR _ _ _ hid hc)
  | later hid _ ih => exact .branchesLater (hR _ _ _ hid hc) (ih hc)

theorem Rounds.derives {part : ParserId} {min : Nat} {max : Option Nat} {m : Match (List Tree)}
    (h : Rounds R part min max c m) (hc : Cursor.start input ≤ c) :
    Peg.Derives P input.toList (.rounds part min max) c.position.offset m.offset := by
  -- the same rule on both sides says when the rounds may end
  have hsettled : ∀ (n : Nat) (c : Cursor),
      Match.offset (if n = 0 then some (([] : List Tree), c) else none) =
        if n = 0 then some c.position.offset else none := by
    intro n c
    split <;> rfl
  induction h with
  | full =>
    rw [hsettled]
    exact .roundsFull
  | ends hmax hpart =>
    rw [hsettled]
    exact .roundsEnd hmax (hR _ _ _ hpart hc)
  | stalls hpart => exact .roundsStall (hR _ _ _ hpart hc)
  | again hmax hpart hne _ ih =>
    have hle := hend.le hpart
    rw [Match.offset_mapResult]
    -- a round that got on in characters got on in bytes
    refine .roundsAgain hmax (hR _ _ _ hpart hc) (fun hnone he => ?_) (ih (Cursor.le_trans hc hle))
    exact hne hnone (Cursor.eq_of_offset_le hle (Nat.le_of_eq he))

/-- **What a kind comes to, its form derives**, if that holds of the calls below. -/
theorem Kind.Yields.derives {kind : Kind} {m : Match Tree} (h : kind.Yields R c m)
    (hc : Cursor.start input ≤ c) :
    Peg.Derives P input.toList (.form kind.form) c.position.offset m.offset := by
  cases h with
  | @terminal t =>
    have hderives := t.span_derives (P := P) hc
    cases hspan : t.span c with
    | none => rw [hspan] at hderives; exact hderives
    | some n => rw [hspan] at hderives; exact hderives
  | sequence h =>
    rw [Match.offset_mapResult]
    exact .sequence (h.derives hR hend hc)
  | alternation h => exact .choice (h.derives hR hc)
  | repetition h =>
    rw [Match.offset_mapResult]
    exact .repetition (h.derives hR hend hc)
  | @optional _ _ m h =>
    cases m with
    | none => exact .optionalNone (hR _ _ _ h hc)
    | some r => exact .optional (hR _ _ _ h hc)
  | @lookahead _ negated _ m h =>
    cases m with
    | none =>
      cases negated with
      | false => exact .andPredicateFails (hR _ _ _ h hc)
      | true => exact .notPredicate (hR _ _ _ h hc)
    | some r =>
      cases negated with
      | false => exact .andPredicate (hR _ _ _ h hc)
      | true => exact .notPredicateFails (hR _ _ _ h hc)
  | transform h =>
    rw [Match.offset_mapResult]
    exact .same (hR _ _ _ h hc)
  | @token _ _ m h =>
    have hoffset : Match.offset (m.map fun r => (Tree.leaf (c.upTo r.2) c.position, r.2)) =
        m.offset := by
      cases m <;> rfl
    rw [hoffset]
    exact .same (hR _ _ _ h hc)
  | expect h => exact .same (hR _ _ _ h hc)
  | rule h => exact .same (hR _ _ _ h hc)
  | undefined => exact .never

end

namespace Graph

variable {g : Graph} {room : Nat} {p : ParserId} {input : String} {c : Cursor}

/-- **What a finished call comes to, the grammar of the graph derives.** -/
theorem parse_derives (g : Graph) (room : Nat) (input : String) :
    (g.parse room).finishes.Derived g.peg input := by
  induction room with
  | zero => exact fun id c m h _ => absurd h not_parse_zero_finishes
  | succ room ih =>
    intro id c m h hc
    obtain ⟨node, hnode, m', hyields, rfl⟩ := parse_finishes h
    have hform : g.peg id = some node.kind.form := by simp [peg, kind?, hnode]
    rw [Match.offset_mapResult]
    exact .parser hform (hyields.derives ih (g.parse_endsAfter room) hc)

/-- A call that the nesting limit does not stop finishes, if no operand on its way was released. -/
theorem parse_finishes_of_not_tooDeep (hp : g.Closed p) {kept : Option ParseError}
    (h : ∀ e, ((g.parse room) p c).run kept ≠ .error (.tooDeep e)) :
    ∃ outcome kept', ((g.parse room) p c).run kept = .ok (outcome, kept') := by
  cases hrun : ((g.parse room) p c).run kept with
  | ok r => exact ⟨r.1, r.2, rfl⟩
  | error halt =>
    cases halt with
    | tooDeep e => exact absurd hrun (h e)
    | misuse m => exact absurd hrun (parse_ne_misuse hp)

/-- **Nothing that the grammar forgets decides a match**: neither names nor mappings nor labels,
neither the room nor the error kept so far. -/
theorem offset_eq_of_peg_eq {g' : Graph} {room' : Nat} {m m' : Match Tree} (h : g.peg = g'.peg)
    (hm : (g.parse room).finishes p c m) (hm' : (g'.parse room').finishes p c m')
    (hc : Cursor.start input ≤ c) : m.offset = m'.offset := by
  have hd := g.parse_derives room input p c m hm hc
  have hd' := g'.parse_derives room' input p c m' hm' hc
  rw [← h] at hd'
  exact hd.det g.peg_definite (show Peg.Goal.Definite (.parser p) from trivial) hd'

/-- **The engine realises the grammar of its graph.** At any place of an input and with any room and
any error kept so far, a call that the nesting limit does not stop matches up to exactly the offset
that the grammar derives, and fails exactly when the grammar derives failure. -/
theorem parse_iff_derives (hp : g.Closed p) (hc : Cursor.start input ≤ c)
    {kept : Option ParseError} (h : ∀ e, ((g.parse room) p c).run kept ≠ .error (.tooDeep e)) :
    (∀ e, (∃ tree stop kept', ((g.parse room) p c).run kept = .ok (.matched tree stop, kept') ∧
        stop.position.offset = e) ↔
      Peg.Derives g.peg input.toList (.parser p) c.position.offset (some e)) ∧
    ((∃ error kept', ((g.parse room) p c).run kept = .ok (.failed error, kept')) ↔
      Peg.Derives g.peg input.toList (.parser p) c.position.offset none) := by
  obtain ⟨outcome, kept', hrun⟩ := parse_finishes_of_not_tooDeep hp h
  have hderives : Peg.Derives g.peg input.toList (.parser p) c.position.offset
      outcome.toMatch.offset :=
    g.parse_derives room input p c _ ⟨kept, outcome, kept', hrun, rfl⟩ hc
  have hdet : ∀ r, Peg.Derives g.peg input.toList (.parser p) c.position.offset r →
      outcome.toMatch.offset = r :=
    fun r hr => hderives.det g.peg_definite (show Peg.Goal.Definite (.parser p) from trivial) hr
  -- the run has one outcome and the goal one result, so either decides the other
  rw [hrun]
  cases outcome with
  | matched tree stop =>
    refine ⟨fun e => ⟨?_, fun hd => ?_⟩, ?_, fun hd => nomatch hdet _ hd⟩
    · rintro ⟨tree', stop', k, hok, rfl⟩
      cases hok
      exact hderives
    · exact ⟨tree, stop, kept', rfl, Option.some.inj (hdet _ hd)⟩
    · rintro ⟨error, k, hok⟩
      exact nomatch hok
  | failed error =>
    refine ⟨fun e => ⟨?_, fun hd => nomatch hdet _ hd⟩, fun _ => hderives, fun _ => ?_⟩
    · rintro ⟨tree, stop, k, hok, -⟩
      exact nomatch hok
    · exact ⟨error, kept', rfl⟩

/-- Brackets around brackets or nothing: a placeholder that comes back to itself. -/
def brackets : Graph where
  slots := #[.live 0 ⟨some "inner", .rule (some ⟨4, 0⟩)⟩,
    .live 0 ⟨none, .terminal (.char '(')⟩,
    .live 0 ⟨none, .terminal (.char ')')⟩,
    .live 0 ⟨some "pair", .sequence [⟨1, 0⟩, ⟨0, 0⟩, ⟨2, 0⟩]⟩,
    .live 0 ⟨none, .optional ⟨3, 0⟩⟩]
  free := []
  live := 5
  maxDepth := 256

theorem closed_brackets : brackets.Closed ⟨0, 0⟩ :=
  Closed.of_forall (S := fun id => id ∈ [⟨0, 0⟩, ⟨1, 0⟩, ⟨2, 0⟩, ⟨3, 0⟩, ⟨4, 0⟩])
    (by decide) (by decide) (by decide)

/-- Behind the first character, two pairs of brackets are matched and therefore derived. -/
theorem parse_iff_derives_brackets :
    brackets.Closed ⟨0, 0⟩ ∧ Cursor.start "x(())" ≤ (Cursor.start "x(())").advance 1 ∧
      (∀ e, ((brackets.parse 16) ⟨0, 0⟩ ((Cursor.start "x(())").advance 1)).run none ≠
        .error (.tooDeep e)) ∧
      Peg.Derives brackets.peg "x(())".toList (.parser ⟨0, 0⟩) 1 (some 5) := by
  have hrun : ∃ tree kept', ((brackets.parse 16) ⟨0, 0⟩ ((Cursor.start "x(())").advance 1)).run
      none = .ok (.matched tree ((Cursor.start "x(())").advance 5), kept') := ⟨_, _, rfl⟩
  obtain ⟨tree, kept', hrun⟩ := hrun
  have hdeep : ∀ e, ((brackets.parse 16) ⟨0, 0⟩ ((Cursor.start "x(())").advance 1)).run none ≠
      .error (.tooDeep e) := by
    intro e he
    rw [hrun] at he
    exact nomatch he
  refine ⟨closed_brackets, Cursor.le_advance _ _, hdeep, ?_⟩
  exact ((parse_iff_derives closed_brackets (Cursor.le_advance _ _) hdeep).1 5).1
    ⟨tree, _, kept', hrun, rfl⟩

end Graph

end ParserGraph
