import ParserGraph.Proofs.Run.Match
import ParserGraph.Run.Basic

/-!
# Finished calls — reading the engine off one level of calls at a time

A call of the engine either finishes, with an outcome and a kept error, or
halts the run. This file forgets the errors: `Call.finishes` is the account
of what finished calls come to, and `Node.perform_yields` says that a node that
finishes comes to what its kind yields over that account. Facts about what
runs come to are read off `Graph.parse_finishes`, by induction on the room.
-/

namespace ParserGraph

/-- What an outcome comes to, its error forgotten. -/
def Outcome.toMatch : Outcome → Match Tree
  | .matched tree stop => some (tree, stop)
  | .failed _ => none

/-- One part after another comes to a result when both do. -/
theorem except_bind_eq_ok {α β ε : Type} {x : Except ε α} {f : α → Except ε β} {b : β}
    (h : x >>= f = .ok b) : ∃ a, x = .ok a ∧ f a = .ok b := by
  cases x with
  | error e => exact nomatch h
  | ok a => exact ⟨a, rfl, h⟩

/-- The first part that fails tells why. -/
theorem except_bind_eq_error {α β ε : Type} {x : Except ε α} {f : α → Except ε β} {e : ε}
    (h : x >>= f = .error e) : x = .error e ∨ ∃ a, x = .ok a ∧ f a = .error e := by
  cases x with
  | error e' =>
    cases h
    exact Or.inl rfl
  | ok a => exact Or.inr ⟨a, rfl, h⟩

/-- The account of the calls that finish. -/
def Call.finishes (call : Call) : Account := fun id c m =>
  ∃ kept outcome kept', (call id c).run kept = .ok (outcome, kept') ∧ outcome.toMatch = m

namespace Attempt

variable {α β : Type} {kept : Option ParseError}

/-- One part of a run after another finishes when both do. -/
theorem bind_eq_ok {x : Attempt α} {f : α → Attempt β} {r : β × Option ParseError} :
    (x >>= f).run kept = .ok r ↔
      ∃ a kept', x.run kept = .ok (a, kept') ∧ (f a).run kept' = .ok r := by
  rw [StateT.run_bind]
  constructor
  · intro h
    cases hx : x.run kept with
    | error e => rw [hx] at h; exact nomatch h
    | ok p => rw [hx] at h; exact ⟨p.1, p.2, rfl, h⟩
  · rintro ⟨a, kept', hx, hf⟩
    rw [hx]
    exact hf

/-- One part of a run after another halts when one of them does. -/
theorem bind_eq_error {x : Attempt α} {f : α → Attempt β} {h : Halt} :
    (x >>= f).run kept = .error h ↔
      x.run kept = .error h ∨
        ∃ a kept', x.run kept = .ok (a, kept') ∧ (f a).run kept' = .error h := by
  rw [StateT.run_bind]
  constructor
  · intro he
    cases hx : x.run kept with
    | error e =>
      rw [hx] at he
      injection he with he
      exact Or.inl (congrArg Except.error he)
    | ok p => rw [hx] at he; exact Or.inr ⟨p.1, p.2, rfl, he⟩
  · rintro (hx | ⟨a, kept', hx, hf⟩)
    · rw [hx]; rfl
    · rw [hx]; exact hf

theorem pure_eq_ok {a : α} {r : α × Option ParseError} :
    (pure a : Attempt α).run kept = .ok r ↔ (a, kept) = r :=
  ⟨fun h => Except.ok.inj h, fun h => congrArg Except.ok h⟩

@[simp]
theorem pure_ne_error {a : α} {h : Halt} : (pure a : Attempt α).run kept ≠ .error h :=
  fun he => nomatch he

@[simp]
theorem abandon_ne_error {start : Position} {e : ParseError} {h : Halt} :
    (abandon start e).run kept ≠ .error h :=
  fun he => nomatch he

/-- Forgetting kept errors leaves the outcome. -/
theorem isolated_eq_ok {call : Attempt Outcome} {outcome : Outcome} {kept' : Option ParseError}
    (h : (isolated call).run kept = .ok (outcome, kept')) :
    ∃ inner, call.run none = .ok (outcome, inner) := by
  obtain ⟨outer, k₁, -, h⟩ := bind_eq_ok.1 h
  obtain ⟨u, k₂, hset, h⟩ := bind_eq_ok.1 h
  obtain ⟨o, k₃, hcall, h⟩ := bind_eq_ok.1 h
  obtain ⟨u', k₄, -, h⟩ := bind_eq_ok.1 h
  cases pure_eq_ok.1 h
  cases hset
  exact ⟨k₃, hcall⟩

/-- A part of a run whose kept errors are forgotten halts as it does. -/
theorem isolated_eq_error {call : Attempt Outcome} {h : Halt}
    (hc : (isolated call).run kept = .error h) : call.run none = .error h := by
  rcases bind_eq_error.1 hc with hget | ⟨outer, k₁, -, hc⟩
  · exact nomatch hget
  rcases bind_eq_error.1 hc with hset | ⟨u, k₂, hset, hc⟩
  · exact nomatch hset
  cases hset
  rcases bind_eq_error.1 hc with hcall | ⟨o, k₃, -, hc⟩
  · exact hcall
  · rcases bind_eq_error.1 hc with hset | ⟨u, k₄, -, hc⟩
    · exact nomatch hset
    · exact absurd hc pure_ne_error

/-! ## What finished combinations come to -/

variable {call : Call}

/-- Calls one after another come to what they come to in order. -/
theorem inOrder_yields {ids : List ParserId} {c : Cursor}
    {result : Except ParseError (List Tree × Cursor)} {kept kept' : Option ParseError}
    (h : (inOrder call ids c).run kept = .ok (result, kept')) :
    InOrder call.finishes ids c result.toOption := by
  induction ids generalizing c result kept kept' with
  | nil =>
    cases pure_eq_ok.1 h
    exact .nil
  | cons id ids ih =>
    obtain ⟨o, k₁, hcall, h⟩ := bind_eq_ok.1 h
    cases o with
    | failed e =>
      cases pure_eq_ok.1 h
      exact .fails ⟨_, _, _, hcall, rfl⟩
    | matched tree stop =>
      obtain ⟨rest, k₂, hrest, h⟩ := bind_eq_ok.1 h
      have hids := InOrder.cons ⟨_, _, _, hcall, rfl⟩ (ih hrest)
      cases rest with
      | error e => cases pure_eq_ok.1 h; exact hids
      | ok p => cases pure_eq_ok.1 h; exact hids

/-- Calls tried one by one come to the first that matches. -/
theorem firstOf_yields {failure : Option ParseError} {ids : List ParserId} {c : Cursor}
    {outcome : Outcome} {kept kept' : Option ParseError}
    (h : (firstOf call c failure ids).run kept = .ok (outcome, kept')) :
    FirstOf call.finishes ids c outcome.toMatch := by
  induction ids generalizing failure kept with
  | nil =>
    cases failure with
    | none => cases pure_eq_ok.1 h; exact .nil
    | some e => cases pure_eq_ok.1 h; exact .nil
  | cons id ids ih =>
    rw [firstOf] at h
    obtain ⟨o, k₁, hcall, h⟩ := bind_eq_ok.1 h
    cases o with
    | matched tree stop =>
      cases pure_eq_ok.1 h
      exact .here ⟨_, _, _, hcall, rfl⟩
    | failed e => exact .later ⟨_, _, _, hcall, rfl⟩ (ih h)

/-- What rounds come to, by how they came to an end. -/
def Ending.settle (min : Nat) (trees : List Tree) (stop : Cursor) : Ending → Match (List Tree)
  | .stalled => some (padded min trees, stop)
  | .full => if trees.length < min then none else some (trees, stop)
  | .gaveUp _ _ => if trees.length < min then none else some (trees, stop)

/-- Without a round, none may be missing. -/
theorem Ending.settle_nil {ending : Ending} {min : Nat} {stop : Cursor} (h : ending ≠ .stalled) :
    ending.settle min [] stop = if min = 0 then some ([], stop) else none := by
  cases ending with
  | stalled => exact absurd rfl h
  | full => cases min <;> rfl
  | gaveUp start e => cases min <;> rfl

/-- Rounds that a tree goes before need one round less. -/
theorem Ending.settle_cons {ending : Ending} {min : Nat} {t : Tree} {ts : List Tree} {stop : Cursor}
    (hne : ending = .stalled → ts ≠ []) :
    ending.settle min (t :: ts) stop = (ending.settle (min - 1) ts stop).mapResult (t :: ·) := by
  have hlt : (t :: ts).length < min ↔ ts.length < min - 1 := by
    rw [List.length_cons]; omega
  cases ending with
  | full => simp only [settle, hlt]; split <;> rfl
  | gaveUp start e => simp only [settle, hlt]; split <;> rfl
  | stalled =>
    obtain ⟨u, us, rfl⟩ := List.exists_cons_of_ne_nil (hne rfl)
    have hmissing : min - (t :: u :: us).length = min - 1 - (u :: us).length := by
      simp only [List.length_cons]; omega
    simp only [settle, padded, List.getLast?_cons_cons, hmissing]
    rw [List.getLast?_eq_some_getLast (List.cons_ne_nil u us)]
    rfl

/-- A stalled round alone counts for all that are missing. -/
theorem padded_singleton (min : Nat) (t : Tree) :
    padded min [t] = List.replicate (max 1 min) t := by
  have hmax : max 1 min = (min - 1) + 1 := by omega
  rw [hmax, List.replicate_succ]
  rfl

/-- Calls made again and again come to what rounds come to; without an upper bound there have to
be more rounds than there are characters. -/
theorem rounds_yields (hcall : call.finishes.EndsAfter) {part : ParserId} {n min : Nat}
    {bound : Option Nat} {c stop : Cursor} {trees : List Tree} {ending : Ending}
    {kept kept' : Option ParseError}
    (hn : bound = some n ∨ bound = none ∧ c.ahead.length < n)
    (h : (rounds call part bound.isNone n c).run kept = .ok ((trees, stop, ending), kept')) :
    (ending = .stalled → trees ≠ []) ∧
      Rounds call.finishes part min bound c (ending.settle min trees stop) := by
  -- on the rounds left; the bound goes down with them as long as there is one
  induction n generalizing c kept min bound trees with
  | zero =>
    have hbound : bound = some 0 := hn.resolve_right fun hlt => Nat.not_lt_zero _ hlt.2
    subst hbound
    cases pure_eq_ok.1 h
    refine ⟨fun he => (nomatch he), ?_⟩
    rw [Ending.settle_nil (by simp)]
    exact .full
  | succ n ih =>
    have hbound : bound ≠ some 0 := by
      rintro rfl
      simp at hn
    obtain ⟨o, k₁, hpart, hgo⟩ := bind_eq_ok.1 h
    cases o with
    | failed e =>
      cases pure_eq_ok.1 hgo
      refine ⟨fun he => (nomatch he), ?_⟩
      rw [Ending.settle_nil (by simp)]
      exact .ends hbound ⟨_, _, _, hpart, rfl⟩
    | matched tree mid =>
      have hround : call.finishes part c (some (tree, mid)) := ⟨_, _, _, hpart, rfl⟩
      have hle : c ≤ mid := hcall.le hround
      dsimp only at hgo
      split at hgo
      · -- an unbounded repetition whose round took nothing
        next hstall =>
        rw [Bool.and_eq_true, Option.isNone_iff_eq_none, decide_eq_true_eq] at hstall
        obtain ⟨rfl, hposition⟩ := hstall
        have hmid : mid = c := Cursor.eq_of_offset_le hle (Nat.le_of_eq (by rw [hposition]))
        subst hmid
        cases pure_eq_ok.1 hgo
        refine ⟨fun _ => List.cons_ne_nil _ _, ?_⟩
        rw [Ending.settle, padded_singleton]
        exact .stalls hround
      · next hgoes =>
        have hnext : bound = none → mid ≠ c := by
          rintro rfl rfl
          simp at hgoes
        obtain ⟨⟨trees', stop', ending'⟩, k₂, hrest, hgo⟩ := bind_eq_ok.1 hgo
        cases pure_eq_ok.1 hgo
        have hn' : bound.map Nat.pred = some n ∨
            bound.map Nat.pred = none ∧ mid.ahead.length < n := by
          rcases hn with rfl | ⟨rfl, hlt⟩
          · exact Or.inl rfl
          · have hmid := Cursor.length_ahead_lt hle (hnext rfl)
            exact Or.inr ⟨rfl, by omega⟩
        rw [← Option.isNone_map (f := Nat.pred)] at hrest
        obtain ⟨hne, hrounds⟩ :
            (ending' = .stalled → trees' ≠ []) ∧ Rounds call.finishes part (min - 1)
              (bound.map Nat.pred) mid (ending'.settle (min - 1) trees' stop') := ih hn' hrest
        refine ⟨fun _ => List.cons_ne_nil _ _, ?_⟩
        rw [Ending.settle_cons hne]
        exact .again hbound hround hnext hrounds

/-- A repetition comes to its rounds under one node. -/
theorem repetition_yields (hcall : call.finishes.EndsAfter) {part : ParserId} {min : Nat}
    {max : Option Nat} {c : Cursor} {outcome : Outcome} {kept kept' : Option ParseError}
    (h : (repetition call part min max c).run kept = .ok (outcome, kept')) :
    ∃ m, Rounds call.finishes part min max c m ∧
      outcome.toMatch = m.mapResult (.branch · c.position) := by
  obtain ⟨⟨trees, stop, ending⟩, k₁, hrounds, hgo⟩ := bind_eq_ok.1 h
  have hn : max = some (max.getD (c.ahead.length + 1)) ∨
      max = none ∧ c.ahead.length < max.getD (c.ahead.length + 1) := by
    cases max with
    | none => exact Or.inr ⟨rfl, Nat.lt_succ_self _⟩
    | some n => exact Or.inl rfl
  refine ⟨_, (rounds_yields hcall hn hrounds).2, ?_⟩
  cases ending with
  | stalled => cases pure_eq_ok.1 hgo; rfl
  | full =>
    dsimp only at hgo
    rw [Ending.settle]
    split at hgo
    · next hlt => cases pure_eq_ok.1 hgo; rw [if_pos hlt]; rfl
    · next hlt => cases pure_eq_ok.1 hgo; rw [if_neg hlt]; rfl
  | gaveUp start e =>
    dsimp only at hgo
    rw [Ending.settle]
    split at hgo
    · next hlt => cases pure_eq_ok.1 hgo; rw [if_pos hlt]; rfl
    · next hlt =>
      obtain ⟨u, k₂, -, hgo⟩ := bind_eq_ok.1 hgo
      cases pure_eq_ok.1 hgo
      rw [if_neg hlt]
      rfl

/-- An optional parser comes to its operand, or to nothing. -/
theorem optional_yields {part : ParserId} {c : Cursor} {outcome : Outcome}
    {kept kept' : Option ParseError}
    (h : (optional call part c).run kept = .ok (outcome, kept')) :
    ∃ m, call.finishes part c m ∧ outcome.toMatch = some (m.getD (.empty c.position, c)) := by
  obtain ⟨o, k₁, hpart, hgo⟩ := bind_eq_ok.1 h
  refine ⟨_, ⟨_, _, _, hpart, rfl⟩, ?_⟩
  cases o with
  | matched tree stop => cases pure_eq_ok.1 hgo; rfl
  | failed e =>
    obtain ⟨u, k₂, -, hgo⟩ := bind_eq_ok.1 hgo
    cases pure_eq_ok.1 hgo
    rfl

/-- A lookahead comes to nothing, where its operand comes to what it looks for. -/
theorem lookahead_yields {part : ParserId} {negated : Bool} {description : String} {c : Cursor}
    {outcome : Outcome} {kept kept' : Option ParseError}
    (h : (lookahead call part negated description c).run kept = .ok (outcome, kept')) :
    ∃ m, call.finishes part c m ∧
      outcome.toMatch = if m.isSome = negated then none else some (.empty c.position, c) := by
  obtain ⟨o, k₁, hpart, hgo⟩ := bind_eq_ok.1 h
  obtain ⟨inner, hpart⟩ := isolated_eq_ok hpart
  refine ⟨_, ⟨_, _, _, hpart, rfl⟩, ?_⟩
  cases o <;> cases negated <;> cases pure_eq_ok.1 hgo <;> rfl

/-- A transformation comes to its operand with the tree reshaped. -/
theorem transform_yields {part : ParserId} {mapping : Tree → Tree} {c : Cursor} {outcome : Outcome}
    {kept kept' : Option ParseError}
    (h : (transform call part mapping c).run kept = .ok (outcome, kept')) :
    ∃ m, call.finishes part c m ∧ outcome.toMatch = m.mapResult mapping := by
  obtain ⟨o, k₁, hpart, hgo⟩ := bind_eq_ok.1 h
  refine ⟨_, ⟨_, _, _, hpart, rfl⟩, ?_⟩
  cases o <;> cases pure_eq_ok.1 hgo <;> rfl

/-- A token comes to its operand with the tree replaced by a leaf. -/
theorem token_yields {part : ParserId} {c : Cursor} {outcome : Outcome}
    {kept kept' : Option ParseError}
    (h : (token call part c).run kept = .ok (outcome, kept')) :
    ∃ m, call.finishes part c m ∧
      outcome.toMatch = m.map fun r => (.leaf (c.upTo r.2) c.position, r.2) := by
  obtain ⟨o, k₁, hpart, hgo⟩ := bind_eq_ok.1 h
  refine ⟨_, ⟨_, _, _, hpart, rfl⟩, ?_⟩
  cases o <;> cases pure_eq_ok.1 hgo <;> rfl

/-- A labelled parser comes to its operand. -/
theorem expect_yields {part : ParserId} {label : String} {c : Cursor} {outcome : Outcome}
    {kept kept' : Option ParseError}
    (h : (expect call part label c).run kept = .ok (outcome, kept')) :
    call.finishes part c outcome.toMatch := by
  obtain ⟨o, k₁, hpart, hgo⟩ := bind_eq_ok.1 h
  obtain ⟨inner, hpart⟩ := isolated_eq_ok hpart
  refine ⟨_, _, _, hpart, ?_⟩
  cases o <;> cases pure_eq_ok.1 hgo <;> rfl

end Attempt

/-- **A node that finishes comes to what its kind yields.** -/
theorem Node.perform_yields {node : Node} {g : Graph} {call : Call}
    (hcall : call.finishes.EndsAfter) {c : Cursor} {outcome : Outcome}
    {kept kept' : Option ParseError}
    (h : (node.perform g call c).run kept = .ok (outcome, kept')) :
    node.kind.Yields call.finishes c outcome.toMatch := by
  obtain ⟨name, kind⟩ := node
  cases kind with
  | terminal t =>
    cases Attempt.pure_eq_ok.1 h
    have hspan : (Attempt.terminal t c).toMatch =
        (t.span c).map fun n => (.leaf (c.next n) c.position, c.advance n) := by
      rw [Attempt.terminal]
      cases t.span c <;> rfl
    rw [hspan]
    exact .terminal
  | sequence parts =>
    obtain ⟨r, k₁, hparts, hgo⟩ := Attempt.bind_eq_ok.1 h
    have hseq := Kind.Yields.sequence (Attempt.inOrder_yields hparts)
    cases r with
    | error e => cases Attempt.pure_eq_ok.1 hgo; exact hseq
    | ok p => cases Attempt.pure_eq_ok.1 hgo; exact hseq
  | alternation branches => exact .alternation (Attempt.firstOf_yields h)
  | repetition part min max =>
    obtain ⟨m, hm, ho⟩ := Attempt.repetition_yields hcall h
    exact ho ▸ .repetition hm
  | optional part =>
    obtain ⟨m, hm, ho⟩ := Attempt.optional_yields h
    exact ho ▸ .optional hm
  | lookahead part negated =>
    obtain ⟨m, hm, ho⟩ := Attempt.lookahead_yields h
    exact ho ▸ .lookahead hm
  | transform part mapping =>
    obtain ⟨m, hm, ho⟩ := Attempt.transform_yields h
    exact ho ▸ .transform hm
  | token part =>
    obtain ⟨m, hm, ho⟩ := Attempt.token_yields h
    exact ho ▸ .token hm
  | expect part label => exact .expect (Attempt.expect_yields h)
  | rule body =>
    cases body with
    | none => cases Attempt.pure_eq_ok.1 h; exact .undefined
    | some body => exact .rule ⟨_, _, _, h, rfl⟩

/-! ## The engine, one level at a time -/

namespace Graph

variable {g : Graph} {call : Call}

/-- A call that enters a node finishes as the node does, with its name as a tag. -/
theorem enter_finishes (hcall : call.finishes.EndsAfter) {id : ParserId} {c : Cursor}
    {m : Match Tree} (h : (g.enter call).finishes id c m) :
    ∃ node, g.node? id = some node ∧
      ∃ m', node.kind.Yields call.finishes c m' ∧ m = m'.mapResult node.label := by
  obtain ⟨kept, o, kept', hrun, rfl⟩ := h
  rw [enter] at hrun
  split at hrun
  · exact nomatch hrun
  · next node hnode =>
    obtain ⟨o', k₁, hperform, hgo⟩ := Attempt.bind_eq_ok.1 hrun
    refine ⟨node, hnode, o'.toMatch, Node.perform_yields hcall hperform, ?_⟩
    cases o' <;> cases Attempt.pure_eq_ok.1 hgo <;> rfl

/-- **Calls match up to a place after the one they were made at.** -/
theorem parse_endsAfter (g : Graph) (room : Nat) : (g.parse room).finishes.EndsAfter := by
  induction room with
  | zero =>
    rintro id c m ⟨kept, o, kept', hrun, -⟩
    exact nomatch hrun
  | succ room ih =>
    intro id c m h
    obtain ⟨node, -, m', hyields, rfl⟩ := enter_finishes ih h
    exact (hyields.endsAfter ih).mapResult

/-- A call with no room does not finish. -/
theorem not_parse_zero_finishes {id : ParserId} {c : Cursor} {m : Match Tree} :
    ¬ (g.parse 0).finishes id c m := by
  rintro ⟨kept, o, kept', hrun, -⟩
  exact nomatch hrun

/-- **A finished call, one level down**: its node comes to what its kind yields over the calls with
one less room. -/
theorem parse_finishes {room : Nat} {id : ParserId} {c : Cursor} {m : Match Tree}
    (h : (g.parse (room + 1)).finishes id c m) :
    ∃ node, g.node? id = some node ∧
      ∃ m', node.kind.Yields (g.parse room).finishes c m' ∧ m = m'.mapResult node.label :=
  enter_finishes (g.parse_endsAfter room) h

/-- A parser whose call finished lives. -/
theorem contains_of_finishes {room : Nat} {id : ParserId} {c : Cursor} {m : Match Tree}
    (h : (g.parse room).finishes id c m) : g.contains id := by
  cases room with
  | zero => exact absurd h not_parse_zero_finishes
  | succ room =>
    obtain ⟨node, hnode, -⟩ := parse_finishes h
    rw [contains, hnode]
    rfl

end Graph

end ParserGraph
