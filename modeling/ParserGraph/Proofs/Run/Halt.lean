import ParserGraph.Proofs.Graph.Reach
import ParserGraph.Proofs.Run.Finish

/-!
# Halted calls — where a run that stops short was stopped

A run halts when it finds no room for a call, or no node. Nothing recovers
from a halt, so a node that halts was halted by a call it makes
(`Node.perform_halts`), and a call that halts was halted down a chain of
calls (`Graph.enter_halts`). In a closed graph every call finds its node, so
that the nesting limit is all that can halt a run (`Graph.parse_ne_misuse`).
-/

namespace ParserGraph

namespace Attempt

variable {call : Call} {kept : Option ParseError} {halt : Halt}

/-- Calls one after another are halted by one of them that is reached. -/
theorem inOrder_halts {ids : List ParserId} {c : Cursor}
    (h : (inOrder call ids c).run kept = .error halt) :
    ∃ q c' kept', CallsInOrder call.finishes ids c q c' ∧ (call q c').run kept' = .error halt := by
  induction ids generalizing c kept with
  | nil => exact absurd h pure_ne_error
  | cons id ids ih =>
    rcases bind_eq_error.1 h with hcall | ⟨o, k₁, hcall, hgo⟩
    · exact ⟨id, c, kept, .here, hcall⟩
    cases o with
    | failed e => exact absurd hgo pure_ne_error
    | matched tree mid =>
      rcases bind_eq_error.1 hgo with hrest | ⟨r, k₂, -, hgo⟩
      · obtain ⟨q, c', k, hreach, hq⟩ := ih hrest
        exact ⟨q, c', k, .later ⟨_, _, _, hcall, rfl⟩ hreach, hq⟩
      · cases r with
        | error e => exact absurd hgo pure_ne_error
        | ok p => exact absurd hgo pure_ne_error

/-- Calls tried one by one are halted by one of them that is reached. -/
theorem firstOf_halts {failure : Option ParseError} {ids : List ParserId} {c : Cursor}
    (h : (firstOf call c failure ids).run kept = .error halt) :
    ∃ q kept', CallsFirstOf call.finishes ids c q ∧ (call q c).run kept' = .error halt := by
  induction ids generalizing failure kept with
  | nil =>
    cases failure with
    | none => exact absurd h pure_ne_error
    | some e => exact absurd h pure_ne_error
  | cons id ids ih =>
    rw [firstOf] at h
    rcases bind_eq_error.1 h with hcall | ⟨o, k₁, hcall, hgo⟩
    · exact ⟨id, kept, .here, hcall⟩
    cases o with
    | matched tree stop => exact absurd hgo pure_ne_error
    | failed e =>
      obtain ⟨q, k, hreach, hq⟩ := ih hgo
      exact ⟨q, k, .later ⟨_, _, _, hcall, rfl⟩ hreach, hq⟩

/-- Rounds are halted by one of them that is reached. -/
theorem rounds_halts {part : ParserId} {n : Nat} {bound : Option Nat} {c : Cursor}
    (hn : bound = some n ∨ bound = none)
    (h : (rounds call part bound.isNone n c).run kept = .error halt) :
    ∃ c' kept', CallsRounds call.finishes part bound c c' ∧
      (call part c').run kept' = .error halt := by
  induction n generalizing c kept bound with
  | zero => exact absurd h pure_ne_error
  | succ n ih =>
    have hbound : bound ≠ some 0 := by
      rintro rfl
      simp at hn
    rcases bind_eq_error.1 h with hcall | ⟨o, k₁, hcall, hgo⟩
    · exact ⟨c, kept, .here hbound, hcall⟩
    cases o with
    | failed e => exact absurd hgo pure_ne_error
    | matched tree mid =>
      dsimp only at hgo
      split at hgo
      · exact absurd hgo pure_ne_error
      · next hgoes =>
        have hnext : bound = none → mid ≠ c := by
          rintro rfl rfl
          simp at hgoes
        rcases bind_eq_error.1 hgo with hrest | ⟨r, k₂, -, hgo⟩
        · have hn' : bound.map Nat.pred = some n ∨ bound.map Nat.pred = none := by
            rcases hn with rfl | rfl
            · exact Or.inl rfl
            · exact Or.inr rfl
          rw [← Option.isNone_map (f := Nat.pred)] at hrest
          obtain ⟨c', k, hreach, hq⟩ := ih hn' hrest
          exact ⟨c', k, .later hbound ⟨_, _, _, hcall, rfl⟩ hnext hreach, hq⟩
        · exact absurd hgo pure_ne_error

/-- A repetition is halted by one of its rounds. -/
theorem repetition_halts {part : ParserId} {min : Nat} {max : Option Nat} {c : Cursor}
    (h : (repetition call part min max c).run kept = .error halt) :
    ∃ c' kept', CallsRounds call.finishes part max c c' ∧
      (call part c').run kept' = .error halt := by
  rcases bind_eq_error.1 h with hrounds | ⟨⟨trees, stop, ending⟩, k₁, -, hgo⟩
  · refine rounds_halts ?_ hrounds
    cases max with
    | none => exact Or.inr rfl
    | some n => exact Or.inl rfl
  · cases ending with
    | stalled => exact absurd hgo pure_ne_error
    | full => dsimp only at hgo; split at hgo <;> exact absurd hgo pure_ne_error
    | gaveUp start e =>
      dsimp only at hgo
      split at hgo
      · exact absurd hgo pure_ne_error
      · rcases bind_eq_error.1 hgo with habandon | ⟨u, k₂, -, hgo⟩
        · exact absurd habandon abandon_ne_error
        · exact absurd hgo pure_ne_error

/-- A parser with one operand that does no more than look at its outcome is halted by it. -/
theorem bind_halts {x : Attempt Outcome} {f : Outcome → Attempt Outcome}
    (hf : ∀ o k, (f o).run k ≠ .error halt) (h : (x >>= f).run kept = .error halt) :
    x.run kept = .error halt := by
  rcases bind_eq_error.1 h with hx | ⟨o, k, -, hgo⟩
  · exact hx
  · exact absurd hgo (hf o k)

end Attempt

/-- **A node that halts was halted by a call it makes.** -/
theorem Node.perform_halts {node : Node} {g : Graph} {call : Call} {c : Cursor}
    {kept : Option ParseError} {halt : Halt}
    (h : (node.perform g call c).run kept = .error halt) :
    ∃ q c' kept', node.kind.Calls call.finishes c q c' ∧ (call q c').run kept' = .error halt := by
  obtain ⟨name, kind⟩ := node
  cases kind with
  | terminal t => exact absurd h Attempt.pure_ne_error
  | sequence parts =>
    rcases Attempt.bind_eq_error.1 h with hparts | ⟨r, k₁, -, hgo⟩
    · obtain ⟨q, c', k, hreach, hq⟩ := Attempt.inOrder_halts hparts
      exact ⟨q, c', k, .sequence hreach, hq⟩
    · cases r with
      | error e => exact absurd hgo Attempt.pure_ne_error
      | ok p => exact absurd hgo Attempt.pure_ne_error
  | alternation branches =>
    obtain ⟨q, k, hreach, hq⟩ := Attempt.firstOf_halts h
    exact ⟨q, c, k, .alternation hreach, hq⟩
  | repetition part min max =>
    obtain ⟨c', k, hreach, hq⟩ := Attempt.repetition_halts h
    exact ⟨part, c', k, .repetition hreach, hq⟩
  | optional part =>
    refine ⟨part, c, kept, .optional, Attempt.bind_halts (fun o k hgo => ?_) h⟩
    cases o with
    | matched tree stop => exact absurd hgo Attempt.pure_ne_error
    | failed e =>
      rcases Attempt.bind_eq_error.1 hgo with habandon | ⟨u, k₂, -, hgo⟩
      · exact absurd habandon Attempt.abandon_ne_error
      · exact absurd hgo Attempt.pure_ne_error
  | lookahead part negated =>
    refine ⟨part, c, none, .lookahead, Attempt.isolated_eq_error
      (Attempt.bind_halts (fun o k hgo => ?_) h)⟩
    cases o <;> cases negated <;> exact absurd hgo Attempt.pure_ne_error
  | transform part mapping =>
    refine ⟨part, c, kept, .transform, Attempt.bind_halts (fun o k hgo => ?_) h⟩
    cases o <;> exact absurd hgo Attempt.pure_ne_error
  | token part =>
    refine ⟨part, c, kept, .token, Attempt.bind_halts (fun o k hgo => ?_) h⟩
    cases o <;> exact absurd hgo Attempt.pure_ne_error
  | expect part label =>
    refine ⟨part, c, none, .expect, Attempt.isolated_eq_error
      (Attempt.bind_halts (fun o k hgo => ?_) h)⟩
    cases o <;> exact absurd hgo Attempt.pure_ne_error
  | rule body =>
    cases body with
    | none => exact absurd h Attempt.pure_ne_error
    | some body => exact ⟨body, c, kept, .rule, h⟩

namespace Graph

variable {g : Graph} {call : Call}

/-- A call that enters a node halts for want of the node, or was halted by a call the node makes. -/
theorem enter_halts {id : ParserId} {c : Cursor} {kept : Option ParseError} {halt : Halt}
    (h : ((g.enter call) id c).run kept = .error halt) :
    (g.node? id = none ∧ halt = .misuse (.usedAfterCleanup id)) ∨
      ∃ node, g.node? id = some node ∧
        ∃ q c' kept', node.kind.Calls call.finishes c q c' ∧
          (call q c').run kept' = .error halt := by
  rw [enter] at h
  split at h
  · next hnode =>
    injection h with h
    exact Or.inl ⟨hnode, h.symm⟩
  · next node hnode =>
    refine Or.inr ⟨node, hnode, ?_⟩
    refine Node.perform_halts (Attempt.bind_halts (fun o k hgo => ?_) h)
    cases o <;> exact absurd hgo Attempt.pure_ne_error

/-- **In a closed graph, every call finds its node.** -/
theorem parse_ne_misuse {room : Nat} {id : ParserId} (hid : g.Closed id) {c : Cursor}
    {kept : Option ParseError} {misuse : Misuse} :
    ((g.parse room) id c).run kept ≠ .error (.misuse misuse) := by
  induction room generalizing id c kept with
  | zero => exact fun h => nomatch h
  | succ room ih =>
    -- the node is there, so the run was halted by a call it makes, whose operand is closed too
    intro h
    rcases enter_halts h with ⟨hnone, -⟩ | ⟨node, hnode, q, c', k, hcalls, hq⟩
    · obtain ⟨node, hnode⟩ := contains_iff.1 hid.1
      rw [hnone] at hnode
      exact nomatch hnode
    · have hmem : q ∈ g.operands id := operands_of_node? hnode ▸ hcalls.mem_operands
      exact ih (hid.of_operand hmem) hq

/-- In a closed graph, a run ends with a tree or with an error. -/
theorem Closed.run_eq_ok {id : ParserId} (hid : g.Closed id) (input : String) :
    ∃ r, g.run id input = .ok r := by
  rw [run]
  split
  · exact ⟨_, rfl⟩
  · next hrun => exact absurd hrun (parse_ne_misuse hid)
  · exact ⟨_, rfl⟩
  · exact ⟨_, rfl⟩
  · exact ⟨_, rfl⟩

end Graph

end ParserGraph
