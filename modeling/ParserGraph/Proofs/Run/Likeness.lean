import ParserGraph.Proofs.Graph.Likeness
import ParserGraph.Run.Basic

/-!
# Runs in graphs that are alike

A run meets ids only to look nodes up, and tells a parser by its name or by
what it does. So calls of corresponding parsers are the same part of a run,
with the same tree, place and errors, whatever the ids are
(`Graph.Alike.parse_eq`), as long as both graphs have the same limit on nested
parsers, which a run that nests too deep tells.
-/

namespace ParserGraph

variable {B : ParserId → ParserId → Prop}

namespace Attempt

section

variable {call call' : Call} (hcall : ∀ p q, B p q → call p = call' q)
include hcall

theorem inOrder_eq {ids ids' : List ParserId} (h : List.Forall₂ B ids ids') :
    inOrder call ids = inOrder call' ids' := by
  induction h with
  | nil => rfl
  | cons hid _ ih =>
    funext c
    rw [inOrder, inOrder, hcall _ _ hid, ih]

theorem firstOf_eq {ids ids' : List ParserId} (h : List.Forall₂ B ids ids') (c : Cursor)
    (failure : Option ParseError) : firstOf call c failure ids = firstOf call' c failure ids' := by
  induction h generalizing failure with
  | nil => cases failure <;> rfl
  | cons hid _ ih =>
    rw [firstOf, firstOf, hcall _ _ hid]
    refine congrArg _ (funext fun o => ?_)
    cases o with
    | matched tree stop => rfl
    | failed e => exact ih _

theorem rounds_eq {part part' : ParserId} (h : B part part') (unbounded : Bool) (n : Nat) :
    rounds call part unbounded n = rounds call' part' unbounded n := by
  induction n with
  | zero => rfl
  | succ n ih =>
    funext c
    rw [rounds, rounds, hcall _ _ h, ih]

end

end Attempt

/-- **A node does what its counterpart does**, if calls of corresponding operands are the same. -/
theorem Node.perform_eq {g g' : Graph} {call call' : Call}
    (hcall : ∀ p q, B p q → call p = call' q)
    (hdescribe : ∀ p q, B p q → g.describe p = g'.describe q) {name : Option String}
    {kind kind' : Kind} (h : kind.Alike B kind') :
    Node.perform ⟨name, kind⟩ g call = Node.perform ⟨name, kind'⟩ g' call' := by
  funext c
  cases h with
  | terminal => rfl
  | sequence h => simp only [perform, Attempt.sequence, Attempt.inOrder_eq hcall h]
  | alternation h => exact Attempt.firstOf_eq hcall h c none
  | repetition h => simp only [perform, Attempt.repetition, Attempt.rounds_eq hcall h]
  | optional h => simp only [perform, Attempt.optional, hcall _ _ h]
  | lookahead h => simp only [perform, Attempt.lookahead, hcall _ _ h, hdescribe _ _ h]
  | transform h => simp only [perform, Attempt.transform, hcall _ _ h]
  | token h => simp only [perform, Attempt.token, hcall _ _ h]
  | expect h => simp only [perform, Attempt.expect, hcall _ _ h]
  | undefined => rfl
  | rule h => simp only [perform, hcall _ _ h]

namespace Graph

variable {g g' : Graph} {p q : ParserId}

/-- **Calls of corresponding parsers are the same.** -/
theorem Alike.parse_eq (h : g.Alike B g') (hdepth : g.maxDepth = g'.maxDepth) (room : Nat) :
    ∀ p q, B p q → g.parse room p = g'.parse room q := by
  induction room with
  | zero =>
    intro p q _
    funext c
    have herror : g.tooDeep c = g'.tooDeep c := by simp only [tooDeep, hdepth]
    simp only [parse, herror]
  | succ room ih =>
    intro p q hpq
    obtain ⟨name, kind, kind', hp, hq, hkind⟩ := h p q hpq
    have hperform : Node.perform ⟨name, kind⟩ g (g.parse room) =
        Node.perform ⟨name, kind'⟩ g' (g'.parse room) :=
      Node.perform_eq ih (fun _ _ => h.describe_eq) hkind
    funext c
    rw [parse, parse, enter, enter, hp, hq]
    dsimp only
    rw [hperform]
    rfl

/-- **Runs of corresponding parsers come to the same.** -/
theorem Alike.run_eq (h : g.Alike B g') (hdepth : g.maxDepth = g'.maxDepth) (hpq : B p q)
    (input : String) : g.run p input = g'.run q input := by
  rw [run, run, hdepth, h.parse_eq hdepth g'.maxDepth p q hpq]

end Graph

end ParserGraph
