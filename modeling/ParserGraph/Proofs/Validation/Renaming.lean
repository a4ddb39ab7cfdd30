import Mathlib.Data.Set.Function
import ParserGraph.Proofs.Run.Likeness
import ParserGraph.Proofs.Validation.Padding

/-!
# Renaming — one part of a graph under other ids

The part of a graph that a node leads to may stand in another graph under
other ids, in other slots, of other generations and in another order. If no
operand in it was released, the ids in it correspond one to one and the two
parts are alike (`Graph.Renaming.alike`). So nothing that a program can ask of
the one part differs from what it is told of the other: runs of every input
(`Graph.Renaming.run_eq`), validation with its reports and the nullable nodes.
-/

namespace ParserGraph.Graph

open Relator

/-- What `p` leads to in one graph stands in another under the ids that `f` gives, where `q` leads
to it. -/
structure Renaming (g : Graph) (p : ParserId) (g' : Graph) (q : ParserId)
    (f : ParserId → ParserId) : Prop where
  /-- No operand of what `p` leads to was released. -/
  closed : g.Closed p
  /-- Ids correspond one to one. -/
  bijective : Set.BijOn f {x | g.Leads p x} {y | g'.Leads q y}
  /-- The nodes they start from do. -/
  root : f p = q
  /-- Nodes keep their names, their kinds with all parameters, and the order of their operands. -/
  nodes : ∀ x, g.Leads p x → ∃ name kind kind', g.node? x = some ⟨name, kind⟩ ∧
    g'.node? (f x) = some ⟨name, kind'⟩ ∧ kind.Alike (fun o o' => f o = o') kind'

namespace Renaming

variable {g g' : Graph} {p q x : ParserId} {f : ParserId → ParserId} {roots : List ParserId}

/-- **The two parts are alike.** -/
theorem alike (h : g.Renaming p g' q f) :
    g.Alike (fun x y => g.Leads p x ∧ f x = y) g' := by
  rintro x _ ⟨hx, rfl⟩
  obtain ⟨name, kind, kind', hnode, hnode', hkind⟩ := h.nodes x hx
  refine ⟨name, kind, kind', hnode, hnode', hkind.mono_mem fun o ho o' _ hoo' => ⟨?_, hoo'⟩⟩
  rw [← operands_of_node? hnode] at ho
  exact hx.step ho (h.closed.2 x hx o ho)

/-- Ids of the two parts correspond one to one. -/
theorem biUnique (h : g.Renaming p g' q f) : BiUnique fun x y => g.Leads p x ∧ f x = y := by
  constructor
  · rintro x y _ ⟨hx, rfl⟩ ⟨hy, hyx⟩
    exact h.bijective.injOn hx hy hyx.symm
  · rintro x _ _ ⟨-, rfl⟩ ⟨-, rfl⟩
    rfl

/-- Nodes of the one part correspond to those under the ids that they are given. -/
theorem forall₂_map (hroots : ∀ r ∈ roots, g.Leads p r) :
    List.Forall₂ (fun x y => g.Leads p x ∧ f x = y) roots (roots.map f) :=
  List.forall₂_map_right_iff.2 (List.forall₂_same.2 fun r hr => ⟨hroots r hr, rfl⟩)

/-- **Runs come to the same**, whatever the input. -/
theorem run_eq (h : g.Renaming p g' q f) (hdepth : g.maxDepth = g'.maxDepth) (input : String) :
    g.run p input = g'.run q input :=
  h.alike.run_eq hdepth ⟨.refl h.closed.1, h.root⟩ input

/-- **So does validation**, with the same name in its report. -/
theorem validate_eq (h : g.Renaming p g' q f) (hroots : ∀ r ∈ roots, g.Leads p r) :
    g.validate roots = g'.validate (roots.map f) :=
  h.alike.validateExcept_eq_of_biUnique h.biUnique .nil (forall₂_map hroots)

/-- **Nullable nodes are those under the ids of nullable nodes.** -/
theorem mem_nullable_iff (h : g.Renaming p g' q f) (hroots : ∀ r ∈ roots, g.Leads p r)
    (y : ParserId) : y ∈ g'.nullable (roots.map f) ↔ ∃ x ∈ g.nullable roots, f x = y := by
  obtain ⟨hright, hleft⟩ := h.alike.exists_mem_nullable h.biUnique (forall₂_map hroots)
  constructor
  · intro hy
    obtain ⟨x, hx, -, hxy⟩ := hleft y hy
    exact ⟨x, hx, hxy⟩
  · rintro ⟨x, hx, rfl⟩
    obtain ⟨y, hy, -, rfl⟩ := hright x hx
    exact hy

end Renaming

end ParserGraph.Graph
