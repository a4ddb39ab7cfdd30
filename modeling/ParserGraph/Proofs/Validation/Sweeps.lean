import Mathlib.Order.Bounds.Defs
import ParserGraph.Proofs.Validation.Refinement

/-!
# Sweeps — nullable parsers as a least fixed point

The nullable parsers are the least set of nodes that no rule of nullability
leads out of (`Graph.isLeast_nullable`). Sweeps that go on until one of them
adds nothing come to an end, since each of the others adds a node
(`Graph.le_length_swept`), and what is known then is what the least set has in
reach, whatever order each sweep goes by (`Graph.mem_swept_iff`). So the order
does not matter, roots do not matter to each other, and a placeholder that is
given its body adds to what is nullable.
-/

namespace ParserGraph.Graph

variable {g : Graph} {ids roots known : List ParserId} {id : ParserId}
  {orders : Nat → List ParserId} {n : Nat}

/-! ## The least set -/

open Classical in
/-- A set of nodes that no rule of nullability leads out of, anywhere in the graph. -/
def NullClosed (g : Graph) (S : Set ParserId) : Prop :=
  ∀ id kind, g.kind? id = some kind → kind.isNullable (fun o => decide (o ∈ S)) → id ∈ S

/-- **The nullable parsers are the least set that no rule of nullability leads out of.** -/
theorem isLeast_nullable (g : Graph) : IsLeast {S | g.NullClosed S} {id | g.Nullable id} := by
  classical
  refine ⟨fun id kind hkind hnull => (nullable_iff_of_kind? hkind).2 ?_, fun S hS id hid => ?_⟩
  · refine Kind.isNullable_mono (fun o _ ho => ?_) hnull
    exact decide_eq_true (of_decide_eq_true ho)
  · refine Nullable.least (S := (· ∈ S)) hid fun p known hknown hnull => ?_
    obtain ⟨kind, hkind, hkindNull⟩ := (Option.any_eq_true _ _).1 hnull
    refine hS p kind hkind (Kind.isNullable_mono (fun o _ ho => ?_) hkindNull)
    exact decide_eq_true (hknown o (List.contains_iff_mem.1 ho))

/-! ## Sweeps in any order -/

/-- What is known after so many sweeps, each of which goes by an order of its own. -/
def swept (g : Graph) (orders : Nat → List ParserId) : Nat → List ParserId
  | 0 => []
  | n + 1 => g.sweepNullable (orders n) (g.swept orders n)

/-- A sweep that changes anything adds a node. -/
theorem length_lt_sweepNullable (h : g.sweepNullable ids known ≠ known) :
    known.length < (g.sweepNullable ids known).length := by
  obtain ⟨added, hadded⟩ := g.exists_sweepNullable_eq ids known
  have hsome : added ≠ [] := by
    rintro rfl
    exact h hadded
  have hpos := List.length_pos_of_ne_nil hsome
  rw [hadded, List.length_append]
  omega

/-- So after sweeps that each change something, as many nodes are known. -/
theorem le_length_swept (h : ∀ m < n, g.swept orders (m + 1) ≠ g.swept orders m) :
    n ≤ (g.swept orders n).length := by
  induction n with
  | zero => exact Nat.zero_le _
  | succ n ih =>
    have hbefore := ih fun m hm => h m (by omega)
    have hadds := length_lt_sweepNullable (h n (Nat.lt_succ_self n))
    have hsweep : g.swept orders (n + 1) = g.sweepNullable (orders n) (g.swept orders n) := rfl
    rw [hsweep]
    omega

section

variable (horders : ∀ i, (orders i).Perm ids)
include horders

/-- What is known are nodes that were swept over, each once. -/
theorem swept_nodup_subset (n : Nat) : (g.swept orders n).Nodup ∧ g.swept orders n ⊆ ids := by
  induction n with
  | zero => exact ⟨List.nodup_nil, List.nil_subset _⟩
  | succ n ih => exact sweepNullable_nodup_subset ih.1 ih.2 (horders n).subset

theorem length_swept_le (n : Nat) : (g.swept orders n).length ≤ ids.length := by
  obtain ⟨hnodup, hsub⟩ := swept_nodup_subset (g := g) horders n
  exact (List.subperm_of_subset hnodup hsub).length_le

/-- **The sweeps come to an end**: one of the first, of which there are no more than nodes and one,
is the first to change nothing. -/
theorem exists_swept_stable (g : Graph) : ∃ n ≤ ids.length,
    (∀ m < n, g.swept orders (m + 1) ≠ g.swept orders m) ∧
      g.swept orders (n + 1) = g.swept orders n := by
  have hstable : ∃ n, g.swept orders (n + 1) = g.swept orders n := by
    by_contra hnone
    have hchanges : ∀ m < ids.length + 1, g.swept orders (m + 1) ≠ g.swept orders m :=
      fun m _ hm => hnone ⟨m, hm⟩
    have hmany := le_length_swept hchanges
    have hfew := length_swept_le (g := g) horders (ids.length + 1)
    omega
  have hbefore : ∀ m < Nat.find hstable, g.swept orders (m + 1) ≠ g.swept orders m :=
    fun m hm => Nat.find_min hstable hm
  refine ⟨Nat.find hstable, ?_, hbefore, Nat.find_spec hstable⟩
  exact Nat.le_trans (le_length_swept hbefore) (length_swept_le horders _)

/-- Whatever is known is nullable. -/
theorem nullable_of_mem_swept (h : id ∈ g.swept orders n) : g.Nullable id := by
  have hrules : ∀ p ∈ ids, ∀ known : List ParserId, (∀ o ∈ known, g.Nullable o) →
      (g.kind? p).any (Kind.isNullable known.contains) → g.Nullable p := by
    intro p _ known hknown hnull
    obtain ⟨kind, hkind, hkindNull⟩ := (Option.any_eq_true _ _).1 hnull
    exact .of_kind hkind (fun o ho => hknown o (List.contains_iff_mem.1 ho)) hkindNull
  induction n generalizing id with
  | zero => exact absurd h List.not_mem_nil
  | succ n ih => exact sweepNullable_least hrules (horders n).subset (fun _ => ih) id h

/-- **Once a sweep changes nothing, known is what is nullable among the nodes**, if these have the
operands that live among them. -/
theorem mem_swept_iff (hclosed : ∀ p ∈ ids, ∀ o ∈ g.operands p, g.contains o → o ∈ ids)
    (hstable : g.swept orders (n + 1) = g.swept orders n) :
    id ∈ g.swept orders n ↔ id ∈ ids ∧ g.Nullable id := by
  refine ⟨fun h => ⟨(swept_nodup_subset horders n).2 h, nullable_of_mem_swept horders h⟩, ?_⟩
  rintro ⟨hid, hnull⟩
  refine hnull.mem_of_stable hid hclosed fun p hp kind hkind hkindNull => ?_
  refine mem_of_sweepNullable_length (congrArg List.length hstable) ((horders n).mem_iff.2 hp) ?_
  rw [hkind]
  exact hkindNull

end

/-! ## What is nullable in reach -/

/-- Giving a placeholder its body refines the graph. -/
theorem refines_define {rule body : ParserId} {g' : Graph} (h : g.define rule body = .ok g') :
    g.Refines g' := by
  obtain ⟨-, name, hrule, rfl⟩ := define_eq_ok h
  exact refines_replace hrule

/-- **Nullability is a least fixed point, and local.** The nullable parsers are the least set of
nodes that no rule of nullability leads out of; all of them live, and those of given roots are the
ones in reach. Sweeps over what is in reach, each in any order, come to one that changes nothing
after no more than there are nodes, and what is known then is what is nullable from the roots. From
the roots of two lists is nullable what is so from one of them; and whatever is nullable stays so
when a placeholder is given its body. -/
theorem nullable_least_and_local (g : Graph) (roots : List ParserId) :
    IsLeast {S | g.NullClosed S} {id | g.Nullable id} ∧
    (∀ id, g.Nullable id → g.contains id) ∧
    (∀ id, id ∈ g.nullable roots ↔ id ∈ g.reachable roots ∧ g.Nullable id) ∧
    (∀ orders : Nat → List ParserId, (∀ i, (orders i).Perm (g.reachable roots)) →
      ∃ n ≤ (g.reachable roots).length,
        (∀ m < n, g.swept orders (m + 1) ≠ g.swept orders m) ∧
        g.swept orders (n + 1) = g.swept orders n ∧
        ∀ id, id ∈ g.swept orders n ↔ id ∈ g.nullable roots) ∧
    (∀ roots' id, id ∈ g.nullable (roots ++ roots') ↔
      id ∈ g.nullable roots ∨ id ∈ g.nullable roots') ∧
    ∀ rule body g', g.define rule body = .ok g' →
      ∀ id ∈ g.nullable roots, id ∈ g'.nullable roots := by
  have hmem : ∀ id, id ∈ g.nullable roots ↔ id ∈ g.reachable roots ∧ g.Nullable id := by
    intro id
    rw [mem_nullable_iff, mem_reachable]
    rfl
  refine ⟨isLeast_nullable g, fun _ => Nullable.contains, hmem, fun orders horders => ?_,
    fun roots' id => ?_, fun rule body g' hdefine id hid => ?_⟩
  · obtain ⟨n, hn, hbefore, hstable⟩ := exists_swept_stable horders g
    have hclosed : ∀ p ∈ g.reachable roots, ∀ o ∈ g.operands p, g.contains o →
        o ∈ g.reachable roots := fun _ hp _ ho hlive => mem_reachable_of_operand hp ho hlive
    refine ⟨n, hn, hbefore, hstable, fun id => ?_⟩
    rw [hmem]
    exact mem_swept_iff horders hclosed hstable
  · rw [mem_nullable_iff, mem_nullable_iff, mem_nullable_iff, inReach_append, or_and_right]
  · obtain ⟨hreach, hnull⟩ := mem_nullable_iff.1 hid
    have hrefines := refines_define hdefine
    exact mem_nullable_iff.2 ⟨hrefines.inReach hreach, hrefines.nullable hnull⟩

/-- A list with a gap: the rule that comes first in it has no body yet. -/
def gapGraph : Graph where
  slots := #[.live 0 ⟨some "list", .sequence [⟨1, 0⟩, ⟨2, 0⟩]⟩,
    .live 0 ⟨some "gap", .rule none⟩,
    .live 0 ⟨none, .optional ⟨0, 0⟩⟩]
  free := []
  live := 3
  maxDepth := defaultMaxDepth

/-- There and back again, sweeps come to what is nullable, as all sweeps do: the optional list. It
stays so with a body in the gap. -/
theorem nullable_least_and_local_gap :
    gapGraph.nullable [⟨0, 0⟩] = [⟨2, 0⟩] ∧
    (∃ n ≤ 3, ∀ id, id ∈ gapGraph.swept (fun i =>
      if i % 2 = 0 then [⟨0, 0⟩, ⟨1, 0⟩, ⟨2, 0⟩] else [⟨0, 0⟩, ⟨1, 0⟩, ⟨2, 0⟩].reverse) n ↔
        id = ⟨2, 0⟩) ∧
    ∃ g', gapGraph.define ⟨1, 0⟩ ⟨2, 0⟩ = .ok g' ∧ ⟨2, 0⟩ ∈ g'.nullable [⟨0, 0⟩] := by
  have hreachable : gapGraph.reachable [⟨0, 0⟩] = [⟨0, 0⟩, ⟨1, 0⟩, ⟨2, 0⟩] := by cbv
  have hnullable : gapGraph.nullable [⟨0, 0⟩] = [⟨2, 0⟩] := by cbv
  obtain ⟨-, -, -, hsweeps, -, hdefine⟩ := nullable_least_and_local gapGraph [⟨0, 0⟩]
  rw [hreachable, hnullable] at hsweeps
  have hround : ∀ i : Nat, (if i % 2 = 0 then [⟨0, 0⟩, ⟨1, 0⟩, ⟨2, 0⟩] else
      [⟨0, 0⟩, ⟨1, 0⟩, ⟨2, 0⟩].reverse).Perm [(⟨0, 0⟩ : ParserId), ⟨1, 0⟩, ⟨2, 0⟩] := by
    intro i
    split
    · exact List.Perm.refl _
    · exact List.reverse_perm _
  obtain ⟨n, hn, -, -, hmem⟩ := hsweeps _ hround
  refine ⟨hnullable, ⟨n, hn, fun id => (hmem id).trans List.mem_singleton⟩, _, rfl, ?_⟩
  exact hdefine ⟨1, 0⟩ ⟨2, 0⟩ _ rfl ⟨2, 0⟩ (by rw [hnullable]; decide)

end ParserGraph.Graph
