import ParserGraph.Proofs.Grammar.Orphans
import ParserGraph.Proofs.Validation.Decision

/-!
# Refinement — a body never makes a graph easier to validate

Giving a placeholder its body adds to what the graph can do: whatever was in
reach, was nullable or could be called before anything was taken is so still.
Each of the three conditions that validation looks for is one of something
being there, so none of them goes away (`Refines.repeatsNullable`,
`Refines.recurs`). What is valid with the body is valid without it, as long as
the placeholder may lack one (`Refines.validateExcept`).
-/

namespace ParserGraph.Graph

variable {g g' : Graph} {roots pending pending' : List ParserId} {p o id : ParserId} {kind : Kind}

/-! ## Validation where some placeholders may lack a body -/

/-- **A graph is valid from given roots** where the placeholders in reach without a body are those
that may lack one, nothing nullable is repeated without bound, and no parser calls itself before it
has taken anything. -/
theorem validateExcept_eq_ok_iff : g.validateExcept pending roots = .ok () ↔
    (∀ id, g.InReach roots id → g.isUndefinedRule id → id ∈ pending) ∧
      ¬ g.RepeatsNullable roots ∧ ¬ g.Recurs roots := by
  have hmissing : (∀ id, g.InReach roots id → g.isUndefinedRule id → id ∈ pending) ↔
      ¬ ∃ id ∈ g.reachable roots, g.isUndefinedRule id ∧ id ∉ pending := by
    simp only [mem_reachable, not_exists, not_and, not_not]
    rfl
  rw [hmissing, ← repeatsNullable_iff, ← loops_iff_recurs, ← searchCycles_eq_error_iff]
  unfold validateExcept
  dsimp only
  split
  · next id hfind =>
    have hopen := List.find?_some hfind
    rw [Bool.and_eq_true, Bool.not_eq_true', ← Bool.not_eq_true, List.contains_iff_mem] at hopen
    exact iff_of_false (fun h => nomatch h)
      fun h => h.1 ⟨id, List.mem_of_find?_eq_some hfind, hopen⟩
  · next hnone =>
    rw [and_iff_right fun ⟨id, hid, hopen⟩ =>
      List.find?_eq_none.1 hnone id hid (by simpa using hopen)]
    split
    · next id hfind =>
      have hrepeats := List.find?_some (p := fun id => (g.kind? id).any
        (Kind.repeatsNullable (g.nullableAmong (g.reachable roots)).contains)) hfind
      exact iff_of_false (fun h => nomatch h)
        fun h => h.1 ⟨id, List.mem_of_find?_eq_some hfind, hrepeats⟩
    · next hnone =>
      rw [and_iff_right fun ⟨id, hid, hrepeats⟩ => List.find?_eq_none.1 hnone id hid hrepeats]
      split
      · next id hsearch => exact iff_of_false (fun h => nomatch h) fun h => h ⟨id, hsearch⟩
      · next met hsearch =>
        exact iff_of_true rfl fun ⟨id, herror⟩ => nomatch hsearch.symm.trans herror

/-! ## What a body adds to -/

/-- A node that is no open placeholder stays of its kind. -/
theorem Refines.kind? (h : g.Refines g') (hkind : g.kind? id = some kind)
    (hopen : kind ≠ .rule none) : g'.kind? id = some kind := by
  obtain ⟨⟨name, kind'⟩, hnode, rfl⟩ := Option.map_eq_some_iff.1 hkind
  rw [Graph.kind?, h.kept hnode hopen]
  rfl

/-- What is in reach stays in reach. -/
theorem Refines.inReach (h : g.Refines g') (hid : g.InReach roots id) : g'.InReach roots id := by
  obtain ⟨root, hroot, hleads⟩ := hid
  exact ⟨root, hroot, h.leads hleads⟩

/-- **What is nullable stays nullable**: an open placeholder is not, and every other node stays of
its kind. -/
theorem Refines.nullable (h : g.Refines g') (hid : g.Nullable id) : g'.Nullable id := by
  induction hid with
  | terminal hkind ht => exact .terminal (h.kind? hkind Kind.noConfusion) ht
  | sequence hkind _ ih => exact .sequence (h.kind? hkind Kind.noConfusion) ih
  | alternation hkind ho _ ih => exact .alternation (h.kind? hkind Kind.noConfusion) ho ih
  | noRound hkind => exact .noRound (h.kind? hkind Kind.noConfusion)
  | repetition hkind _ ih => exact .repetition (h.kind? hkind Kind.noConfusion) ih
  | optional hkind => exact .optional (h.kind? hkind Kind.noConfusion)
  | lookahead hkind => exact .lookahead (h.kind? hkind Kind.noConfusion)
  | transform hkind _ ih => exact .transform (h.kind? hkind Kind.noConfusion) ih
  | token hkind _ ih => exact .token (h.kind? hkind Kind.noConfusion) ih
  | expect hkind _ ih => exact .expect (h.kind? hkind Kind.noConfusion) ih
  | rule hkind _ ih => exact .rule (h.kind? hkind (by simp)) ih

/-- **A call that may be made before anything is taken may be made still.** -/
theorem Refines.mayCall (h : g.Refines g') (hcall : g.MayCall p o) : g'.MayCall p o := by
  obtain ⟨kind, hkind, hcall⟩ := hcall
  refine ⟨kind, h.kind? hkind ?_, hcall.mono fun q _ => h.nullable⟩
  -- an open placeholder calls nothing
  rintro rfl
  exact absurd hcall.mem_operands List.not_mem_nil

theorem Refines.repeatsNullable (h : g.Refines g') (hrepeats : g.RepeatsNullable roots) :
    g'.RepeatsNullable roots := by
  obtain ⟨id, part, min, hid, hkind, hnull⟩ := hrepeats
  exact ⟨id, part, min, h.inReach hid, h.kind? hkind Kind.noConfusion, h.nullable hnull⟩

theorem Refines.recurs (h : g.Refines g') (hrecurs : g.Recurs roots) : g'.Recurs roots := by
  obtain ⟨p, hcycle⟩ := hrecurs
  refine ⟨p, hcycle.lift (fun q => q) fun q o hcall => ?_⟩
  exact ⟨h.inReach hcall.1, h.inReach hcall.2.1, h.mayCall hcall.2.2⟩

/-- **What is valid with some bodies is valid without them**, as long as the placeholders that lack
them may. -/
theorem Refines.validateExcept (h : g.Refines g')
    (hvalid : g'.validateExcept pending' roots = .ok ())
    (hpending : ∀ id, g.isUndefinedRule id → (g'.isUndefinedRule id → id ∈ pending') →
      id ∈ pending) :
    g.validateExcept pending roots = .ok () := by
  obtain ⟨hbodies, hrepeats, hrecurs⟩ := validateExcept_eq_ok_iff.1 hvalid
  refine validateExcept_eq_ok_iff.2 ⟨fun id hid hopen => hpending id hopen ?_, ?_, ?_⟩
  · exact hbodies id (h.inReach hid)
  · exact fun hr => hrepeats (h.repeatsNullable hr)
  · exact fun hr => hrecurs (h.recurs hr)

end ParserGraph.Graph
