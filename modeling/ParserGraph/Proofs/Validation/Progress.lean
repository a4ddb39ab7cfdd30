import ParserGraph.Proofs.Grammar.Nesting

/-!
# Progress — no round of a valid graph takes nothing

What is computed as nullable is all that can match without taking anything
(`Graph.mem_nullable_of_finishes`), and in a valid graph none of it is repeated
without an upper bound. So every round of such a repetition gets on, and its
rounds never end because one of them stalled (`Attempt.rounds_ne_stalled`).
-/

namespace ParserGraph

/-- Rounds end in a stall only if one of them matched where it was made. -/
theorem Attempt.rounds_ne_stalled {call : Call} {part : ParserId} (hcall : call.finishes.EndsAfter)
    (hpart : ∀ c t, ¬ call.finishes part c (some (t, c))) {unbounded : Bool} {n : Nat}
    {c stop : Cursor} {trees : List Tree} {ending : Ending} {kept kept' : Option ParseError}
    (h : (rounds call part unbounded n c).run kept = .ok ((trees, stop, ending), kept')) :
    ending ≠ .stalled := by
  induction n generalizing c kept trees with
  | zero =>
    cases pure_eq_ok.1 h
    exact Ending.noConfusion
  | succ n ih =>
    obtain ⟨o, k₁, hround, hgo⟩ := bind_eq_ok.1 h
    cases o with
    | failed e =>
      cases pure_eq_ok.1 hgo
      exact Ending.noConfusion
    | matched tree mid =>
      have hmatch : call.finishes part c (some (tree, mid)) := ⟨_, _, _, hround, rfl⟩
      dsimp only at hgo
      split at hgo
      · -- the round ended at the position it was made at, so at the very place
        next hstall =>
        rw [Bool.and_eq_true, decide_eq_true_eq] at hstall
        have hmid : mid = c :=
          Cursor.eq_of_offset_le (hcall.le hmatch) (Nat.le_of_eq (by rw [hstall.2]))
        subst hmid
        exact absurd hmatch (hpart mid tree)
      · obtain ⟨⟨trees', stop', ending'⟩, k₂, hrest, hgo⟩ := bind_eq_ok.1 hgo
        cases pure_eq_ok.1 hgo
        exact ih hrest

namespace Graph

variable {g : Graph} {roots : List ParserId} {p part : ParserId} {room min : Nat} {c stop : Cursor}
  {t : Tree}

theorem mem_nullable : p ∈ g.nullable roots ↔ p ∈ g.nullableAmong (g.reachable roots) :=
  List.mem_mergeSort

/-- What the roots lead to leads on to operands that live. -/
theorem mem_reachable_of_operand (hp : p ∈ g.reachable roots) {o : ParserId}
    (ho : o ∈ g.operands p) (hlive : g.contains o) : o ∈ g.reachable roots := by
  obtain ⟨r, hr, hrp⟩ := mem_reachable.1 hp
  exact mem_reachable.2 ⟨r, hr, hrp.step ho hlive⟩

section

variable (hpattern : ∀ q ∈ g.reachable roots, ∀ kind, g.kind? q = some kind → kind.KnowsEmpty)
include hpattern

/-- **A parser in reach that matches where it was called is nullable.** -/
theorem mem_nullable_of_finishes (hp : p ∈ g.reachable roots)
    (h : (g.parse room).finishes p c (some (t, c))) : p ∈ g.nullable roots := by
  refine mem_nullable.2 (nullable_of_finishes (fun q hq => hq) ?_ hpattern hp h)
  exact fun q hq o ho hlive => mem_reachable_of_operand hq ho hlive

/-- **In a valid graph, what is repeated without an upper bound takes something when it
matches.** -/
theorem not_finishes_of_validate (hvalid : g.validate roots = .ok ()) (hp : p ∈ g.reachable roots)
    (hkind : g.kind? p = some (.repetition part min none)) :
    ¬ (g.parse room).finishes part c (some (t, c)) := by
  intro h
  have hoperand : part ∈ g.operands p := by
    rw [operands, hkind]
    exact List.mem_singleton_self part
  have hpart := mem_reachable_of_operand hp hoperand (contains_of_finishes h)
  have hnull : part ∈ g.nullableAmong (g.reachable roots) :=
    mem_nullable.1 (mem_nullable_of_finishes hpattern hpart h)
  -- the repetition would have been found by validation
  simp only [validate, validateExcept] at hvalid
  split at hvalid
  · cases hvalid
  · split at hvalid
    · cases hvalid
    · next hnone =>
      refine absurd ?_ (List.find?_eq_none.1 hnone p hp)
      rw [hkind]
      exact List.contains_iff_mem.2 hnull

end

/-- **Nullability is sound for runs.** Whatever matches without moving on is nullable, in every call
that finishes of every parser in reach of the roots. So in a graph that is valid from the roots no
round of a repetition without an upper bound matches without moving on, and none ends because it
stalled. Patterns have to know whether they match nothing. -/
theorem nullable_sound_of_runs (g : Graph) (roots : List ParserId)
    (hpattern : ∀ q ∈ g.reachable roots, ∀ kind, g.kind? q = some kind → kind.KnowsEmpty) :
    (∀ p ∈ g.reachable roots, ∀ room c kept t stop kept',
      ((g.parse room) p c).run kept = .ok (.matched t stop, kept') →
      stop.position.offset = c.position.offset → p ∈ g.nullable roots) ∧
    (g.validate roots = .ok () → ∀ p ∈ g.reachable roots, ∀ part min,
      g.kind? p = some (.repetition part min none) →
      (∀ room c kept t stop kept',
        ((g.parse room) part c).run kept = .ok (.matched t stop, kept') →
        stop.position.offset ≠ c.position.offset) ∧
      ∀ room n c kept trees stop ending kept',
        (Attempt.rounds (g.parse room) part true n c).run kept =
          .ok ((trees, stop, ending), kept') →
        ending ≠ .stalled) := by
  -- a match that ends at the offset it started at ends at the place it started at
  have hstop : ∀ id room c kept t stop kept',
      ((g.parse room) id c).run kept = .ok (.matched t stop, kept') →
      stop.position.offset = c.position.offset → (g.parse room).finishes id c (some (t, c)) := by
    intro id room c kept t stop kept' hrun hoffset
    have hfinishes : (g.parse room).finishes id c (some (t, stop)) := ⟨_, _, _, hrun, rfl⟩
    have hsame : stop = c :=
      Cursor.eq_of_offset_le ((g.parse_endsAfter room).le hfinishes) (Nat.le_of_eq hoffset)
    rw [hsame] at hfinishes
    exact hfinishes
  refine ⟨fun p hp room c kept t stop kept' hrun hoffset => ?_,
    fun hvalid p hp part min hkind => ⟨?_, ?_⟩⟩
  · exact mem_nullable_of_finishes hpattern hp (hstop _ _ _ _ _ _ _ hrun hoffset)
  · intro room c kept t stop kept' hrun hoffset
    exact not_finishes_of_validate hpattern hvalid hp hkind (hstop _ _ _ _ _ _ _ hrun hoffset)
  · intro room n c kept trees stop ending kept' hrun
    exact Attempt.rounds_ne_stalled (g.parse_endsAfter room)
      (fun c t => not_finishes_of_validate hpattern hvalid hp hkind) hrun

/-- Skipped white space is nullable, being a repetition that takes nothing before a letter, and a
round of it takes the blank it matches. -/
theorem nullable_sound_of_runs_spaces :
    (∀ q ∈ Grammar.recursiveGraph.reachable [⟨0, 0⟩], ∀ kind,
        Grammar.recursiveGraph.kind? q = some kind → kind.KnowsEmpty) ∧
      Grammar.recursiveGraph.validate [⟨0, 0⟩] = .ok () ∧
      ⟨3, 0⟩ ∈ Grammar.recursiveGraph.nullable [⟨0, 0⟩] ∧
      ((Cursor.start " y").advance 1).position.offset ≠ (Cursor.start " y").position.offset := by
  have hpattern : ∀ q ∈ Grammar.recursiveGraph.reachable [⟨0, 0⟩], ∀ kind,
      Grammar.recursiveGraph.kind? q = some kind → kind.KnowsEmpty :=
    fun _ _ _ => knowsEmpty_recursive
  have hvalid : Grammar.recursiveGraph.validate [⟨0, 0⟩] = .ok () := by cbv
  have hreach : ⟨3, 0⟩ ∈ Grammar.recursiveGraph.reachable [⟨0, 0⟩] := by
    have hlist : (Grammar.recursiveGraph.reachable [⟨0, 0⟩]).contains ⟨3, 0⟩ = true := by cbv
    exact List.contains_iff_mem.1 hlist
  obtain ⟨hnullable, hprogress⟩ := nullable_sound_of_runs Grammar.recursiveGraph [⟨0, 0⟩] hpattern
  have hempty : ∃ kept, ((Grammar.recursiveGraph.parse 2) ⟨3, 0⟩ (Cursor.start "y")).run none =
      .ok (.matched (.branch [] .start) (Cursor.start "y"), kept) := ⟨_, rfl⟩
  obtain ⟨kept, hempty⟩ := hempty
  have hblank : ((Grammar.recursiveGraph.parse 1) ⟨2, 0⟩ (Cursor.start " y")).run none =
      .ok (.matched (.leaf " " .start) ((Cursor.start " y").advance 1), none) := rfl
  obtain ⟨hround, -⟩ := hprogress hvalid ⟨3, 0⟩ hreach ⟨2, 0⟩ 0 rfl
  exact ⟨hpattern, hvalid, hnullable _ hreach _ _ _ _ _ _ hempty rfl,
    hround _ _ _ _ _ _ hblank⟩

end Graph

end ParserGraph
