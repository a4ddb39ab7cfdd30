import Mathlib
import ParserGraph.Proofs.Run.Runner
import ParserGraph.Proofs.Validation.Progress

/-!
# Repetition — a loop and what it unrolls to

One loop serves repetitions with and without an upper bound, and it ends for
three reasons: there is no round left, a round took nothing, or one failed.
With as many rounds as are needed at least, only a failure can end it early,
and so it is a sequence of copies (`Attempt.repetition_eq_sequence`). Rounds
that take something, in turn, run out of input before they run out of number
(`Attempt.rounds_eq_rounds`), so that a bound beyond the length of the input
bounds nothing. In any case as many rounds stand in the tree as were asked
for (`Attempt.repetition_eq_ok`).
-/

namespace ParserGraph

namespace Attempt

variable {call : Call} {part : ParserId} {c stop : Cursor} {kept kept' : Option ParseError}

/-! ## As many rounds as copies -/

/-- Rounds of a fixed number are copies in order: the last one done is the last copy matched, and
one that fails is a copy that fails. -/
theorem rounds_bind_eq_inOrder {α : Type} {n : Nat}
    {f : List Tree × Cursor × Ending → Attempt α}
    {k : Except ParseError (List Tree × Cursor) → Attempt α}
    (hfull : ∀ trees stop, trees.length = n → f (trees, stop, .full) = k (.ok (trees, stop)))
    (hgaveUp : ∀ trees stop start e, trees.length < n →
      f (trees, stop, .gaveUp start e) = k (.error e)) :
    rounds call part false n c >>= f = inOrder call (List.replicate n part) c >>= k := by
  -- on the copies; what is done with the trees takes the first of them in front
  induction n generalizing c f k with
  | zero => exact hfull [] c rfl
  | succ n ih =>
    rw [rounds, List.replicate_succ, inOrder, bind_assoc, bind_assoc]
    refine bind_congr fun o => ?_
    cases o with
    | failed e => exact hgaveUp [] c _ e (Nat.succ_pos n)
    | matched tree stop =>
      simp only [Bool.false_and, Bool.false_eq_true, if_false, bind_assoc, pure_bind]
      rw [ih (f := fun r => f (tree :: r.1, r.2.1, r.2.2))
        (k := fun r => k (r.map (Prod.map (tree :: ·) id)))
        (fun trees stop hlength => hfull (tree :: trees) stop (congrArg Nat.succ hlength))
        (fun trees stop start e hlength =>
          hgaveUp (tree :: trees) stop start e (Nat.succ_lt_succ hlength))]
      exact bind_congr fun r => by cases r <;> rfl

/-- **Repeating a parser a number of times is a sequence of as many copies of it.** -/
theorem repetition_eq_sequence (call : Call) (part : ParserId) (n : Nat) (c : Cursor) :
    repetition call part n (some n) c = sequence call (List.replicate n part) c := by
  refine rounds_bind_eq_inOrder (n := n) (fun trees stop hlength => ?_)
    fun trees stop start e hlength => ?_
  · dsimp only
    rw [if_neg (Nat.not_lt.2 (Nat.le_of_eq hlength.symm))]
  · dsimp only
    rw [if_pos hlength]

/-! ## More rounds than characters -/

/-- **Rounds that take something run out of input**, so how many more there may be does not
matter. -/
theorem rounds_eq_rounds (hcall : call.finishes.EndsAfter)
    (hpart : ∀ c t, ¬ call.finishes part c (some (t, c))) {unbounded unbounded' : Bool}
    {n m : Nat} (hn : c.ahead.length < n) (hm : c.ahead.length < m) :
    rounds call part unbounded n c = rounds call part unbounded' m c := by
  induction n generalizing c m with
  | zero => exact absurd hn (Nat.not_lt_zero _)
  | succ n ih =>
    obtain ⟨m, rfl⟩ := Nat.exists_eq_succ_of_ne_zero (Nat.ne_of_gt (Nat.zero_lt_of_lt hm))
    funext kept
    change (rounds call part unbounded (n + 1) c).run kept =
      (rounds call part unbounded' (m + 1) c).run kept
    rw [rounds, rounds, StateT.run_bind, StateT.run_bind]
    cases hround : (call part c).run kept with
    | error e => rfl
    | ok p =>
      obtain ⟨_ | e, kept'⟩ := p
      · next tree stop =>
        have hmatch : call.finishes part c (some (tree, stop)) := ⟨_, _, _, hround, rfl⟩
        -- a round that ended at the position it was made at would have taken nothing
        have hmoved : stop ≠ c := fun hsame => hpart c tree (hsame ▸ hmatch)
        have hposition : stop.position ≠ c.position := fun hsame =>
          hmoved (Cursor.eq_of_offset_le (hcall.le hmatch) (Nat.le_of_eq (by rw [hsame])))
        have hless := Cursor.length_ahead_lt (hcall.le hmatch) hmoved
        have hrest : rounds call part unbounded n stop = rounds call part unbounded' m stop :=
          ih (by omega) (by omega)
        change StateT.run (if (unbounded && decide (stop.position = c.position)) = true
            then _ else _) kept' = StateT.run (if (unbounded' && decide (stop.position =
              c.position)) = true then _ else _) kept'
        rw [if_neg (by simp [hposition]), if_neg (by simp [hposition]), hrest]
      · rfl

/-- **A bound beyond the input bounds nothing**, for a parser that takes something when it
matches. -/
theorem repetition_eq_bounded (hcall : call.finishes.EndsAfter)
    (hpart : ∀ c t, ¬ call.finishes part c (some (t, c))) (min : Nat) {max : Nat}
    (hmax : c.ahead.length < max) :
    repetition call part min none c = repetition call part min (some max) c := by
  have hrounds : rounds call part true (c.ahead.length + 1) c = rounds call part false max c :=
    rounds_eq_rounds hcall hpart (Nat.lt_succ_self _) hmax
  exact congrArg (· >>= _) hrounds

/-! ## As many trees as asked for -/

/-- There is a tree for each round, a bounded repetition never stalls, and all rounds were made
where there is none left. -/
theorem rounds_eq_ok {unbounded : Bool} {n : Nat} {trees : List Tree} {ending : Ending}
    (h : (rounds call part unbounded n c).run kept = .ok ((trees, stop, ending), kept')) :
    trees.length ≤ n ∧ (ending = .stalled → unbounded = true ∧ trees ≠ []) := by
  induction n generalizing c kept trees with
  | zero =>
    cases pure_eq_ok.1 h
    exact ⟨Nat.le_refl _, fun hstalled => nomatch hstalled⟩
  | succ n ih =>
    obtain ⟨o, k₁, -, hgo⟩ := bind_eq_ok.1 h
    cases o with
    | failed e =>
      cases pure_eq_ok.1 hgo
      exact ⟨Nat.zero_le _, fun hstalled => nomatch hstalled⟩
    | matched tree mid =>
      dsimp only at hgo
      split at hgo
      · next hstall =>
        cases pure_eq_ok.1 hgo
        exact ⟨Nat.succ_le_succ (Nat.zero_le n), fun _ =>
          ⟨((Bool.and_eq_true _ _).mp hstall).1, List.cons_ne_nil _ _⟩⟩
      · obtain ⟨⟨trees', stop', ending'⟩, k₂, hrest, hgo⟩ := bind_eq_ok.1 hgo
        cases pure_eq_ok.1 hgo
        obtain ⟨hlength, hstalled⟩ := ih hrest
        exact ⟨Nat.succ_le_succ hlength, fun he => ⟨(hstalled he).1, List.cons_ne_nil _ _⟩⟩

/-- Trees that are padded are as many as asked for, or more. -/
theorem le_length_padded {min : Nat} {trees : List Tree} (h : trees ≠ []) :
    min ≤ (padded min trees).length := by
  rw [padded, List.getLast?_eq_some_getLast h, List.length_append, List.length_replicate]
  omega

/-- **A repetition that matches has as many trees as it was asked for.** -/
theorem repetition_eq_ok {min : Nat} {max : Option Nat} {t : Tree}
    (h : (repetition call part min max c).run kept = .ok (.matched t stop, kept')) :
    ∃ trees, t = .branch trees c.position ∧ min ≤ trees.length ∧
      ∀ high, max = some high → trees.length ≤ high := by
  obtain ⟨⟨trees, mid, ending⟩, k₁, hrounds, hgo⟩ := bind_eq_ok.1 h
  obtain ⟨hlength, hstalled⟩ := rounds_eq_ok hrounds
  have hhigh : ∀ high, max = some high → trees.length ≤ high := by
    rintro high rfl
    exact hlength
  cases ending with
  | stalled =>
    cases pure_eq_ok.1 hgo
    obtain ⟨hunbounded, hne⟩ := hstalled rfl
    refine ⟨_, rfl, le_length_padded hne, ?_⟩
    rintro high rfl
    exact nomatch hunbounded
  | full =>
    dsimp only at hgo
    split at hgo
    · exact nomatch pure_eq_ok.1 hgo
    · next henough =>
      cases pure_eq_ok.1 hgo
      exact ⟨trees, rfl, Nat.le_of_not_lt henough, hhigh⟩
  | gaveUp start e =>
    dsimp only at hgo
    split at hgo
    · exact nomatch pure_eq_ok.1 hgo
    · next henough =>
      obtain ⟨u, k₂, -, hgo⟩ := bind_eq_ok.1 hgo
      cases pure_eq_ok.1 hgo
      exact ⟨trees, rfl, Nat.le_of_not_lt henough, hhigh⟩

end Attempt

namespace Graph

variable {g : Graph} {id id' part : ParserId} {node node' : Node}

/-! ## Nodes that do the same -/

/-- Nodes that do the same, under one name, are called with the same result. -/
theorem parse_congr (hnode : g.node? id = some node) (hnode' : g.node? id' = some node')
    (hname : node.name = node'.name) {c : Cursor}
    (hperform : ∀ room, node.perform g (g.parse room) c = node'.perform g (g.parse room) c)
    (room : Nat) : g.parse room id c = g.parse room id' c := by
  cases room with
  | zero => rfl
  | succ room =>
    have hlabelled : node.labelled = node'.labelled := by
      funext o
      cases o with
      | matched tree stop => rw [Node.labelled, Node.labelled, Node.label, Node.label, hname]
      | failed e => rfl
    rw [parse, enter_eq hnode, enter_eq hnode', hperform, hlabelled]

/-- What is called with the same result at the start of an input runs to the same result. -/
theorem run_congr {input : String}
    (h : g.parse g.maxDepth id (Cursor.start input) = g.parse g.maxDepth id' (Cursor.start input)) :
    g.run id input = g.run id' input := by
  rw [run, run, h]

/-- **Repetition agrees with its expansions.** A parser repeated a number of times and a sequence of
as many copies of it run to the same result, whatever the input and the limit of nesting. A parser
that is not nullable and is repeated without an upper bound runs as it does with one, if the bound
is beyond the number of characters. And a repetition that matches has at least as many children as
its lower bound and at most as many as its upper one, wherever it is called. -/
theorem repetition_agrees_with_expansions (g : Graph) :
    (∀ id id' part n, g.node? id = some ⟨none, .repetition part n (some n)⟩ →
      g.node? id' = some ⟨none, .sequence (List.replicate n part)⟩ →
      ∀ input, g.run id input = g.run id' input) ∧
    (∀ roots, (∀ q ∈ g.reachable roots, ∀ kind, g.kind? q = some kind → kind.KnowsEmpty) →
      ∀ part, (g.contains part → part ∈ g.reachable roots) → part ∉ g.nullable roots →
      ∀ id id' name min high input, max min (input.length + 1) ≤ high →
      g.node? id = some ⟨name, .repetition part min none⟩ →
      g.node? id' = some ⟨name, .repetition part min (some high)⟩ →
      g.run id input = g.run id' input) ∧
    ∀ id name part min max, g.node? id = some ⟨name, .repetition part min max⟩ →
      ∀ room c kept t stop kept',
        (g.parse room id c).run kept = .ok (.matched t stop, kept') →
        ∃ trees, t = (⟨name, .repetition part min max⟩ : Node).label (.branch trees c.position) ∧
          min ≤ trees.length ∧ ∀ high, max = some high → trees.length ≤ high := by
  refine ⟨fun id id' part n hnode hnode' input => run_congr (parse_congr hnode hnode' rfl
      (fun room => Attempt.repetition_eq_sequence _ part n _) _),
    fun roots hpattern part hreach hnull id id' name min high input hhigh hnode hnode' => ?_,
    fun id name part min max hnode room c kept t stop kept' h => ?_⟩
  · have hpart : ∀ room c t, ¬ (g.parse room).finishes part c (some (t, c)) :=
      fun room c t hfinishes => hnull
        (mem_nullable_of_finishes hpattern (hreach (contains_of_finishes hfinishes)) hfinishes)
    have hlength : (Cursor.start input).ahead.length < high := by
      rw [Cursor.start, String.length_toList]
      omega
    exact run_congr (parse_congr hnode hnode' rfl (fun room =>
      Attempt.repetition_eq_bounded (g.parse_endsAfter room) (hpart room) min hlength) _)
  · cases room with
    | zero => cases h
    | succ room =>
      rw [parse, enter_eq hnode] at h
      obtain ⟨o, k₁, hperform, hgo⟩ := Attempt.bind_eq_ok.1 h
      cases o with
      | failed e => cases Attempt.pure_eq_ok.1 hgo
      | matched tree mid =>
        cases Attempt.pure_eq_ok.1 hgo
        obtain ⟨trees, rfl, hmin, hhigh⟩ := Attempt.repetition_eq_ok hperform
        exact ⟨trees, rfl, hmin, hhigh⟩

/-- An `a` three times, by count and as a sequence, and at least once, with a bound and without. -/
def repeating : Graph :=
  ⟨#[.live 0 ⟨none, .terminal (.char 'a')⟩, .live 0 ⟨none, .repetition ⟨0, 0⟩ 3 (some 3)⟩,
    .live 0 ⟨none, .sequence [⟨0, 0⟩, ⟨0, 0⟩, ⟨0, 0⟩]⟩,
    .live 0 ⟨none, .repetition ⟨0, 0⟩ 1 none⟩, .live 0 ⟨none, .repetition ⟨0, 0⟩ 1 (some 4)⟩],
    [], 5, 256⟩

/-- On `aab` the third `a` is missing both from the count and from the sequence. A letter is not
nullable, so that with four rounds at most, for three characters, there are as many as without a
bound, and not less than one. -/
theorem repetition_agrees_with_expansions_repeating :
    repeating.run ⟨1, 0⟩ "aab" = .ok (.error (.expecting ⟨2, 1, 3⟩ "'a'" (some 'b'))) ∧
    repeating.run ⟨1, 0⟩ "aab" = repeating.run ⟨2, 0⟩ "aab" ∧
    repeating.run ⟨3, 0⟩ "aab" =
      .ok (.ok (.branch [.leaf "a" ⟨0, 1, 1⟩, .leaf "a" ⟨1, 1, 2⟩] .start)) ∧
    repeating.run ⟨3, 0⟩ "aab" = repeating.run ⟨4, 0⟩ "aab" ∧
    ∃ trees stop kept, (repeating.parse 2 ⟨4, 0⟩ (Cursor.start "aab")).run none =
      .ok (.matched (.branch trees .start) stop, kept) ∧ 1 ≤ trees.length ∧ trees.length ≤ 4 := by
  obtain ⟨hcount, hbound, hlength⟩ := repetition_agrees_with_expansions repeating
  have hpattern : ∀ q ∈ repeating.reachable [⟨3, 0⟩], ∀ kind, repeating.kind? q = some kind →
      kind.KnowsEmpty := by
    intro q hq kind hkind p hp
    obtain ⟨⟨name, kind⟩, hnode, rfl⟩ := Option.map_eq_some_iff.1 hkind
    have hslot := Array.mem_of_getElem? (node?_eq_some_iff.1 hnode)
    cases hp
    simp [repeating] at hslot
  have hreach : ⟨0, 0⟩ ∈ repeating.reachable [⟨3, 0⟩] := by
    have hlist : (repeating.reachable [⟨3, 0⟩]).contains ⟨0, 0⟩ = true := by cbv
    exact List.contains_iff_mem.1 hlist
  have hnull : ⟨0, 0⟩ ∉ repeating.nullable [⟨3, 0⟩] := by
    have hlist : repeating.nullableAmong (repeating.reachable [⟨3, 0⟩]) = [] := by cbv
    rw [mem_nullable, hlist]
    exact List.not_mem_nil
  have hmatch : (repeating.parse 2 ⟨4, 0⟩ (Cursor.start "aab")).run none =
      .ok (.matched (.branch [.leaf "a" ⟨0, 1, 1⟩, .leaf "a" ⟨1, 1, 2⟩] .start)
        ((Cursor.start "aab").advance 2), none) := rfl
  obtain ⟨trees, htrees, hmin, hhigh⟩ := hlength _ _ _ _ _ rfl _ _ _ _ _ _ hmatch
  cases htrees
  exact ⟨rfl, hcount _ _ _ 3 rfl rfl "aab", rfl,
    hbound _ hpattern _ (fun _ => hreach) hnull _ _ none 1 4 "aab" (by decide) rfl rfl,
    _, _, _, hmatch, hmin, hhigh 4 rfl⟩

end Graph

/-! ## A pattern that does not know what it matches -/

/-- A character that is both an `a` and a `b`, any number of times. There is none, so the empty text
is all that this matches; but the length of a part that never matches is not known, and so it is not
known that this matches the empty text. -/
def Pattern.unmet : Pattern :=
  ⟨"[a&&b]*", none, ⟨#[.accept, .fork 2 0, .take .empty 1, .fork 2 0], 3⟩⟩

theorem Pattern.ofSource?_unmet : ofSource? "[a&&b]*" = some unmet := by
  have hparts : (ofSource? "[a&&b]*").map (fun p =>
      (p.source, p.minLength, p.program.states, p.program.start)) =
        some (unmet.source, unmet.minLength, unmet.program.states, unmet.program.start) := by
    decide +kernel
  obtain ⟨⟨source, minLength, ⟨states, start⟩⟩, hp, heq⟩ := Option.map_eq_some_iff.1 hparts
  cases heq
  exact hp

namespace Graph

/-- The pattern alone, without an upper bound, and at most twice. -/
def unaware : Graph :=
  ⟨#[.live 0 ⟨none, .terminal (.pattern Pattern.unmet)⟩, .live 0 ⟨none, .repetition ⟨0, 0⟩ 0 none⟩,
    .live 0 ⟨none, .repetition ⟨0, 0⟩ 0 (some 2)⟩], [], 3, 256⟩

/-- **To a pattern that does not know, a bound beyond the input may matter.** It is not among the
nullable parsers, yet where the input ends it is matched once without a bound and twice with one. -/
theorem repetition_differs_from_bounded :
    Pattern.ofSource? "[a&&b]*" = some Pattern.unmet ∧ ⟨0, 0⟩ ∉ unaware.nullable [⟨0, 0⟩] ∧
      max 0 ("".length + 1) ≤ 2 ∧
      unaware.node? ⟨1, 0⟩ = some ⟨none, .repetition ⟨0, 0⟩ 0 none⟩ ∧
      unaware.node? ⟨2, 0⟩ = some ⟨none, .repetition ⟨0, 0⟩ 0 (some 2)⟩ ∧
      unaware.run ⟨1, 0⟩ "" = .ok (.ok (.branch [.leaf "" .start] .start)) ∧
      unaware.run ⟨2, 0⟩ "" = .ok (.ok (.branch [.leaf "" .start, .leaf "" .start] .start)) := by
  have hnull : ⟨0, 0⟩ ∉ unaware.nullable [⟨0, 0⟩] := by
    have hlist : unaware.nullableAmong (unaware.reachable [⟨0, 0⟩]) = [] := by cbv
    rw [mem_nullable, hlist]
    exact List.not_mem_nil
  exact ⟨Pattern.ofSource?_unmet, hnull, by decide, rfl, rfl, rfl, rfl⟩

end Graph

end ParserGraph
