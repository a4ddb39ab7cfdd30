import ParserGraph.Grammar.Definition
import ParserGraph.Proofs.Run.Match
import ParserGraph.Proofs.Run.Terminal
import ParserGraph.Text.Property.WhiteSpace
import ParserGraph.Tree.Shape

/-!
# Evaluation — matching an input with a grammar as it is written

A grammar needs no graph to be matched with: its definitions can be followed
directly, form by form (`Expr.evaluate`). References are followed up to a
depth (`evaluate`); a match that needs more comes to nothing, which is neither
a match nor a failure. Labels are for failures and play no part. What leaves
and folded parts have, and tags leave alone, every tree has that a rule
evaluates to (`Invariant`, `evaluate_keeps`).
-/

namespace ParserGraph.Grammar

/-- The place behind all white space that comes next. -/
def pastSpaces (c : Cursor) : Cursor :=
  c.advance (c.ahead.takeWhile CharSet.whiteSpace.contains).length

/-- A leaf over the next characters, if there is a number of them to take; unless white space
counts, the match goes on over the white space behind them. -/
def leafOver (sensitive : Bool) (c : Cursor) (taken : Option Nat) : Match Tree :=
  taken.map fun n =>
    (.leaf (c.next n) c.position, if sensitive then c.advance n else pastSpaces (c.advance n))

/-- Rounds of a part, at most `n` of them and with `missing` still to come. Without an upper bound,
a round that takes nothing is the last and counts for all that are missing. -/
def evaluateRounds (part : Cursor → Option (Match Tree)) (unbounded : Bool) :
    Nat → Nat → Cursor → Option (Match (List Tree))
  | 0, missing, c => some (if missing = 0 then some ([], c) else none)
  | n + 1, missing, c =>
    match part c with
    | none => none
    | some none => some (if missing = 0 then some ([], c) else none)
    | some (some (t, stop)) =>
      if unbounded && stop = c then some (some (List.replicate (max 1 missing) t, c))
      else (evaluateRounds part unbounded n (missing - 1) stop).map (Match.mapResult (t :: ·))

mutual

/-- **What an expression comes to**, its references being followed by `rule`. -/
def Expr.evaluate (sensitive : Bool) (rule : String → Cursor → Option (Match Tree)) :
    Expr → Cursor → Option (Match Tree)
  | .char x, c => some (leafOver sensitive c (if c.peek = some x then some 1 else none))
  | .literal text, c =>
    some (leafOver sensitive c
      (if text.toList.isPrefixOf c.ahead then some text.toList.length else none))
  | .pattern p, c => some (leafOver sensitive c (p.match? c.behind c.ahead))
  | .reference name _, c => rule name c
  | .sequence items, c =>
    (evaluateInOrder sensitive rule items c).map
      (Match.mapResult fun ts => (Tree.branch ts c.position).fold)
  | .alternation items, c => evaluateFirst sensitive rule items c
  | .repetition item min max, c =>
    (evaluateRounds (fun c => item.evaluate sensitive rule c) max.isNone
      (max.getD (c.ahead.length + 1)) min c).map
      (Match.mapResult fun ts => (Tree.branch ts c.position).fold)
  | .optional item, c =>
    (item.evaluate sensitive rule c).map fun m => some (m.getD (.empty c.position, c))
  | .absent item, c =>
    (item.evaluate sensitive rule c).map fun m =>
      if m.isSome then none else some (.empty c.position, c)

/-- What expressions come to one after another. -/
def evaluateInOrder (sensitive : Bool) (rule : String → Cursor → Option (Match Tree)) :
    List Expr → Cursor → Option (Match (List Tree))
  | [], c => some (some ([], c))
  | item :: items, c =>
    match item.evaluate sensitive rule c with
    | none => none
    | some none => some none
    | some (some (t, stop)) =>
      (evaluateInOrder sensitive rule items stop).map (Match.mapResult (t :: ·))

/-- What the first of several expressions that matches comes to. -/
def evaluateFirst (sensitive : Bool) (rule : String → Cursor → Option (Match Tree)) :
    List Expr → Cursor → Option (Match Tree)
  | [], _ => some none
  | item :: items, c =>
    match item.evaluate sensitive rule c with
    | none => none
    | some none => evaluateFirst sensitive rule items c
    | some (some r) => some (some r)

end

/-- **What a rule comes to**: what its body does, tagged with its name. References are followed down
to a depth. -/
def evaluate (ds : List Definition) (sensitive : Bool) :
    Nat → String → Cursor → Option (Match Tree)
  | 0, _, _ => none
  | depth + 1, name, c =>
    match ds.find? (·.name = name) with
    | none => some none
    | some d =>
      (d.body.evaluate sensitive (evaluate ds sensitive depth) c).map
        (Match.mapResult (·.tagged name))

/-! ## What accounts of operands say about evaluation -/

variable {R : Account} {sensitive : Bool} {rule : String → Cursor → Option (Match Tree)}

/-- Rounds evaluate to what they come to, if the part does; without an upper bound there have to be
more rounds than there are characters. -/
theorem evaluateRounds_eq {part : ParserId} {evaluated : Cursor → Option (Match Tree)}
    {n min : Nat} {bound : Option Nat} {c : Cursor} {m : Match (List Tree)} (hend : R.EndsAfter)
    (hpart : ∀ c m, R part c m → evaluated c = some m)
    (hn : bound = some n ∨ bound = none ∧ c.ahead.length < n) (h : Rounds R part min bound c m) :
    evaluateRounds evaluated bound.isNone n min c = some m := by
  induction h generalizing n with
  | full =>
    rcases hn with hn | ⟨hn, -⟩
    · cases hn
      rfl
    · cases hn
  | @ends min max c hmax hfail =>
    cases n with
    | zero => exact absurd (hn.resolve_right fun hlt => Nat.not_lt_zero _ hlt.2) hmax
    | succ n => rw [evaluateRounds, hpart _ _ hfail]
  | @stalls min c t ht =>
    cases n with
    | zero => exact absurd hn (by simp)
    | succ n =>
      rw [evaluateRounds, hpart _ _ ht]
      exact if_pos (by simp)
  | @again min max c mid t m hmax ht hnext _ ih =>
    cases n with
    | zero => exact absurd (hn.resolve_right fun hlt => Nat.not_lt_zero _ hlt.2) hmax
    | succ n =>
      have hgoes : ¬ ((max.isNone && decide (mid = c)) = true) := by
        rw [Bool.and_eq_true, Option.isNone_iff_eq_none, decide_eq_true_eq]
        exact fun hstall => hnext hstall.1 hstall.2
      have hn' : max.map Nat.pred = some n ∨ max.map Nat.pred = none ∧ mid.ahead.length < n := by
        rcases hn with rfl | ⟨rfl, hlt⟩
        · exact Or.inl rfl
        · have hless := Cursor.length_ahead_lt (hend.le ht) (hnext rfl)
          exact Or.inr ⟨rfl, by omega⟩
      have hrest := ih hn'
      rw [Option.isNone_map] at hrest
      rw [evaluateRounds, hpart _ _ ht]
      dsimp only
      rw [if_neg hgoes, hrest]
      rfl

/-! ## What evaluation keeps -/

/-- Relations of trees to the places where they start and stop, of one tree and of several read one
after another, that hold of whatever expressions evaluate to. -/
structure Invariant (sensitive : Bool) (One : Cursor → Tree → Cursor → Prop)
    (All : Cursor → List Tree → Cursor → Prop) : Prop where
  /-- Of a leaf over characters that are there. -/
  leaf : ∀ {c t stop taken}, (∀ n, taken = some n → n ≤ c.ahead.length) →
    leafOver sensitive c taken = some (t, stop) → One c t stop
  /-- Of the tree of a match that takes nothing. -/
  empty : ∀ c : Cursor, One c (.empty c.position) c
  /-- Of no trees. -/
  nil : ∀ c, All c [] c
  /-- Of a tree and those after it. -/
  cons : ∀ {c mid stop t ts}, One c t mid → All mid ts stop → All c (t :: ts) stop
  /-- Of trees that are folded into one. -/
  fold : ∀ {c stop ts}, All c ts stop → One c (Tree.branch ts c.position).fold stop

section

variable {One : Cursor → Tree → Cursor → Prop} {All : Cursor → List Tree → Cursor → Prop}
  {c stop : Cursor} {t : Tree} {ts : List Tree}

/-- A tree that stands for several rounds was read each time. -/
theorem Invariant.replicate (hinv : Invariant sensitive One All) (ht : One c t c) (n : Nat) :
    All c (List.replicate n t) c := by
  induction n with
  | zero => exact hinv.nil c
  | succ n ih => exact hinv.cons ht ih

/-- Without rounds, none may be missing. -/
theorem Invariant.of_ite (hinv : Invariant sensitive One All) {p : Prop} [Decidable p]
    (h : (if p then some ([], c) else none) = some (ts, stop)) : All c ts stop := by
  split at h
  · cases h
    exact hinv.nil c
  · exact nomatch h

theorem evaluateRounds_keeps (hinv : Invariant sensitive One All)
    {part : Cursor → Option (Match Tree)}
    (hpart : ∀ {c t stop}, part c = some (some (t, stop)) → One c t stop) {unbounded : Bool}
    {n missing : Nat} (h : evaluateRounds part unbounded n missing c = some (some (ts, stop))) :
    All c ts stop := by
  induction n generalizing missing c ts with
  | zero => exact hinv.of_ite (Option.some.inj h)
  | succ n ih =>
    rw [evaluateRounds] at h
    split at h
    · exact nomatch h
    · exact hinv.of_ite (Option.some.inj h)
    · next t mid hround =>
      have ht := hpart hround
      split at h
      · next hstall =>
        rw [Bool.and_eq_true, decide_eq_true_eq] at hstall
        cases h
        rw [hstall.2] at ht
        exact hinv.replicate ht _
      · obtain ⟨m, hrest, hm⟩ := Option.map_eq_some_iff.1 h
        obtain ⟨ts', rfl, rfl⟩ := Match.mapResult_eq_some_iff.1 hm
        exact hinv.cons ht (ih hrest)

mutual

/-- **What holds of leaves and folded parts holds of whatever an expression evaluates to**, if it
does of the rules. -/
theorem Expr.evaluate_keeps (hinv : Invariant sensitive One All)
    (hrule : ∀ {name c t stop}, rule name c = some (some (t, stop)) → One c t stop) (e : Expr)
    {c stop : Cursor} {t : Tree} (h : e.evaluate sensitive rule c = some (some (t, stop))) :
    One c t stop := by
  cases e with
  | char x =>
    rw [Expr.evaluate] at h
    refine hinv.leaf (fun n hn => ?_) (Option.some.inj h)
    split at hn
    · next hpeek =>
      cases hn
      obtain ⟨rest, hahead⟩ := List.head?_eq_some_iff.1 hpeek
      rw [hahead]
      exact Nat.le_add_left 1 _
    · cases hn
  | literal text =>
    rw [Expr.evaluate] at h
    refine hinv.leaf (fun n hn => ?_) (Option.some.inj h)
    split at hn
    · next hprefix =>
      cases hn
      exact (List.isPrefixOf_iff_prefix.1 hprefix).length_le
    · cases hn
  | pattern p =>
    rw [Expr.evaluate] at h
    exact hinv.leaf (fun n hn => Pattern.match?_le hn) (Option.some.inj h)
  | reference name position =>
    rw [Expr.evaluate] at h
    exact hrule h
  | sequence items =>
    rw [Expr.evaluate] at h
    obtain ⟨m, hitems, hm⟩ := Option.map_eq_some_iff.1 h
    obtain ⟨ts, rfl, rfl⟩ := Match.mapResult_eq_some_iff.1 hm
    exact hinv.fold (evaluateInOrder_keeps hinv hrule items hitems)
  | alternation items =>
    rw [Expr.evaluate] at h
    exact evaluateFirst_keeps hinv hrule items h
  | repetition item min max =>
    rw [Expr.evaluate] at h
    obtain ⟨m, hrounds, hm⟩ := Option.map_eq_some_iff.1 h
    obtain ⟨ts, rfl, rfl⟩ := Match.mapResult_eq_some_iff.1 hm
    exact hinv.fold
      (evaluateRounds_keeps hinv (fun hpart => Expr.evaluate_keeps hinv hrule item hpart) hrounds)
  | optional item =>
    rw [Expr.evaluate] at h
    obtain ⟨m, hitem, hm⟩ := Option.map_eq_some_iff.1 h
    cases m with
    | none =>
      cases hm
      exact hinv.empty _
    | some r =>
      cases hm
      exact Expr.evaluate_keeps hinv hrule item hitem
  | absent item =>
    rw [Expr.evaluate] at h
    obtain ⟨m, -, hm⟩ := Option.map_eq_some_iff.1 h
    split at hm
    · exact nomatch hm
    · cases hm
      exact hinv.empty _

theorem evaluateInOrder_keeps (hinv : Invariant sensitive One All)
    (hrule : ∀ {name c t stop}, rule name c = some (some (t, stop)) → One c t stop)
    (items : List Expr) {c stop : Cursor} {ts : List Tree}
    (h : evaluateInOrder sensitive rule items c = some (some (ts, stop))) : All c ts stop := by
  cases items with
  | nil =>
    cases h
    exact hinv.nil _
  | cons item items =>
    rw [evaluateInOrder] at h
    split at h
    · exact nomatch h
    · exact nomatch h
    · next t mid hitem =>
      obtain ⟨m, hrest, hm⟩ := Option.map_eq_some_iff.1 h
      obtain ⟨ts', rfl, rfl⟩ := Match.mapResult_eq_some_iff.1 hm
      exact hinv.cons (Expr.evaluate_keeps hinv hrule item hitem)
        (evaluateInOrder_keeps hinv hrule items hrest)

theorem evaluateFirst_keeps (hinv : Invariant sensitive One All)
    (hrule : ∀ {name c t stop}, rule name c = some (some (t, stop)) → One c t stop)
    (items : List Expr) {c stop : Cursor} {t : Tree}
    (h : evaluateFirst sensitive rule items c = some (some (t, stop))) : One c t stop := by
  cases items with
  | nil => exact nomatch h
  | cons item items =>
    rw [evaluateFirst] at h
    split at h
    · exact nomatch h
    · exact evaluateFirst_keeps hinv hrule items h
    · next r hitem =>
      cases h
      exact Expr.evaluate_keeps hinv hrule item hitem

end

/-- **So it holds of what a rule evaluates to**, to whatever depth rules are followed: that is what
its body does, with a tag. -/
theorem evaluate_keeps {ds : List Definition} (hinv : Invariant sensitive One All)
    (htag : ∀ d ∈ ds, ∀ {c t stop}, One c t stop → One c (t.tagged d.name) stop) {depth : Nat}
    {name : String} (h : evaluate ds sensitive depth name c = some (some (t, stop))) :
    ∃ d ∈ ds, d.name = name ∧ ∃ t', One c t' stop ∧ t = t'.tagged name := by
  induction depth generalizing name c t stop with
  | zero => exact nomatch h
  | succ depth ih =>
    rw [evaluate] at h
    split at h
    · exact nomatch h
    · next d hfind =>
      obtain ⟨m, hbody, hm⟩ := Option.map_eq_some_iff.1 h
      obtain ⟨t', rfl, rfl⟩ := Match.mapResult_eq_some_iff.1 hm
      have hname : d.name = name := by simpa using List.find?_some hfind
      refine ⟨d, List.mem_of_find?_eq_some hfind, hname, t', ?_, rfl⟩
      refine Expr.evaluate_keeps hinv (fun hrule => ?_) d.body hbody
      obtain ⟨d', hd', rfl, t'', ht'', rfl⟩ := ih hrule
      exact htag d' hd' ht''

end

end ParserGraph.Grammar
