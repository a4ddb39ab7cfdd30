import ParserGraph.Proofs.Run.Furthest

/-!
# Undefined rules — which parsers make up for a rule that has no body

A rule without a body fails wherever it is called, and that is a failure like
any other. An alternation, an option, a repetition and a negated lookahead may
match all the same (`Graph.forgives`); any other parser fails once a call that
it makes has failed (`Node.script_handsOn`). So in the calls of a run failures
are handed on from call to call up to one of a forgiving parser
(`Calls.Handed`), and a run that gets to an undefined rule fails unless such a
parser is around that call (`Graph.run_of_undefined`). If one is, the run may
match as if the rule were just not there (`Graph.run_undefined_forgiven`).
-/

namespace ParserGraph

/-- Whether a call failed. -/
def Outcome.isFailed : Outcome → Bool
  | .matched _ _ => false
  | .failed _ => true

/-- A tag makes no difference to that. -/
@[simp]
theorem Node.isFailed_labelled (node : Node) (o : Outcome) :
    (node.labelled o).isFailed = o.isFailed := by
  cases o <;> rfl

/-- Whether a parser of some kind may match where a call that it made has failed. -/
def Kind.forgives : Kind → Bool
  | .alternation _ => true
  | .optional _ => true
  | .repetition _ _ _ => true
  | .lookahead _ negated => negated
  | _ => false

/-- Whether a parser may match where a call that it made has failed. -/
def Graph.forgives (g : Graph) (id : ParserId) : Bool := (g.kind? id).any Kind.forgives

/-! ## What a script makes of failures -/

namespace Script

variable {α β : Type} {failed : Bool} {R : Bool → α → Prop} {S : Bool → β → Prop}

/-- A script whose result is in some relation to whether any of its calls failed. -/
def HandsOn (R : Bool → α → Prop) : Bool → Script α → Prop
  | failed, done a => R failed a
  | failed, call _ _ _ next => ∀ o : Outcome, (next o).HandsOn R (failed || o.isFailed)
  | failed, abandon _ _ next => next.HandsOn R failed

namespace HandsOn

theorem bind {s : Script α} {f : α → Script β} (hs : s.HandsOn R failed)
    (hf : ∀ failed a, R failed a → (f a).HandsOn S failed) : (s >>= f).HandsOn S failed := by
  change (s.bind f).HandsOn S failed
  induction s generalizing failed with
  | done a => exact hf failed a hs
  | call alone id c next ih => exact fun o => ih o (hs o)
  | abandon start e next ih => exact ih hs

theorem mono {R' : Bool → α → Prop} {s : Script α} (hs : s.HandsOn R failed)
    (h : ∀ failed a, R failed a → R' failed a) : s.HandsOn R' failed := by
  induction s generalizing failed with
  | done a => exact h failed a hs
  | call alone id c next ih => exact fun o => ih o (hs o)
  | abandon start e next ih => exact ih hs

/-- Any script is such a script, if nothing is asked of its result. -/
theorem of_forall (h : ∀ failed a, R failed a) (s : Script α) : s.HandsOn R failed := by
  induction s generalizing failed with
  | done a => exact h failed a
  | call alone id c next ih => exact fun o => ih o
  | abandon start e next ih => exact ih

end HandsOn

/-- Calls in order end with the first that fails. -/
theorem inOrder_handsOn (ids : List ParserId) (c : Cursor) :
    (inOrder ids c).HandsOn (fun failed r => failed = true → ∃ e, r = .error e) false := by
  induction ids generalizing c with
  | nil => exact fun h => nomatch h
  | cons id ids ih =>
    intro o
    cases o with
    | failed e => exact fun _ => ⟨e, rfl⟩
    | matched tree stop =>
      refine (ih stop).bind fun failed r hr => ?_
      cases r with
      | error e => exact fun _ => ⟨e, rfl⟩
      | ok p => exact fun hfailed => nomatch hr hfailed

theorem sequence_handsOn (parts : List ParserId) (c : Cursor) :
    (sequence parts c).HandsOn (fun failed o => failed = true → o.isFailed) false := by
  refine (inOrder_handsOn parts c).bind fun failed r hr => ?_
  cases r with
  | error e => exact fun _ => rfl
  | ok p => exact fun hfailed => nomatch hr hfailed

end Script

/-- **A node fails once a call that it makes has failed**, unless it forgives that. -/
theorem Node.script_handsOn {g : Graph} {node : Node} (hstrict : ¬ node.kind.forgives)
    (c : Cursor) :
    (node.script g c).HandsOn (fun failed o => failed = true → o.isFailed) false := by
  obtain ⟨name, kind⟩ := node
  cases kind with
  | terminal t => exact fun h => nomatch h
  | sequence parts => exact Script.sequence_handsOn parts c
  | alternation branches => exact absurd rfl hstrict
  | repetition part min max => exact absurd rfl hstrict
  | optional part => exact absurd rfl hstrict
  | lookahead part negated =>
    obtain rfl : negated = false := Bool.eq_false_iff.2 hstrict
    exact fun o => by cases o <;> exact id
  | transform part mapping => exact fun o => by cases o <;> exact id
  | token part => exact fun o => by cases o <;> exact id
  | expect part label => exact fun o => by cases o <;> exact id
  | rule body =>
    cases body with
    | none => exact fun h => nomatch h
    | some body => exact fun o => id

/-- What a node makes of the failures of the calls that it makes. -/
def Kind.Handles (kind : Kind) (failed : Bool) (o : Outcome) : Prop :=
  (kind = .rule none → o.isFailed) ∧ (¬ kind.forgives → failed = true → o.isFailed)

theorem Node.script_handles {g : Graph} (node : Node) (c : Cursor) :
    (node.script g c).HandsOn node.kind.Handles false := by
  by_cases hundefined : node.kind = .rule none
  · rw [Node.script, hundefined]
    exact ⟨fun _ => rfl, fun _ _ => rfl⟩
  · by_cases hforgives : node.kind.forgives
    · -- a parser that forgives may make anything of failures
      exact .of_forall (fun _ _ => ⟨fun h => absurd h hundefined, fun h => absurd hforgives h⟩) _
    · exact (node.script_handsOn hforgives c).mono fun _ _ h =>
        ⟨fun h => absurd h hundefined, fun _ => h⟩

/-! ## What becomes of failures in calls -/

namespace Calls

/-- Whether one of some calls failed, those inside of them not counted. -/
def anyFailed : Calls → Bool
  | none => false
  | call _ _ o next => o.isFailed || next.anyFailed

/-- In some calls, made inside of those of some parsers, failures are handed on: an undefined rule
fails, and so does each parser that does not forgive and that made a call that failed. -/
def Handed (g : Graph) : List ParserId → Calls → Prop
  | _, none => True
  | enclosing, call visit inner o next =>
    visit.enclosing = enclosing ∧ (g.kind? visit.id = some (.rule .none) → o.isFailed) ∧
      (¬ g.forgives visit.id → inner.anyFailed → o.isFailed) ∧
      inner.Handed g (visit.id :: enclosing) ∧ next.Handed g enclosing

/-- A call that is one of some calls or is made inside of one, with the calls that it was made
inside of and how these ended, the innermost in front. -/
inductive Makes : Calls → List (Visit × Outcome) → Visit → Outcome → Prop
  | here {visit : Visit} {inner next : Calls} {o : Outcome} :
      Makes (call visit inner o next) [] visit o
  | inside {visit visit' : Visit} {inner next : Calls} {o o' : Outcome}
      {around : List (Visit × Outcome)} : Makes inner around visit' o' →
      Makes (call visit inner o next) (around ++ [(visit, o)]) visit' o'
  | later {visit visit' : Visit} {inner next : Calls} {o o' : Outcome}
      {around : List (Visit × Outcome)} : Makes next around visit' o' →
      Makes (call visit inner o next) around visit' o'

variable {g : Graph} {visit : Visit} {calls : Calls} {o : Outcome}
  {around : List (Visit × Outcome)} {enclosing : List ParserId}

/-- Each call that begins is one of these. -/
theorem exists_makes (h : .begun visit ∈ calls.turns) : ∃ around o, calls.Makes around visit o := by
  induction calls with
  | none => exact absurd h List.not_mem_nil
  | call outer inner o next ihinner ihnext =>
    simp only [turns, List.cons_append, List.mem_cons, Turn.begun.injEq, List.mem_append,
      reduceCtorEq, false_or] at h
    rcases h with rfl | h | h
    · exact ⟨[], o, .here⟩
    · obtain ⟨around, o, hmakes⟩ := ihinner h
      exact ⟨_, o, .inside hmakes⟩
    · obtain ⟨around, o, hmakes⟩ := ihnext h
      exact ⟨around, o, .later hmakes⟩

/-- The parsers around a call are those of the calls it was made inside of. -/
theorem Makes.enclosing_eq (h : calls.Makes around visit o) (hhanded : calls.Handed g enclosing) :
    visit.enclosing = around.map (·.1.id) ++ enclosing := by
  induction h generalizing enclosing with
  | here => exact hhanded.1
  | inside _ ih =>
    rw [ih hhanded.2.2.2.1, List.map_append, List.append_assoc]
    rfl
  | later _ ih => exact ih hhanded.2.2.2.2

/-- An undefined rule fails wherever it is called. -/
theorem Makes.isFailed (h : calls.Makes around visit o) (hhanded : calls.Handed g enclosing)
    (hundefined : g.kind? visit.id = some (.rule .none)) : o.isFailed := by
  induction h generalizing enclosing with
  | here => exact hhanded.2.1 hundefined
  | inside _ ih => exact ih hhanded.2.2.2.1 hundefined
  | later _ ih => exact ih hhanded.2.2.2.2 hundefined

/-- The innermost of the calls around one that did not fail, if there is one, is of a parser that
forgives. -/
def Forgiven (g : Graph) (around : List (Visit × Outcome)) : Prop :=
  ∃ before q after, around = before ++ q :: after ∧ (∀ p ∈ before, p.2.isFailed) ∧
    ¬ q.2.isFailed ∧ g.forgives q.1.id

theorem Forgiven.append (h : Forgiven g around) (back : List (Visit × Outcome)) :
    Forgiven g (around ++ back) := by
  obtain ⟨before, q, after, rfl, hbefore, hq⟩ := h
  exact ⟨before, q, after ++ back, by simp, hbefore, hq⟩

/-- **A failure is handed on to the outermost call, or forgiven on the way.** By induction from the
call outward: each call around is told that one inside of it failed. -/
theorem Makes.handed (h : calls.Makes around visit o) (hhanded : calls.Handed g enclosing)
    (hfailed : o.isFailed) :
    (∀ p ∈ around, p.2.isFailed) ∧ calls.anyFailed ∨ Forgiven g around := by
  induction h generalizing enclosing with
  | here => exact .inl ⟨fun _ hp => absurd hp List.not_mem_nil, by rw [anyFailed, hfailed]; rfl⟩
  | @inside outer _ inner next o _ around _ ih =>
    rcases ih hhanded.2.2.2.1 hfailed with ⟨hall, hany⟩ | hforgiven
    · by_cases ho : o.isFailed
      · exact .inl ⟨List.forall_mem_append.2 ⟨hall, List.forall_mem_singleton.2 ho⟩,
          by rw [anyFailed, ho]; rfl⟩
      · have hforgives : g.forgives outer.id := by
          by_contra hstrict
          exact ho (hhanded.2.2.1 hstrict hany)
        exact .inr ⟨around, (outer, o), [], rfl, hall, ho, hforgives⟩
    · exact .inr (hforgiven.append _)
  | later _ ih =>
    rcases ih hhanded.2.2.2.2 hfailed with ⟨hall, hany⟩ | hforgiven
    · exact .inl ⟨hall, by rw [anyFailed, hany, Bool.or_true]⟩
    · exact .inr hforgiven

@[simp]
theorem anyFailed_append (calls rest : Calls) :
    (calls ++ rest).anyFailed = (calls.anyFailed || rest.anyFailed) := by
  induction calls with
  | none => rfl
  | call visit inner o next _ ih => rw [call_append, anyFailed, anyFailed, ih, Bool.or_assoc]

theorem Handed.append {rest : Calls} (h : calls.Handed g enclosing)
    (h' : rest.Handed g enclosing) : (calls ++ rest).Handed g enclosing := by
  induction calls with
  | none => exact h'
  | call visit inner o next _ ih =>
    exact ⟨h.1, h.2.1, h.2.2.1, h.2.2.2.1, ih h.2.2.2.2⟩

end Calls

namespace Runner

variable {α : Type} {g : Graph} {make : Routine} {failed : Bool} {r r' : Runner}

/-- **What follows a script hands failures on**, if each call does. -/
theorem follow_handed {R : Bool → α → Prop}
    (hmake : ∀ id c r o r', (make id c).run r = .ok (o, r') → r.Keeps r' ∧ ∃ inner,
      r'.turns = r.turns ++ (Calls.call (r.visiting id c) inner o .none).turns ∧
        (Calls.call (r.visiting id c) inner o .none).Handed g r.enclosing)
    {s : Script α} {a : α} (hs : s.HandsOn R failed) (h : (follow make s).run r = .ok (a, r')) :
    ∃ new : Calls, r'.turns = r.turns ++ new.turns ∧ new.Handed g r.enclosing ∧
      R (failed || new.anyFailed) a := by
  induction s generalizing r failed with
  | done b =>
    cases h
    exact ⟨.none, (List.append_nil _).symm, trivial, by rwa [Calls.anyFailed, Bool.or_false]⟩
  | call alone id c next ih =>
    rw [follow_call] at h
    obtain ⟨⟨o, r₁⟩, hcalling, hrest⟩ := except_bind_eq_ok h
    obtain ⟨r₁, hcall, rfl⟩ := calling_eq_ok hcalling
    obtain ⟨hkeeps, inner, hturns, hhanded⟩ := hmake id c _ o r₁ hcall
    obtain ⟨new, hturns', hhanded', ha⟩ := ih o (hs o) hrest
    refine ⟨.call (r.visiting id c) inner o .none ++ new, ?_, hhanded.append ?_, ?_⟩
    · rw [hturns', Calls.turns_append, ← List.append_assoc]
      exact congrArg (· ++ new.turns) hturns
    · exact hkeeps.enclosing ▸ hhanded'
    · rwa [Calls.anyFailed_append, Calls.anyFailed, Calls.anyFailed, Bool.or_false,
        ← Bool.or_assoc]
  | abandon start e next ih =>
    rw [follow_abandon] at h
    obtain ⟨new, hturns, hhanded, ha⟩ := ih hs h
    exact ⟨new, hturns, hhanded, ha⟩

end Runner

namespace Graph

open Runner

variable {g : Graph} {room : Nat} {id : ParserId} {c : Cursor} {r r' : Runner} {o : Outcome}
  {input : String}

/-- **The turns of a call are those of calls in which failures are handed on.** -/
theorem trace_handed (h : (g.trace room id c).run r = .ok (o, r')) :
    ∃ inner, r'.turns = r.turns ++ (Calls.call (r.visiting id c) inner o .none).turns ∧
      (Calls.call (r.visiting id c) inner o .none).Handed g r.enclosing := by
  induction room using Nat.strongRecOn generalizing id c r o r' with
  | ind room ih =>
    cases Steps.of_trace h with
    | stopped _ =>
      exact ⟨.none, by simp [noted, Calls.turns], rfl, fun _ => rfl, fun _ _ => rfl, trivial,
        trivial⟩
    | stops _ _ =>
      exact ⟨.none, by simp [noted, Calls.turns], rfl, fun _ => rfl, fun _ _ => rfl, trivial,
        trivial⟩
    | @goes room node o r₁ _ _ hnode hfollow =>
      have hkind : g.kind? id = some node.kind := by rw [kind?, hnode]; rfl
      obtain ⟨inner, hturns, hhanded, hundefined, hstrict⟩ :=
        follow_handed (fun id c r o r' hrun =>
          ⟨trace_keeps hrun, ih room (Nat.lt_succ_self _) hrun⟩) (node.script_handles c) hfollow
      refine ⟨inner, ?_, rfl, fun h => ?_, fun hforgives hany => ?_, hhanded, trivial⟩
      · change r₁.turns ++ [_] = _
        rw [hturns]
        simp [noted, inside, Calls.turns]
      · rw [Node.isFailed_labelled]
        exact hundefined (Option.some.inj (hkind.symm.trans h))
      · rw [Node.isFailed_labelled]
        refine hstrict (fun h => hforgives ?_) hany
        rw [forgives]
        change (g.kind? id).any _ = true
        rw [hkind]
        exact h

/-- A run whose root fails tells an error. -/
theorem run_of_isFailed (htraced : g.traced id input = .ok (o, r)) (h : o.isFailed) :
    ∃ e, g.run id input = .ok (.error e) := by
  obtain ⟨e, he⟩ : ∃ e, verdict (o, r) = .error e := by
    cases o with
    | matched tree stop => exact nomatch h
    | failed e =>
      unfold verdict
      dsimp only
      split
      · exact ⟨_, rfl⟩
      · exact absurd ‹Outcome.failed e = _› (by simp)
      · split <;> exact ⟨_, rfl⟩
  exact ⟨e, by rw [run_eq_traced, htraced, ← he]; rfl⟩

/-- **A run that gets to an undefined rule fails, unless a parser around makes up for that.** The
turns of a run tell its calls, and every call of an undefined rule fails. If none of the parsers
around such a call is an alternation, an option, a repetition or a negated lookahead, the run fails.
And if the run matches, then the innermost of the calls around that one that did not fail is of such
a parser. -/
theorem run_of_undefined (g : Graph) {id : ParserId} {input : String} {o : Outcome} {r : Runner}
    (htraced : g.traced id input = .ok (o, r)) :
    ∃ calls : Calls, calls.turns = r.turns ∧
      (∀ others : Calls, others.turns = r.turns → others = calls) ∧
      ∀ visit, .begun visit ∈ r.turns → g.kind? visit.id = some (.rule none) →
        ((∀ q ∈ visit.enclosing, ¬ g.forgives q) → ∃ e, g.run id input = .ok (.error e)) ∧
        ∃ around o', calls.Makes around visit o' ∧ o'.isFailed ∧
          visit.enclosing = around.map (·.1.id) ∧
          ∀ tree, g.run id input = .ok (.ok tree) → Calls.Forgiven g around := by
  obtain ⟨inner, hturns, hhanded⟩ := trace_handed htraced
  refine ⟨_, hturns.symm, fun others hothers => Calls.turns_injective (hothers.trans hturns),
    fun visit hbegun hundefined => ?_⟩
  rw [hturns] at hbegun
  obtain ⟨around, o', hmakes⟩ := Calls.exists_makes hbegun
  have hfailed : o'.isFailed := hmakes.isFailed hhanded hundefined
  have henclosing : visit.enclosing = around.map (·.1.id) :=
    (hmakes.enclosing_eq hhanded).trans (List.append_nil _)
  have hends : (∃ e, g.run id input = .ok (.error e)) ∨ Calls.Forgiven g around := by
    rcases hmakes.handed hhanded hfailed with ⟨-, hany⟩ | hforgiven
    · exact .inl (run_of_isFailed htraced (by simpa [Calls.anyFailed] using hany))
    · exact .inr hforgiven
  refine ⟨fun hopen => ?_, around, o', hmakes, hfailed, henclosing, fun tree hrun => ?_⟩
  · rcases hends with hfails | ⟨before, q, after, rfl, -, -, hforgives⟩
    · exact hfails
    · exact absurd hforgives (hopen q.1.id (henclosing ▸ by simp))
  · rcases hends with ⟨e, he⟩ | hforgiven
    · exact nomatch he.symm.trans hrun
    · exact hforgiven

/-- A word is an `ident` or nothing, and a pair a word and an `ident`, which is not defined yet. -/
def waiting : Graph :=
  ⟨#[.live 0 ⟨some "ident", .rule none⟩, .live 0 ⟨some "word", .rule (some ⟨2, 0⟩)⟩,
    .live 0 ⟨none, .optional ⟨0, 0⟩⟩, .live 0 ⟨some "pair", .sequence [⟨1, 0⟩, ⟨0, 0⟩]⟩],
    [], 4, 256⟩

/-- A call of the undefined rule in one of the turns of a run. -/
theorem exists_waiting (id : ParserId) (index : Nat) (enclosing : List ParserId)
    (h : (waiting.traced id "").map (fun p => p.2.turns[index]?) =
      .ok (some (.begun ⟨⟨0, 0⟩, Cursor.start "", enclosing⟩))) :
    ∃ o r, waiting.traced id "" = .ok (o, r) ∧
      .begun ⟨⟨0, 0⟩, Cursor.start "", enclosing⟩ ∈ r.turns := by
  cases htraced : waiting.traced id "" with
  | error m =>
    rw [htraced] at h
    cases h
  | ok p =>
    obtain ⟨o, r⟩ := p
    rw [htraced] at h
    exact ⟨o, r, rfl, List.mem_of_getElem? (Except.ok.inj h)⟩

/-- The pair fails where it gets to the `ident` after the word, though not where it got to the one
in the word. -/
theorem run_of_undefined_waiting :
    ∃ o r visit, waiting.traced ⟨3, 0⟩ "" = .ok (o, r) ∧ .begun visit ∈ r.turns ∧
      waiting.kind? visit.id = some (.rule none) ∧
      (∀ q ∈ visit.enclosing, ¬ waiting.forgives q) ∧
      ∃ e, waiting.run ⟨3, 0⟩ "" = .ok (.error e) := by
  obtain ⟨o, r, htraced, hbegun⟩ := exists_waiting ⟨3, 0⟩ 7 [⟨3, 0⟩] (by cbv)
  have hundefined : waiting.kind? ⟨0, 0⟩ = some (.rule none) := rfl
  have hopen : ∀ q ∈ [(⟨3, 0⟩ : ParserId)], ¬ waiting.forgives q :=
    List.forall_mem_singleton.2 (by decide)
  obtain ⟨calls, -, -, hcalls⟩ := run_of_undefined waiting htraced
  exact ⟨o, r, _, htraced, hbegun, hundefined, hopen, (hcalls _ hbegun hundefined).1 hopen⟩

/-- **A run may get to an undefined rule and match.** The word gets to the `ident`, which fails as
it is not defined; the option makes that nothing, and the word matches. -/
theorem run_undefined_forgiven :
    ∃ o r visit, waiting.traced ⟨1, 0⟩ "" = .ok (o, r) ∧ .begun visit ∈ r.turns ∧
      waiting.kind? visit.id = some (.rule none) ∧
      ∃ tree, waiting.run ⟨1, 0⟩ "" = .ok (.ok tree) := by
  obtain ⟨o, r, htraced, hbegun⟩ := exists_waiting ⟨1, 0⟩ 2 [⟨2, 0⟩, ⟨1, 0⟩] (by cbv)
  exact ⟨o, r, _, htraced, hbegun, rfl, _, rfl⟩

end Graph

end ParserGraph
