import ParserGraph.Proofs.Run.Runner

/-!
# The limit — nesting too deep cuts a run, and nothing else

The first call that begins with as many calls around it as the limit allows
stops its run, and the run tells so at the place of that call
(`Runner.Counts`), whatever optionals and lookaheads around it make of the
failures that follow. A run that is not stopped never finds the counter at the
limit, so it goes through the same states under any higher limit
(`Graph.trace_setMaxDepth`). The counter itself is back after every call where
it was before (`Graph.trace_keeps`).
-/

namespace ParserGraph

/-- The call that begins, if as many calls as the limit are around it already. -/
def Turn.beyond? (limit : Nat) : Turn → Option Visit
  | .begun visit => if limit ≤ visit.enclosing.length then some visit else none
  | .ended _ _ => none

namespace Runner

/-- The first call that began beyond a limit. -/
def firstBeyond (r : Runner) (limit : Nat) : Option Visit := r.turns.findSome? (Turn.beyond? limit)

variable {r : Runner} {limit : Nat} {visit : Visit}

/-- A call within the limit leaves the first one beyond it as it is. -/
theorem firstBeyond_begun (h : visit.enclosing.length < limit) :
    (r.noted (.begun visit)).firstBeyond limit = r.firstBeyond limit := by
  simp [firstBeyond, noted, Turn.beyond?, Nat.not_le.2 h]

/-- After a call beyond the limit, no other is the first. -/
theorem firstBeyond_of_some {v : Visit} (h : r.firstBeyond limit = some v) (turn : Turn) :
    (r.noted turn).firstBeyond limit = some v := by
  have hfound : r.turns.findSome? (Turn.beyond? limit) = some v := h
  simp [firstBeyond, noted, hfound]

/-- A call beyond the limit is the first, if there was none before. -/
theorem firstBeyond_of_none (h : r.firstBeyond limit = none)
    (hvisit : limit ≤ visit.enclosing.length) :
    (r.noted (.begun visit)).firstBeyond limit = some visit := by
  have hnone : r.turns.findSome? (Turn.beyond? limit) = none := h
  simp [firstBeyond, noted, hnone, Turn.beyond?, hvisit]

/-- The end of a call is no call beyond the limit. -/
theorem firstBeyond_ended {o : Outcome} :
    (r.noted (.ended visit o)).firstBeyond limit = r.firstBeyond limit := by
  simp [firstBeyond, noted, Turn.beyond?]

/-! ## What stops a run -/

/-- The counter tells how many calls are under way, and the run is stopped by the first call that
began with the counter at the limit. -/
structure Counts (g : Graph) (r : Runner) : Prop where
  depth : r.depth = r.enclosing.length
  stopped : r.stopped = (r.firstBeyond g.maxDepth).map fun visit => g.tooDeep visit.cursor

theorem counts_start (g : Graph) : start.Counts g := ⟨rfl, rfl⟩

namespace Counts

variable {g : Graph} {id : ParserId} {c : Cursor} {o : Outcome}

/-- As long as a run goes on, no call began beyond the limit. -/
theorem firstBeyond_eq_none (h : r.Counts g) (hgoing : r.stopped = none) :
    r.firstBeyond g.maxDepth = none := by
  have hstopped := h.stopped
  rw [hgoing] at hstopped
  exact Option.map_eq_none_iff.1 hstopped.symm

/-- Once a run is stopped, more turns change nothing. -/
theorem noted (h : r.Counts g) {e : ParseError} (hstopped : r.stopped = some e) (turn : Turn) :
    (r.noted turn).Counts g := by
  have hmap := h.stopped
  rw [hstopped] at hmap
  obtain ⟨v, hv, -⟩ := Option.map_eq_some_iff.1 hmap.symm
  refine ⟨h.depth, ?_⟩
  rw [firstBeyond_of_some hv, ← hv]
  exact h.stopped

theorem ended (h : r.Counts g) : (r.noted (.ended visit o)).Counts g := by
  refine ⟨h.depth, ?_⟩
  rw [firstBeyond_ended]
  exact h.stopped

/-- The call that finds the counter at the limit is the first beyond it. -/
theorem stops (h : r.Counts g) (hgoing : r.stopped = none) (hlimit : g.maxDepth ≤ r.depth) :
    { r.noted (.begun (r.visiting id c)) with stopped := some (g.tooDeep c) }.Counts g := by
  have hlength : g.maxDepth ≤ (r.visiting id c).enclosing.length := h.depth ▸ hlimit
  have hfirst := firstBeyond_of_none (h.firstBeyond_eq_none hgoing) hlength
  refine ⟨h.depth, ?_⟩
  show some _ = Option.map _ ((r.noted (.begun (r.visiting id c))).firstBeyond g.maxDepth)
  rw [hfirst]
  rfl

/-- A call within the limit goes on with the counter one up. -/
theorem inside (h : r.Counts g) (hlimit : r.depth < g.maxDepth) :
    ((r.noted (.begun (r.visiting id c))).inside id).Counts g := by
  have hlength : (r.visiting id c).enclosing.length < g.maxDepth := h.depth ▸ hlimit
  refine ⟨congrArg (· + 1) h.depth, ?_⟩
  show r.stopped = Option.map _ ((r.noted (.begun (r.visiting id c))).firstBeyond g.maxDepth)
  rw [firstBeyond_begun hlength]
  exact h.stopped

/-- Leaving a call puts the counter one down. -/
theorem outside (h : r.Counts g) {ids : List ParserId} (hr : r.enclosing = id :: ids) :
    r.outside.Counts g := by
  refine ⟨?_, h.stopped⟩
  show r.depth - 1 = r.enclosing.tail.length
  rw [h.depth, hr]
  rfl

end Counts

end Runner

namespace Graph

open Runner

variable {g : Graph} {room : Nat} {id : ParserId} {c : Cursor} {r r' : Runner} {o : Outcome}

/-- **Every call keeps count**, and stops the run where it is the first beyond the limit. -/
theorem trace_counts (h : (g.trace room id c).run r = .ok (o, r'))
    (hroom : room + r.depth = g.maxDepth) (hr : r.Counts g) : r'.Counts g := by
  induction room using Nat.strongRecOn generalizing id c r o r' with
  | ind room ih =>
    cases Steps.of_trace h with
    | stopped hstopped => exact (hr.noted hstopped _).ended
    | stops hgoing hlimit => exact (hr.stops hgoing (by omega)).ended
    | @goes room _ _ r₁ hgoing hlimit _ hfollow =>
      -- the calls inside are made with the counter one up, and each leaves it there
      have hkeeps : ((r.noted (.begun (r.visiting id c))).inside id).Keeps r₁ :=
        follow_keeps (fun _ _ _ _ _ hrun => trace_keeps hrun) hfollow
      have hinside : r₁.depth = r.depth + 1 ∧ r₁.Counts g := by
        refine follow_course (T := fun r₁ r₂ => r₁.depth = r.depth + 1 ∧ r₁.Counts g →
            r₂.depth = r.depth + 1 ∧ r₂.Counts g)
          (fun _ h => h) (fun h h' hr => h' (h hr)) (fun _ _ h => ⟨h.1, h.2.depth, h.2.stopped⟩)
          (fun _ _ r₁ _ r₂ hrun hr₁ => ?_) hfollow ⟨rfl, hr.inside hlimit⟩
        have hdepth := (trace_keeps hrun).depth
        exact ⟨hdepth.trans hr₁.1, ih room (Nat.lt_succ_self _) hrun (by omega) hr₁.2⟩
      exact (hinside.2.outside hkeeps.enclosing).ended

/-- What happens in a run keeps count, from its start to its end. -/
theorem traced_counts {input : String} (h : g.traced id input = .ok (o, r)) : r.Counts g :=
  trace_counts h rfl (counts_start g)

end Graph

/-! ## Higher limits -/

namespace Runner

/-- A part of a run that does not end with the run stopped. -/
def Goes {α : Type} (x : Except Misuse (α × Runner)) : Prop :=
  ∀ a r, x = .ok (a, r) → r.stopped = none

section

variable {α : Type} {make make' : Routine} {r : Runner} {d : Nat}
  (hmake : ∀ id c r, r.stopped = none → r.depth = d → Goes ((make id c).run r) →
    (make' id c).run r = (make id c).run r)
include hmake

theorem calling_congr {alone : Bool} {id : ParserId} {c : Cursor} (hgoing : r.stopped = none)
    (hdepth : r.depth = d) (h : Goes ((calling make alone id c).run r)) :
    (calling make' alone id c).run r = (calling make alone id c).run r := by
  cases alone with
  | false => exact hmake id c r hgoing hdepth h
  | true =>
    have hinner : Goes ((make id c).run { r with kept := none }) := by
      intro o r₁ hrun
      refine h o { r₁ with kept := r.kept } ?_
      rw [calling, if_pos rfl, isolated_run, hrun]
      rfl
    rw [calling, calling, if_pos rfl, if_pos rfl, isolated_run, isolated_run,
      hmake id c { r with kept := none } hgoing hdepth hinner]

/-- **A script is followed the same way** where the calls it makes are the same as long as the run
goes on. -/
theorem follow_congr (hkeeps : ∀ id c r o r', (make id c).run r = .ok (o, r') → r.Keeps r')
    (hstopped : ∀ id c r e, r.stopped = some e →
      ∃ o r', (make id c).run r = .ok (o, r') ∧ r'.stopped = some e)
    (s : Script α) (hgoing : r.stopped = none) (hdepth : r.depth = d)
    (h : Goes ((follow make s).run r)) : (follow make' s).run r = (follow make s).run r := by
  induction s generalizing r with
  | done a => rfl
  | call alone id c next ih =>
    rw [follow_call] at h
    have hcalling : Goes ((calling make alone id c).run r) := by
      intro o r₁ hrun
      rw [hrun] at h
      -- a run that was stopped by the call would have ended stopped
      cases hr₁ : r₁.stopped with
      | none => rfl
      | some e =>
        obtain ⟨a, r', hnext, hr'⟩ := follow_of_stopped (fun id c r => hstopped id c r e) (next o) hr₁
        exact nomatch hr'.symm.trans (h a r' hnext)
    rw [follow_call, follow_call, calling_congr hmake hgoing hdepth hcalling]
    cases hrun : (calling make alone id c).run r with
    | error m => rfl
    | ok p =>
      obtain ⟨o, r₁⟩ := p
      rw [hrun] at h
      obtain ⟨r₂, hmade, rfl⟩ := calling_eq_ok hrun
      exact ih o (hcalling _ _ hrun) ((hkeeps _ _ _ _ _ hmade).depth.trans hdepth) h
  | abandon start e next ih => exact ih hgoing hdepth h

end

end Runner

namespace Graph

open Runner

variable {g : Graph} {room room' d d' : Nat} {id : ParserId} {c : Cursor} {r r' : Runner}
  {o : Outcome}

/-- What a node does has nothing to do with the limit. -/
theorem enter_setMaxDepth (make : Routine) :
    Runner.enter (g.setMaxDepth d) make id c = Runner.enter g make id c := rfl

/-- **A call that does not stop the run is the same under any higher limit.** -/
theorem trace_setMaxDepth (hle : d ≤ d') (hgoing : r.stopped = none) (hroom : room + r.depth = d)
    (hroom' : room' + r.depth = d') (h : Goes (((g.setMaxDepth d).trace room id c).run r)) :
    ((g.setMaxDepth d').trace room' id c).run r = ((g.setMaxDepth d).trace room id c).run r := by
  induction room generalizing id c r room' with
  | zero =>
    exact nomatch h _ _ (trace_of_limit hgoing (Or.inr rfl))
  | succ room ih =>
    obtain ⟨room', rfl⟩ : ∃ n, room' = n + 1 := Nat.exists_eq_add_of_le' (by omega)
    have hbelow : r.depth < (g.setMaxDepth d).maxDepth := show r.depth < d by omega
    have hbelow' : r.depth < (g.setMaxDepth d').maxDepth := show r.depth < d' by omega
    rw [trace_of_going hgoing hbelow, enter_setMaxDepth] at h ⊢
    rw [trace_of_going hgoing hbelow', enter_setMaxDepth]
    cases hnode : g.node? id with
    | none => rw [Runner.enter, Runner.enter, hnode]
    | some node =>
      rw [enter_run hnode] at h ⊢
      rw [enter_run hnode]
      have hfollow : (follow ((g.setMaxDepth d').trace room') (node.script g c)).run
            ((r.noted (.begun (r.visiting id c))).inside id) =
          (follow ((g.setMaxDepth d).trace room) (node.script g c)).run
            ((r.noted (.begun (r.visiting id c))).inside id) := by
        refine follow_congr (d := r.depth + 1)
          (fun _ _ _ hr hdepth => ih hr (by omega) (by omega)) (fun _ _ _ _ _ h => trace_keeps h)
          (fun _ _ _ _ h => trace_ok_of_stopped h) _ hgoing rfl fun o r₁ hrun => ?_
        rw [hrun] at h
        exact h _ (r₁.outside.noted (.ended (r.visiting id c) (node.labelled o))) rfl
      rw [hfollow]

theorem goes_of_not_stopped {input : String} (h : ¬ g.Stopped id input) :
    Goes (g.traced id input) := by
  intro o r htraced
  cases hr : r.stopped with
  | none => rfl
  | some e => exact absurd ⟨o, r, e, htraced, hr⟩ h

/-- **The limit cuts runs and changes none.** A run that is not stopped goes the same way under any
higher limit. A run is stopped if some call begins beyond the limit, and then comes to nothing but
the failure to nest that deep, told where the first such call began. Every call leaves the counter
as it found it. -/
theorem limit_only_cuts (g : Graph) (id : ParserId) (input : String) :
    g.run id input = (g.traced id input).map verdict ∧
    (∀ d d', d ≤ d' → ¬ (g.setMaxDepth d).Stopped id input →
      ¬ (g.setMaxDepth d').Stopped id input ∧
        (g.setMaxDepth d').run id input = (g.setMaxDepth d).run id input) ∧
    (∀ o r, g.traced id input = .ok (o, r) →
      (g.Stopped id input ↔ ∃ visit, r.firstBeyond g.maxDepth = some visit) ∧
      ∀ visit, r.firstBeyond g.maxDepth = some visit →
        g.run id input = .ok (.error ⟨visit.cursor.position, .empty, visit.cursor.peek,
          some ("input nests deeper than " ++ toString g.maxDepth ++ " parsers")⟩)) ∧
    ∀ room id c r o r', (g.trace room id c).run r = .ok (o, r') → r'.depth = r.depth := by
  refine ⟨g.run_eq_traced id input, fun d d' hle hgoes => ?_, fun o r htraced => ⟨?_, ?_⟩,
    fun _ _ _ _ _ _ h => (trace_keeps h).depth⟩
  · have hsame : (g.setMaxDepth d').traced id input = (g.setMaxDepth d).traced id input :=
      trace_setMaxDepth hle rfl rfl rfl (goes_of_not_stopped hgoes)
    refine ⟨fun ⟨o, r, e, htraced, hr⟩ => hgoes ⟨o, r, e, hsame ▸ htraced, hr⟩, ?_⟩
    rw [run_eq_traced, run_eq_traced, hsame]
  · have hstopped := (traced_counts htraced).stopped
    constructor
    · rintro ⟨o', r', e, htraced', hr'⟩
      cases htraced.symm.trans htraced'
      rw [hr'] at hstopped
      obtain ⟨visit, hvisit, -⟩ := Option.map_eq_some_iff.1 hstopped.symm
      exact ⟨visit, hvisit⟩
    · rintro ⟨visit, hvisit⟩
      rw [hvisit] at hstopped
      exact ⟨o, r, _, htraced, hstopped⟩
  · intro visit hvisit
    have hstopped := (traced_counts htraced).stopped
    rw [hvisit] at hstopped
    rw [run_eq_traced, htraced, Except.map, verdict_of_stopped hstopped]
    rfl

/-- An optional around a negated lookahead around a character: either would recover from a
failure. -/
def recovering : Graph :=
  ⟨#[.live 0 ⟨none, .terminal (.char 'a')⟩, .live 0 ⟨none, .lookahead ⟨0, 0⟩ true⟩,
    .live 0 ⟨none, .optional ⟨1, 0⟩⟩], [], 3, defaultMaxDepth⟩

/-- Three calls nest, so a limit of three is as good as any; a limit of two stops the run where the
character is tried. -/
theorem limit_only_cuts_recovering :
    ¬ (recovering.setMaxDepth 3).Stopped ⟨2, 0⟩ "b" ∧
    (∀ d, 3 ≤ d → (recovering.setMaxDepth d).run ⟨2, 0⟩ "b" =
      (recovering.setMaxDepth 3).run ⟨2, 0⟩ "b") ∧
    (recovering.setMaxDepth 2).run ⟨2, 0⟩ "b" =
      .ok (.error ⟨.start, .empty, some 'b', some "input nests deeper than 2 parsers"⟩) := by
  have hgoes : ¬ (recovering.setMaxDepth 3).Stopped ⟨2, 0⟩ "b" := by
    rintro ⟨o, r, e, htraced, hr⟩
    have hend : ∃ o r, (recovering.setMaxDepth 3).traced ⟨2, 0⟩ "b" = .ok (o, r) ∧
        r.stopped = none := ⟨_, _, rfl, rfl⟩
    obtain ⟨o', r', htraced', hr'⟩ := hend
    cases htraced.symm.trans htraced'
    exact nomatch hr.symm.trans hr'
  have hstops : ∃ o r, (recovering.setMaxDepth 2).traced ⟨2, 0⟩ "b" = .ok (o, r) ∧
      r.firstBeyond 2 = some ⟨⟨0, 0⟩, Cursor.start "b", [⟨1, 0⟩, ⟨2, 0⟩]⟩ := ⟨_, _, rfl, rfl⟩
  obtain ⟨o, r, htraced, hfirst⟩ := hstops
  obtain ⟨-, hmore, -, -⟩ := limit_only_cuts recovering ⟨2, 0⟩ "b"
  obtain ⟨-, -, hcut, -⟩ := limit_only_cuts (recovering.setMaxDepth 2) ⟨2, 0⟩ "b"
  exact ⟨hgoes, fun d hd => (hmore 3 d hd hgoes).2, (hcut o r htraced).2 _ hfirst⟩

end Graph

end ParserGraph
