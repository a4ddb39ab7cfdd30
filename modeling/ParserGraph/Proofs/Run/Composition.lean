import ParserGraph.Proofs.Run.Location
import ParserGraph.Proofs.Run.Runner

/-!
# Composition — a call adds to the errors kept aside and never looks at them

What a call does is the same whichever error was kept aside before it. What it
keeps aside itself is merged into that error, after it; merging is associative
(`ParseError.merge_assoc`), so it makes no difference whether the errors of
several calls are merged one by one or those of each call first. This holds of
the engine (`Graph.parse_additive`) and of the runner, which goes on after it
was stopped (`Graph.trace_additive`). A call that forgets the errors inside it
leaves what was kept aside just as it was.
-/

namespace ParserGraph

/-! ## Merging in order -/

theorem ItemSet.union_assoc (s t u : ItemSet) : (s.union t).union u = s.union (t.union u) :=
  ItemSet.ext_mem fun x => by rw [mem_union, mem_union, mem_union, mem_union, or_assoc]

namespace ParseError

/-- Errors are merged at the offset of the further one. -/
theorem merge_offset (e f : ParseError) :
    (e.merge f).position.offset = max e.position.offset f.position.offset := by
  unfold merge
  split
  · next h => exact (Nat.max_eq_left (Nat.le_of_lt h)).symm
  split
  · next h => exact (Nat.max_eq_right (Nat.le_of_lt h)).symm
  · next h h' => exact (Nat.max_eq_left (Nat.not_lt.1 h')).symm

theorem merge_of_gt {e f : ParseError} (h : f.position.offset < e.position.offset) :
    e.merge f = e := by
  rw [merge, if_pos h]

theorem merge_of_lt {e f : ParseError} (h : e.position.offset < f.position.offset) :
    e.merge f = f := by
  rw [merge, if_neg (Nat.not_lt_of_gt h), if_pos h]

theorem merge_of_eq {e f : ParseError} (h : e.position.offset = f.position.offset) :
    e.merge f =
      { e with expected := e.expected.union f.expected, failure := e.failure.or f.failure } := by
  rw [merge, if_neg (by omega), if_neg (by omega)]

/-- **Merging is associative**: the furthest errors are pooled in their order, whichever are merged
first. -/
theorem merge_assoc (e f h : ParseError) : (e.merge f).merge h = e.merge (f.merge h) := by
  have hleft := merge_offset e f
  have hright := merge_offset f h
  rcases Nat.lt_trichotomy e.position.offset f.position.offset with hef | hef | hef
  · rw [merge_of_lt hef, merge_of_lt (f := f.merge h) (by omega)]
  · rcases Nat.lt_trichotomy f.position.offset h.position.offset with hfh | hfh | hfh
    · rw [merge_of_lt hfh, merge_of_lt (f := h) (by omega), merge_of_lt (by omega)]
    · -- all three are at one offset
      rw [merge_of_eq (by omega : (e.merge f).position.offset = h.position.offset),
        merge_of_eq (by omega : e.position.offset = (f.merge h).position.offset),
        merge_of_eq hef, merge_of_eq hfh]
      simp only [ItemSet.union_assoc, Option.or_assoc]
    · rw [merge_of_gt hfh, merge_of_gt (e := e.merge f) (by omega)]
  · rcases Nat.lt_trichotomy e.position.offset (f.merge h).position.offset with hlt | heq | hgt
    · rw [merge_of_gt hef, merge_of_lt hlt, merge_of_lt (f := h) (by omega),
        merge_of_lt (f := h) (by omega)]
    · rw [merge_of_gt hef, merge_of_lt (e := f) (f := h) (by omega)]
    · rw [merge_of_gt hef, merge_of_gt hgt, merge_of_gt (f := h) (by omega)]

/-- What is kept aside after something was. -/
def joinAfter (before : Option ParseError) : Option ParseError → Option ParseError
  | none => before
  | some e => some (e.joinTo before)

theorem joinAfter_assoc (A B C : Option ParseError) :
    joinAfter (joinAfter A B) C = joinAfter A (joinAfter B C) := by
  cases C with
  | none => rfl
  | some h =>
    cases B with
    | none => rfl
    | some f =>
      cases A with
      | none => rfl
      | some e => exact congrArg some (merge_assoc e f h)

end ParseError

open ParseError

/-! ## The engine -/

namespace Attempt

variable {α β : Type}

/-- A part of a run that does the same whatever was kept aside before, and merges what it keeps
aside itself into that. -/
def Additive (x : Attempt α) : Prop :=
  ∀ A, x.run A = (x.run none).map fun p => (p.1, joinAfter A p.2)

/-- A call that is isolated starts with nothing kept aside, and leaves what was. -/
theorem isolated_run (x : Attempt Outcome) (A : Option ParseError) :
    (isolated x).run A = (x.run none).map fun p => (p.1, A) := by
  change (x.run none >>= fun p => (Except.ok (p.1, A) : Except Halt _)) = _
  cases x.run none <;> rfl

namespace Additive

theorem pure (a : α) : (Pure.pure a : Attempt α).Additive := fun _ => rfl

theorem throw (h : Halt) : (MonadExcept.throw h : Attempt α).Additive := fun _ => rfl

theorem bind {x : Attempt α} {f : α → Attempt β} (hx : x.Additive) (hf : ∀ a, (f a).Additive) :
    (x >>= f).Additive := by
  intro A
  rw [StateT.run_bind, StateT.run_bind, hx A]
  cases x.run none with
  | error h => rfl
  | ok p =>
    obtain ⟨a, kept⟩ := p
    change (f a).run (joinAfter A kept) = ((f a).run kept).map _
    rw [hf a (joinAfter A kept), hf a kept]
    cases (f a).run none with
    | error h => rfl
    | ok q => exact congrArg (fun kept => Except.ok (q.1, kept)) (joinAfter_assoc A kept q.2)

theorem abandon (start : Position) (e : ParseError) : (Attempt.abandon start e).Additive := by
  intro A
  change Except.ok ((), if e.position.offset ≤ start.offset then A else some (e.joinTo A)) =
    Except.ok ((), joinAfter A (if e.position.offset ≤ start.offset then none
      else some (e.joinTo none)))
  split <;> rfl

/-- What is kept aside inside is forgotten, so nothing is merged. -/
theorem isolated (x : Attempt Outcome) : (Attempt.isolated x).Additive := by
  intro A
  rw [isolated_run, isolated_run]
  cases x.run none <;> rfl

/-- What is played is additive if the calls are. -/
theorem play {make : Call} (hmake : ∀ id c, (make id c).Additive) (s : Script α) :
    (s.play make).Additive := by
  induction s with
  | done a => exact pure a
  | call alone id c next ih =>
    refine Additive.bind ?_ ih
    cases alone with
    | false => exact hmake id c
    | true => exact isolated _
  | abandon start e next ih => exact (abandon start e).bind fun _ => ih

end Additive

end Attempt

namespace Graph

open Attempt

variable {g : Graph}

/-- **Every call of the engine adds to what was kept aside and never looks at it.** -/
theorem parse_additive (g : Graph) (room : Nat) (id : ParserId) (c : Cursor) :
    (g.parse room id c).Additive := by
  induction room generalizing id c with
  | zero => exact .throw _
  | succ room ih =>
    rw [parse]
    cases hnode : g.node? id with
    | none =>
      rw [Graph.enter, hnode]
      exact .throw _
    | some node =>
      rw [enter_eq hnode, ← Node.play_script]
      exact (Additive.play ih _).bind fun o => .pure _

end Graph

/-! ## The runner -/

namespace Runner

variable {α β : Type} {r : Runner}

/-- The run with other errors kept aside. -/
def keeping (r : Runner) (kept : Option ParseError) : Runner := { r with kept := kept }

/-- A part of a run that does the same whatever was kept aside before, and merges what it keeps
aside itself into that. -/
def Additive (x : Step α) : Prop :=
  ∀ (r : Runner) (A : Option ParseError), x.run (r.keeping A) =
    (x.run (r.keeping none)).map fun p => (p.1, p.2.keeping (joinAfter A p.2.kept))

namespace Additive

theorem pure (a : α) : Additive (Pure.pure a : Step α) := fun _ _ => rfl

/-- A part of a run goes on from any state as it does from one with nothing kept aside. -/
theorem run_eq {x : Step α} (hx : Additive x) (r : Runner) :
    x.run r = (x.run (r.keeping none)).map fun p =>
      (p.1, p.2.keeping (joinAfter r.kept p.2.kept)) :=
  hx r r.kept

theorem bind {x : Step α} {f : α → Step β} (hx : Additive x) (hf : ∀ a, Additive (f a)) :
    Additive (x >>= f) := by
  intro r A
  rw [StateT.run_bind, StateT.run_bind, hx r A]
  cases x.run (r.keeping none) with
  | error m => rfl
  | ok p =>
    obtain ⟨a, r₁⟩ := p
    change (f a).run (r₁.keeping (joinAfter A r₁.kept)) = ((f a).run r₁).map _
    rw [hf a r₁ (joinAfter A r₁.kept), (hf a).run_eq r₁]
    cases (f a).run (r₁.keeping none) with
    | error m => rfl
    | ok q =>
      exact congrArg (fun kept => Except.ok (q.1, q.2.keeping kept))
        (joinAfter_assoc A r₁.kept q.2.kept)

theorem abandon (start : Position) (e : ParseError) : Additive (Runner.abandon start e) := by
  intro r A
  change Except.ok ((), r.keeping
      (if e.position.offset ≤ start.offset then A else some (e.joinTo A))) =
    Except.ok ((), r.keeping (joinAfter A (if e.position.offset ≤ start.offset then none
      else some (e.joinTo none))))
  split <;> rfl

/-- What is kept aside inside is forgotten, so nothing is merged. -/
theorem isolated (x : Step Outcome) : Additive (Runner.isolated x) := by
  intro r A
  rw [isolated_run, isolated_run]
  change (x.run (r.keeping none) >>= fun p => Except.ok (p.1, p.2.keeping A)) =
    (x.run (r.keeping none) >>= fun p => Except.ok (p.1, p.2.keeping none)).map _
  cases x.run (r.keeping none) <;> rfl

/-- What follows a script is additive if the calls are. -/
theorem follow {make : Routine} (hmake : ∀ id c, Additive (make id c)) (s : Script α) :
    Additive (Runner.follow make s) := by
  induction s with
  | done a => exact pure a
  | call alone id c next ih =>
    refine Additive.bind ?_ ih
    cases alone with
    | false => exact hmake id c
    | true => exact isolated _
  | abandon start e next ih => exact (abandon start e).bind fun _ => ih

end Additive

end Runner

namespace Graph

open Runner

variable {g : Graph} {room : Nat} {id : ParserId} {c : Cursor} {r r' : Runner} {o : Outcome}

/-- **Every call of a runner adds to what was kept aside and never looks at it**, whether or not it
was stopped. -/
theorem trace_additive (g : Graph) (room : Nat) (id : ParserId) (c : Cursor) :
    Runner.Additive (g.trace room id c) := by
  induction room using Nat.strongRecOn generalizing id c with
  | ind room ih =>
    intro r A
    cases hstopped : r.stopped with
    | some e =>
      rw [trace_of_stopped (r := r.keeping A) hstopped,
        trace_of_stopped (r := r.keeping none) hstopped]
      rfl
    | none =>
      by_cases hlimit : g.maxDepth ≤ r.depth ∨ room = 0
      · rw [trace_of_limit (r := r.keeping A) hstopped hlimit,
          trace_of_limit (r := r.keeping none) hstopped hlimit]
        rfl
      · rw [not_or, Nat.not_le] at hlimit
        obtain ⟨room, rfl⟩ := Nat.exists_eq_succ_of_ne_zero hlimit.2
        rw [trace_of_going (r := r.keeping A) hstopped hlimit.1,
          trace_of_going (r := r.keeping none) hstopped hlimit.1]
        cases hnode : g.node? id with
        | none =>
          rw [Runner.enter, hnode]
          rfl
        | some node =>
          rw [enter_run hnode, enter_run hnode]
          -- the call starts from the same state but for what was kept aside
          have hfollow := Additive.follow (fun id c => ih room (Nat.lt_succ_self _) id c)
            (node.script g c) ((r.noted (.begun (r.visiting id c))).inside id) A
          change ((follow (g.trace room) (node.script g c)).run
              (((r.noted (.begun (r.visiting id c))).inside id).keeping A) >>= _) >>= _ = _
          rw [hfollow]
          change _ = (((follow (g.trace room) (node.script g c)).run
              (((r.noted (.begun (r.visiting id c))).inside id).keeping none) >>= _) >>= _).map _
          cases (follow (g.trace room) (node.script g c)).run
              (((r.noted (.begun (r.visiting id c))).inside id).keeping none) <;> rfl

end Graph

/-! ## Calls that keep nothing aside -/

namespace Graph

variable {g : Graph} {room : Nat} {id : ParserId} {c : Cursor} {node : Node}

/-- Whether a parser forgets the errors that are kept aside inside its call. -/
def isolates (g : Graph) (id : ParserId) : Bool :=
  match g.kind? id with
  | some (.lookahead _ _) => true
  | some (.expect _ _) => true
  | _ => false

/-- Such a parser makes one call, and makes something of its outcome. -/
theorem script_of_isolates (h : g.isolates id) (hnode : g.node? id = some node) (c : Cursor) :
    ∃ part rest, node.script g c = .call true part c rest ∧ ∀ o, ∃ o', rest o = .done o' := by
  have hkind : g.kind? id = some node.kind := by rw [kind?, hnode]; rfl
  obtain ⟨name, kind⟩ := node
  unfold isolates at h
  rw [hkind] at h
  cases kind with
  | lookahead part negated =>
    refine ⟨part, _, rfl, fun o => ?_⟩
    cases o <;> cases negated <;> exact ⟨_, rfl⟩
  | expect part label =>
    refine ⟨part, _, rfl, fun o => ?_⟩
    cases o <;> exact ⟨_, rfl⟩
  | _ => exact absurd h Bool.false_ne_true

/-- **A parser that forgets leaves what was kept aside as it was**, for the engine. -/
theorem parse_kept_of_isolates (h : g.isolates id) {A A' : Option ParseError} {o : Outcome}
    (hrun : (g.parse room id c).run A = .ok (o, A')) : A' = A := by
  cases room with
  | zero => cases hrun
  | succ room =>
    rw [parse] at hrun
    cases hnode : g.node? id with
    | none =>
      rw [Graph.enter, hnode] at hrun
      cases hrun
    | some node =>
      obtain ⟨part, rest, hscript, hrest⟩ := script_of_isolates h hnode c
      rw [enter_eq hnode, ← Node.play_script, hscript] at hrun
      obtain ⟨inner, A₁, hplay, hdone⟩ := Attempt.bind_eq_ok.1 hrun
      cases hdone
      obtain ⟨inner', A₂, hcalling, hdone⟩ := Attempt.bind_eq_ok.1 hplay
      obtain ⟨o', ho'⟩ := hrest inner'
      rw [ho'] at hdone
      cases hdone
      rw [Script.calling, if_pos rfl, Attempt.isolated_run] at hcalling
      cases hpart : (g.parse room part c).run none with
      | error h =>
        rw [hpart] at hcalling
        cases hcalling
      | ok p =>
        rw [hpart] at hcalling
        cases hcalling
        rfl

/-- And for a runner. -/
theorem trace_kept_of_isolates (h : g.isolates id) {r r' : Runner} {o : Outcome}
    (hrun : (g.trace room id c).run r = .ok (o, r')) : r'.kept = r.kept := by
  cases Steps.of_trace hrun with
  | stopped _ => rfl
  | stops _ _ => rfl
  | @goes room node o r₁ _ _ hnode hfollow =>
    obtain ⟨part, rest, hscript, hrest⟩ := script_of_isolates h hnode c
    rw [hscript, Runner.follow_call] at hfollow
    obtain ⟨⟨inner, r₂⟩, hcalling, hdone⟩ := except_bind_eq_ok hfollow
    obtain ⟨r₃, -, rfl⟩ := Runner.calling_eq_ok hcalling
    obtain ⟨o', ho'⟩ := hrest inner
    dsimp only at hdone
    rw [ho'] at hdone
    cases hdone
    rfl

end Graph

end ParserGraph
