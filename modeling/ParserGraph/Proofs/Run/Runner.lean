import ParserGraph.Proofs.Run.Finish
import ParserGraph.Proofs.Run.Script

/-!
# Runners — a run that counts its depth and remembers its calls

The engine is given room for nested calls and ends a run that has none left
at once. A runner has a counter instead, which goes up when a call is entered
and down when it is left, and a run that nests too deep goes on: every call
after that tells the error that stopped it, and what encloses the calls makes
of these failures what it makes of any. Beside that the runner remembers the
calls around the one it is in and, in order, when each call began and how it
ended. What the engine comes to is what a runner comes to
(`Graph.run_eq_traced`), so its memory tells what happens in a run.
-/

namespace ParserGraph

/-- A call of a run. -/
structure Visit where
  /-- The parser. -/
  id : ParserId
  /-- The place it was called at. -/
  cursor : Cursor
  /-- The parsers whose calls it was made inside of, the innermost in front. -/
  enclosing : List ParserId

/-- A turn of a run. -/
inductive Turn where
  /-- A call begins. -/
  | begun (visit : Visit)
  /-- A call ends. -/
  | ended (visit : Visit) (outcome : Outcome)

/-- Where a run stands. -/
structure Runner where
  /-- The furthest error of an attempt that was given up on after progress. -/
  kept : Option ParseError
  /-- How many calls are under way. -/
  depth : Nat
  /-- What stopped the run, once the nesting was too deep. -/
  stopped : Option ParseError
  /-- The parsers whose calls are under way, the innermost in front. -/
  enclosing : List ParserId
  /-- The turns so far. -/
  turns : List Turn

namespace Runner

/-- A run that has not begun. -/
def start : Runner := ⟨none, 0, none, [], []⟩

/-- The run after one more turn. -/
def noted (r : Runner) (turn : Turn) : Runner := { r with turns := r.turns ++ [turn] }

/-- The run inside a call of a parser. -/
def inside (r : Runner) (id : ParserId) : Runner :=
  { r with depth := r.depth + 1, enclosing := id :: r.enclosing }

/-- The run out of the call it was in. -/
def outside (r : Runner) : Runner :=
  { r with depth := r.depth - 1, enclosing := r.enclosing.tail }

/-- A part of a run, which changes the state. -/
abbrev Step := StateT Runner (Except Misuse)

/-- How a parser is called inside a run. -/
abbrev Routine := ParserId → Cursor → Step Outcome

/-! ## Parts of a run -/

/-- Keeps the error of an attempt aside, if it got past the place where the attempt started. -/
def abandon (start : Position) (e : ParseError) : Step Unit :=
  modify fun r => { r with
    kept := if e.position.offset ≤ start.offset then r.kept else some (e.joinTo r.kept) }

/-- A call whose kept errors are forgotten. -/
def isolated (part : Step Outcome) : Step Outcome := do
  let outer ← get
  set { outer with kept := none }
  let outcome ← part
  modify fun r => { r with kept := outer.kept }
  pure outcome

/-- One call, which `make` makes, alone or not. -/
def calling (make : Routine) (alone : Bool) (id : ParserId) (c : Cursor) : Step Outcome :=
  if alone then isolated (make id c) else make id c

/-- The part of a run that a script tells, its calls being made by `make`. -/
def follow {α : Type} (make : Routine) : Script α → Step α
  | .done a => pure a
  | .call alone id c next => do
    let o ← calling make alone id c
    follow make (next o)
  | .abandon start e next => do
    abandon start e
    follow make next

/-- Calls a parser, which must live, and tags its tree. -/
def enter (g : Graph) (make : Routine) : Routine := fun id c =>
  match g.node? id with
  | none => throw (.usedAfterCleanup id)
  | some node => do
    match ← follow make (node.script g c) with
    | .matched tree stop => pure (.matched (node.label tree) stop)
    | .failed e => pure (.failed e)

/-- Stops the run. -/
def stop (g : Graph) (c : Cursor) : Step Outcome := do
  modify fun r => { r with stopped := some (g.tooDeep c) }
  pure (.failed (g.tooDeep c))

/-- Goes one call deeper, and back. -/
def nested (id : ParserId) (part : Step Outcome) : Step Outcome := do
  modify (·.inside id)
  let o ← part
  modify outside
  pure o

/-- Goes on unless the run was stopped, and stops it at the limit of depth. -/
def bounded (g : Graph) (c : Cursor) (part : Step Outcome) : Step Outcome := do
  let r ← get
  match r.stopped with
  | some e => pure (.failed e)
  | none => if g.maxDepth ≤ r.depth then stop g c else part

/-- Remembers when a call begins and how it ends. -/
def remembered (id : ParserId) (c : Cursor) (part : Step Outcome) : Step Outcome := do
  let visit : Visit := ⟨id, c, (← get).enclosing⟩
  modify (·.noted (.begun visit))
  let o ← part
  modify (·.noted (.ended visit o))
  pure o

/-- What a run tells in the end. -/
def verdict : Outcome × Runner → Except ParseError Tree
  | (o, r) =>
    match r.stopped, o with
    | some e, _ => .error e
    | none, .matched tree _ => .ok tree
    | none, .failed e =>
      match r.kept with
      | some kept => .error (e.merge kept)
      | none => .error e

end Runner

namespace Graph

/-- Calls a parser. The counter keeps calls from nesting deeper than the limit, so there is room
for the calls that nest as long as room and depth make up the limit. -/
def trace (g : Graph) : Nat → Runner.Routine
  | 0, id, c => Runner.remembered id c (Runner.bounded g c (Runner.stop g c))
  | room + 1, id, c =>
    Runner.remembered id c (Runner.bounded g c
      (Runner.nested id (Runner.enter g (g.trace room) id c)))

/-- Matches the start of an input with a parser, and tells how the run went. -/
def traced (g : Graph) (id : ParserId) (input : String) : Except Misuse (Outcome × Runner) :=
  (g.trace g.maxDepth id (Cursor.start input)).run .start

/-- The run of a parser over an input nests too deep. -/
def Stopped (g : Graph) (id : ParserId) (input : String) : Prop :=
  ∃ o r e, g.traced id input = .ok (o, r) ∧ r.stopped = some e

end Graph

/-! ## What a step comes to -/

namespace Runner

variable {α : Type} {make : Routine} {r r' : Runner}

/-- The call that a run in this state would make next. -/
def visiting (r : Runner) (id : ParserId) (c : Cursor) : Visit := ⟨id, c, r.enclosing⟩

@[simp]
theorem follow_done (a : α) : (follow make (.done a)).run r = .ok (a, r) := rfl

theorem follow_call {alone : Bool} {id : ParserId} {c : Cursor} {next : Outcome → Script α} :
    (follow make (.call alone id c next)).run r =
      (calling make alone id c).run r >>= fun p => (follow make (next p.1)).run p.2 := by
  rw [follow, StateT.run_bind]

theorem follow_abandon {start : Position} {e : ParseError} {next : Script α} :
    (follow make (.abandon start e next)).run r =
      (follow make next).run { r with
        kept := if e.position.offset ≤ start.offset then r.kept else some (e.joinTo r.kept) } :=
  rfl

theorem isolated_run {part : Step Outcome} :
    (isolated part).run r =
      part.run { r with kept := none } >>= fun p => .ok (p.1, { p.2 with kept := r.kept }) :=
  rfl

theorem nested_run {id : ParserId} {part : Step Outcome} :
    (nested id part).run r = part.run (r.inside id) >>= fun p => .ok (p.1, p.2.outside) :=
  rfl

theorem remembered_run {id : ParserId} {c : Cursor} {part : Step Outcome} :
    (remembered id c part).run r =
      part.run (r.noted (.begun (r.visiting id c))) >>= fun p =>
        .ok (p.1, p.2.noted (.ended (r.visiting id c) p.1)) :=
  rfl

theorem bounded_run {g : Graph} {c : Cursor} {part : Step Outcome} :
    (bounded g c part).run r =
      match r.stopped with
      | some e => .ok (.failed e, r)
      | none =>
        if g.maxDepth ≤ r.depth then
          .ok (.failed (g.tooDeep c), { r with stopped := some (g.tooDeep c) })
        else part.run r := by
  change (match r.stopped with
    | some e => (pure (.failed e) : Step Outcome)
    | none => if g.maxDepth ≤ r.depth then stop g c else part).run r = _
  split
  · rfl
  · split <;> rfl

end Runner

namespace Node

/-- The outcome of a call of a node, tagged with its name if it has one. -/
def labelled (node : Node) : Outcome → Outcome
  | .matched tree stop => .matched (node.label tree) stop
  | .failed e => .failed e

end Node

namespace Graph

open Runner

variable {g : Graph} {room : Nat} {id : ParserId} {c : Cursor} {r r' : Runner} {o : Outcome}

theorem enter_eq {call : Call} {node : Node} (hnode : g.node? id = some node) :
    g.enter call id c = node.perform g call c >>= fun o => pure (node.labelled o) := by
  rw [Graph.enter, hnode]
  exact bind_congr fun o => by cases o <;> rfl

theorem enter_run {make : Routine} {node : Node} (hnode : g.node? id = some node) :
    (Runner.enter g make id c).run r =
      (follow make (node.script g c)).run r >>= fun p => .ok (node.labelled p.1, p.2) := by
  rw [Runner.enter, hnode]
  dsimp only
  rw [StateT.run_bind]
  refine bind_congr fun p => ?_
  obtain ⟨o, r'⟩ := p
  cases o <;> rfl

/-- A run that was stopped tells its error again. -/
theorem trace_of_stopped {e : ParseError} (h : r.stopped = some e) :
    (g.trace room id c).run r = .ok (.failed e,
      (r.noted (.begun (r.visiting id c))).noted (.ended (r.visiting id c) (.failed e))) := by
  have hnoted : (r.noted (.begun (r.visiting id c))).stopped = some e := h
  cases room <;>
  · rw [trace, remembered_run, bounded_run, hnoted]
    rfl

/-- A run at the limit is stopped. -/
theorem trace_of_limit (h : r.stopped = none) (hdepth : g.maxDepth ≤ r.depth ∨ room = 0) :
    (g.trace room id c).run r = .ok (.failed (g.tooDeep c),
      ({ r.noted (.begun (r.visiting id c)) with stopped := some (g.tooDeep c) }).noted
        (.ended (r.visiting id c) (.failed (g.tooDeep c)))) := by
  have hnoted : (r.noted (.begun (r.visiting id c))).stopped = none := h
  cases room with
  | zero =>
    rw [trace, remembered_run, bounded_run, hnoted]
    dsimp only
    split <;> rfl
  | succ room =>
    have hlimit : g.maxDepth ≤ (r.noted (.begun (r.visiting id c))).depth :=
      hdepth.resolve_right (Nat.succ_ne_zero room)
    rw [trace, remembered_run, bounded_run, hnoted]
    dsimp only
    rw [if_pos hlimit]
    rfl

/-- A run that goes on does what the node says, one call deeper. -/
theorem trace_of_going (h : r.stopped = none) (hdepth : r.depth < g.maxDepth) :
    (g.trace (room + 1) id c).run r =
      (Runner.enter g (g.trace room) id c).run
          ((r.noted (.begun (r.visiting id c))).inside id) >>= fun p =>
        .ok (p.1, p.2.outside.noted (.ended (r.visiting id c) p.1)) := by
  have hnoted : (r.noted (.begun (r.visiting id c))).stopped = none := h
  have hlimit : ¬ g.maxDepth ≤ (r.noted (.begun (r.visiting id c))).depth := Nat.not_le.2 hdepth
  rw [trace, remembered_run, bounded_run, hnoted]
  dsimp only
  rw [if_neg hlimit, nested_run, bind_assoc]
  rfl

/-- What a call may do that comes to an end. -/
inductive Steps (g : Graph) (id : ParserId) (c : Cursor) (r : Runner) :
    Nat → Outcome → Runner → Prop
  /-- The run was stopped before. -/
  | stopped {room : Nat} {e : ParseError} : r.stopped = some e →
      Steps g id c r room (.failed e)
        ((r.noted (.begun (r.visiting id c))).noted (.ended (r.visiting id c) (.failed e)))
  /-- The call stops the run. -/
  | stops {room : Nat} : r.stopped = none → g.maxDepth ≤ r.depth ∨ room = 0 →
      Steps g id c r room (.failed (g.tooDeep c))
        (({ r.noted (.begun (r.visiting id c)) with stopped := some (g.tooDeep c) }).noted
          (.ended (r.visiting id c) (.failed (g.tooDeep c))))
  /-- The call goes through what the node does. -/
  | goes {room : Nat} {node : Node} {o : Outcome} {r' : Runner} : r.stopped = none →
      r.depth < g.maxDepth → g.node? id = some node →
      (follow (g.trace room) (node.script g c)).run
        ((r.noted (.begun (r.visiting id c))).inside id) = .ok (o, r') →
      Steps g id c r (room + 1) (node.labelled o)
        (r'.outside.noted (.ended (r.visiting id c) (node.labelled o)))

theorem Steps.of_trace (h : (g.trace room id c).run r = .ok (o, r')) :
    g.Steps id c r room o r' := by
  cases hstopped : r.stopped with
  | some e =>
    rw [trace_of_stopped hstopped] at h
    cases h
    exact .stopped hstopped
  | none =>
    by_cases hlimit : g.maxDepth ≤ r.depth ∨ room = 0
    · rw [trace_of_limit hstopped hlimit] at h
      cases h
      exact .stops hstopped hlimit
    · rw [not_or, Nat.not_le] at hlimit
      obtain ⟨room, rfl⟩ := Nat.exists_eq_succ_of_ne_zero hlimit.2
      rw [trace_of_going hstopped hlimit.1] at h
      obtain ⟨⟨o', r₁⟩, henter, hdone⟩ := except_bind_eq_ok h
      cases hdone
      cases hnode : g.node? id with
      | none =>
        rw [Runner.enter, hnode] at henter
        cases henter
      | some node =>
        rw [enter_run hnode] at henter
        obtain ⟨⟨o, r₂⟩, hfollow, hdone⟩ := except_bind_eq_ok henter
        cases hdone
        exact .goes hstopped hlimit.1 hnode hfollow

end Graph

/-! ## What every part of a run keeps -/

namespace Runner

variable {α : Type} {make : Routine} {r r' : Runner}

/-- One call is made in the state as it is, but for the errors kept aside. -/
theorem calling_eq_ok {alone : Bool} {id : ParserId} {c : Cursor} {o : Outcome}
    (h : (calling make alone id c).run r = .ok (o, r')) :
    ∃ r₁, (make id c).run { r with kept := if alone then none else r.kept } = .ok (o, r₁) ∧
      r' = { r₁ with kept := if alone then r.kept else r₁.kept } := by
  cases alone with
  | false => exact ⟨r', h, rfl⟩
  | true =>
    obtain ⟨⟨o', r₁⟩, hmake, hdone⟩ := except_bind_eq_ok h
    cases hdone
    exact ⟨r₁, hmake, rfl⟩

/-- **What calls make of a state, parts of a run make of it**, if it does not depend on the errors
kept aside. -/
theorem follow_course {T : Runner → Runner → Prop} (hrefl : ∀ r, T r r)
    (htrans : ∀ {r₁ r₂ r₃}, T r₁ r₂ → T r₂ r₃ → T r₁ r₃)
    (hkept : ∀ r kept, T r { r with kept := kept })
    (hmake : ∀ id c r o r', (make id c).run r = .ok (o, r') → T r r') {s : Script α} {a : α}
    (h : (follow make s).run r = .ok (a, r')) : T r r' := by
  induction s generalizing r with
  | done b =>
    cases h
    exact hrefl _
  | call alone id c next ih =>
    rw [follow_call] at h
    obtain ⟨⟨o, r₂⟩, hcalling, hnext⟩ := except_bind_eq_ok h
    obtain ⟨r₁, hcall, rfl⟩ := calling_eq_ok hcalling
    exact htrans (htrans (hkept r _) (htrans (hmake id c _ o r₁ hcall) (hkept r₁ _))) (ih o hnext)
  | abandon start e next ih =>
    rw [follow_abandon] at h
    exact htrans (hkept r _) (ih h)

/-- What every part of a run leaves as it is: the depth and the calls around, what has happened so
far, and that the run was stopped. -/
structure Keeps (r r' : Runner) : Prop where
  depth : r'.depth = r.depth
  enclosing : r'.enclosing = r.enclosing
  turns : r.turns <+: r'.turns
  stopped : ∀ e, r.stopped = some e → r'.stopped = some e

theorem Keeps.refl (r : Runner) : r.Keeps r := ⟨rfl, rfl, List.prefix_rfl, fun _ h => h⟩

theorem Keeps.trans {r₁ r₂ r₃ : Runner} (h : r₁.Keeps r₂) (h' : r₂.Keeps r₃) : r₁.Keeps r₃ :=
  ⟨h'.depth.trans h.depth, h'.enclosing.trans h.enclosing, h.turns.trans h'.turns,
    fun e he => h'.stopped e (h.stopped e he)⟩

theorem follow_keeps (hmake : ∀ id c r o r', (make id c).run r = .ok (o, r') → Keeps r r')
    {s : Script α} {a : α} (h : (follow make s).run r = .ok (a, r')) : r.Keeps r' :=
  follow_course Keeps.refl Keeps.trans
    (fun _ _ => ⟨rfl, rfl, List.prefix_rfl, fun _ h => h⟩) hmake h

/-- **A stopped run comes to an end**, and stays stopped by the same error. -/
theorem follow_of_stopped {e : ParseError}
    (hmake : ∀ id c r, r.stopped = some e →
      ∃ o r', (make id c).run r = .ok (o, r') ∧ r'.stopped = some e)
    (s : Script α) (h : r.stopped = some e) :
    ∃ a r', (follow make s).run r = .ok (a, r') ∧ r'.stopped = some e := by
  induction s generalizing r with
  | done a => exact ⟨a, r, rfl, h⟩
  | call alone id c next ih =>
    obtain ⟨o, r₁, hcall, h₁⟩ :=
      hmake id c { r with kept := if alone then none else r.kept } h
    have hcalling : (calling make alone id c).run r =
        .ok (o, { r₁ with kept := if alone then r.kept else r₁.kept }) := by
      cases alone with
      | false => exact hcall
      | true =>
        rw [calling, if_pos rfl, isolated_run]
        exact hcall ▸ rfl
    obtain ⟨a, r', hnext, h'⟩ := ih o (r := { r₁ with kept := if alone then r.kept else r₁.kept }) h₁
    refine ⟨a, r', ?_, h'⟩
    rw [follow_call, hcalling]
    exact hnext
  | abandon start e' next ih => exact ih h

end Runner

namespace Graph

open Runner

variable {g : Graph} {room : Nat} {id : ParserId} {c : Cursor} {r r' : Runner} {o : Outcome}

/-- **A call leaves the depth as it was**, and so the calls around it; it only adds to what has
happened, and a stopped run stays stopped. -/
theorem trace_keeps (h : (g.trace room id c).run r = .ok (o, r')) : r.Keeps r' := by
  induction room using Nat.strongRecOn generalizing id c r o r' with
  | ind room ih =>
    cases Steps.of_trace h with
    | stopped h => exact ⟨rfl, rfl, by simp [noted], fun _ h => h⟩
    | stops hgoing _ =>
      exact ⟨rfl, rfl, by simp [noted], fun _ he => (nomatch hgoing.symm.trans he)⟩
    | @goes room _ _ _ hgoing _ _ hfollow =>
      have hkeeps := follow_keeps (fun _ _ _ _ _ hrun => ih room (Nat.lt_succ_self _) hrun) hfollow
      refine ⟨?_, ?_, ?_, fun _ he => (nomatch hgoing.symm.trans he)⟩
      · exact congrArg (· - 1) hkeeps.depth
      · exact congrArg List.tail hkeeps.enclosing
      · exact ((List.prefix_append _ _).trans hkeeps.turns).trans (List.prefix_append _ _)

theorem trace_ok_of_stopped {e : ParseError} (h : r.stopped = some e) :
    ∃ o r', (g.trace room id c).run r = .ok (o, r') ∧ r'.stopped = some e :=
  ⟨_, _, trace_of_stopped h, h⟩

/-! ## What a run comes to -/

/-- How a part of the engine ends where a part of a run ends in some way. -/
def fate {α : Type} : Except Misuse (α × Runner) → Except Halt (α × Option ParseError)
  | .error m => .error (.misuse m)
  | .ok (a, r) =>
    match r.stopped with
    | some e => .error (.tooDeep e)
    | none => .ok (a, r.kept)

section

variable {α β : Type}

theorem fate_of_stopped {a : α} {e : ParseError} (h : r.stopped = some e) :
    fate (.ok (a, r)) = .error (.tooDeep e) := by
  rw [fate, h]

theorem fate_of_going {a : α} (h : r.stopped = none) : fate (.ok (a, r)) = .ok (a, r.kept) := by
  rw [fate, h]

/-- One part after another ends where the engine ends if each does, and a stopped run goes on to
its end. -/
theorem fate_bind {x : Except Misuse (α × Runner)} {f : α × Runner → Except Misuse (β × Runner)}
    {k : α → Attempt β}
    (hgoing : ∀ a r, x = .ok (a, r) → r.stopped = none → fate (f (a, r)) = (k a).run r.kept)
    (hstopped : ∀ a r e, x = .ok (a, r) → r.stopped = some e →
      ∃ b r', f (a, r) = .ok (b, r') ∧ r'.stopped = some e) :
    fate (x >>= f) = fate x >>= fun p => (k p.1).run p.2 := by
  rcases x with m | ⟨a, r⟩
  · rfl
  · show fate (f (a, r)) = _
    cases hr : r.stopped with
    | none =>
      rw [fate_of_going hr]
      exact hgoing a r rfl hr
    | some e =>
      obtain ⟨b, r', hf, hr'⟩ := hstopped a r e rfl hr
      rw [hf, fate_of_stopped hr', fate_of_stopped hr]
      rfl

end

variable {make : Routine} {engine : Call} {d : Nat}

theorem fate_calling
    (hmake : ∀ id c r, r.stopped = none → r.depth = d →
      fate ((make id c).run r) = (engine id c).run r.kept)
    {alone : Bool} (hgoing : r.stopped = none) (hdepth : r.depth = d) :
    fate ((calling make alone id c).run r) = (Script.calling engine alone id c).run r.kept := by
  cases alone with
  | false => exact hmake id c r hgoing hdepth
  | true =>
    have h := hmake id c { r with kept := none } hgoing hdepth
    change fate ((make id c).run { r with kept := none } >>= fun p =>
        .ok (p.1, { p.2 with kept := r.kept })) =
      ((engine id c).run none >>= fun p => (Except.ok (p.1, r.kept) : Except Halt _))
    rw [← h]
    exact fate_bind (k := fun o => fun _ => .ok (o, r.kept))
      (fun o r₁ _ hr₁ => fate_of_going hr₁) (fun o r₁ e _ hr₁ => ⟨o, _, rfl, hr₁⟩)

/-- **Following a script comes to what the engine plays**, if the calls it makes do. -/
theorem fate_follow {α : Type}
    (hmake : ∀ id c r, r.stopped = none → r.depth = d →
      fate ((make id c).run r) = (engine id c).run r.kept)
    (hkeeps : ∀ id c r o r', (make id c).run r = .ok (o, r') → r.Keeps r')
    (hstopped : ∀ id c r e, r.stopped = some e →
      ∃ o r', (make id c).run r = .ok (o, r') ∧ r'.stopped = some e)
    (s : Script α) (hgoing : r.stopped = none) (hdepth : r.depth = d) :
    fate ((follow make s).run r) = (s.play engine).run r.kept := by
  induction s generalizing r with
  | done a => exact fate_of_going hgoing
  | call alone id c next ih =>
    rw [follow_call, Script.play, StateT.run_bind, ← fate_calling hmake hgoing hdepth]
    refine fate_bind (k := fun o => (next o).play engine) (fun o r₁ hcall hr₁ => ?_)
      fun o r₁ e _ hr₁ => follow_of_stopped (fun id c r => hstopped id c r e) (next o) hr₁
    obtain ⟨r₂, hmade, rfl⟩ := calling_eq_ok hcall
    exact ih o hr₁ ((hkeeps _ _ _ _ _ hmade).depth.trans hdepth)
  | abandon start e next ih => exact ih hgoing hdepth

/-- **A call comes to what the engine makes of it.** -/
theorem fate_trace (hgoing : r.stopped = none) (hdepth : room + r.depth = g.maxDepth) :
    fate ((g.trace room id c).run r) = (g.parse room id c).run r.kept := by
  induction room generalizing id c r with
  | zero =>
    rw [trace_of_limit hgoing (Or.inr rfl), fate_of_stopped rfl]
    rfl
  | succ room ih =>
    rw [trace_of_going hgoing (by omega), parse]
    cases hnode : g.node? id with
    | none =>
      rw [Runner.enter, Graph.enter, hnode]
      rfl
    | some node =>
      rw [enter_run hnode, enter_eq hnode, bind_assoc, StateT.run_bind, ← Node.play_script]
      have hfollow : fate ((follow (g.trace room) (node.script g c)).run
            ((r.noted (.begun (r.visiting id c))).inside id)) =
          ((node.script g c).play (g.parse room)).run r.kept := by
        refine fate_follow (d := r.depth + 1) (fun id c r' hr' hd => ih hr' (by omega))
          (fun _ _ _ _ _ h => trace_keeps h) (fun _ _ _ _ h => trace_ok_of_stopped h) _ hgoing rfl
      rw [← hfollow]
      refine fate_bind (k := fun o => pure (node.labelled o)) (fun o r₁ _ hr₁ => ?_)
        (fun o r₁ e _ hr₁ => ?_)
      · exact fate_of_going hr₁
      · exact ⟨_, _, rfl, hr₁⟩

/-! ## Runs -/

theorem verdict_of_stopped {e : ParseError} (h : r.stopped = some e) :
    verdict (o, r) = .error e := by
  unfold verdict
  dsimp only
  rw [h]

/-- A run that ends without having been stopped nests no deeper than it may. -/
theorem not_stopped_of_traced {input : String}
    (h : (g.traced id input).map (fun p => p.2.stopped) = .ok none) : ¬ g.Stopped id input := by
  rintro ⟨o, r, e, htraced, hr⟩
  rw [htraced] at h
  cases (Except.ok.inj h).symm.trans hr

/-- **A run comes to what a traced run tells in the end.** -/
theorem run_eq_traced (g : Graph) (id : ParserId) (input : String) :
    g.run id input = (g.traced id input).map verdict := by
  have hfate : fate (g.traced id input) =
      (g.parse g.maxDepth id (Cursor.start input)).run none :=
    fate_trace (r := .start) rfl rfl
  rw [run, ← hfate]
  rcases g.traced id input with m | ⟨o, kept, depth, _ | e, enclosing, turns⟩
  · rfl
  · cases o with
    | matched tree stop => rfl
    | failed e => cases kept <;> rfl
  · rfl

end Graph

end ParserGraph
