import Mathlib.Logic.Function.Iterate
import ParserGraph.Proofs.Run.Explanation

/-!
# Descent — a run step by step, without a bound on its steps

The engine is a recursion over the room for nested calls, and a repetition
without an upper bound has a number of rounds in it that is enough. Neither
tells that a run comes to an end which has no such numbers: a stack of calls
under way, a loop that goes on until a round fails or takes nothing, and one
step after another (`Graph.descend`). It does come to an end, with what the
engine comes to (`Graph.descend_comes`), as a loop does what its script tells
(`Node.task_plays`) and calls only ever move on. What every step keeps
(`Descent.Sound`) bounds the stack and the rounds of each loop.
-/

namespace ParserGraph

/-! ## Tasks -/

/-- What is left of a call under way, where no number bounds the rounds of a loop. -/
inductive Task where
  /-- What a script tells. -/
  | script (rest : Script Outcome)
  /-- The next round of a repetition without an upper bound, which started somewhere and has some
  trees. -/
  | round (part : ParserId) (min : Nat) (start : Cursor) (trees : List Tree) (cursor : Cursor)

namespace Task

/-- What a task does next. -/
inductive Action where
  /-- It is done with an outcome. -/
  | done (outcome : Outcome)
  /-- A parser is called. -/
  | call (alone : Bool) (id : ParserId) (cursor : Cursor) (next : Outcome → Task)
  /-- An error is set aside. -/
  | abandon (start : Position) (error : ParseError) (next : Task)

/-- How a loop goes on after a round: it is over if the round failed or took nothing. -/
def after (part : ParserId) (min : Nat) (start : Cursor) (trees : List Tree) (cursor : Cursor) :
    Outcome → Task
  | .failed e =>
    script (if trees.length < min then pure (.failed e)
      else do
        Script.setAside cursor.position e
        pure (.matched (.branch trees start.position) cursor))
  | .matched tree stop =>
    if stop.position = cursor.position then
      let trees := Attempt.padded min (trees ++ [tree])
      script (pure (.matched (.branch trees start.position) stop))
    else round part min start (trees ++ [tree]) stop

/-- What a task does next. -/
def next : Task → Action
  | script (.done o) => .done o
  | script (.call alone id c next) => .call alone id c fun o => script (next o)
  | script (.abandon start e next) => .abandon start e (script next)
  | round part min start trees cursor =>
    .call false part cursor (after part min start trees cursor)

end Task

/-- What a node does at a place. -/
def Node.task (node : Node) (g : Graph) (cursor : Cursor) : Task :=
  match node.kind with
  | .repetition part min none => .round part min cursor [] cursor
  | _ => .script (node.script g cursor)

/-! ## Descents -/

/-- A call under way. -/
structure Level where
  /-- The node that was called. -/
  node : Node
  /-- The place it was called at. -/
  cursor : Cursor
  /-- How many calls it has made. -/
  calls : Nat

/-- A call that waits for one that it made. -/
structure Waiting where
  /-- The call. -/
  level : Level
  /-- How it goes on. -/
  next : Outcome → Task
  /-- The error that was kept aside, if it is to be put back. -/
  aside : Option (Option ParseError)

/-- What a run does in a step. -/
inductive Phase where
  /-- A parser is called. -/
  | entering (id : ParserId) (cursor : Cursor)
  /-- The innermost call goes on. -/
  | doing (level : Level) (task : Task)
  /-- The innermost call has come to an outcome. -/
  | leaving (outcome : Outcome)
  /-- The run has come to an end. -/
  | finished (result : Except Misuse (Except ParseError Tree))

/-- Where a run stands that goes step by step. -/
structure Descent where
  /-- The furthest error of an attempt that was given up on after progress. -/
  kept : Option ParseError
  /-- What stopped the run, once the nesting was too deep. -/
  stopped : Option ParseError
  /-- The calls that wait, the innermost in front. -/
  waiting : List Waiting
  /-- What is done next. -/
  phase : Phase

namespace Descent

/-- A run that has not begun. -/
def start (id : ParserId) (input : String) : Descent :=
  ⟨none, none, [], .entering id (Cursor.start input)⟩

/-- The calls under way, the innermost in front. -/
def levels (d : Descent) : List Level :=
  match d.phase with
  | .doing level _ => level :: d.waiting.map Waiting.level
  | _ => d.waiting.map Waiting.level

/-- A call is entered, unless the run was stopped; it is stopped at the limit of depth. -/
def enter (g : Graph) (id : ParserId) (cursor : Cursor) (d : Descent) : Descent :=
  match d.stopped with
  | some e => { d with phase := .leaving (.failed e) }
  | none =>
    if g.maxDepth ≤ d.waiting.length then
      { d with stopped := some (g.tooDeep cursor), phase := .leaving (.failed (g.tooDeep cursor)) }
    else
      match g.node? id with
      | none => { d with phase := .finished (.error (.usedAfterCleanup id)) }
      | some node => { d with phase := .doing ⟨node, cursor, 0⟩ (node.task g cursor) }

/-- The innermost call does what its task says. -/
def act (level : Level) (d : Descent) : Task.Action → Descent
  | .done o => { d with phase := .leaving (level.node.labelled o) }
  | .call alone id cursor next =>
    { d with
      kept := if alone then none else d.kept
      waiting := ⟨{ level with calls := level.calls + 1 }, next,
        if alone then some d.kept else none⟩ :: d.waiting
      phase := .entering id cursor }
  | .abandon start e task =>
    { d with
      kept := if e.position.offset ≤ start.offset then d.kept else some (e.joinTo d.kept)
      phase := .doing level task }

/-- The call that waits goes on with an outcome; without any the run is over. -/
def leave (o : Outcome) (d : Descent) : Descent :=
  match d.waiting with
  | [] =>
    let last : Runner := { Runner.start with kept := d.kept, stopped := d.stopped }
    { d with phase := .finished (.ok (Runner.verdict (o, last))) }
  | w :: waiting =>
    { d with kept := w.aside.getD d.kept, waiting := waiting, phase := .doing w.level (w.next o) }

end Descent

/-- One step of a run; it stays where it is when it is over. -/
def Graph.descend (g : Graph) (d : Descent) : Descent :=
  match d.phase with
  | .entering id cursor => d.enter g id cursor
  | .doing level task => d.act level task.next
  | .leaving o => d.leave o
  | .finished _ => d

/-! ## Tasks play scripts -/

/-- An outcome that a call at a place may have: it matched there or further on, or it failed. -/
def Outcome.Advances (c : Cursor) (o : Outcome) : Prop := o.Tells (fun _ => True) c

/-- A task that does what a script tells, whatever outcomes its calls have that move on. -/
def Task.Plays : Script Outcome → Task → Prop
  | .done o, t => t.next = .done o
  | .call alone id c next, t =>
    ∃ k, t.next = .call alone id c k ∧ ∀ o : Outcome, o.Advances c → Plays (next o) (k o)
  | .abandon start e next, t => ∃ t', t.next = .abandon start e t' ∧ Plays next t'

theorem Task.plays_script (s : Script Outcome) : Plays s (.script s) := by
  induction s with
  | done o => rfl
  | call alone id c next ih => exact ⟨_, rfl, fun o _ => ih o⟩
  | abandon start e next ih => exact ⟨_, rfl, ih⟩

namespace Script

/-- Going on twice is going on with both. -/
theorem bind_bind {α β γ : Type} (s : Script α) (f : α → Script β) (k : β → Script γ) :
    (s.bind f).bind k = s.bind fun a => (f a).bind k := by
  induction s with
  | done a => rfl
  | call alone id c next ih => exact congrArg (call alone id c) (funext ih)
  | abandon start e next ih => exact congrArg (abandon start e) ih

/-- What a repetition makes of its rounds. -/
def settle (min : Nat) (start : Cursor) : List Tree × Cursor × Attempt.Ending → Script Outcome
  | (trees, stop, .stalled) =>
    pure (.matched (.branch (Attempt.padded min trees) start.position) stop)
  | (trees, stop, .full) =>
    if trees.length < min then pure (.failed (.unexpected start.position stop.peek))
    else pure (.matched (.branch trees start.position) stop)
  | (trees, stop, .gaveUp place e) =>
    if trees.length < min then pure (.failed e)
    else do
      setAside place e
      pure (.matched (.branch trees start.position) stop)

theorem repetition_eq_settle (part : ParserId) (min : Nat) (max : Option Nat) (c : Cursor) :
    repetition part min max c =
      (rounds part max.isNone (max.getD (c.ahead.length + 1)) c).bind (settle min c) := by
  refine congrArg _ (funext fun ⟨trees, stop, ending⟩ => ?_)
  cases ending <;> rfl

end Script

/-- **A loop does what its script tells**, which allows for more rounds than there are
characters. -/
theorem Task.round_plays (part : ParserId) (min : Nat) (start : Cursor) {n : Nat}
    {trees : List Tree} {cursor : Cursor} (hn : cursor.ahead.length < n) :
    Plays ((Script.rounds part true n cursor).bind fun r =>
        Script.settle min start (trees ++ r.1, r.2))
      (.round part min start trees cursor) := by
  -- on the rounds that are allowed for; a round that moves on leaves fewer characters
  induction n generalizing trees cursor with
  | zero => exact absurd hn (Nat.not_lt_zero _)
  | succ n ih =>
    refine ⟨_, rfl, fun o ho => ?_⟩
    cases o with
    | failed e =>
      change Plays (Script.settle min start (trees ++ [], cursor, .gaveUp cursor.position e)) _
      rw [List.append_nil]
      exact plays_script _
    | matched tree stop =>
      change Plays (Script.bind (if (true && decide (stop.position = cursor.position)) = true
        then _ else _) _) (after part min start trees cursor (.matched tree stop))
      rw [Task.after, Bool.true_and]
      by_cases hstall : stop.position = cursor.position
      · rw [if_pos hstall, if_pos (decide_eq_true hstall)]
        exact plays_script _
      · have hmoved : stop ≠ cursor := fun hsame => hstall (congrArg Cursor.position hsame)
        have hless : stop.ahead.length < cursor.ahead.length := Cursor.length_ahead_lt ho hmoved
        rw [if_neg hstall, if_neg (by simpa using hstall)]
        have hrest : Plays ((Script.rounds part true n stop).bind fun r =>
              Script.settle min start (trees ++ [tree] ++ r.1, r.2))
            (.round part min start (trees ++ [tree]) stop) := ih (by omega)
        have hscript : ((Script.rounds part true n stop).bind fun r =>
              Script.done (tree :: r.1, r.2)).bind
              (fun r => Script.settle min start (trees ++ r.1, r.2)) =
            (Script.rounds part true n stop).bind fun r =>
              Script.settle min start (trees ++ [tree] ++ r.1, r.2) := by
          rw [Script.bind_bind]
          refine congrArg _ (funext fun r => ?_)
          rw [List.append_assoc]
          rfl
        rw [← hscript] at hrest
        exact hrest

/-- **What a node does step by step is what its script tells.** -/
theorem Node.task_plays (node : Node) (g : Graph) (c : Cursor) :
    Task.Plays (node.script g c) (node.task g c) := by
  unfold Node.task
  split
  · next part min hkind =>
    have hscript : node.script g c =
        (Script.rounds part true (c.ahead.length + 1) c).bind fun r =>
          Script.settle min c ([] ++ r.1, r.2) := by
      rw [Node.script, hkind]
      exact Script.repetition_eq_settle part min none c
    rw [hscript]
    exact Task.round_plays part min c (Nat.lt_succ_self _)
  · exact Task.plays_script _

/-! ## Calls move on -/

/-- **What a node does moves on**, whatever its bounds are. -/
theorem Node.script_advances (node : Node) (g : Graph) (c : Cursor) :
    (node.script g c).Tells (fun _ => True) (fun _ => True) c (Outcome.Advances c) := by
  obtain ⟨name, kind⟩ := node
  cases kind with
  | terminal t =>
    change (Attempt.terminal t c).Advances c
    unfold Attempt.terminal
    split
    · exact c.le_advance _
    · trivial
  | sequence parts => exact Script.sequence_tells fun _ _ => trivial
  | alternation branches =>
    exact Script.firstOf_tells (fun _ _ _ _ => trivial) (fun _ _ => trivial) (fun _ _ => trivial)
      fun _ _ => trivial
  | repetition part min max =>
    have hsettle : ∀ trees stop ending, c ≤ stop →
        (Script.settle min c (trees, stop, ending)).Tells (fun _ => True) (fun _ => True) c
          (Outcome.Advances c) := by
      intro trees stop ending hle
      cases ending with
      | stalled => exact hle
      | full =>
        rw [Script.settle]
        split
        · trivial
        · exact hle
      | gaveUp place e =>
        rw [Script.settle]
        split
        · trivial
        · exact (Script.Tells.setAside trivial).bind fun _ _ => hle
    change (Script.repetition part min max c).Tells _ _ _ _
    rw [Script.repetition_eq_settle]
    refine (Script.rounds_tells trivial (Cursor.le_refl c)).bind fun r hr => ?_
    obtain ⟨trees, stop, ending⟩ := r
    cases ending with
    | stalled => exact hsettle trees stop _ hr
    | full => exact hsettle trees stop _ hr.1
    | gaveUp place e => exact hsettle trees stop _ hr.1
  | optional part => exact Script.optional_tells trivial
  | lookahead part negated =>
    refine (Script.Tells.askAlone trivial (Cursor.le_refl c)).bind fun o _ => ?_
    cases o <;> cases negated <;> first | exact Cursor.le_refl c | trivial
  | transform part mapping => exact Script.transform_tells trivial
  | token part => exact Script.token_tells trivial
  | expect part label =>
    refine (Script.Tells.askAlone trivial (Cursor.le_refl c)).bind fun o ho => ?_
    cases o with
    | matched tree stop => exact ho
    | failed e => trivial
  | rule body =>
    cases body with
    | none => trivial
    | some body => exact Script.Tells.ask trivial (Cursor.le_refl c)

namespace Runner

variable {α : Type} {make : Routine} {r r' : Runner} {c : Cursor}

/-- One call is made in the state as it is, but for the errors kept aside. -/
theorem calling_run {alone : Bool} {id : ParserId} :
    (calling make alone id c).run r =
      (make id c).run { r with kept := if alone then none else r.kept } >>= fun p =>
        .ok (p.1, { p.2 with kept := if alone then r.kept else p.2.kept }) := by
  cases alone with
  | false =>
    change (make id c).run r = (make id c).run r >>= fun p => .ok p
    cases (make id c).run r <;> rfl
  | true => rfl

/-- A run that follows a script has a result of the sort it tells, if its calls move on. -/
theorem follow_advances
    (hmake : ∀ id d r o r', (make id d).run r = .ok (o, r') → o.Advances d)
    {s : Script α} {R : α → Prop} {a : α} (hs : s.Tells (fun _ => True) (fun _ => True) c R)
    (h : (follow make s).run r = .ok (a, r')) : R a := by
  induction s generalizing r with
  | done b =>
    cases h
    exact hs
  | call alone id d next ih =>
    rw [follow_call] at h
    obtain ⟨⟨o, r₂⟩, hcalling, hrest⟩ := except_bind_eq_ok h
    obtain ⟨r₁, hcall, -⟩ := calling_eq_ok hcalling
    exact ih o (hs.2.2 o (hmake id d _ o r₁ hcall)) hrest
  | abandon start e next ih =>
    rw [follow_abandon] at h
    exact ih hs.2 h

end Runner

namespace Graph

open Runner

variable {g : Graph} {room : Nat} {id : ParserId} {c : Cursor} {r r' : Runner} {o : Outcome}

theorem labelled_advances {node : Node} (h : o.Advances c) : (node.labelled o).Advances c := by
  cases o <;> exact h

/-- **Every call moves on**, also after the run was stopped. -/
theorem trace_advances (h : (g.trace room id c).run r = .ok (o, r')) : o.Advances c := by
  induction room using Nat.strongRecOn generalizing id c r o r' with
  | ind room ih =>
    cases Steps.of_trace h with
    | stopped _ => trivial
    | stops _ _ => trivial
    | @goes room node _ _ _ _ _ hfollow =>
      exact labelled_advances (follow_advances
        (fun _ _ _ _ _ hrun => ih room (Nat.lt_succ_self _) hrun) (node.script_advances g c) hfollow)

end Graph

/-! ## Runs come to an end -/

namespace Descent

variable {g : Graph} {d : Descent} {waiting waiting' : List Waiting}
  {x : Except Misuse (Outcome × Runner)}

/-- A run that comes, in some number of steps, to what a call of a runner comes to. -/
def Comes (g : Graph) (waiting : List Waiting) (d : Descent) :
    Except Misuse (Outcome × Runner) → Prop
  | .ok (o, r) => ∃ n, g.descend^[n] d = ⟨r.kept, r.stopped, waiting, .leaving o⟩
  | .error m => ∃ n, (g.descend^[n] d).phase = .finished (.error m)

theorem Comes.of_step (h : Comes g waiting (g.descend d) x) : Comes g waiting d x := by
  cases x with
  | error m =>
    obtain ⟨n, hn⟩ := h
    exact ⟨n + 1, hn⟩
  | ok p =>
    obtain ⟨n, hn⟩ := h
    exact ⟨n + 1, hn⟩

theorem Comes.of_enter {kept stopped : Option ParseError} {id : ParserId} {c : Cursor}
    (h : Comes g waiting' (enter g id c ⟨kept, stopped, waiting, .entering id c⟩) x) :
    Comes g waiting' ⟨kept, stopped, waiting, .entering id c⟩ x :=
  .of_step h

theorem Comes.of_act {kept stopped : Option ParseError} {level : Level} {task : Task}
    {action : Task.Action} (hnext : task.next = action)
    (h : Comes g waiting' (act level ⟨kept, stopped, waiting, .doing level task⟩ action) x) :
    Comes g waiting' ⟨kept, stopped, waiting, .doing level task⟩ x := by
  refine .of_step ?_
  subst hnext
  exact h

/-- One part after another: what comes to something goes on from there. -/
theorem Comes.bind {f : Outcome × Runner → Except Misuse (Outcome × Runner)}
    (h : Comes g waiting d x)
    (hf : ∀ o r, x = .ok (o, r) →
      Comes g waiting' ⟨r.kept, r.stopped, waiting, .leaving o⟩ (f (o, r))) :
    Comes g waiting' d (x >>= f) := by
  cases x with
  | error m => exact h
  | ok p =>
    obtain ⟨o, r⟩ := p
    obtain ⟨n, hn⟩ := h
    have hrest := hf o r rfl
    change Comes g waiting' d (f (o, r))
    rw [← hn] at hrest
    cases hx : f (o, r) with
    | error m =>
      rw [hx] at hrest
      obtain ⟨k, hk⟩ := hrest
      exact ⟨k + n, by rwa [Function.iterate_add_apply]⟩
    | ok q =>
      rw [hx] at hrest
      obtain ⟨k, hk⟩ := hrest
      exact ⟨k + n, by rwa [Function.iterate_add_apply]⟩

end Descent

namespace Graph

open Runner Descent

variable {g : Graph} {room : Nat} {id : ParserId} {c : Cursor} {r r' : Runner} {o : Outcome}
  {waiting : List Waiting}

/-- **A call under way comes to what its script comes to**, if the calls it makes do. -/
theorem comes_follow (hmake : ∀ id c r waiting, r.depth = waiting.length →
      room + r.depth = g.maxDepth →
      Comes g waiting ⟨r.kept, r.stopped, waiting, .entering id c⟩ ((g.trace room id c).run r))
    {s : Script Outcome} {task : Task} (hplays : task.Plays s) (level : Level)
    (hdepth : r.depth = waiting.length + 1) (hroom : room + r.depth = g.maxDepth) :
    Comes g waiting ⟨r.kept, r.stopped, waiting, .doing level task⟩
      ((follow (g.trace room) s).run r >>= fun p => .ok (level.node.labelled p.1, p.2)) := by
  induction s generalizing r task level with
  | done o =>
    exact .of_act hplays ⟨0, rfl⟩
  | call alone id c next ih =>
    obtain ⟨k, hnext, hk⟩ := hplays
    refine .of_act hnext ?_
    rw [follow_call, calling_run, bind_assoc, bind_assoc]
    let level' : Level := { level with calls := level.calls + 1 }
    have hcall := hmake id c { r with kept := if alone then none else r.kept }
      (⟨level', k, if alone then some r.kept else none⟩ :: waiting) hdepth hroom
    refine hcall.bind fun o r₁ hrun => .of_step ?_
    have hback : g.descend ⟨r₁.kept, r₁.stopped,
          ⟨level', k, if alone then some r.kept else none⟩ :: waiting, .leaving o⟩ =
        ⟨if alone then r.kept else r₁.kept, r₁.stopped, waiting, .doing level' (k o)⟩ := by
      cases alone <;> rfl
    rw [hback]
    have hsame : r₁.depth = r.depth := (trace_keeps hrun).depth
    exact ih o (hk o (trace_advances hrun)) level' (hsame.trans hdepth) (hsame ▸ hroom)
  | abandon start e next ih =>
    obtain ⟨task', hnext, hplays⟩ := hplays
    refine .of_act hnext ?_
    rw [follow_abandon]
    exact ih hplays level hdepth hroom

/-- A call of a run that was stopped tells that again. -/
theorem comes_of_stopped {e : ParseError} (hstopped : r.stopped = some e) :
    Comes g waiting ⟨r.kept, r.stopped, waiting, .entering id c⟩ ((g.trace room id c).run r) := by
  refine .of_enter ?_
  rw [Descent.enter, hstopped, trace_of_stopped hstopped]
  exact ⟨0, congrArg (Descent.mk r.kept · waiting (.leaving (.failed e))) hstopped.symm⟩

/-- **A call comes, step by step, to what a runner makes of it.** -/
theorem comes_trace (hdepth : r.depth = waiting.length) (hroom : room + r.depth = g.maxDepth) :
    Comes g waiting ⟨r.kept, r.stopped, waiting, .entering id c⟩ ((g.trace room id c).run r) := by
  induction room generalizing id c r waiting with
  | zero =>
    cases hstopped : r.stopped with
    | some e => exact hstopped ▸ comes_of_stopped hstopped
    | none =>
      have hlimit : g.maxDepth ≤ waiting.length := by omega
      refine .of_enter ?_
      rw [Descent.enter, trace_of_limit hstopped (Or.inr rfl)]
      dsimp only
      rw [if_pos hlimit]
      exact ⟨0, rfl⟩
  | succ room ih =>
    cases hstopped : r.stopped with
    | some e => exact hstopped ▸ comes_of_stopped hstopped
    | none =>
      have hlimit : ¬ g.maxDepth ≤ waiting.length := by omega
      refine .of_enter ?_
      rw [Descent.enter, trace_of_going hstopped (by omega)]
      dsimp only
      rw [if_neg hlimit]
      cases hnode : g.node? id with
      | none =>
        rw [Runner.enter, hnode]
        exact ⟨0, rfl⟩
      | some node =>
        rw [enter_run hnode]
        have hinside : ((r.noted (.begun (r.visiting id c))).inside id).depth =
            waiting.length + 1 := congrArg (· + 1) hdepth
        have hfollow := comes_follow (fun id c r waiting hdepth hroom => ih hdepth hroom)
          (node.task_plays g c) ⟨node, c, 0⟩ hinside (by omega)
        have hgoing : ((r.noted (.begun (r.visiting id c))).inside id).stopped = none := hstopped
        rw [hgoing] at hfollow
        generalize (follow (g.trace room) (node.script g c)).run
          ((r.noted (.begun (r.visiting id c))).inside id) = x at hfollow
        cases x <;> exact hfollow

/-- **Every run comes to an end**, after some number of steps, with what the engine comes to. -/
theorem descend_comes (g : Graph) (id : ParserId) (input : String) :
    ∃ n, (g.descend^[n] (Descent.start id input)).phase = .finished (g.run id input) := by
  have hcomes : Comes g [] (Descent.start id input) (g.traced id input) :=
    comes_trace (r := .start) rfl rfl
  rw [run_eq_traced]
  cases htraced : g.traced id input with
  | error m =>
    rw [htraced] at hcomes
    exact hcomes
  | ok p =>
    obtain ⟨o, r⟩ := p
    rw [htraced] at hcomes
    obtain ⟨n, hn⟩ := hcomes
    refine ⟨n + 1, ?_⟩
    rw [Function.iterate_succ_apply', hn]
    rfl

end Graph

/-! ## What every step keeps -/

namespace Script

variable {α β : Type} {Q : α → Prop} {S : β → Prop} {n : Nat}

/-- A script that makes at most a number of calls, whatever outcomes they have that move on, and
whose result is of some sort. -/
def Costs (Q : α → Prop) : Script α → Nat → Prop
  | done a, _ => Q a
  | call _ _ c next, n => ∃ m, n = m + 1 ∧ ∀ o : Outcome, o.Advances c → (next o).Costs Q m
  | abandon _ _ next, n => next.Costs Q n

theorem Costs.bind {s : Script α} {f : α → Script β} (hs : s.Costs Q n)
    (hf : ∀ a, Q a → ∀ m, (f a).Costs S m) : (s.bind f).Costs S n := by
  induction s generalizing n with
  | done a => exact hf a hs n
  | call alone id c next ih =>
    obtain ⟨m, rfl, hnext⟩ := hs
    exact ⟨m, rfl, fun o ho => ih o (hnext o ho)⟩
  | abandon start e next ih => exact ih hs

/-- There are as many calls and trees at most as rounds are allowed. -/
theorem rounds_costs (part : ParserId) (unbounded : Bool) (n : Nat) (c : Cursor) :
    (rounds part unbounded n c).Costs (fun r => r.1.length ≤ n) n := by
  induction n generalizing c with
  | zero => exact Nat.le_refl 0
  | succ n ih =>
    refine ⟨n, rfl, fun o _ => ?_⟩
    cases o with
    | failed e => exact Nat.zero_le _
    | matched tree stop =>
      change Costs _ (if (unbounded && decide (stop.position = c.position)) = true
        then _ else _) n
      split
      · exact Nat.succ_le_succ (Nat.zero_le n)
      · exact (ih stop).bind fun r hr _ => Nat.succ_le_succ hr

/-- A match with no more trees than were asked for, or than one for each character and one more. -/
def Few (min : Nat) (c : Cursor) : Outcome → Prop
  | .matched tree _ =>
    ∃ trees, tree = .branch trees c.position ∧ trees.length ≤ max min (c.ahead.length + 1)
  | .failed _ => True

/-- **A repetition without an upper bound makes one call more than there are characters**, at most,
and has as many children, unless more were asked for. -/
theorem repetition_costs (part : ParserId) (min : Nat) (c : Cursor) :
    (repetition part min none c).Costs (Few min c) (c.ahead.length + 1) := by
  rw [repetition_eq_settle]
  refine (rounds_costs part true (c.ahead.length + 1) c).bind fun r hr m => ?_
  obtain ⟨trees, stop, ending⟩ := r
  have hfew : Few min c (.matched (.branch trees c.position) stop) :=
    ⟨trees, rfl, Nat.le_trans hr (Nat.le_max_right _ _)⟩
  cases ending with
  | stalled =>
    refine ⟨_, rfl, ?_⟩
    have hlength : trees.length ≤ c.ahead.length + 1 := hr
    unfold Attempt.padded
    split
    · rw [List.length_append, List.length_replicate]
      omega
    · omega
  | full =>
    rw [settle]
    split
    · trivial
    · exact hfew
  | gaveUp place e =>
    rw [settle]
    split
    · trivial
    · exact hfew

end Script

/-- A call that goes on as a script tells. It moves on, and without an upper bound on its rounds it
makes no more calls than there are characters, and one. -/
def Level.Goes (level : Level) (task : Task) : Prop :=
  ∃ s, task.Plays s ∧
    s.Tells (fun _ => True) (fun _ => True) level.cursor (Outcome.Advances level.cursor) ∧
    ∀ part min, level.node.kind = .repetition part min none →
      ∃ n, level.calls + n ≤ level.cursor.ahead.length + 1 ∧
        s.Costs (Script.Few min level.cursor) n

/-- A call that made no more calls than its rounds allow. -/
def Level.Spares (level : Level) : Prop :=
  ∀ part min, level.node.kind = .repetition part min none →
    level.calls ≤ level.cursor.ahead.length + 1

theorem Level.Goes.spares {level : Level} {task : Task} (h : level.Goes task) : level.Spares := by
  obtain ⟨s, -, -, hcosts⟩ := h
  intro part min hkind
  obtain ⟨n, hn, -⟩ := hcosts part min hkind
  exact Nat.le_trans (Nat.le_add_right _ n) hn

/-- Every node goes on as its script tells. -/
theorem Node.goes (node : Node) (g : Graph) (c : Cursor) :
    Level.Goes ⟨node, c, 0⟩ (node.task g c) := by
  refine ⟨node.script g c, node.task_plays g c, node.script_advances g c, fun part min hkind => ?_⟩
  refine ⟨c.ahead.length + 1, Nat.le_of_eq (Nat.zero_add _), ?_⟩
  have hkind : node.kind = .repetition part min none := hkind
  rw [script, hkind]
  exact Script.repetition_costs part min c

namespace Descent

variable {g : Graph} {d : Descent}

/-- Calls that wait, the innermost for a call at a place: each goes on with whatever outcome that
moves on. -/
def Linked : List Waiting → Cursor → Prop
  | [], _ => True
  | w :: waiting, c =>
    w.level.Spares ∧ (∀ o : Outcome, o.Advances c → w.level.Goes (w.next o)) ∧
      Linked waiting w.level.cursor

theorem Linked.spares {waiting : List Waiting} {c : Cursor} (h : Linked waiting c) :
    ∀ level ∈ waiting.map Waiting.level, level.Spares := by
  induction waiting generalizing c with
  | nil => exact fun _ hlevel => absurd hlevel List.not_mem_nil
  | cons w waiting ih =>
    rw [List.map_cons, List.forall_mem_cons]
    exact ⟨h.1, ih h.2.2⟩

/-- What is done next fits the calls that wait, and does not nest them deeper than allowed. -/
def Fits (g : Graph) (waiting : List Waiting) : Phase → Prop
  | .entering _ c => waiting.length ≤ g.maxDepth ∧ Linked waiting c
  | .doing level task =>
    waiting.length < g.maxDepth ∧ level.Goes task ∧ Linked waiting level.cursor
  | .leaving o => waiting.length ≤ g.maxDepth ∧ ∃ c, o.Advances c ∧ Linked waiting c
  | .finished _ => waiting.length ≤ g.maxDepth ∧ ∃ c, Linked waiting c

/-- Where a run may stand. -/
def Sound (g : Graph) (d : Descent) : Prop := Fits g d.waiting d.phase

theorem sound_start (g : Graph) (id : ParserId) (input : String) : (start id input).Sound g :=
  ⟨Nat.zero_le _, trivial⟩

theorem sound_enter {id : ParserId} {c : Cursor} (h : Fits g d.waiting (.entering id c)) :
    (d.enter g id c).Sound g := by
  obtain ⟨hdepth, hlinked⟩ := h
  unfold enter
  split
  · exact ⟨hdepth, c, trivial, hlinked⟩
  · split
    · exact ⟨hdepth, c, trivial, hlinked⟩
    · next hroom =>
      split
      · exact ⟨hdepth, c, hlinked⟩
      · next node _ => exact ⟨Nat.lt_of_not_le hroom, node.goes g c, hlinked⟩

theorem sound_act {level : Level} {task : Task} (h : Fits g d.waiting (.doing level task)) :
    (d.act level task.next).Sound g := by
  obtain ⟨hdepth, ⟨s, hplays, htells, hcosts⟩, hlinked⟩ := h
  cases s with
  | done o =>
    have hnext : task.next = .done o := hplays
    rw [hnext]
    exact ⟨Nat.le_of_lt hdepth, level.cursor, Graph.labelled_advances htells, hlinked⟩
  | call alone id c next =>
    obtain ⟨k, hnext, hk⟩ := hplays
    rw [hnext]
    refine ⟨hdepth, fun part min hkind => ?_, fun o ho => ?_, hlinked⟩
    · obtain ⟨n, hn, m, rfl, -⟩ := hcosts part min hkind
      dsimp only
      omega
    · refine ⟨next o, hk o ho, htells.2.2 o ho, fun part min hkind => ?_⟩
      obtain ⟨n, hn, m, rfl, hrest⟩ := hcosts part min hkind
      exact ⟨m, by dsimp only; omega, hrest o ho⟩
  | abandon start e next =>
    obtain ⟨task', hnext, hplays⟩ := hplays
    rw [hnext]
    exact ⟨hdepth, ⟨next, hplays, htells.2, hcosts⟩, hlinked⟩

theorem sound_leave {o : Outcome} (h : Fits g d.waiting (.leaving o)) :
    (d.leave o).Sound g := by
  obtain ⟨hdepth, c, ho, hlinked⟩ := h
  unfold leave
  split
  · next hnone => exact ⟨hdepth, c, hlinked⟩
  · next w waiting hsome =>
    rw [hsome] at hdepth hlinked
    exact ⟨hdepth, hlinked.2.1 o ho, hlinked.2.2⟩

/-- **Every step keeps a run where it may stand.** -/
theorem sound_descend (h : d.Sound g) : (g.descend d).Sound g := by
  unfold Sound at h
  unfold Graph.descend
  split
  · next hphase => exact sound_enter (hphase ▸ h)
  · next hphase => exact sound_act (hphase ▸ h)
  · next hphase => exact sound_leave (hphase ▸ h)
  · exact h

theorem sound_iterate (h : d.Sound g) (n : Nat) : (g.descend^[n] d).Sound g := by
  induction n with
  | zero => exact h
  | succ n ih =>
    rw [Function.iterate_succ_apply']
    exact sound_descend ih

/-- The calls under way are no more than may be nested, and none made more calls than its rounds
allow. -/
theorem Sound.levels (h : d.Sound g) :
    d.levels.length ≤ g.maxDepth ∧ ∀ level ∈ d.levels, level.Spares := by
  obtain ⟨kept, stopped, waiting, phase⟩ := d
  cases phase with
  | entering id c =>
    obtain ⟨hdepth, hlinked⟩ := h
    exact ⟨by rwa [levels, List.length_map], hlinked.spares⟩
  | doing level task =>
    obtain ⟨hdepth, hgoes, hlinked⟩ := h
    refine ⟨by rwa [levels, List.length_cons, List.length_map], ?_⟩
    exact List.forall_mem_cons.2 ⟨hgoes.spares, hlinked.spares⟩
  | leaving o =>
    obtain ⟨hdepth, c, -, hlinked⟩ := h
    exact ⟨by rwa [levels, List.length_map], hlinked.spares⟩
  | finished result =>
    obtain ⟨hdepth, c, hlinked⟩ := h
    exact ⟨by rwa [levels, List.length_map], hlinked.spares⟩

/-- A repetition without an upper bound that is done has few children. -/
theorem Sound.few {level : Level} {task : Task} {tree : Tree} {stop : Cursor} {part : ParserId}
    {min : Nat} (h : d.Sound g) (hphase : d.phase = .doing level task)
    (hdone : task.next = .done (.matched tree stop))
    (hkind : level.node.kind = .repetition part min none) :
    ∃ trees, tree = .branch trees level.cursor.position ∧
      trees.length ≤ max min (level.cursor.ahead.length + 1) := by
  unfold Sound at h
  rw [hphase] at h
  obtain ⟨-, ⟨s, hplays, -, hcosts⟩, -⟩ := h
  obtain ⟨n, -, hcosts⟩ := hcosts part min hkind
  cases s with
  | done o =>
    have hnext : task.next = .done o := hplays
    cases hnext.symm.trans hdone
    exact hcosts
  | call alone id c next =>
    obtain ⟨k, hnext, -⟩ := hplays
    cases hnext.symm.trans hdone
  | abandon start e next =>
    obtain ⟨task', hnext, -⟩ := hplays
    cases hnext.symm.trans hdone

end Descent

open Descent in
/-- **Every run terminates**, also of a graph that is not valid: step by step, without a number that
bounds its loops, it comes to an end, with what the engine comes to. At every step the calls under
way are no more than may be nested. A call of a repetition without an upper bound makes, in all,
one call more at most than there are characters left where it was made, and when it matches it has
as many children at most, unless more were asked for. -/
theorem Graph.run_terminates (g : Graph) (id : ParserId) (input : String) :
    (∃ n, (g.descend^[n] (Descent.start id input)).phase = .finished (g.run id input)) ∧
    ∀ n, (g.descend^[n] (Descent.start id input)).levels.length ≤ g.maxDepth ∧
      (∀ level ∈ (g.descend^[n] (Descent.start id input)).levels, ∀ part min,
        level.node.kind = .repetition part min none →
        level.calls ≤ level.cursor.ahead.length + 1) ∧
      ∀ level task tree stop part min,
        (g.descend^[n] (Descent.start id input)).phase = .doing level task →
        task.next = .done (.matched tree stop) →
        level.node.kind = .repetition part min none →
        ∃ trees, tree = .branch trees level.cursor.position ∧
          trees.length ≤ max min (level.cursor.ahead.length + 1) := by
  refine ⟨g.descend_comes id input, fun n => ?_⟩
  have hsound : (g.descend^[n] (Descent.start id input)).Sound g :=
    sound_iterate (sound_start g id input) n
  obtain ⟨hdepth, hspares⟩ := hsound.levels
  exact ⟨hdepth, hspares, fun level task tree stop part min hphase hdone hkind =>
    hsound.few hphase hdone hkind⟩

end ParserGraph
