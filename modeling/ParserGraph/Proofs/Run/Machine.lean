import ParserGraph.Proofs.Run.Finish

/-!
# Machines — a run as one state that every call changes

The engine hands a cursor to each call and goes on from the one it gets back.
A run can be told the other way, with one state for all calls: the place it
has come to, the error kept aside and, once the nesting was too deep, the
error that ends it. A call that fails puts the place back, and after the end
every call only tells its error again, so that the calls around it unwind one
by one. Both come to the same: a machine mirrors the engine call by call
(`Graph.call_follows`), and so do whole runs (`Graph.execute_eq_run`).
-/

namespace ParserGraph

/-- Where a run stands. -/
structure Machine where
  /-- The place it has come to. -/
  cursor : Cursor
  /-- The furthest error of an attempt that was given up on after progress. -/
  kept : Option ParseError
  /-- What ends the run, once the nesting was too deep. -/
  stopped : Option ParseError

namespace Machine

/-- The state a run over an input starts in. -/
def start (input : String) : Machine := ⟨Cursor.start input, none, none⟩

/-- A part of a run, which changes the state. -/
abbrev Step := StateT Machine (Except Misuse)

/-- How a parser is called inside a run. -/
abbrev Routine := ParserId → Step (Except ParseError Tree)

/-! ## Parts of a run -/

/-- The place the run has come to. -/
def here : Step Cursor := fun m => .ok (m.cursor, m)

/-- Goes to a place. -/
def moveTo (c : Cursor) : Step Unit := fun m => .ok ((), { m with cursor := c })

/-- Keeps the error of an attempt aside, if it got past the place where the attempt started. -/
def abandon (start : Position) (e : ParseError) : Step Unit := fun m =>
  .ok ((), { m with
    kept := if e.position.offset ≤ start.offset then m.kept else some (e.joinTo m.kept) })

/-- A call whose kept errors are forgotten. -/
def isolated {α : Type} (part : Step α) : Step α := do
  let outer ← get
  set { outer with kept := none }
  let result ← part
  modify fun m => { m with kept := outer.kept }
  pure result

/-- Several calls one after another, up to the first that fails. -/
def inOrder (call : Routine) : List ParserId → Step (Except ParseError (List Tree))
  | [] => pure (.ok [])
  | id :: ids => do
    match ← call id with
    | .error e => pure (.error e)
    | .ok tree =>
      match ← inOrder call ids with
      | .error e => pure (.error e)
      | .ok trees => pure (.ok (tree :: trees))

/-- All operands one after another. -/
def sequence (call : Routine) (parts : List ParserId) : Step (Except ParseError Tree) := do
  let start ← here
  match ← inOrder call parts with
  | .error e => pure (.error e)
  | .ok trees => pure (.ok (.branch trees start.position))

/-- The first operand that matches; `failure` is what the operands before came to. -/
def firstOf (call : Routine) : Option ParseError → List ParserId → Step (Except ParseError Tree)
  | none, [] => do
    let c ← here
    pure (.error (.unexpected c.position c.peek))
  | some failure, [] => pure (.error failure)
  | failure, id :: ids => do
    match ← call id with
    | .ok tree => pure (.ok tree)
    | .error e => firstOf call (some (e.joinTo failure)) ids

/-- The operand or nothing. -/
def optional (call : Routine) (part : ParserId) : Step (Except ParseError Tree) := do
  let start ← here
  match ← call part with
  | .ok tree => pure (.ok tree)
  | .error e =>
    abandon start.position e
    pure (.ok (.empty start.position))

/-- Calls a parser again and again, at most `n` times. -/
def rounds (call : Routine) (part : ParserId) (unbounded : Bool) :
    Nat → Step (List Tree × Attempt.Ending)
  | 0 => pure ([], .full)
  | n + 1 => do
    let before ← here
    match ← call part with
    | .error e => pure ([], .gaveUp before.position e)
    | .ok tree =>
      let stop ← here
      if unbounded && stop.position = before.position then pure ([tree], .stalled)
      else
        let (trees, ending) ← rounds call part unbounded n
        pure (tree :: trees, ending)

/-- The operand as often as it matches. -/
def repetition (call : Routine) (part : ParserId) (min : Nat) (max : Option Nat) :
    Step (Except ParseError Tree) := do
  let start ← here
  let (trees, ending) ← rounds call part max.isNone (max.getD (start.ahead.length + 1))
  match ending with
  | .stalled => pure (.ok (.branch (Attempt.padded min trees) start.position))
  | .full => do
    let stop ← here
    if trees.length < min then pure (.error (.unexpected start.position stop.peek))
    else pure (.ok (.branch trees start.position))
  | .gaveUp before e =>
    if trees.length < min then pure (.error e)
    else
      abandon before e
      pure (.ok (.branch trees start.position))

/-- Nothing, where the operand matches, or where it does not if negated. -/
def lookahead (call : Routine) (part : ParserId) (negated : Bool) (description : String) :
    Step (Except ParseError Tree) := do
  let start ← here
  let result ← isolated (call part)
  moveTo start
  match result, negated with
  | .ok _, false => pure (.ok (.empty start.position))
  | .error _, true => pure (.ok (.empty start.position))
  | .error e, false => pure (.error e)
  | .ok _, true => do
    let back ← here
    pure (.error (.expecting start.position ("not " ++ description) back.peek))

/-- The operand with its tree reshaped. -/
def transform (call : Routine) (part : ParserId) (mapping : Tree → Tree) :
    Step (Except ParseError Tree) := do
  match ← call part with
  | .ok tree => pure (.ok (mapping tree))
  | .error e => pure (.error e)

/-- The operand with the text it took as a single leaf. -/
def token (call : Routine) (part : ParserId) : Step (Except ParseError Tree) := do
  let start ← here
  match ← call part with
  | .ok _ => do
    let stop ← here
    pure (.ok (.leaf (start.upTo stop) start.position))
  | .error e => pure (.error e)

/-- The operand with its failures told as `label`, found where it was tried. -/
def expect (call : Routine) (part : ParserId) (label : String) :
    Step (Except ParseError Tree) := do
  let start ← here
  match ← isolated (call part) with
  | .ok tree => pure (.ok tree)
  | .error _ => pure (.error (.expecting start.position label start.peek))

/-- A terminal. -/
def terminal (t : Terminal) : Step (Except ParseError Tree) := do
  let c ← here
  match t.span c with
  | some n => do
    moveTo (c.advance n)
    pure (.ok (.leaf (c.next n) c.position))
  | none => pure (.error (t.failureAt c))

/-- What a node does. -/
def perform (g : Graph) (call : Routine) (node : Node) : Step (Except ParseError Tree) :=
  match node.kind with
  | .terminal t => terminal t
  | .sequence parts => sequence call parts
  | .alternation branches => firstOf call none branches
  | .repetition part min max => repetition call part min max
  | .optional part => optional call part
  | .lookahead part negated => lookahead call part negated (g.describe part)
  | .transform part mapping => transform call part mapping
  | .token part => token call part
  | .expect part label => expect call part label
  | .rule (some body) => call body
  | .rule none => do
    let c ← here
    pure (.error (Attempt.undefinedRule node.name c))

/-- Calls a parser, which must live, tags its tree, and goes back if it fails. -/
def enter (g : Graph) (call : Routine) : Routine := fun id =>
  match g.node? id with
  | none => throw (.usedAfterCleanup id)
  | some node => do
    let start ← here
    match ← perform g call node with
    | .ok tree => pure (.ok (node.label tree))
    | .error e => do
      moveTo start
      pure (.error e)

/-- Ends the run. -/
def stop (g : Graph) : Step (Except ParseError Tree) := fun m =>
  .ok (.error (g.tooDeep m.cursor), { m with stopped := some (g.tooDeep m.cursor) })

/-- Goes on unless the run has ended. -/
def unlessStopped (part : Step (Except ParseError Tree)) : Step (Except ParseError Tree) := fun m =>
  match m.stopped with
  | some e => .ok (.error e, m)
  | none => part m

end Machine

namespace Graph

/-- Calls a parser with room for a number of nested calls. -/
def call (g : Graph) : Nat → Machine.Routine
  | 0 => fun _ => Machine.unlessStopped (Machine.stop g)
  | room + 1 => fun id => Machine.unlessStopped (Machine.enter g (g.call room) id)

/-- Matches the start of an input with a parser, on a machine. -/
def execute (g : Graph) (id : ParserId) (input : String) :
    Except Misuse (Except ParseError Tree) :=
  match (g.call g.maxDepth id).run (Machine.start input) with
  | .error m => .error m
  | .ok (_, ⟨_, _, some e⟩) => .ok (.error e)
  | .ok (.ok tree, ⟨_, _, none⟩) => .ok (.ok tree)
  | .ok (.error e, ⟨_, some kept, none⟩) => .ok (.error (e.merge kept))
  | .ok (.error e, ⟨_, none, none⟩) => .ok (.error e)

end Graph

/-! ## Unwinding -/

namespace Machine

variable {α β : Type}

/-- A part of a run that comes to an end even if the run has, and leaves it ended. -/
def Unwinds (x : Step α) : Prop :=
  ∀ m e, m.stopped = some e → ∃ a m', x.run m = .ok (a, m') ∧ m'.stopped = some e

namespace Unwinds

variable {x : Step α} {f : α → Step β}

theorem pure (a : α) : Unwinds (Pure.pure a) := fun m _ h => ⟨a, m, rfl, h⟩

theorem bind (hx : Unwinds x) (hf : ∀ a, Unwinds (f a)) : Unwinds (x >>= f) := by
  intro m e h
  obtain ⟨a, m', hrun, h'⟩ := hx m e h
  obtain ⟨b, m'', hrun', h''⟩ := hf a m' e h'
  refine ⟨b, m'', ?_, h''⟩
  rw [StateT.run_bind, hrun]
  exact hrun'

theorem here : Unwinds here := fun m _ h => ⟨m.cursor, m, rfl, h⟩

theorem moveTo (c : Cursor) : Unwinds (moveTo c) := fun _ _ h => ⟨(), _, rfl, h⟩

theorem abandon (start : Position) (e : ParseError) : Unwinds (abandon start e) :=
  fun _ _ h => ⟨(), _, rfl, h⟩

/-- A call that goes on only if the run does unwinds. -/
theorem unlessStopped (part : Step (Except ParseError Tree)) : Unwinds (unlessStopped part) := by
  intro m e h
  refine ⟨.error e, m, ?_, h⟩
  change Machine.unlessStopped part m = _
  rw [Machine.unlessStopped, h]

end Unwinds

section

variable {call : Routine} (hcall : ∀ id, Unwinds (call id))
include hcall

theorem inOrder_unwinds (ids : List ParserId) : Unwinds (inOrder call ids) := by
  induction ids with
  | nil => exact .pure _
  | cons id ids ih =>
    refine (hcall id).bind fun r => ?_
    cases r with
    | error e => exact .pure _
    | ok tree => exact ih.bind fun rest => by cases rest <;> exact .pure _

theorem firstOf_unwinds (failure : Option ParseError) (ids : List ParserId) :
    Unwinds (firstOf call failure ids) := by
  induction ids generalizing failure with
  | nil =>
    cases failure with
    | none => exact Unwinds.here.bind fun c => .pure _
    | some e => exact .pure _
  | cons id ids ih =>
    rw [firstOf]
    refine (hcall id).bind fun r => ?_
    cases r with
    | ok tree => exact .pure _
    | error e => exact ih _

theorem rounds_unwinds (part : ParserId) (unbounded : Bool) (n : Nat) :
    Unwinds (rounds call part unbounded n) := by
  induction n with
  | zero => exact .pure _
  | succ n ih =>
    refine Unwinds.here.bind fun before => (hcall part).bind fun r => ?_
    cases r with
    | error e => exact .pure _
    | ok tree =>
      refine Unwinds.here.bind fun stop => ?_
      split
      · exact .pure _
      · exact ih.bind fun _ => .pure _

end

/-! ## Mirroring the engine -/

/-- How a machine ends up where the engine ends in some way: with a result that fits and the same
error kept, misused alike, or stopped by the error that halted the engine. -/
inductive Mirrors (R : β → α → Cursor → Prop) :
    Except Halt (β × Option ParseError) → Except Misuse (α × Machine) → Prop
  /-- Both finish. -/
  | finished {b : β} {a : α} {c : Cursor} {kept : Option ParseError} :
      R b a c → Mirrors R (.ok (b, kept)) (.ok (a, ⟨c, kept, none⟩))
  /-- Both are misused. -/
  | misused {m : Misuse} : Mirrors R (.error (.misuse m)) (.error m)
  /-- The engine halts, and the machine has unwound. -/
  | stopped {e : ParseError} {a : α} {m : Machine} :
      m.stopped = some e → Mirrors R (.error (.tooDeep e)) (.ok (a, m))

/-- From a place, a part of a run on a machine does what a part of the engine does. -/
def Follows (c : Cursor) (R : β → α → Cursor → Prop) (y : Attempt β) (x : Step α) : Prop :=
  ∀ kept, Mirrors R (y.run kept) (x.run ⟨c, kept, none⟩)

namespace Follows

variable {γ δ : Type} {c : Cursor} {R : β → α → Cursor → Prop} {S : δ → γ → Cursor → Prop}
  {y : Attempt β} {x : Step α}

theorem pure {b : β} {a : α} (h : R b a c) : Follows c R (Pure.pure b) (Pure.pure a) :=
  fun _ => .finished h

/-- One part after another follows where each does; what comes later has to unwind. -/
theorem bind {k : β → Attempt δ} {f : α → Step γ} (hx : Follows c R y x)
    (hf : ∀ b a c', R b a c' → Follows c' S (k b) (f a)) (hunwinds : ∀ a, Unwinds (f a)) :
    Follows c S (y >>= k) (x >>= f) := by
  intro kept
  have h := hx kept
  rw [StateT.run_bind, StateT.run_bind]
  generalize y.run kept = engine at h
  generalize x.run ⟨c, kept, none⟩ = machine at h
  cases h with
  | finished hR => exact hf _ _ _ hR _
  | misused => exact .misused
  | @stopped e a m hm =>
    obtain ⟨a', m', hrun, hm'⟩ := hunwinds a m e hm
    change Mirrors S (.error (.tooDeep e)) ((f a).run m)
    rw [hrun]
    exact .stopped hm'

/-- Looking where the run stands changes nothing. -/
theorem here {f : Cursor → Step α} (h : Follows c R y (f c)) : Follows c R y (here >>= f) := h

/-- Going somewhere is going on from there. -/
theorem moveTo {c' : Cursor} {f : Unit → Step α} (h : Follows c' R y (f ())) :
    Follows c R y (moveTo c' >>= f) := h

theorem abandon (start : Position) (e : ParseError) :
    Follows c (fun _ _ stop => stop = c) (Attempt.abandon start e) (abandon start e) :=
  fun _ => .finished rfl

theorem mono {R' : β → α → Cursor → Prop} (h : Follows c R y x)
    (hR : ∀ b a c', R b a c' → R' b a c') : Follows c R' y x := by
  intro kept
  have h := h kept
  generalize y.run kept = engine at h
  generalize x.run ⟨c, kept, none⟩ = machine at h
  cases h with
  | finished h => exact .finished (hR _ _ _ h)
  | misused => exact .misused
  | stopped h => exact .stopped h

theorem isolated {y : Attempt Outcome} {x : Step α} {R : Outcome → α → Cursor → Prop}
    (h : Follows c R y x) : Follows c R (Attempt.isolated y) (isolated x) := by
  intro kept
  have h := h none
  change Mirrors R
    (y.run none >>= fun r => (Except.ok (r.1, kept) : Except Halt _))
    (x.run ⟨c, none, none⟩ >>= fun r => (Except.ok (r.1, { r.2 with kept := kept }) :
      Except Misuse _))
  generalize y.run none = engine at h
  generalize x.run ⟨c, none, none⟩ = machine at h
  cases h with
  | finished h => exact .finished h
  | misused => exact .misused
  | stopped h => exact .stopped h

end Follows

/-- The result of a machine that fits an outcome of the engine, a failure having left it
anywhere. -/
def Fits : Outcome → Except ParseError Tree → Cursor → Prop
  | .matched tree stop, r, c => r = .ok tree ∧ c = stop
  | .failed e, r, _ => r = .error e

/-- The result that fits an outcome of a call, a failure having gone back. -/
def FitsFrom (start : Cursor) : Outcome → Except ParseError Tree → Cursor → Prop
  | .matched tree stop, r, c => r = .ok tree ∧ c = stop
  | .failed e, r, c => r = .error e ∧ c = start

theorem FitsFrom.fits {start c : Cursor} {o : Outcome} {r : Except ParseError Tree}
    (h : FitsFrom start o r c) : Fits o r c := by
  cases o with
  | matched tree stop => exact h
  | failed e => exact h.1

section

variable {engine : Call} {call : Routine}
  (hcall : ∀ id c, Follows c (FitsFrom c) (engine id c) (call id))
include hcall

theorem optional_follows (part : ParserId) (c : Cursor) :
    Follows c Fits (Attempt.optional engine part c) (optional call part) := by
  refine .here ((hcall part c).bind (fun o r c' h => ?_) fun r => ?_)
  · cases o with
    | matched tree stop => obtain ⟨rfl, rfl⟩ := h; exact .pure ⟨rfl, rfl⟩
    | failed e =>
      obtain ⟨rfl, rfl⟩ := h
      refine (Follows.abandon _ e).bind (fun _ _ c'' h => ?_) fun _ => .pure _
      exact .pure ⟨rfl, h⟩
  · cases r with
    | ok tree => exact .pure _
    | error e => exact (Unwinds.abandon _ e).bind fun _ => .pure _

theorem lookahead_follows (part : ParserId) (negated : Bool) (description : String) (c : Cursor) :
    Follows c Fits (Attempt.lookahead engine part negated description c)
      (lookahead call part negated description) := by
  refine .here ((hcall part c).isolated.bind (fun o r c' h => .moveTo ?_) fun r => ?_)
  · cases o with
    | matched tree stop =>
      obtain ⟨rfl, -⟩ := h
      cases negated with
      | false => exact .pure ⟨rfl, rfl⟩
      | true => exact .here (.pure rfl)
    | failed e =>
      obtain ⟨rfl, -⟩ := h
      cases negated with
      | false => exact .pure rfl
      | true => exact .pure ⟨rfl, rfl⟩
  · refine (Unwinds.moveTo c).bind fun _ => ?_
    cases r <;> cases negated
    · exact .pure _
    · exact .pure _
    · exact .pure _
    · exact Unwinds.here.bind fun _ => .pure _

theorem transform_follows (part : ParserId) (mapping : Tree → Tree) (c : Cursor) :
    Follows c Fits (Attempt.transform engine part mapping c) (transform call part mapping) := by
  refine (hcall part c).bind (fun o r c' h => ?_) fun r => by cases r <;> exact .pure _
  cases o with
  | matched tree stop => obtain ⟨rfl, rfl⟩ := h; exact .pure ⟨rfl, rfl⟩
  | failed e => obtain ⟨rfl, rfl⟩ := h; exact .pure rfl

theorem token_follows (part : ParserId) (c : Cursor) :
    Follows c Fits (Attempt.token engine part c) (token call part) := by
  refine .here ((hcall part c).bind (fun o r c' h => ?_) fun r => ?_)
  · cases o with
    | matched tree stop => obtain ⟨rfl, rfl⟩ := h; exact .here (.pure ⟨rfl, rfl⟩)
    | failed e => obtain ⟨rfl, rfl⟩ := h; exact .pure rfl
  · cases r with
    | ok tree => exact Unwinds.here.bind fun _ => .pure _
    | error e => exact .pure _

theorem expect_follows (part : ParserId) (label : String) (c : Cursor) :
    Follows c Fits (Attempt.expect engine part label c) (expect call part label) := by
  refine .here ((hcall part c).isolated.bind (fun o r c' h => ?_) fun r => ?_)
  · cases o with
    | matched tree stop => obtain ⟨rfl, rfl⟩ := h; exact .pure ⟨rfl, rfl⟩
    | failed e => obtain ⟨rfl, rfl⟩ := h; exact .pure rfl
  · cases r <;> exact .pure _

variable (hunwinds : ∀ id, Unwinds (call id))
include hunwinds

theorem inOrder_follows (ids : List ParserId) (c : Cursor) :
    Follows c (fun b a c' => match b with
        | .ok (trees, stop) => a = .ok trees ∧ c' = stop
        | .error e => a = .error e)
      (Attempt.inOrder engine ids c) (inOrder call ids) := by
  induction ids generalizing c with
  | nil => exact .pure ⟨rfl, rfl⟩
  | cons id ids ih =>
    refine (hcall id c).bind (fun o r c' h => ?_) fun r => ?_
    · cases o with
      | failed e =>
        obtain ⟨rfl, -⟩ := h
        exact .pure rfl
      | matched tree stop =>
        obtain ⟨rfl, rfl⟩ := h
        refine (ih c').bind (fun b r' c'' h' => ?_) fun r' => ?_
        · cases b with
          | error e => cases h'; exact .pure rfl
          | ok p => obtain ⟨rfl, rfl⟩ := h'; exact .pure ⟨rfl, rfl⟩
        · cases r' <;> exact .pure _
    · cases r with
      | error e => exact .pure _
      | ok tree =>
        exact (inOrder_unwinds hunwinds ids).bind fun r' => by cases r' <;> exact .pure _

theorem sequence_follows (parts : List ParserId) (c : Cursor) :
    Follows c Fits (Attempt.sequence engine parts c) (sequence call parts) := by
  refine .here ((inOrder_follows hcall hunwinds parts c).bind (fun b r c' h => ?_) fun r => ?_)
  · cases b with
    | error e => cases h; exact .pure rfl
    | ok p => obtain ⟨rfl, rfl⟩ := h; exact .pure ⟨rfl, rfl⟩
  · cases r <;> exact .pure _

theorem firstOf_follows (failure : Option ParseError) (ids : List ParserId) (c : Cursor) :
    Follows c Fits (Attempt.firstOf engine c failure ids) (firstOf call failure ids) := by
  induction ids generalizing failure with
  | nil =>
    cases failure with
    | none => exact .here (.pure rfl)
    | some e => exact .pure rfl
  | cons id ids ih =>
    rw [Attempt.firstOf, firstOf]
    refine (hcall id c).bind (fun o r c' h => ?_) fun r => ?_
    · cases o with
      | matched tree stop => obtain ⟨rfl, rfl⟩ := h; exact .pure ⟨rfl, rfl⟩
      | failed e => obtain ⟨rfl, rfl⟩ := h; exact ih _
    · cases r with
      | ok tree => exact .pure _
      | error e => exact firstOf_unwinds hunwinds _ _

theorem rounds_follows (part : ParserId) (unbounded : Bool) (n : Nat) (c : Cursor) :
    Follows c (fun b a c' => a = (b.1, b.2.2) ∧ c' = b.2.1)
      (Attempt.rounds engine part unbounded n c) (rounds call part unbounded n) := by
  induction n generalizing c with
  | zero => exact .pure ⟨rfl, rfl⟩
  | succ n ih =>
    refine .here ((hcall part c).bind (fun o r c' h => ?_) fun r => ?_)
    · cases o with
      | failed e => obtain ⟨rfl, rfl⟩ := h; exact .pure ⟨rfl, rfl⟩
      | matched tree stop =>
        obtain ⟨rfl, rfl⟩ := h
        refine .here ?_
        dsimp only
        split
        · exact .pure ⟨rfl, rfl⟩
        · refine (ih c').bind (fun b a c'' h => ?_) fun _ => .pure _
          obtain ⟨rfl, rfl⟩ := h
          exact .pure ⟨rfl, rfl⟩
    · cases r with
      | error e => exact .pure _
      | ok tree =>
        refine Unwinds.here.bind fun stop => ?_
        split
        · exact .pure _
        · exact (rounds_unwinds hunwinds part unbounded n).bind fun _ => .pure _

theorem repetition_follows (part : ParserId) (min : Nat) (max : Option Nat) (c : Cursor) :
    Follows c Fits (Attempt.repetition engine part min max c) (repetition call part min max) := by
  refine .here ((rounds_follows hcall hunwinds part _ _ c).bind (fun b a c' h => ?_) fun a => ?_)
  · obtain ⟨trees, stop, ending⟩ := b
    obtain ⟨rfl, rfl⟩ := h
    cases ending with
    | stalled => exact .pure ⟨rfl, rfl⟩
    | full =>
      refine .here ?_
      dsimp only
      split
      · exact .pure rfl
      · exact .pure ⟨rfl, rfl⟩
    | gaveUp before e =>
      dsimp only
      split
      · exact .pure rfl
      · refine (Follows.abandon _ e).bind (fun _ _ c'' h => ?_) fun _ => .pure _
        exact .pure ⟨rfl, h⟩
  · obtain ⟨trees, ending⟩ := a
    cases ending with
    | stalled => exact .pure _
    | full =>
      refine Unwinds.here.bind fun stop => ?_
      split <;> exact .pure _
    | gaveUp before e =>
      dsimp only
      split
      · exact .pure _
      · exact (Unwinds.abandon _ e).bind fun _ => .pure _

/-- **A node does on a machine what it does in the engine.** -/
theorem perform_follows (g : Graph) (node : Node) (c : Cursor) :
    Follows c Fits (node.perform g engine c) (perform g call node) := by
  obtain ⟨name, kind⟩ := node
  cases kind with
  | terminal t =>
    refine .here ?_
    change Follows c Fits (pure (Attempt.terminal t c)) _
    unfold Attempt.terminal
    cases t.span c with
    | some n => exact .moveTo (.pure ⟨rfl, rfl⟩)
    | none => exact .pure rfl
  | sequence parts => exact sequence_follows hcall hunwinds parts c
  | alternation branches => exact firstOf_follows hcall hunwinds none branches c
  | repetition part min max => exact repetition_follows hcall hunwinds part min max c
  | optional part => exact optional_follows hcall part c
  | lookahead part negated => exact lookahead_follows hcall part negated _ c
  | transform part mapping => exact transform_follows hcall part mapping c
  | token part => exact token_follows hcall part c
  | expect part label => exact expect_follows hcall part label c
  | rule body =>
    cases body with
    | none => exact .here (.pure rfl)
    | some body => exact (hcall body c).mono fun _ _ _ => FitsFrom.fits

theorem enter_follows (g : Graph) (id : ParserId) (c : Cursor) :
    Follows c (FitsFrom c) (g.enter engine id c) (enter g call id) := by
  unfold Graph.enter enter
  cases g.node? id with
  | none => exact fun _ => .misused
  | some node =>
    refine .here ((perform_follows hcall hunwinds g node c).bind (fun o r c' h => ?_) fun r => ?_)
    · cases o with
      | matched tree stop => obtain ⟨rfl, rfl⟩ := h; exact .pure ⟨rfl, rfl⟩
      | failed e => cases h; exact .moveTo (.pure ⟨rfl, rfl⟩)
    · cases r with
      | ok tree => exact .pure _
      | error e => exact (Unwinds.moveTo c).bind fun _ => .pure _

end

end Machine

namespace Graph

open Machine

variable (g : Graph)

/-- Once a run has ended, every call of it only unwinds. -/
theorem call_unwinds (room : Nat) (id : ParserId) : Unwinds (g.call room id) := by
  cases room <;> exact .unlessStopped _

/-- **A machine mirrors the engine call by call.** It comes to the same result with the same error
kept, goes back to where the call started if that fails, and ends where the engine halts. -/
theorem call_follows (room : Nat) (id : ParserId) (c : Cursor) :
    Follows c (FitsFrom c) (g.parse room id c) (g.call room id) := by
  induction room generalizing id c with
  | zero => exact fun _ => .stopped rfl
  | succ room ih => exact enter_follows ih (g.call_unwinds room) g id c

/-- **Runs come to the same on a machine.** -/
theorem execute_eq_run (id : ParserId) (input : String) : g.execute id input = g.run id input := by
  have h := g.call_follows g.maxDepth id (Cursor.start input) none
  unfold execute run Machine.start
  generalize (g.parse g.maxDepth id (Cursor.start input)).run none = engine at h
  generalize (g.call g.maxDepth id).run ⟨Cursor.start input, none, none⟩ = machine at h
  cases h with
  | @finished o r c kept h =>
    cases o with
    | matched tree stop => obtain ⟨rfl, rfl⟩ := h; rfl
    | failed e => obtain ⟨rfl, rfl⟩ := h; cases kept <;> rfl
  | misused => rfl
  | @stopped e r m h =>
    obtain ⟨c, kept, stopped⟩ := m
    cases h
    cases r <;> rfl

end Graph

end ParserGraph
