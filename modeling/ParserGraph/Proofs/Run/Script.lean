import ParserGraph.Run.Basic

/-!
# Scripts — what a node does, apart from how its calls are made

What a node does at a place depends on the graph around it only through the
calls it makes: it makes one, looks at the outcome, and makes the next. Told
that way it is a tree that branches on outcomes (`Script`), the same for
whatever makes the calls. The engine plays the scripts of its nodes
(`Node.play_script`), so what a node may do is found by going down its script
instead of through each combinator again.
-/

namespace ParserGraph

/-- What is left to do of a part of a run. -/
inductive Script (α : Type) where
  /-- Nothing: this is the result. -/
  | done (result : α)
  /-- A parser is called, the errors it keeps aside being forgotten if it is called `alone`. -/
  | call (alone : Bool) (id : ParserId) (cursor : Cursor) (next : Outcome → Script α)
  /-- The error of an attempt is kept aside, if it got past the place where that started. -/
  | abandon (start : Position) (error : ParseError) (next : Script α)

namespace Script

variable {α β : Type}

/-- A script that goes on with another one. -/
def bind : Script α → (α → Script β) → Script β
  | done a, f => f a
  | call alone id c next, f => call alone id c fun o => (next o).bind f
  | abandon start e next, f => abandon start e (next.bind f)

instance : Monad Script where
  pure := done
  bind := bind

/-- One call. -/
def ask (id : ParserId) (c : Cursor) : Script Outcome := call false id c done

/-- One call whose kept errors are forgotten. -/
def askAlone (id : ParserId) (c : Cursor) : Script Outcome := call true id c done

/-- One error kept aside. -/
def setAside (start : Position) (e : ParseError) : Script Unit := abandon start e (done ())

/-! ## The scripts of the combinators -/

/-- Several calls one after another, up to the first that fails. -/
def inOrder : List ParserId → Cursor → Script (Except ParseError (List Tree × Cursor))
  | [], cursor => pure (.ok ([], cursor))
  | id :: ids, cursor => do
    match ← ask id cursor with
    | .failed e => pure (.error e)
    | .matched tree stop =>
      match ← inOrder ids stop with
      | .error e => pure (.error e)
      | .ok (trees, stop) => pure (.ok (tree :: trees, stop))

/-- All operands one after another. -/
def sequence (parts : List ParserId) (cursor : Cursor) : Script Outcome := do
  match ← inOrder parts cursor with
  | .error e => pure (.failed e)
  | .ok (trees, stop) => pure (.matched (.branch trees cursor.position) stop)

/-- The first operand that matches; `failure` is what the operands before came to. -/
def firstOf (cursor : Cursor) : Option ParseError → List ParserId → Script Outcome
  | none, [] => pure (.failed (.unexpected cursor.position cursor.peek))
  | some failure, [] => pure (.failed failure)
  | failure, id :: ids => do
    match ← ask id cursor with
    | .matched tree stop => pure (.matched tree stop)
    | .failed e => firstOf cursor (some (e.joinTo failure)) ids

/-- The operand or nothing. -/
def optional (part : ParserId) (cursor : Cursor) : Script Outcome := do
  match ← ask part cursor with
  | .matched tree stop => pure (.matched tree stop)
  | .failed e =>
    setAside cursor.position e
    pure (.matched (.empty cursor.position) cursor)

/-- Calls a parser again and again, at most `n` times. -/
def rounds (part : ParserId) (unbounded : Bool) :
    Nat → Cursor → Script (List Tree × Cursor × Attempt.Ending)
  | 0, cursor => pure ([], cursor, .full)
  | n + 1, cursor => do
    match ← ask part cursor with
    | .failed e => pure ([], cursor, .gaveUp cursor.position e)
    | .matched tree stop =>
      if unbounded && stop.position = cursor.position then pure ([tree], stop, .stalled)
      else
        let (trees, stop, ending) ← rounds part unbounded n stop
        pure (tree :: trees, stop, ending)

/-- The operand as often as it matches. -/
def repetition (part : ParserId) (min : Nat) (max : Option Nat) (cursor : Cursor) :
    Script Outcome := do
  let (trees, stop, ending) ← rounds part max.isNone (max.getD (cursor.ahead.length + 1)) cursor
  let matched (trees : List Tree) : Outcome := .matched (.branch trees cursor.position) stop
  match ending with
  | .stalled => pure (matched (Attempt.padded min trees))
  | .full =>
    if trees.length < min then pure (.failed (.unexpected cursor.position stop.peek))
    else pure (matched trees)
  | .gaveUp start e =>
    if trees.length < min then pure (.failed e)
    else
      setAside start e
      pure (matched trees)

/-- Nothing, where the operand matches, or where it does not if negated. -/
def lookahead (part : ParserId) (negated : Bool) (description : String) (cursor : Cursor) :
    Script Outcome := do
  match ← askAlone part cursor, negated with
  | .matched _ _, false => pure (.matched (.empty cursor.position) cursor)
  | .failed _, true => pure (.matched (.empty cursor.position) cursor)
  | .failed e, false => pure (.failed e)
  | .matched _ _, true =>
    pure (.failed (.expecting cursor.position ("not " ++ description) cursor.peek))

/-- The operand with its tree reshaped. -/
def transform (part : ParserId) (mapping : Tree → Tree) (cursor : Cursor) : Script Outcome := do
  match ← ask part cursor with
  | .matched tree stop => pure (.matched (mapping tree) stop)
  | .failed e => pure (.failed e)

/-- The operand with the text it took as a single leaf. -/
def token (part : ParserId) (cursor : Cursor) : Script Outcome := do
  match ← ask part cursor with
  | .matched _ stop => pure (.matched (.leaf (cursor.upTo stop) cursor.position) stop)
  | .failed e => pure (.failed e)

/-- The operand with its failures told as `label`. -/
def expect (part : ParserId) (label : String) (cursor : Cursor) : Script Outcome := do
  match ← askAlone part cursor with
  | .matched tree stop => pure (.matched tree stop)
  | .failed _ => pure (.failed (.expecting cursor.position label cursor.peek))

end Script

/-- What a node does at a place. -/
def Node.script (node : Node) (g : Graph) (cursor : Cursor) : Script Outcome :=
  match node.kind with
  | .terminal t => pure (Attempt.terminal t cursor)
  | .sequence parts => Script.sequence parts cursor
  | .alternation branches => Script.firstOf cursor none branches
  | .repetition part min max => Script.repetition part min max cursor
  | .optional part => Script.optional part cursor
  | .lookahead part negated => Script.lookahead part negated (g.describe part) cursor
  | .transform part mapping => Script.transform part mapping cursor
  | .token part => Script.token part cursor
  | .expect part label => Script.expect part label cursor
  | .rule (some body) => Script.ask body cursor
  | .rule none => pure (.failed (Attempt.undefinedRule node.name cursor))

/-! ## The engine plays scripts -/

namespace Script

variable {α β : Type}

/-- One call, which `make` makes, alone or not. -/
def calling (make : Call) (alone : Bool) (id : ParserId) (c : Cursor) : Attempt Outcome :=
  if alone then Attempt.isolated (make id c) else make id c

/-- The part of a run that a script tells, its calls being made by `make`. -/
def play (make : Call) : Script α → Attempt α
  | done a => pure a
  | call alone id c next => do
    let o ← calling make alone id c
    (next o).play make
  | abandon start e next => do
    Attempt.abandon start e
    next.play make

variable {make : Call}

@[simp]
theorem play_pure (a : α) : (pure a : Script α).play make = pure a := rfl

/-- Going on with another script is playing that one then. -/
@[simp]
theorem play_bind (s : Script α) (f : α → Script β) :
    (s >>= f).play make = s.play make >>= fun a => (f a).play make := by
  change (s.bind f).play make = _
  induction s with
  | done a => rfl
  | call alone id c next ih =>
    rw [Script.bind, play, play, bind_assoc]
    exact bind_congr fun o => ih o
  | abandon start e next ih =>
    rw [Script.bind, play, play, bind_assoc]
    exact bind_congr fun _ => ih

@[simp]
theorem play_ask (id : ParserId) (c : Cursor) : (ask id c).play make = make id c :=
  bind_pure _

@[simp]
theorem play_askAlone (id : ParserId) (c : Cursor) :
    (askAlone id c).play make = Attempt.isolated (make id c) :=
  bind_pure _

@[simp]
theorem play_setAside (start : Position) (e : ParseError) :
    (setAside start e).play make = Attempt.abandon start e :=
  bind_pure _

theorem play_inOrder (ids : List ParserId) (c : Cursor) :
    (inOrder ids c).play make = Attempt.inOrder make ids c := by
  induction ids generalizing c with
  | nil => rfl
  | cons id ids ih =>
    rw [inOrder, Attempt.inOrder, play_bind, play_ask]
    refine bind_congr fun o => ?_
    cases o with
    | failed e => rfl
    | matched tree stop =>
      dsimp only
      rw [play_bind, ih]
      exact bind_congr fun r => by cases r <;> rfl

theorem play_sequence (parts : List ParserId) (c : Cursor) :
    (sequence parts c).play make = Attempt.sequence make parts c := by
  rw [sequence, Attempt.sequence, play_bind, play_inOrder]
  exact bind_congr fun r => by cases r <;> rfl

theorem play_firstOf (c : Cursor) (failure : Option ParseError) (ids : List ParserId) :
    (firstOf c failure ids).play make = Attempt.firstOf make c failure ids := by
  induction ids generalizing failure with
  | nil => cases failure <;> rfl
  | cons id ids ih =>
    rw [firstOf, Attempt.firstOf, play_bind, play_ask]
    refine bind_congr fun o => ?_
    cases o with
    | matched tree stop => rfl
    | failed e => exact ih _

theorem play_optional (part : ParserId) (c : Cursor) :
    (optional part c).play make = Attempt.optional make part c := by
  rw [optional, Attempt.optional, play_bind, play_ask]
  refine bind_congr fun o => ?_
  cases o with
  | matched tree stop => rfl
  | failed e =>
    dsimp only
    rw [play_bind, play_setAside]
    rfl

theorem play_rounds (part : ParserId) (unbounded : Bool) (n : Nat) (c : Cursor) :
    (rounds part unbounded n c).play make = Attempt.rounds make part unbounded n c := by
  induction n generalizing c with
  | zero => rfl
  | succ n ih =>
    rw [rounds, Attempt.rounds, play_bind, play_ask]
    refine bind_congr fun o => ?_
    cases o with
    | failed e => rfl
    | matched tree stop =>
      dsimp only
      split
      · rfl
      · rw [play_bind, ih]
        rfl

theorem play_repetition (part : ParserId) (min : Nat) (max : Option Nat) (c : Cursor) :
    (repetition part min max c).play make = Attempt.repetition make part min max c := by
  rw [repetition, Attempt.repetition, play_bind, play_rounds]
  refine bind_congr fun ⟨trees, stop, ending⟩ => ?_
  cases ending with
  | stalled => rfl
  | full =>
    dsimp only
    split <;> rfl
  | gaveUp start e =>
    dsimp only
    split
    · rfl
    · rw [play_bind, play_setAside]
      rfl

theorem play_lookahead (part : ParserId) (negated : Bool) (description : String) (c : Cursor) :
    (lookahead part negated description c).play make =
      Attempt.lookahead make part negated description c := by
  rw [lookahead, Attempt.lookahead, play_bind, play_askAlone]
  exact bind_congr fun o => by cases o <;> cases negated <;> rfl

theorem play_transform (part : ParserId) (mapping : Tree → Tree) (c : Cursor) :
    (transform part mapping c).play make = Attempt.transform make part mapping c := by
  rw [transform, Attempt.transform, play_bind, play_ask]
  exact bind_congr fun o => by cases o <;> rfl

theorem play_token (part : ParserId) (c : Cursor) :
    (token part c).play make = Attempt.token make part c := by
  rw [token, Attempt.token, play_bind, play_ask]
  exact bind_congr fun o => by cases o <;> rfl

theorem play_expect (part : ParserId) (label : String) (c : Cursor) :
    (expect part label c).play make = Attempt.expect make part label c := by
  rw [expect, Attempt.expect, play_bind, play_askAlone]
  exact bind_congr fun o => by cases o <;> rfl

end Script

/-- **What a node does is its script, played.** -/
theorem Node.play_script (node : Node) (g : Graph) (call : Call) (c : Cursor) :
    (node.script g c).play call = node.perform g call c := by
  unfold Node.script Node.perform
  cases node.kind with
  | terminal t => rfl
  | sequence parts => exact Script.play_sequence parts c
  | alternation branches => exact Script.play_firstOf c none branches
  | repetition part min max => exact Script.play_repetition part min max c
  | optional part => exact Script.play_optional part c
  | lookahead part negated => exact Script.play_lookahead part negated _ c
  | transform part mapping => exact Script.play_transform part mapping c
  | token part => exact Script.play_token part c
  | expect part label => exact Script.play_expect part label c
  | rule body =>
    cases body with
    | none => rfl
    | some body => exact Script.play_ask body c

end ParserGraph
