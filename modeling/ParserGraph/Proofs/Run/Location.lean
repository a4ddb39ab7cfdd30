import Mathlib.Data.List.Induction
import ParserGraph.Proofs.Run.Machine

/-!
# Locations — where a run stands, and where its errors point

A position is what the text before it makes it: its bytes, its newlines and
what follows the last of them (`Position.behind`). The engine never computes a
position so; it moves one along with each character, puts old ones back and
hands them on in errors that are merged and kept aside. Still every place a
run comes to and every position it tells belongs to a beginning of the input,
and an error tells the character that stands behind that beginning
(`Machine.Sound`). That is kept by every call, which moves on if it matches
and is back where it started if it fails, with an error no earlier than its
start (`Graph.call_answers`). Repetitions whose bounds are out of order would
break it, as their error tells the character at another place than its own;
the constructors make none (`Kind.Ordered`).
-/

namespace ParserGraph

/-! ## Positions by what is before them -/

/-- The place after a text read from the start: its bytes, one line more than it has newlines, and
one column more than it has characters after the last of them. -/
def Position.behind (front : List Char) : Position :=
  ⟨bytes front, 1 + front.count '\n', 1 + (front.reverse.takeWhile (· ≠ '\n')).length⟩

/-- Moving along a text comes to the place after it. -/
theorem Position.after_start (front : List Char) : start.after front = behind front := by
  induction front using List.reverseRecOn with
  | nil => rfl
  | append_singleton front c ih =>
    rw [after_append, ih, after_cons, after_nil, advance]
    split
    · next hc =>
      subst hc
      ext <;> simp [behind]
      omega
    · next hc =>
      ext <;> simp [behind, hc]
      omega

/-- The bytes of a text are those of its string. -/
theorem bytes_toList (text : String) : bytes text.toList = text.utf8ByteSize := by
  have hchars : ∀ chars, (String.ofList chars).utf8ByteSize = bytes chars := by
    intro chars
    induction chars with
    | nil => rfl
    | cons c chars ih =>
      have hcons : String.ofList (c :: chars) = String.singleton c ++ String.ofList chars := by simp
      rw [hcons, String.utf8ByteSize_append, ih, String.utf8ByteSize_singleton, bytes_cons]
  rw [← hchars, String.ofList_toList]

/-- A place that is reached from the start of an input stands behind a beginning of it. -/
theorem Cursor.exists_of_start_le {input : String} {c : Cursor} (h : start input ≤ c) :
    ∃ front back, input.toList = front ++ back ∧ c = ⟨front.reverse, back, .behind front⟩ := by
  obtain ⟨n, rfl⟩ := h
  refine ⟨input.toList.take n, input.toList.drop n, (List.take_append_drop n _).symm, ?_⟩
  have hbehind := (start input).behind_advance n
  have hahead := (start input).ahead_advance n
  have hposition := (start input).position_advance n
  change _ = Position.start.after (input.toList.take n) at hposition
  rw [Position.after_start] at hposition
  change _ = (input.toList.take n).reverse ++ [] at hbehind
  rw [List.append_nil] at hbehind
  generalize (start input).advance n = c at hbehind hahead hposition
  cases c
  cases hbehind
  cases hahead
  cases hposition
  rfl

/-! ## Errors by where they point -/

/-- An error that points behind a beginning of the input and tells what stands there. -/
def ParseError.LocatedIn (e : ParseError) (input : String) : Prop :=
  ∃ front back, input.toList = front ++ back ∧ e.position = .behind front ∧ e.found = back.head?

/-- An error that a call at a place may tell: it is located, and not before that place. -/
def Reports (input : String) (c : Cursor) (e : ParseError) : Prop :=
  e.LocatedIn input ∧ c.position.offset ≤ e.position.offset

section

variable {input : String} {c d : Cursor} {e f : ParseError}

/-- An error that is told where the run stands is located there. -/
theorem Reports.of_here (hc : Cursor.start input ≤ c) (hposition : e.position = c.position)
    (hfound : e.found = c.peek) : Reports input c e := by
  refine ⟨?_, Nat.le_of_eq (by rw [hposition])⟩
  obtain ⟨front, back, hinput, rfl⟩ := Cursor.exists_of_start_le hc
  exact ⟨front, back, hinput, hposition, hfound⟩

theorem Cursor.offset_le (h : c ≤ d) : c.position.offset ≤ d.position.offset := by
  obtain ⟨n, rfl⟩ := h
  rw [offset_advance]
  omega

/-- What is not before a place is not before those that lead to it. -/
theorem Reports.of_le (h : Reports input d e) (hle : c ≤ d) : Reports input c e :=
  ⟨h.1, Nat.le_trans (Cursor.offset_le hle) h.2⟩

/-- Of two errors, merging takes the position and what is found from one. -/
theorem ParseError.merge_place (e f : ParseError) :
    ((e.merge f).position = e.position ∧ (e.merge f).found = e.found) ∨
      ((e.merge f).position = f.position ∧ (e.merge f).found = f.found) := by
  unfold merge
  split
  · exact .inl ⟨rfl, rfl⟩
  split
  · exact .inr ⟨rfl, rfl⟩
  · exact .inl ⟨rfl, rfl⟩

theorem ParseError.LocatedIn.merge (he : e.LocatedIn input) (hf : f.LocatedIn input) :
    (e.merge f).LocatedIn input := by
  unfold LocatedIn
  rcases e.merge_place f with ⟨hposition, hfound⟩ | ⟨hposition, hfound⟩
  · rw [hposition, hfound]; exact he
  · rw [hposition, hfound]; exact hf

theorem Reports.merge (he : Reports input c e) (hf : Reports input c f) :
    Reports input c (e.merge f) := by
  refine ⟨he.1.merge hf.1, ?_⟩
  rcases e.merge_place f with ⟨hposition, -⟩ | ⟨hposition, -⟩
  · rw [hposition]; exact he.2
  · rw [hposition]; exact hf.2

theorem Reports.joinTo {before : Option ParseError} (he : Reports input c e)
    (h : ∀ f, before = some f → Reports input c f) : Reports input c (e.joinTo before) := by
  cases before with
  | none => exact he
  | some f => exact (h f rfl).merge he

theorem ParseError.LocatedIn.joinTo {before : Option ParseError} (he : e.LocatedIn input)
    (h : ∀ f, before = some f → f.LocatedIn input) : (e.joinTo before).LocatedIn input := by
  cases before with
  | none => exact he
  | some f => exact (h f rfl).merge he

end

/-! ## Bounds in order -/

/-- A kind whose bounds are in order, if it has any. -/
def Kind.Ordered : Kind → Prop
  | .repetition _ min (some max) => min ≤ max
  | _ => True

/-- A graph all of whose nodes have bounds in order. -/
def Graph.Ordered (g : Graph) : Prop := ∀ id node, g.node? id = some node → node.kind.Ordered

/-! ## Sound states -/

/-- A run over an input that stands at a place of it, with errors that point into it; once it has
ended, it is not beyond the error that ended it. -/
structure Machine.Sound (input : String) (m : Machine) : Prop where
  cursor : Cursor.start input ≤ m.cursor
  kept : ∀ e, m.kept = some e → e.LocatedIn input
  stopped : ∀ e, m.stopped = some e → Reports input m.cursor e

theorem Machine.sound_start (input : String) : (start input).Sound input :=
  ⟨Cursor.le_refl _, fun _ h => (nomatch h), fun _ h => (nomatch h)⟩

namespace Machine

variable {α β : Type} {input : String} {c : Cursor}

/-- A run that stands at a place. -/
def At (c : Cursor) (m : Machine) : Prop := m.cursor = c

/-- A run that stands at a place and has not ended. -/
def GoingAt (c : Cursor) (m : Machine) : Prop := m.cursor = c ∧ m.stopped = none

/-- From sound states with a property, a part of a run that comes to a result comes to a sound
state, with a result and a place in a given relation. -/
def Ensures (input : String) (P : Machine → Prop) (R : α → Cursor → Prop) (x : Step α) : Prop :=
  ∀ m a m', m.Sound input → P m → x.run m = .ok (a, m') → m'.Sound input ∧ R a m'.cursor

namespace Ensures

variable {P : Machine → Prop} {R : α → Cursor → Prop} {S : β → Cursor → Prop} {x : Step α}
  {f : α → Step β}

theorem pure {a : α} (h : R a c) : Ensures input (At c) R (Pure.pure a) := by
  intro m a' m' hm hat hrun
  cases hrun
  exact ⟨hm, hat ▸ h⟩

theorem bind (hx : Ensures input P R x)
    (hf : ∀ a c', R a c' → Ensures input (At c') S (f a)) : Ensures input P S (x >>= f) := by
  intro m b m'' hm hP hrun
  rw [StateT.run_bind] at hrun
  cases hrunx : x.run m with
  | error e => rw [hrunx] at hrun; exact nomatch hrun
  | ok r =>
    obtain ⟨a, m'⟩ := r
    rw [hrunx] at hrun
    obtain ⟨hm', ha⟩ := hx m a m' hm hP hrunx
    exact hf a m'.cursor ha m' b m'' hm' rfl hrun

/-- Looking where the run stands tells a place of the input. -/
theorem here {f : Cursor → Step α}
    (h : Cursor.start input ≤ c → Ensures input (At c) R (f c)) :
    Ensures input (At c) R (here >>= f) := by
  intro m a m' hm hat hrun
  cases hat
  exact h hm.cursor m a m' hm rfl hrun

theorem going (h : Ensures input (At c) R x) : Ensures input (GoingAt c) R x :=
  fun m a m' hm hP hrun => h m a m' hm hP.1 hrun

/-- As long as the run has not ended, it looks where it stands the same way. -/
theorem hereGoing {f : Cursor → Step α}
    (h : Cursor.start input ≤ c → Ensures input (GoingAt c) R (f c)) :
    Ensures input (GoingAt c) R (Machine.here >>= f) := by
  intro m a m' hm hat hrun
  obtain ⟨rfl, hstopped⟩ := hat
  exact h hm.cursor m a m' hm ⟨rfl, hstopped⟩ hrun

/-- Going back is going where no error is before. -/
theorem moveBack {c' : Cursor} (hc : Cursor.start input ≤ c') (hle : c' ≤ c) :
    Ensures input (At c) (fun _ stop => stop = c') (moveTo c') := by
  intro m u m' hm hat hrun
  cases hat
  cases hrun
  exact ⟨⟨hc, hm.kept, fun e he => (hm.stopped e he).of_le hle⟩, rfl⟩

/-- Only a run that has not ended goes on. -/
theorem moveOn {c' : Cursor} (hle : c ≤ c') :
    Ensures input (GoingAt c) (fun _ stop => stop = c') (moveTo c') := by
  intro m u m' hm hat hrun
  obtain ⟨rfl, hstopped⟩ := hat
  cases hrun
  exact ⟨⟨Cursor.le_trans hm.cursor hle, hm.kept, fun e he => (nomatch hstopped.symm.trans he)⟩,
    rfl⟩

theorem abandon {start : Position} {e : ParseError} (he : e.LocatedIn input) :
    Ensures input (At c) (fun _ stop => stop = c) (abandon start e) := by
  intro m u m' hm hat hrun
  cases hat
  cases hrun
  refine ⟨⟨hm.cursor, fun f hf => ?_, hm.stopped⟩, rfl⟩
  dsimp only at hf
  split at hf
  · exact hm.kept f hf
  · cases hf
    exact he.joinTo hm.kept

theorem isolated (hx : Ensures input (At c) R x) : Ensures input (At c) R (isolated x) := by
  intro m a m' hm hat hrun
  change (StateT.run x { m with kept := none } >>= fun r =>
    (Except.ok (r.1, { r.2 with kept := m.kept }) : Except Misuse _)) = _ at hrun
  cases hrunx : x.run { m with kept := none } with
  | error e => rw [hrunx] at hrun; exact nomatch hrun
  | ok r =>
    obtain ⟨a', inner⟩ := r
    rw [hrunx] at hrun
    cases hrun
    obtain ⟨hinner, hR⟩ :=
      hx { m with kept := none } _ inner ⟨hm.cursor, fun _ h => (nomatch h), hm.stopped⟩ hat hrunx
    exact ⟨⟨hinner.cursor, hm.kept, hinner.stopped⟩, hR⟩

end Ensures

/-- What a part of a run that started at a place comes to: it moves on, and a failure is one that a
call there may tell. -/
def Settles (input : String) {α : Type} (c : Cursor) : Except ParseError α → Cursor → Prop
  | .ok _, stop => c ≤ stop
  | .error e, stop => c ≤ stop ∧ Reports input c e

/-- What a call comes to: it moves on, or is back where it started if it fails. -/
def Answers (input : String) (c : Cursor) : Except ParseError Tree → Cursor → Prop
  | .ok _, stop => c ≤ stop
  | .error e, stop => stop = c ∧ Reports input c e

theorem Answers.settles {r : Except ParseError Tree} {stop : Cursor} (h : Answers input c r stop) :
    Settles input c r stop := by
  cases r with
  | ok tree => exact h
  | error e =>
    obtain ⟨rfl, he⟩ := h
    exact ⟨Cursor.le_refl _, he⟩

/-- What is left of the rounds of a repetition: nothing but a failed one tells an error, and rounds
that ran out have taken a character each, unless there was an upper bound. -/
def RoundsSettle (input : String) (unbounded : Bool) (n : Nat) (c : Cursor) :
    List Tree × Attempt.Ending → Cursor → Prop
  | (_, .stalled), stop => c ≤ stop
  | (trees, .full), stop =>
    c ≤ stop ∧ trees.length = n ∧ (unbounded = true → stop.ahead.length + n ≤ c.ahead.length)
  | (_, .gaveUp _ e), stop => c ≤ stop ∧ Reports input c e

/-! ## Parts of a run -/

section

variable {call : Routine} (hcall : ∀ id c, Ensures input (At c) (Answers input c) (call id))
include hcall

theorem inOrder_ensures (ids : List ParserId) (c : Cursor) :
    Ensures input (At c) (Settles input c) (inOrder call ids) := by
  induction ids generalizing c with
  | nil => exact .pure (Cursor.le_refl c)
  | cons id ids ih =>
    refine (hcall id c).bind fun r mid h => ?_
    cases r with
    | error e =>
      obtain ⟨rfl, he⟩ := h
      exact .pure ⟨Cursor.le_refl _, he⟩
    | ok tree =>
      refine (ih mid).bind fun r' stop h' => ?_
      cases r' with
      | error e => exact .pure ⟨Cursor.le_trans h h'.1, h'.2.of_le h⟩
      | ok trees => exact .pure (Cursor.le_trans h h')

theorem sequence_ensures (parts : List ParserId) (c : Cursor) :
    Ensures input (At c) (Settles input c) (sequence call parts) := by
  refine .here fun _ => (inOrder_ensures hcall parts c).bind fun r stop h => ?_
  cases r with
  | error e => exact .pure h
  | ok trees => exact .pure h

theorem firstOf_ensures (failure : Option ParseError) (ids : List ParserId) (c : Cursor)
    (h : ∀ e, failure = some e → Reports input c e) :
    Ensures input (At c) (Settles input c) (firstOf call failure ids) := by
  induction ids generalizing failure with
  | nil =>
    cases failure with
    | none => exact .here fun hc => .pure ⟨Cursor.le_refl c, .of_here hc rfl rfl⟩
    | some e => exact .pure ⟨Cursor.le_refl c, h e rfl⟩
  | cons id ids ih =>
    rw [firstOf]
    refine (hcall id c).bind fun r stop hr => ?_
    cases r with
    | ok tree => exact .pure hr
    | error e =>
      obtain ⟨rfl, he⟩ := hr
      exact ih _ fun f hf => Option.some.inj hf ▸ he.joinTo h

theorem optional_ensures (part : ParserId) (c : Cursor) :
    Ensures input (At c) (Settles input c) (optional call part) := by
  refine .here fun _ => (hcall part c).bind fun r stop h => ?_
  cases r with
  | ok tree => exact .pure h
  | error e =>
    obtain ⟨rfl, he⟩ := h
    refine (Ensures.abandon he.1).bind fun _ back hback => ?_
    cases hback
    exact .pure (Cursor.le_refl stop)

theorem rounds_ensures (part : ParserId) (unbounded : Bool) (n : Nat) (c : Cursor) :
    Ensures input (At c) (RoundsSettle input unbounded n c)
      (rounds call part unbounded n) := by
  induction n generalizing c with
  | zero => exact .pure ⟨Cursor.le_refl c, rfl, fun _ => Nat.le_refl _⟩
  | succ n ih =>
    refine .here fun _ => (hcall part c).bind fun r mid h => ?_
    cases r with
    | error e =>
      obtain ⟨rfl, he⟩ := h
      exact .pure ⟨Cursor.le_refl _, he⟩
    | ok tree =>
      refine .here fun _ => ?_
      dsimp only
      split
      · exact .pure h
      · next hgoes =>
        have hnext : unbounded = true → mid.ahead.length < c.ahead.length := by
          rintro rfl
          refine Cursor.length_ahead_lt h ?_
          rintro rfl
          simp at hgoes
        refine (ih mid).bind fun rest stop hrest => ?_
        obtain ⟨trees, ending⟩ := rest
        cases ending with
        | stalled => exact .pure (Cursor.le_trans h hrest)
        | full =>
          obtain ⟨hle, hlength, htaken⟩ := hrest
          refine .pure ⟨Cursor.le_trans h hle, congrArg (· + 1) hlength, fun hu => ?_⟩
          have := htaken hu
          have := hnext hu
          omega
        | gaveUp start e => exact .pure ⟨Cursor.le_trans h hrest.1, hrest.2.of_le h⟩

/-- Rounds never run out below the lower bound, so that only a failed one is told. -/
theorem repetition_ensures {part : ParserId} {min : Nat} {max : Option Nat}
    (hbounds : (Kind.repetition part min max).Ordered) (c : Cursor) :
    Ensures input (At c) (Settles input c) (repetition call part min max) := by
  refine .here fun _ => (rounds_ensures hcall part _ _ c).bind fun r stop h => ?_
  obtain ⟨trees, ending⟩ := r
  cases ending with
  | stalled => exact .pure h
  | full =>
    obtain ⟨hle, hlength, htaken⟩ := h
    have henough : ¬ trees.length < min := by
      cases max with
      | some high =>
        have hmin : min ≤ high := hbounds
        have hhigh : trees.length = high := hlength
        omega
      | none =>
        -- one more round than there are characters cannot have taken one each
        have := htaken rfl
        simp only [Option.getD_none] at this
        omega
    refine .here fun _ => ?_
    rw [if_neg henough]
    exact .pure hle
  | gaveUp start e =>
    obtain ⟨hle, he⟩ := h
    dsimp only
    split
    · exact .pure ⟨hle, he⟩
    · refine (Ensures.abandon he.1).bind fun _ back hback => ?_
      cases hback
      exact .pure hle

theorem lookahead_ensures (part : ParserId) (negated : Bool) (description : String) (c : Cursor) :
    Ensures input (At c) (Settles input c) (lookahead call part negated description) := by
  refine .here fun hc => (hcall part c).isolated.bind fun r stop h => ?_
  have hle : c ≤ stop := by
    cases r with
    | ok tree => exact h
    | error e => exact h.1 ▸ Cursor.le_refl c
  refine (Ensures.moveBack hc hle).bind fun _ back hback => ?_
  subst hback
  cases r with
  | ok tree =>
    cases negated with
    | false => exact .pure (Cursor.le_refl back)
    | true => exact .here fun _ => .pure ⟨Cursor.le_refl back, .of_here hc rfl rfl⟩
  | error e =>
    cases negated with
    | false => exact .pure ⟨Cursor.le_refl back, h.2⟩
    | true => exact .pure (Cursor.le_refl back)

theorem transform_ensures (part : ParserId) (mapping : Tree → Tree) (c : Cursor) :
    Ensures input (At c) (Settles input c) (transform call part mapping) := by
  refine (hcall part c).bind fun r stop h => ?_
  cases r with
  | ok tree => exact .pure h
  | error e => exact .pure h.settles

theorem token_ensures (part : ParserId) (c : Cursor) :
    Ensures input (At c) (Settles input c) (token call part) := by
  refine .here fun _ => (hcall part c).bind fun r stop h => ?_
  cases r with
  | ok tree => exact .here fun _ => .pure h
  | error e => exact .pure h.settles

theorem expect_ensures (part : ParserId) (label : String) (c : Cursor) :
    Ensures input (At c) (Settles input c) (expect call part label) := by
  refine .here fun hc => (hcall part c).isolated.bind fun r stop h => ?_
  cases r with
  | ok tree => exact .pure h
  | error e => exact .pure ⟨h.settles.1, .of_here hc rfl rfl⟩

end

theorem terminal_ensures (t : Terminal) (c : Cursor) :
    Ensures input (GoingAt c) (Settles input c) (terminal t) := by
  refine .hereGoing fun hc => ?_
  cases t.span c with
  | some n =>
    refine (Ensures.moveOn (c.le_advance n)).bind fun _ stop hstop => ?_
    cases hstop
    exact .pure (c.le_advance n)
  | none =>
    refine Ensures.going (.pure ⟨Cursor.le_refl c, .of_here hc ?_ ?_⟩)
    · cases t <;> rfl
    · cases t <;> rfl

/-- **What a node does moves on or tells an error that is located.** -/
theorem perform_ensures {call : Routine}
    (hcall : ∀ id c, Ensures input (At c) (Answers input c) (call id)) (g : Graph) {node : Node}
    (hnode : node.kind.Ordered) (c : Cursor) :
    Ensures input (GoingAt c) (Settles input c) (perform g call node) := by
  obtain ⟨name, kind⟩ := node
  cases kind with
  | terminal t => exact terminal_ensures t c
  | sequence parts => exact (sequence_ensures hcall parts c).going
  | alternation branches =>
    exact (firstOf_ensures hcall none branches c fun _ h => (nomatch h)).going
  | repetition part min max => exact (repetition_ensures hcall hnode c).going
  | optional part => exact (optional_ensures hcall part c).going
  | lookahead part negated => exact (lookahead_ensures hcall part negated _ c).going
  | transform part mapping => exact (transform_ensures hcall part mapping c).going
  | token part => exact (token_ensures hcall part c).going
  | expect part label => exact (expect_ensures hcall part label c).going
  | rule body =>
    cases body with
    | none => exact .hereGoing fun hc => .going (.pure ⟨Cursor.le_refl c, .of_here hc rfl rfl⟩)
    | some body =>
      intro m r m' hm hat hrun
      obtain ⟨hm', hr⟩ := hcall body c m r m' hm hat.1 hrun
      exact ⟨hm', hr.settles⟩

theorem enter_ensures {g : Graph} (hg : g.Ordered) {call : Routine}
    (hcall : ∀ id c, Ensures input (At c) (Answers input c) (call id)) (id : ParserId)
    (c : Cursor) : Ensures input (GoingAt c) (Answers input c) (enter g call id) := by
  unfold enter
  cases hnode : g.node? id with
  | none =>
    intro m r m' _ _ hrun
    exact nomatch hrun
  | some node =>
    refine .hereGoing fun hc => ?_
    refine (perform_ensures hcall g (hg id node hnode) c).bind fun r stop h => ?_
    cases r with
    | ok tree => exact .pure h
    | error e =>
      refine (Ensures.moveBack hc h.1).bind fun _ back hback => ?_
      exact .pure ⟨hback, h.2⟩

theorem stop_ensures (g : Graph) (c : Cursor) :
    Ensures input (GoingAt c) (Answers input c) (stop g) := by
  intro m r m' hm hat hrun
  obtain ⟨rfl, -⟩ := hat
  cases hrun
  have hreports : Reports input m.cursor (g.tooDeep m.cursor) := .of_here hm.cursor rfl rfl
  exact ⟨⟨hm.cursor, hm.kept, fun e he => Option.some.inj he ▸ hreports⟩, rfl, hreports⟩

/-- Once the run has ended, its error is told wherever the run has gone back to. -/
theorem unlessStopped_ensures {part : Step (Except ParseError Tree)} {c : Cursor}
    (h : Ensures input (GoingAt c) (Answers input c) part) :
    Ensures input (At c) (Answers input c) (unlessStopped part) := by
  intro m r m' hm hat hrun
  change unlessStopped part m = _ at hrun
  unfold unlessStopped at hrun
  split at hrun
  · next e hstopped =>
    cases hat
    cases hrun
    exact ⟨hm, rfl, hm.stopped e hstopped⟩
  · next hstopped => exact h m r m' hm ⟨hat, hstopped⟩ hrun

end Machine

open Machine in
/-- **Every call keeps the state of a run sound.** If it matches, it moves on; if it fails, it is
back where it started, and its error points there or further on. -/
theorem Graph.call_answers {g : Graph} (hg : g.Ordered) (input : String) (room : Nat)
    (id : ParserId) (c : Cursor) : Ensures input (At c) (Answers input c) (g.call room id) := by
  induction room generalizing id c with
  | zero => exact unlessStopped_ensures (stop_ensures g c)
  | succ room ih => exact unlessStopped_ensures (enter_ensures hg ih id c)

end ParserGraph
