import Mathlib
import ParserGraph.Proofs.Run.Composition

/-!
# Attempts given up — what the error that is kept aside is made of

An option matches where its operand does not, and so does a repetition that
has had rounds enough. The operand was an attempt that is given up then; if it
failed past the place where it started, its error is kept aside, unless a
parser around forgets it again. In the turns of a run such an attempt shows as
a call that failed right before the parser that made it matched
(`Graph.givenUpBetween`). The error kept aside is that of all such attempts,
merged in the order of the run (`Graph.trace_kept`): the script of a parser
sets an error aside just then and at no other time (`Script.Course`).
-/

namespace ParserGraph

open ParseError

/-! ## Attempts in the turns of a run -/

/-- The call that a turn is of. -/
def Turn.visit : Turn → Visit
  | begun visit => visit
  | ended visit _ => visit

/-- Errors kept aside one after another, after what was kept aside before. -/
def ParseError.joinAll (before : Option ParseError) (errors : List ParseError) :
    Option ParseError :=
  errors.foldl (fun kept e => some (e.joinTo kept)) before

theorem ParseError.joinAll_append (before : Option ParseError) (front back : List ParseError) :
    joinAll before (front ++ back) = joinAll (joinAll before front) back :=
  List.foldl_append

/-- Several errors may as well be merged among themselves first. -/
theorem ParseError.joinAll_eq (before : Option ParseError) (errors : List ParseError) :
    joinAll before errors = joinAfter before (joinAll none errors) := by
  induction errors generalizing before with
  | nil => rfl
  | cons e errors ih =>
    calc joinAll before (e :: errors)
        = joinAfter (joinAfter before (some e)) (joinAll none errors) := ih _
      _ = joinAfter before (joinAfter (some e) (joinAll none errors)) := joinAfter_assoc _ _ _
      _ = joinAfter before (joinAll none (e :: errors)) := congrArg _ (ih _).symm

/-- Errors merge into one at the furthest offset of any of them. -/
theorem ParseError.joinAll_offset {first e : ParseError} {errors : List ParseError}
    (h : joinAll (some first) errors = some e) :
    (∀ f ∈ first :: errors, f.position.offset ≤ e.position.offset) ∧
      ∃ f ∈ first :: errors, f.position.offset = e.position.offset := by
  induction errors generalizing first with
  | nil =>
    cases h
    exact ⟨fun f hf => Nat.le_of_eq (List.mem_singleton.1 hf ▸ rfl), e, List.mem_cons_self, rfl⟩
  | cons next errors ih =>
    obtain ⟨hall, f, hf, heq⟩ := ih h
    have hmerged : (next.joinTo (some first)).position.offset =
        max first.position.offset next.position.offset := merge_offset first next
    have hle := hall _ List.mem_cons_self
    refine ⟨?_, ?_⟩
    · rintro x (_ | ⟨_, _ | ⟨_, hx⟩⟩)
      · omega
      · omega
      · exact hall x (List.mem_cons_of_mem _ hx)
    · rcases List.mem_cons.1 hf with rfl | hf
      · -- the merged error is at the offset of one of the two
        rcases Nat.le_total next.position.offset first.position.offset with hle' | hle'
        · exact ⟨first, List.mem_cons_self, by omega⟩
        · exact ⟨next, List.mem_cons_of_mem _ List.mem_cons_self, by omega⟩
      · exact ⟨f, List.mem_cons_of_mem _ (List.mem_cons_of_mem _ hf), heq⟩

namespace Graph

/-- Whether a parser may match where an attempt that it made has failed. -/
def recovers (g : Graph) (id : ParserId) : Bool :=
  match g.kind? id with
  | some (.optional _) => true
  | some (.repetition _ _ _) => true
  | _ => false

/-- The error of an attempt that was given up between two turns. A call failed past the place where
it started, and right after the parser that made it matched: an option, or a repetition that had
enough. It does not count inside of a parser that forgets what is kept aside. -/
def givenUpBetween (g : Graph) : Turn → Turn → Option ParseError
  | .ended attempt (.failed e), .ended visit (.matched _ _) =>
    if attempt.enclosing = visit.id :: visit.enclosing ∧ g.recovers visit.id ∧
        (∀ q ∈ attempt.enclosing, ¬ g.isolates q) ∧
        attempt.cursor.position.offset < e.position.offset then
      some e
    else none
  | _, _ => none

/-- The errors of the attempts that were given up in some turns, in order. -/
def givenUp (g : Graph) : List Turn → List ParseError
  | first :: second :: turns =>
    (g.givenUpBetween first second).toList ++ givenUp g (second :: turns)
  | _ => []

variable {g : Graph} {visit attempt : Visit} {turn : Turn} {front turns : List Turn} {o : Outcome}
  {e : ParseError}

@[simp]
theorem givenUp_singleton (turn : Turn) : g.givenUp [turn] = [] := rfl

theorem givenUp_cons_cons (first second : Turn) (turns : List Turn) :
    g.givenUp (first :: second :: turns) =
      (g.givenUpBetween first second).toList ++ g.givenUp (second :: turns) := rfl

/-- Nothing is given up where a call begins. -/
theorem givenUpBetween_begun (turn : Turn) (visit : Visit) :
    g.givenUpBetween turn (.begun visit) = none := by
  cases turn with
  | begun _ => rfl
  | ended _ o => cases o <;> rfl

/-- What is given up in turns is given up up to one of them, or from it on. -/
theorem givenUp_append (front : List Turn) (turn : Turn) (back : List Turn) :
    g.givenUp (front ++ turn :: back) =
      g.givenUp (front ++ [turn]) ++ g.givenUp (turn :: back) := by
  induction front with
  | nil => rfl
  | cons first front ih =>
    cases front with
    | nil => rw [List.singleton_append, givenUp_cons_cons, List.singleton_append,
        givenUp_cons_cons, givenUp_singleton, List.append_nil]
    | cons second front =>
      rw [List.cons_append, List.cons_append, givenUp_cons_cons, List.cons_append,
        List.cons_append, givenUp_cons_cons, List.append_assoc]
      exact congrArg _ ih

/-- Nothing is given up by calls that some parser forgets. -/
theorem givenUp_eq_nil (last : Turn) (h : ∀ turn ∈ front, ∀ attempt e,
      turn = .ended attempt (.failed e) → ∃ q ∈ attempt.enclosing, g.isolates q) :
    g.givenUp (front ++ [last]) = [] := by
  have hnone : ∀ first second : Turn, (∀ attempt e, first = .ended attempt (.failed e) →
      ∃ q ∈ attempt.enclosing, g.isolates q) → g.givenUpBetween first second = none := by
    intro first second hfirst
    unfold givenUpBetween
    split
    · next attempt e visit tree stop =>
      obtain ⟨q, hq, hisolates⟩ := hfirst attempt e rfl
      exact if_neg fun h => h.2.2.1 q hq hisolates
    · rfl
  induction front with
  | nil => rfl
  | cons first front ih =>
    obtain ⟨hfirst, hfront⟩ := List.forall_mem_cons.1 h
    cases front with
    | nil =>
      rw [List.singleton_append, givenUp_cons_cons, hnone _ _ hfirst]
      rfl
    | cons second front =>
      rw [List.cons_append, List.cons_append, givenUp_cons_cons, hnone _ _ hfirst]
      exact ih hfront

end Graph

/-! ## When scripts set errors aside -/

/-- What a script did last. -/
inductive Recent where
  /-- It has done nothing. -/
  | nothing
  /-- It made a call at a place. -/
  | called (cursor : Cursor) (outcome : Outcome)
  /-- It set an error aside. -/
  | gaveUp

/-- A script did nothing last that has to be given up. -/
def Recent.Settled : Recent → Prop
  | nothing => True
  | called _ (.matched _ _) => True
  | called _ (.failed _) => False
  | gaveUp => False

/-- How a script may end after what it did last: with a match after it set an error aside, which it
may only do if it recovers; and after a call that failed with a match only if it does not. -/
def Recent.Ends (recovers : Bool) : Recent → Outcome → Prop
  | gaveUp, .matched _ _ => recovers = true
  | gaveUp, .failed _ => False
  | called _ (.failed _), .matched _ _ => recovers = false
  | _, _ => True

theorem Recent.Settled.ends {recent : Recent} (h : recent.Settled) (recovers : Bool) (o : Outcome) :
    recent.Ends recovers o := by
  unfold Settled at h
  split at h
  · cases o <;> trivial
  · cases o <;> trivial
  · exact h.elim
  · exact h.elim

/-- A script that does not recover never sets anything aside, and may end in any way. -/
theorem Recent.ends_of_ne {recent : Recent} (h : recent ≠ gaveUp) (o : Outcome) :
    recent.Ends false o := by
  cases recent with
  | nothing => cases o <;> trivial
  | called c inner => cases inner <;> cases o <;> trivial
  | gaveUp => exact absurd rfl h

namespace Script

variable {α β : Type} {R : Recent → α → Prop} {S : Recent → β → Prop} {recent : Recent}

/-- The course of a script that isolates no call, and sets an error aside only right after the call
that failed with it, before it ends. -/
def Course (R : Recent → α → Prop) : Recent → Script α → Prop
  | recent, done a => R recent a
  | recent, call alone _ c next =>
    alone = false ∧ recent ≠ .gaveUp ∧ ∀ o, (next o).Course R (.called c o)
  | recent, abandon start e next =>
    (∃ c, recent = .called c (.failed e) ∧ start = c.position) ∧ next.Course R .gaveUp

namespace Course

theorem bind {s : Script α} {f : α → Script β} (hs : s.Course R recent)
    (hf : ∀ recent a, R recent a → (f a).Course S recent) : (s >>= f).Course S recent := by
  change (s.bind f).Course S recent
  induction s generalizing recent with
  | done a => exact hf recent a hs
  | call alone id c next ih => exact ⟨hs.1, hs.2.1, fun o => ih o (hs.2.2 o)⟩
  | abandon start e next ih => exact ⟨hs.1, ih hs.2⟩

theorem mono {R' : Recent → α → Prop} {s : Script α} (hs : s.Course R recent)
    (h : ∀ recent a, R recent a → R' recent a) : s.Course R' recent := by
  induction s generalizing recent with
  | done a => exact h recent a hs
  | call alone id c next ih => exact ⟨hs.1, hs.2.1, fun o => ih o (hs.2.2 o)⟩
  | abandon start e next ih => exact ⟨hs.1, ih hs.2⟩

theorem ask (id : ParserId) (c : Cursor) (h : recent ≠ .gaveUp) :
    (Script.ask id c).Course (fun recent o => recent = .called c o) recent :=
  ⟨rfl, h, fun _ => rfl⟩

theorem setAside (c : Cursor) (e : ParseError) :
    (Script.setAside c.position e).Course (fun recent _ => recent = .gaveUp)
      (.called c (.failed e)) :=
  ⟨⟨c, rfl, rfl⟩, rfl⟩

end Course

/-! ### The courses of the combinators -/

theorem inOrder_course (ids : List ParserId) (c : Cursor) (h : recent ≠ .gaveUp) :
    (inOrder ids c).Course (fun recent _ => recent ≠ .gaveUp) recent := by
  induction ids generalizing c recent with
  | nil => exact h
  | cons id ids ih =>
    refine (Course.ask id c h).bind fun recent o ho => ?_
    subst ho
    cases o with
    | failed e => exact Recent.noConfusion
    | matched tree stop =>
      refine (ih stop Recent.noConfusion).bind fun recent r hr => ?_
      cases r <;> exact hr

theorem sequence_course (parts : List ParserId) (c : Cursor) :
    (sequence parts c).Course (Recent.Ends false) .nothing := by
  refine (inOrder_course parts c Recent.noConfusion).bind fun recent r hr => ?_
  cases r <;> exact Recent.ends_of_ne hr _

theorem firstOf_course (c : Cursor) (failure : Option ParseError) (ids : List ParserId)
    (h : recent ≠ .gaveUp) : (firstOf c failure ids).Course (Recent.Ends false) recent := by
  induction ids generalizing failure recent with
  | nil => cases failure <;> exact Recent.ends_of_ne h _
  | cons id ids ih =>
    rw [firstOf]
    refine (Course.ask id c h).bind fun recent o ho => ?_
    subst ho
    cases o with
    | matched tree stop => exact Recent.ends_of_ne Recent.noConfusion _
    | failed e => exact ih _ Recent.noConfusion

theorem optional_course (part : ParserId) (c : Cursor) :
    (optional part c).Course (Recent.Ends true) .nothing := by
  refine (Course.ask part c Recent.noConfusion).bind fun recent o ho => ?_
  subst ho
  cases o with
  | matched tree stop => exact trivial
  | failed e =>
    refine (Course.setAside c e).bind fun recent _ hrecent => ?_
    subst hrecent
    exact rfl

/-- Rounds end after a match, or after the round that failed. -/
theorem rounds_course (part : ParserId) (unbounded : Bool) (n : Nat) (c : Cursor)
    (h : recent.Settled) :
    (rounds part unbounded n c).Course (fun recent r => match r.2.2 with
      | .gaveUp start e => ∃ c, recent = .called c (.failed e) ∧ start = c.position
      | _ => recent.Settled) recent := by
  have hne : ∀ {recent : Recent}, recent.Settled → recent ≠ .gaveUp := by
    rintro _ h rfl
    exact h
  induction n generalizing c recent with
  | zero => exact h
  | succ n ih =>
    refine (Course.ask part c (hne h)).bind fun recent o ho => ?_
    subst ho
    cases o with
    | failed e => exact ⟨c, rfl, rfl⟩
    | matched tree stop =>
      dsimp only
      split
      · exact trivial
      · have hsettled : Recent.Settled (.called c (.matched tree stop)) := trivial
        exact (ih stop hsettled).bind fun recent r hr => hr

theorem repetition_course (part : ParserId) (min : Nat) (max : Option Nat) (c : Cursor) :
    (repetition part min max c).Course (Recent.Ends true) .nothing := by
  have hsettled : Recent.Settled .nothing := trivial
  refine (rounds_course part _ _ c hsettled).bind fun recent r hr => ?_
  obtain ⟨trees, stop, ending⟩ := r
  cases ending with
  | stalled => exact hr.ends true _
  | full =>
    dsimp only
    split <;> exact hr.ends true _
  | gaveUp start e =>
    obtain ⟨d, rfl, rfl⟩ := hr
    dsimp only
    split
    · exact trivial
    · refine (Course.setAside d e).bind fun recent _ hrecent => ?_
      subst hrecent
      exact rfl

theorem transform_course (part : ParserId) (mapping : Tree → Tree) (c : Cursor) :
    (transform part mapping c).Course (Recent.Ends false) .nothing := by
  refine (Course.ask part c Recent.noConfusion).bind fun recent o ho => ?_
  subst ho
  cases o <;> exact Recent.ends_of_ne Recent.noConfusion _

theorem token_course (part : ParserId) (c : Cursor) :
    (token part c).Course (Recent.Ends false) .nothing := by
  refine (Course.ask part c Recent.noConfusion).bind fun recent o ho => ?_
  subst ho
  cases o <;> exact Recent.ends_of_ne Recent.noConfusion _

end Script

/-- **The course of a parser that forgets nothing**: it sets an error aside just when it recovers
from the call that failed with it. -/
theorem Graph.script_course {g : Graph} {id : ParserId} {node : Node}
    (hnode : g.node? id = some node) (hopen : ¬ g.isolates id) (c : Cursor) :
    (node.script g c).Course (Recent.Ends (g.recovers id)) .nothing := by
  have hkind : g.kind? id = some node.kind := by rw [kind?, hnode]; rfl
  obtain ⟨name, kind⟩ := node
  unfold isolates at hopen
  unfold recovers
  rw [hkind] at hopen ⊢
  cases kind with
  | terminal t => exact Recent.ends_of_ne Recent.noConfusion _
  | sequence parts => exact Script.sequence_course parts c
  | alternation branches => exact Script.firstOf_course c none branches Recent.noConfusion
  | repetition part min max => exact Script.repetition_course part min max c
  | optional part => exact Script.optional_course part c
  | lookahead part negated => exact absurd rfl hopen
  | transform part mapping => exact Script.transform_course part mapping c
  | token part => exact Script.token_course part c
  | expect part label => exact absurd rfl hopen
  | rule body =>
    cases body with
    | none => exact Recent.ends_of_ne Recent.noConfusion _
    | some body =>
      refine (Script.Course.ask body c Recent.noConfusion).mono fun recent o ho => ?_
      subst ho
      exact Recent.ends_of_ne Recent.noConfusion _

/-! ## The turns of a call -/

namespace Graph

open Runner

variable {g : Graph} {room : Nat} {id : ParserId} {c : Cursor} {r r' : Runner} {o : Outcome}

/-- A part of a run adds turns of calls that are made inside of those under way. -/
def AddsInside (r r' : Runner) : Prop :=
  r'.enclosing = r.enclosing ∧
    ∃ new, r'.turns = r.turns ++ new ∧ ∀ turn ∈ new, r.enclosing <:+ turn.visit.enclosing

theorem AddsInside.refl (r : Runner) : AddsInside r r :=
  ⟨rfl, [], (List.append_nil _).symm, fun _ h => absurd h List.not_mem_nil⟩

theorem AddsInside.trans {r₁ r₂ r₃ : Runner} (h : AddsInside r₁ r₂) (h' : AddsInside r₂ r₃) :
    AddsInside r₁ r₃ := by
  obtain ⟨hsame, new, hturns, hnew⟩ := h
  obtain ⟨hsame', new', hturns', hnew'⟩ := h'
  refine ⟨hsame'.trans hsame, new ++ new', by rw [hturns', hturns, List.append_assoc], ?_⟩
  intro turn hturn
  rcases List.mem_append.1 hturn with hturn | hturn
  · exact hnew turn hturn
  · exact hsame ▸ hnew' turn hturn

/-- The turns of a call: it begins, then come those of the calls inside it, then it ends. -/
def turnsAround (r : Runner) (id : ParserId) (c : Cursor) (inner : List Turn) (o : Outcome) :
    List Turn :=
  .begun (r.visiting id c) :: inner ++ [.ended (r.visiting id c) o]

/-- **A call adds its turns**, those inside it being of calls that it encloses. -/
theorem trace_turns (h : (g.trace room id c).run r = .ok (o, r')) :
    ∃ inner, r'.turns = r.turns ++ turnsAround r id c inner o ∧
      ∀ turn ∈ inner, id :: r.enclosing <:+ turn.visit.enclosing := by
  induction room using Nat.strongRecOn generalizing id c r o r' with
  | ind room ih =>
    cases Steps.of_trace h with
    | stopped _ =>
      exact ⟨[], by simp [noted, turnsAround], fun _ h => absurd h List.not_mem_nil⟩
    | stops _ _ =>
      exact ⟨[], by simp [noted, turnsAround], fun _ h => absurd h List.not_mem_nil⟩
    | @goes room node o r₁ _ _ _ hfollow =>
      have hmake : ∀ id c r o r', (g.trace room id c).run r = .ok (o, r') → AddsInside r r' := by
        intro id c r o r' hrun
        obtain ⟨inner, hturns, hinner⟩ := ih room (Nat.lt_succ_self _) hrun
        refine ⟨(trace_keeps hrun).enclosing, _, hturns, fun turn hturn => ?_⟩
        rcases List.mem_append.1 hturn with hturn | hturn
        · rcases List.mem_cons.1 hturn with rfl | hturn
          · exact List.suffix_refl _
          · exact (List.suffix_cons _ _).trans (hinner turn hturn)
        · rw [List.mem_singleton.1 hturn]
          exact List.suffix_refl _
      obtain ⟨-, inner, hturns, hinner⟩ :=
        follow_course AddsInside.refl AddsInside.trans (fun r _ => AddsInside.refl r) hmake hfollow
      refine ⟨inner, ?_, hinner⟩
      change r₁.turns ++ [_] = _
      rw [hturns]
      simp [noted, inside, turnsAround]

end Graph

/-! ## The errors that a run keeps aside -/

/-- The turn that shows what the script of a call did last. -/
def Recent.ShownBy (visit : Visit) : Recent → Turn → Prop
  | nothing, turn => turn = .begun visit
  | called c o, turn => ∃ inner : Visit, turn = .ended inner o ∧ inner.cursor = c ∧
    inner.enclosing = visit.id :: visit.enclosing
  | gaveUp, _ => False

namespace Graph

open Runner

variable {g : Graph} {room : Nat} {id : ParserId} {c : Cursor} {r r' : Runner} {o : Outcome}
  {visit : Visit} {node : Node}

/-- Where a script ends without setting anything aside last, nothing is given up. -/
theorem givenUpBetween_eq_none {recent : Recent} {turn : Turn}
    (hends : recent.Ends (g.recovers visit.id) o) (hturn : recent.ShownBy visit turn) :
    g.givenUpBetween turn (.ended visit (node.labelled o)) = none := by
  cases recent with
  | nothing =>
    obtain rfl : turn = .begun visit := hturn
    rfl
  | gaveUp => exact hturn.elim
  | called c inner =>
    obtain ⟨attempt, rfl, -, -⟩ := hturn
    cases inner with
    | matched tree stop => rfl
    | failed e =>
      cases o with
      | failed e' => rfl
      | matched tree stop =>
        have hrecovers : g.recovers visit.id = false := hends
        exact if_neg fun h => absurd h.2.1 (by simp [hrecovers])

/-- Where a script sets an error aside and ends, the attempt is given up. -/
theorem joinAll_givenUp {e : ParseError} {turn : Turn} (hopen : ∀ q ∈ visit.id :: visit.enclosing,
      ¬ g.isolates q) (hends : Recent.gaveUp.Ends (g.recovers visit.id) o)
    (hturn : (Recent.called c (.failed e)).ShownBy visit turn) (before : Option ParseError) :
    joinAll before (g.givenUp [turn, .ended visit (node.labelled o)]) =
      if e.position.offset ≤ c.position.offset then before else some (e.joinTo before) := by
  obtain ⟨attempt, rfl, rfl, henclosing⟩ := hturn
  cases o with
  | failed e' => exact hends.elim
  | matched tree stop =>
    have hrecovers : g.recovers visit.id = true := hends
    by_cases hpast : attempt.cursor.position.offset < e.position.offset
    · have hgiven : g.givenUpBetween (.ended attempt (.failed e))
          (.ended visit (node.labelled (.matched tree stop))) = some e :=
        if_pos ⟨henclosing, hrecovers, henclosing ▸ hopen, hpast⟩
      rw [givenUp_cons_cons, hgiven, if_neg (Nat.not_le.2 hpast)]
      rfl
    · have hgiven : g.givenUpBetween (.ended attempt (.failed e))
          (.ended visit (node.labelled (.matched tree stop))) = none :=
        if_neg fun h => hpast h.2.2.2
      rw [givenUp_cons_cons, hgiven, if_pos (Nat.not_lt.1 hpast)]
      rfl

/-- **Following a script keeps aside what is given up on its way**, from the turn that shows what
was done last to the end of the call. -/
theorem follow_kept (visit : Visit) {make : Routine}
    (hmake : ∀ id c r o r', r.enclosing = visit.id :: visit.enclosing →
      (make id c).run r = .ok (o, r') → r'.enclosing = r.enclosing ∧
        ∃ inner, r'.turns = r.turns ++ turnsAround r id c inner o ∧
          r'.kept = joinAll r.kept (g.givenUp (turnsAround r id c inner o)))
    (hopen : ∀ q ∈ visit.id :: visit.enclosing, ¬ g.isolates q) {s : Script Outcome}
    {recent : Recent} {turn : Turn} (hs : s.Course (Recent.Ends (g.recovers visit.id)) recent)
    (hturn : recent.ShownBy visit turn) (henclosing : r.enclosing = visit.id :: visit.enclosing)
    (h : (follow make s).run r = .ok (o, r')) :
    ∃ new, r'.turns = r.turns ++ new ∧
      r'.kept = joinAll r.kept
        (g.givenUp (turn :: new ++ [.ended visit (node.labelled o)])) := by
  induction s generalizing r recent turn with
  | done a =>
    cases h
    refine ⟨[], (List.append_nil _).symm, ?_⟩
    rw [List.singleton_append, givenUp_cons_cons, givenUpBetween_eq_none hs hturn]
    rfl
  | call alone id c next ih =>
    obtain ⟨rfl, -, hnext⟩ := hs
    rw [follow_call] at h
    obtain ⟨⟨o₁, r₁⟩, hcall, hrest⟩ := except_bind_eq_ok h
    obtain ⟨henclosing₁, inner, hturns₁, hkept₁⟩ := hmake id c r o₁ r₁ henclosing hcall
    obtain ⟨new, hturns, hkept⟩ := ih o₁ (hnext o₁) ⟨r.visiting id c, rfl, rfl, henclosing⟩
      (henclosing₁.trans henclosing) hrest
    refine ⟨turnsAround r id c inner o₁ ++ new, ?_, ?_⟩
    · rw [hturns, hturns₁, List.append_assoc]
    · -- what is given up inside the call comes before what is given up after it
      have hsplit : turn :: (turnsAround r id c inner o₁ ++ new) ++
            [.ended visit (node.labelled o)] =
          turn :: .begun (r.visiting id c) :: (inner ++
            .ended (r.visiting id c) o₁ :: (new ++ [.ended visit (node.labelled o)])) := by
        simp [turnsAround]
      rw [hsplit, givenUp_cons_cons, givenUpBetween_begun, ← List.cons_append, givenUp_append]
      rw [hkept, hkept₁]
      exact (joinAll_append _ _ _).symm
  | abandon start e next ih =>
    obtain ⟨⟨c, rfl, rfl⟩, hnext⟩ := hs
    rw [follow_abandon] at h
    cases next with
    | done a =>
      cases h
      exact ⟨[], (List.append_nil _).symm, (joinAll_givenUp hopen hnext hturn r.kept).symm⟩
    | call alone id c next => exact absurd rfl hnext.2.1
    | abandon start e next =>
      obtain ⟨⟨_, hcalled, -⟩, -⟩ := hnext
      exact nomatch hcalled

/-- **A call keeps aside what is given up in its turns**, merged in order after what was kept aside
before, unless a parser around forgets it. -/
theorem trace_kept (hopen : ∀ q ∈ r.enclosing, ¬ g.isolates q)
    (h : (g.trace room id c).run r = .ok (o, r')) {new : List Turn}
    (hnew : r'.turns = r.turns ++ new) : r'.kept = joinAll r.kept (g.givenUp new) := by
  induction room using Nat.strongRecOn generalizing id c r o r' new with
  | ind room ih =>
    obtain ⟨inner, hturns, hinner⟩ := trace_turns h
    obtain rfl : new = turnsAround r id c inner o :=
      List.append_cancel_left (hnew.symm.trans hturns)
    by_cases hisolates : g.isolates id
    · -- the calls inside are forgotten
      rw [trace_kept_of_isolates hisolates h, turnsAround, givenUp_eq_nil]
      · rfl
      · rintro turn hturn attempt e rfl
        rcases List.mem_cons.1 hturn with hturn | hturn
        · exact nomatch hturn
        · exact ⟨id, (hinner _ hturn).subset List.mem_cons_self, hisolates⟩
    cases Steps.of_trace h with
    | stopped _ =>
      obtain rfl : inner = [] := by simpa [noted, turnsAround] using hturns
      rfl
    | stops _ _ =>
      obtain rfl : inner = [] := by simpa [noted, turnsAround] using hturns
      rfl
    | @goes room node o r₁ _ _ hnode hfollow =>
      have hmake : ∀ id' c' r₂ o r', r₂.enclosing = id :: r.enclosing →
          (g.trace room id' c').run r₂ = .ok (o, r') → r'.enclosing = r₂.enclosing ∧
            ∃ inner, r'.turns = r₂.turns ++ turnsAround r₂ id' c' inner o ∧
              r'.kept = joinAll r₂.kept (g.givenUp (turnsAround r₂ id' c' inner o)) := by
        intro id' c' r₂ o r' henclosing hrun
        obtain ⟨inner, hturns, -⟩ := trace_turns hrun
        refine ⟨(trace_keeps hrun).enclosing, inner, hturns, ?_⟩
        refine ih room (Nat.lt_succ_self _) ?_ hrun hturns
        rw [henclosing]
        exact List.forall_mem_cons.2 ⟨hisolates, hopen⟩
      obtain ⟨new, hnew', hkept⟩ := follow_kept (r.visiting id c) hmake
        (List.forall_mem_cons.2 ⟨hisolates, hopen⟩) (script_course hnode hisolates c) rfl rfl
        hfollow
      obtain rfl : inner = new := by
        change r₁.turns ++ [_] = _ at hturns
        rw [hnew'] at hturns
        simpa [noted, inside, turnsAround] using hturns.symm
      exact hkept

/-- **What a run that fails tells** is what its root failed with, merged with all that was given up
on the way, unless it was stopped. -/
theorem run_error_eq {input : String} {e : ParseError} (hrun : g.run id input = .ok (.error e))
    (hstopped : ¬ g.Stopped id input) :
    ∃ own r, g.traced id input = .ok (.failed own, r) ∧
      some e = joinAfter (some own) (joinAll none (g.givenUp r.turns)) := by
  rw [run_eq_traced] at hrun
  obtain ⟨⟨o, r⟩, htraced, hverdict⟩ : ∃ p, g.traced id input = .ok p ∧ verdict p = .error e := by
    cases htraced : g.traced id input with
    | error m =>
      rw [htraced] at hrun
      exact nomatch hrun
    | ok p =>
      rw [htraced] at hrun
      exact ⟨p, rfl, Except.ok.inj hrun⟩
  have hgoing : r.stopped = none := by
    cases hr : r.stopped with
    | none => rfl
    | some e => exact absurd ⟨o, r, e, htraced, hr⟩ hstopped
  have hkept : r.kept = joinAll none (g.givenUp r.turns) :=
    trace_kept (fun q hq => absurd hq List.not_mem_nil) htraced rfl
  unfold verdict at hverdict
  dsimp only at hverdict
  rw [hgoing] at hverdict
  cases o with
  | matched tree stop => exact nomatch hverdict
  | failed own =>
    refine ⟨own, r, htraced, ?_⟩
    rw [← hkept]
    cases hr : r.kept with
    | none =>
      rw [hr] at hverdict
      cases hverdict
      rfl
    | some kept =>
      rw [hr] at hverdict
      cases hverdict
      rfl

/-- **Errors kept aside compose.** What a call comes to does not depend on what was kept aside
before it, be it of the engine or of a runner, which goes on where it was stopped; and what it keeps
aside itself is merged in after that. A lookahead or an expectation keeps nothing aside. So a run
that fails, and was not stopped, tells the error that its root failed with, merged with those of all
attempts that were given up past their start and outside of lookaheads and expectations, in the
order of the run; and it is at the furthest offset of any of these. -/
theorem kept_errors_compose (g : Graph) :
    (∀ room id c A, (g.parse room id c).run A =
      ((g.parse room id c).run none).map fun p => (p.1, joinAfter A p.2)) ∧
    (∀ room id c (r : Runner) A, (g.trace room id c).run (r.keeping A) =
      ((g.trace room id c).run (r.keeping none)).map fun p =>
        (p.1, p.2.keeping (joinAfter A p.2.kept))) ∧
    (∀ room id c, g.isolates id →
      (∀ A o A', (g.parse room id c).run A = .ok (o, A') → A' = A) ∧
        ∀ r o r', (g.trace room id c).run r = .ok (o, r') → r'.kept = r.kept) ∧
    ∀ id input e, g.run id input = .ok (.error e) → ¬ g.Stopped id input →
      ∃ own r, g.traced id input = .ok (.failed own, r) ∧
        some e = joinAfter (some own) (joinAll none (g.givenUp r.turns)) ∧
        (∀ f ∈ own :: g.givenUp r.turns, f.position.offset ≤ e.position.offset) ∧
        ∃ f ∈ own :: g.givenUp r.turns, f.position.offset = e.position.offset := by
  refine ⟨g.parse_additive, g.trace_additive, fun room id c hisolates =>
    ⟨fun A o A' h => parse_kept_of_isolates hisolates h,
      fun r o r' h => trace_kept_of_isolates hisolates h⟩, fun id input e hrun hstopped => ?_⟩
  obtain ⟨own, r, htraced, he⟩ := run_error_eq hrun hstopped
  have hall : joinAll (some own) (g.givenUp r.turns) = some e := (joinAll_eq _ _).trans he.symm
  exact ⟨own, r, htraced, he, joinAll_offset hall⟩

/-- A parser of `ab` or nothing and any number of `ac`, before a `z`. It looks ahead first, for an
`a` with or without a `cadz`. -/
def retreating : Graph :=
  ⟨#[.live 0 ⟨none, .terminal (.char 'a')⟩, .live 0 ⟨none, .terminal (.char 'b')⟩,
    .live 0 ⟨none, .terminal (.char 'c')⟩, .live 0 ⟨none, .terminal (.char 'd')⟩,
    .live 0 ⟨none, .terminal (.char 'z')⟩,
    .live 0 ⟨none, .sequence [⟨2, 0⟩, ⟨0, 0⟩, ⟨3, 0⟩, ⟨4, 0⟩]⟩,
    .live 0 ⟨none, .optional ⟨5, 0⟩⟩, .live 0 ⟨none, .sequence [⟨0, 0⟩, ⟨6, 0⟩]⟩,
    .live 0 ⟨none, .lookahead ⟨7, 0⟩ false⟩, .live 0 ⟨none, .sequence [⟨0, 0⟩, ⟨1, 0⟩]⟩,
    .live 0 ⟨none, .optional ⟨9, 0⟩⟩, .live 0 ⟨none, .sequence [⟨0, 0⟩, ⟨2, 0⟩]⟩,
    .live 0 ⟨none, .repetition ⟨11, 0⟩ 0 none⟩,
    .live 0 ⟨none, .sequence [⟨8, 0⟩, ⟨10, 0⟩, ⟨12, 0⟩, ⟨4, 0⟩]⟩], [], 14, 256⟩

/-- Before the `z` that is missing, `ab` was given up at its second character and `ac` at the fourth
of the input, which is further. That `cadz` was given up at the end of the input does not count, as
it was looked ahead for. -/
theorem kept_errors_compose_retreating :
    retreating.run ⟨13, 0⟩ "acad" = .ok (.error (.expecting ⟨3, 1, 4⟩ "'c'" (some 'd'))) ∧
    ¬ retreating.Stopped ⟨13, 0⟩ "acad" ∧
    ∃ r, retreating.traced ⟨13, 0⟩ "acad" =
        .ok (.failed (.expecting ⟨2, 1, 3⟩ "'z'" (some 'a')), r) ∧
      retreating.givenUp r.turns =
        [.expecting ⟨1, 1, 2⟩ "'b'" (some 'c'), .expecting ⟨3, 1, 4⟩ "'c'" (some 'd')] ∧
      some (.expecting ⟨3, 1, 4⟩ "'c'" (some 'd')) =
        joinAfter (some (.expecting ⟨2, 1, 3⟩ "'z'" (some 'a')))
          (joinAll none (retreating.givenUp r.turns)) := by
  have hrun : retreating.run ⟨13, 0⟩ "acad" =
      .ok (.error (.expecting ⟨3, 1, 4⟩ "'c'" (some 'd'))) := rfl
  have hends : (retreating.traced ⟨13, 0⟩ "acad").map (fun p =>
      (p.1, p.2.stopped, retreating.givenUp p.2.turns)) =
        .ok (.failed (.expecting ⟨2, 1, 3⟩ "'z'" (some 'a')), none,
          [.expecting ⟨1, 1, 2⟩ "'b'" (some 'c'), .expecting ⟨3, 1, 4⟩ "'c'" (some 'd')]) := by
    cbv
  cases htraced : retreating.traced ⟨13, 0⟩ "acad" with
  | error m =>
    rw [htraced] at hends
    cases hends
  | ok p =>
    obtain ⟨o, r⟩ := p
    rw [htraced] at hends
    obtain ⟨rfl, hgoing, hgiven⟩ : o = .failed (.expecting ⟨2, 1, 3⟩ "'z'" (some 'a')) ∧
        r.stopped = none ∧ retreating.givenUp r.turns =
          [.expecting ⟨1, 1, 2⟩ "'b'" (some 'c'), .expecting ⟨3, 1, 4⟩ "'c'" (some 'd')] := by
      simpa [Except.map] using hends
    have hstopped : ¬ retreating.Stopped ⟨13, 0⟩ "acad" := by
      rintro ⟨o, r', e, htraced', hr'⟩
      cases htraced.symm.trans htraced'
      cases hgoing.symm.trans hr'
    obtain ⟨-, -, -, hfails⟩ := kept_errors_compose retreating
    obtain ⟨own, r', htraced', he, -, -⟩ := hfails ⟨13, 0⟩ "acad" _ hrun hstopped
    cases htraced.symm.trans htraced'
    exact ⟨hrun, hstopped, r, rfl, hgiven, he⟩

end Graph

end ParserGraph
