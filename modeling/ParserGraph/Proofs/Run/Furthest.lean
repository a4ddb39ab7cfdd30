import Mathlib
import ParserGraph.Proofs.Run.Explanation
import ParserGraph.Proofs.Run.GivenUp

/-!
# How far the input got — which failures an error is not before

The turns of a run are those of calls inside calls (`Calls.turns`), and of
these only one forest of calls is told by them (`Calls.turns_injective`). In
it the failures of terminals are found that stand (`Calls.standing`): when an
alternation matches, only those inside the branch that matched, the branches
before it being forgotten with all that failed in them; else those inside of
any call. A run that fails tells an error that is no less far than each of
these (`Graph.run_error_reaches`). For no call ends before a failure that
stands in it, unless the error kept aside is as far (`Graph.trace_reaches`):
an option or a repetition that recovers keeps aside what is further than
where it matched. An alternation does not, so a failure that does not stand
may be further than the error that is told (`Graph.run_error_before_failure`).
-/

namespace ParserGraph

open ParseError

/-! ## Calls inside calls -/

/-- Calls one after another, each with the calls inside it. -/
inductive Calls where
  /-- No call. -/
  | none
  /-- A call, and those after it. -/
  | call (visit : Visit) (inner : Calls) (outcome : Outcome) (next : Calls)

namespace Calls

/-- The turns of some calls: each begins, then come those of the calls inside it, then it ends. -/
def turns : Calls → List Turn
  | none => []
  | call visit inner o next => .begun visit :: inner.turns ++ .ended visit o :: next.turns

/-- Some calls, and then others. -/
def append : Calls → Calls → Calls
  | none, rest => rest
  | call visit inner o next, rest => call visit inner o (next.append rest)

instance : Append Calls := ⟨append⟩

@[simp]
theorem none_append (rest : Calls) : none ++ rest = rest := rfl

@[simp]
theorem call_append {visit : Visit} {inner next rest : Calls} {o : Outcome} :
    call visit inner o next ++ rest = call visit inner o (next ++ rest) := rfl

@[simp]
theorem turns_append (calls rest : Calls) : (calls ++ rest).turns = calls.turns ++ rest.turns := by
  induction calls with
  | none => rfl
  | call visit inner o next _ ih => simp [turns, ih]

@[simp]
theorem append_none (calls : Calls) : calls ++ none = calls := by
  induction calls with
  | none => rfl
  | call visit inner o next _ ih => rw [call_append, ih]

theorem append_assoc (first second third : Calls) :
    first ++ second ++ third = first ++ (second ++ third) := by
  induction first with
  | none => rfl
  | call visit inner o next _ ih => rw [call_append, call_append, ih, call_append]

/-- Turns that are no call's beginning, if there are any. -/
def Ends : List Turn → Prop
  | .begun _ :: _ => False
  | _ => True

/-- Calls are told by their turns, whatever follows them outside. -/
theorem eq_of_turns_append {calls calls' : Calls} {back back' : List Turn}
    (h : calls.turns ++ back = calls'.turns ++ back') (hback : Ends back) (hback' : Ends back') :
    calls = calls' ∧ back = back' := by
  induction calls generalizing calls' back back' with
  | none =>
    cases calls' with
    | none => exact ⟨rfl, h⟩
    | call visit inner o next =>
      obtain rfl : back = .begun visit :: _ := h
      exact hback.elim
  | call visit inner o next ihinner ihnext =>
    cases calls' with
    | none =>
      obtain rfl : _ = back' := h
      exact hback'.elim
    | call visit' inner' o' next' =>
      simp only [turns, List.cons_append, List.append_assoc, List.cons.injEq, Turn.begun.injEq] at h
      obtain ⟨rfl, h⟩ := h
      obtain ⟨rfl, hended⟩ := ihinner h trivial trivial
      simp only [List.cons.injEq, Turn.ended.injEq, true_and] at hended
      obtain ⟨rfl, hrest⟩ := hended
      obtain ⟨rfl, rfl⟩ := ihnext hrest hback hback'
      exact ⟨rfl, rfl⟩

/-- **The turns of a run tell which calls were made inside which.** -/
theorem turns_injective {calls calls' : Calls} (h : calls.turns = calls'.turns) : calls = calls' := by
  have hnil : calls.turns ++ [] = calls'.turns ++ [] := congrArg (· ++ []) h
  exact (eq_of_turns_append hnil trivial trivial).1

end Calls

/-- Of what failed inside of a call, given for each call that it made, what stands after it: an
alternation that matched only leaves what failed in its last branch, and a terminal adds its own
failure. -/
def Graph.standing (g : Graph) (id : ParserId) (o : Outcome) (inner : List (List ParseError)) :
    List ParseError :=
  match g.kind? id, o with
  | some (.terminal _), .failed e => e :: inner.flatten
  | some (.alternation _), .matched _ _ => inner.getLast?.getD []
  | _, _ => inner.flatten

namespace Calls

variable {g : Graph}

/-- The failures of terminals that stand, for each of some calls. -/
def standing (g : Graph) : Calls → List (List ParseError)
  | none => []
  | call visit inner o next => g.standing visit.id o (inner.standing g) :: next.standing g

@[simp]
theorem standing_append (calls rest : Calls) :
    (calls ++ rest).standing g = calls.standing g ++ rest.standing g := by
  induction calls with
  | none => rfl
  | call visit inner o next _ ih => simp [standing, ih]

/-- Without an alternation, every failure of a terminal stands. -/
theorem mem_standing {calls : Calls} {visit : Visit} {t : Terminal} {e : ParseError}
    (halternation : ∀ turn ∈ calls.turns, ∀ branches,
      g.kind? turn.visit.id ≠ some (.alternation branches))
    (hturn : .ended visit (.failed e) ∈ calls.turns)
    (hterminal : g.kind? visit.id = some (.terminal t)) : e ∈ (calls.standing g).flatten := by
  induction calls with
  | none => exact absurd hturn List.not_mem_nil
  | call visit' inner o next ihinner ihnext =>
    simp only [turns, List.cons_append, List.forall_mem_cons, List.forall_mem_append]
      at halternation
    obtain ⟨hbegun, hinner, -, hnext⟩ := halternation
    simp only [turns, List.cons_append, List.mem_cons, List.mem_append, reduceCtorEq, false_or,
      Turn.ended.injEq] at hturn
    rw [standing, List.flatten_cons, List.mem_append]
    rcases hturn with hturn | ⟨rfl, rfl⟩ | hturn
    · refine Or.inl ?_
      have hmem := ihinner hinner hturn
      unfold Graph.standing
      split
      · exact List.mem_cons_of_mem _ hmem
      · next hkind => exact absurd hkind (hbegun _)
      · exact hmem
    · refine Or.inl ?_
      unfold Graph.standing
      rw [hterminal]
      exact List.mem_cons_self
    · exact Or.inr (ihnext hnext hturn)

end Calls

/-! ## How far a script gets -/

/-- How far an outcome got: to the end of the match, or to where the failure points. -/
def Outcome.reach : Outcome → Nat
  | .matched _ stop => stop.position.offset
  | .failed e => e.position.offset

/-- An outcome that a call at a place may have: it got there, at least. -/
def Outcome.From (c : Cursor) (o : Outcome) : Prop :=
  o.Tells (fun e => c.position.offset ≤ e.position.offset) c

theorem Outcome.From.le_reach {c : Cursor} {o : Outcome} (h : o.From c) :
    c.position.offset ≤ o.reach := by
  cases o with
  | matched tree stop => exact Cursor.offset_le h
  | failed e => exact h

/-- A terminal fails where it was called. -/
theorem Attempt.terminal_from (t : Terminal) (c : Cursor) : (terminal t c).From c := by
  unfold terminal
  split
  · exact c.le_advance _
  · cases t <;> exact Nat.le_refl _

/-- How far a script got. -/
structure Extent where
  /-- In any of the calls it made. -/
  all : Nat
  /-- In the last of them. -/
  last : Nat
  /-- With an error it set aside. -/
  aside : Nat

namespace Extent

/-- No call was made yet. -/
def zero : Extent := ⟨0, 0, 0⟩

/-- After one more call. -/
def called (x : Extent) (o : Outcome) : Extent := ⟨max x.all o.reach, o.reach, x.aside⟩

/-- After an error was set aside, if it got past the place where the attempt started. -/
def gaveUp (x : Extent) (start : Position) (e : ParseError) : Extent :=
  { x with aside := if e.position.offset ≤ start.offset then x.aside
      else max x.aside e.position.offset }

end Extent

namespace Script

variable {α β : Type} {calls : ParserId → Prop} {R : Extent → α → Prop} {S : Extent → β → Prop}
  {x : Extent} {c : Cursor}

/-- A script that calls some parsers only, none of them alone, and that has a result in some
relation to how far it got. -/
def Spans (calls : ParserId → Prop) (R : Extent → α → Prop) : Extent → Script α → Prop
  | x, done a => R x a
  | x, call alone id c next =>
    calls id ∧ alone = false ∧ ∀ o : Outcome, o.From c → (next o).Spans calls R (x.called o)
  | x, abandon start e next => next.Spans calls R (x.gaveUp start e)

namespace Spans

theorem bind {s : Script α} {f : α → Script β} (hs : s.Spans calls R x)
    (hf : ∀ x a, R x a → (f a).Spans calls S x) : (s >>= f).Spans calls S x := by
  change (s.bind f).Spans calls S x
  induction s generalizing x with
  | done a => exact hf x a hs
  | call alone id c next ih => exact ⟨hs.1, hs.2.1, fun o ho => ih o (hs.2.2 o ho)⟩
  | abandon start e next ih => exact ih hs

theorem mono {R' : Extent → α → Prop} {s : Script α} (hs : s.Spans calls R x)
    (h : ∀ x a, R x a → R' x a) : s.Spans calls R' x := by
  induction s generalizing x with
  | done a => exact h x a hs
  | call alone id c next ih => exact ⟨hs.1, hs.2.1, fun o ho => ih o (hs.2.2 o ho)⟩
  | abandon start e next ih => exact ih hs

theorem ask {id : ParserId} (hid : calls id) :
    (Script.ask id c).Spans calls (fun y o => o.From c ∧ y = x.called o) x :=
  ⟨hid, rfl, fun _ ho => ⟨ho, rfl⟩⟩

theorem setAside (start : Position) (e : ParseError) :
    (Script.setAside start e).Spans calls (fun y _ => y = x.gaveUp start e) x :=
  rfl

/-- What a script hands on holds beside how far it got. -/
theorem and_tells {P : ParseError → Prop} {T : α → Prop} {s : Script α}
    (hs : s.Spans (fun _ => True) R x) (ht : s.Tells calls P c T)
    (hP : ∀ (o : Outcome) d, c ≤ d → o.From d → o.Tells P d) :
    s.Spans calls (fun y a => T a ∧ R y a) x := by
  induction s generalizing x with
  | done a => exact ⟨ht, hs⟩
  | call alone id d next ih =>
    exact ⟨ht.1, hs.2.1, fun o ho => ih o (hs.2.2 o ho) (ht.2.2 o (hP o d ht.2.1 ho))⟩
  | abandon start e next ih => exact ih hs ht.2

end Spans

/-! ### How far the combinators get -/

variable {any : ParserId → Prop}

/-- Calls in order get no further than where the last of them got. -/
theorem inOrder_spans {ids : List ParserId} (hx : x.all ≤ c.position.offset) :
    (inOrder ids c).Spans (fun _ => True) (fun y r => match r with
      | .ok (_, stop) => y.all ≤ stop.position.offset
      | .error e => y.all ≤ e.position.offset) x := by
  induction ids generalizing c x with
  | nil => exact hx
  | cons id ids ih =>
    refine (Spans.ask trivial).bind fun y o ho => ?_
    obtain ⟨hfrom, rfl⟩ := ho
    have hall : (x.called o).all ≤ o.reach :=
      Nat.max_le.2 ⟨Nat.le_trans hx hfrom.le_reach, Nat.le_refl _⟩
    cases o with
    | failed e => exact hall
    | matched tree stop =>
      refine (ih hall).bind fun y r hr => ?_
      cases r <;> exact hr

/-- Within reach of an outcome, or of what was set aside. -/
def Within (y : Extent) (o : Outcome) : Prop := y.all ≤ max o.reach y.aside

theorem sequence_spans (parts : List ParserId) (c : Cursor) :
    (sequence parts c).Spans (fun _ => True) Within .zero := by
  refine (inOrder_spans (Nat.zero_le _)).bind fun y r hr => ?_
  cases r <;> exact Nat.le_trans hr (Nat.le_max_left _ _)

/-- An alternation fails as far as any branch got; if it matches, it got as far as the last one it
tried, at least. -/
theorem firstOf_spans {failure : Option ParseError} {ids : List ParserId}
    (hx : x.all ≤ (failure.elim c.position ParseError.position).offset) :
    (firstOf c failure ids).Spans (fun _ => True) (fun y o => match o with
      | .matched _ stop => y.last ≤ stop.position.offset
      | .failed e => y.all ≤ e.position.offset) x := by
  induction ids generalizing failure x with
  | nil => cases failure <;> exact hx
  | cons id ids ih =>
    rw [firstOf]
    refine (Spans.ask trivial).bind fun y o ho => ?_
    obtain ⟨hfrom, rfl⟩ := ho
    cases o with
    | matched tree stop => exact Nat.le_refl _
    | failed e =>
      refine ih ?_
      have he : c.position.offset ≤ e.position.offset := hfrom
      cases failure with
      | none => exact Nat.max_le.2 ⟨Nat.le_trans hx he, Nat.le_refl _⟩
      | some first =>
        change max x.all e.position.offset ≤ (first.merge e).position.offset
        rw [merge_offset]
        exact max_le_max hx (Nat.le_refl _)

/-- What is set aside is no further than the place where the attempt started, or kept in reach. -/
theorem within_gaveUp {e : ParseError} {start : Position} {o : Outcome}
    (hx : x.all ≤ e.position.offset) (hstart : start.offset ≤ o.reach) :
    Within (x.gaveUp start e) o := by
  unfold Within Extent.gaveUp
  dsimp only
  split <;> omega

theorem optional_spans (part : ParserId) (c : Cursor) :
    (optional part c).Spans (fun _ => True) Within .zero := by
  refine (Spans.ask trivial).bind fun y o ho => ?_
  obtain ⟨-, rfl⟩ := ho
  have hall : (Extent.zero.called o).all ≤ o.reach := Nat.max_le.2 ⟨Nat.zero_le _, Nat.le_refl _⟩
  cases o with
  | matched tree stop => exact Nat.le_trans hall (Nat.le_max_left _ _)
  | failed e =>
    refine (Spans.setAside c.position e).bind fun y _ hy => ?_
    subst hy
    exact within_gaveUp hall (Nat.le_refl _)

/-- Rounds got as far as where they ended, or where the one that failed did. -/
theorem rounds_spans {part : ParserId} {unbounded : Bool} {n : Nat}
    (hx : x.all ≤ c.position.offset) :
    (rounds part unbounded n c).Spans (fun _ => True) (fun y r => match r with
      | (_, stop, .gaveUp start e) => start = stop.position ∧ y.all ≤ e.position.offset
      | (_, stop, _) => y.all ≤ stop.position.offset) x := by
  induction n generalizing c x with
  | zero => exact hx
  | succ n ih =>
    refine (Spans.ask trivial).bind fun y o ho => ?_
    obtain ⟨hfrom, rfl⟩ := ho
    have hall : (x.called o).all ≤ o.reach :=
      Nat.max_le.2 ⟨Nat.le_trans hx hfrom.le_reach, Nat.le_refl _⟩
    cases o with
    | failed e => exact ⟨rfl, hall⟩
    | matched tree mid =>
      dsimp only
      split
      · exact hall
      · refine (ih hall).bind fun y r hr => ?_
        obtain ⟨trees, stop, ending⟩ := r
        cases ending <;> exact hr

theorem repetition_spans {part : ParserId} {min : Nat} {max : Option Nat}
    (hbounds : (Kind.repetition part min max).Ordered) :
    (repetition part min max c).Spans (fun _ => True) Within .zero := by
  have hfrom : ∀ (o : Outcome) d, c ≤ d → o.From d → o.Tells (fun _ => True) d := by
    intro o d _ ho
    cases o with
    | matched tree stop => exact ho
    | failed e => trivial
  refine ((rounds_spans (Nat.zero_le _)).and_tells
    (rounds_tells (trivial : (fun _ => True) part) (Cursor.le_refl c)) hfrom).bind fun y r hr => ?_
  obtain ⟨trees, stop, ending⟩ := r
  cases ending with
  | stalled => exact Nat.le_trans hr.2 (Nat.le_max_left _ _)
  | full =>
    obtain ⟨⟨-, hlength, htaken⟩, hall⟩ := hr
    dsimp only
    rw [if_neg (hbounds.enough hlength htaken)]
    exact Nat.le_trans hall (Nat.le_max_left _ _)
  | gaveUp start e =>
    obtain ⟨-, rfl, hall⟩ := hr
    dsimp only
    split
    · exact Nat.le_trans hall (Nat.le_max_left _ _)
    · refine (Spans.setAside stop.position e).bind fun y _ hy => ?_
      subst hy
      exact within_gaveUp hall (Nat.le_refl _)

/-- A script that hands on the outcome of one call got as far as that. -/
theorem ask_bind_spans {id : ParserId} {f : Outcome → Outcome} (hf : ∀ o, (f o).reach = o.reach) :
    (Script.ask id c >>= fun o => pure (f o)).Spans (fun _ => True) Within .zero := by
  refine (Spans.ask trivial).bind fun y o ho => ?_
  obtain ⟨-, rfl⟩ := ho
  have hall : (Extent.zero.called o).all ≤ (f o).reach :=
    Nat.max_le.2 ⟨Nat.zero_le _, Nat.le_of_eq (hf o).symm⟩
  exact Nat.le_trans hall (Nat.le_max_left _ _)

theorem transform_spans (part : ParserId) (mapping : Tree → Tree) (c : Cursor) :
    (transform part mapping c).Spans (fun _ => True) Within .zero := by
  have hscript : transform part mapping c = (do
      pure (match ← ask part c with
        | .matched tree stop => .matched (mapping tree) stop
        | .failed e => .failed e)) := bind_congr fun o => by cases o <;> rfl
  rw [hscript]
  exact ask_bind_spans fun o => by cases o <;> rfl

theorem token_spans (part : ParserId) (c : Cursor) :
    (token part c).Spans (fun _ => True) Within .zero := by
  have hscript : token part c = (do
      pure (match ← ask part c with
        | .matched _ stop => .matched (.leaf (c.upTo stop) c.position) stop
        | .failed e => .failed e)) := bind_congr fun o => by cases o <;> rfl
  rw [hscript]
  exact ask_bind_spans fun o => by cases o <;> rfl

end Script

/-- How far what stands in a call of some kind may have got: as far as the outcome or what was set
aside, or if a branch of an alternation matched as far as that one only. -/
def Kind.Within (kind : Kind) (y : Extent) (o : Outcome) : Prop :=
  match kind, o with
  | .alternation _, .matched _ stop => y.last ≤ stop.position.offset
  | _, o => Script.Within y o

/-- **What a node does covers the calls it makes**, if it does not isolate them. -/
theorem Graph.script_spans {g : Graph} {id : ParserId} {node : Node}
    (hnode : g.node? id = some node) (hopen : ¬ g.isolates id) (hordered : node.kind.Ordered)
    (c : Cursor) :
    (node.script g c).Spans (· ∈ node.kind.operands)
      (fun y o => o.From c ∧ node.kind.Within y o) .zero := by
  have hkind : g.kind? id = some node.kind := by rw [kind?, hnode]; rfl
  obtain ⟨name, kind⟩ := node
  have hexpect : ∀ part label, kind ≠ .expect part label := by
    rintro part label rfl
    exact hopen (by rw [isolates, hkind])
  have hlookahead : ∀ part negated, kind ≠ .lookahead part negated := by
    rintro part negated rfl
    exact hopen (by rw [isolates, hkind])
  have htells : (Node.script ⟨name, kind⟩ g c).Tells (· ∈ kind.operands)
      (fun e => c.position.offset ≤ e.position.offset) c (Outcome.From c) := by
    refine Node.script_tells (fun e f he _ => ?_) hordered hexpect (fun part => hlookahead part true)
      (fun t _ => Attempt.terminal_from t c) (fun _ => Nat.le_refl _) fun _ => Nat.le_refl _
    rw [merge_offset]
    exact Nat.le_trans he (Nat.le_max_left _ _)
  refine Script.Spans.and_tells ?_ htells fun o d hle ho => ?_
  · cases kind with
    | terminal t => exact Nat.zero_le _
    | sequence parts => exact (Script.sequence_spans parts c).mono fun y o hy => hy
    | alternation branches =>
      refine (Script.firstOf_spans (Nat.zero_le _)).mono fun y o hy => ?_
      cases o with
      | matched tree stop => exact hy
      | failed e => exact Nat.le_trans hy (Nat.le_max_left _ _)
    | repetition part min max => exact (Script.repetition_spans hordered).mono fun y o hy => hy
    | optional part => exact (Script.optional_spans part c).mono fun y o hy => hy
    | lookahead part negated => exact absurd rfl (hlookahead part negated)
    | transform part mapping => exact (Script.transform_spans part mapping c).mono fun y o hy => hy
    | token part => exact (Script.token_spans part c).mono fun y o hy => hy
    | expect part label => exact absurd rfl (hexpect part label)
    | rule body =>
      cases body with
      | none => exact Nat.zero_le _
      | some body => exact Script.ask_bind_spans (f := fun o => o) fun _ => rfl
  · cases o with
    | matched tree stop => exact ho
    | failed e => exact Nat.le_trans (Cursor.offset_le hle) ho

/-! ## How far a run gets -/

namespace Runner

variable {α : Type} {g : Graph} {make : Routine} {calls : ParserId → Prop} {x : Extent}
  {before inner : Calls} {visit : Visit} {r r' : Runner} {o : Outcome}

/-- How far the error got that is kept aside. -/
def reach (r : Runner) : Nat := (r.kept.map (·.position.offset)).getD 0

/-- What stands in some calls got no further than these did, or the error kept aside. -/
structure Covers (g : Graph) (x : Extent) (calls : Calls) (r : Runner) : Prop where
  all : ∀ f ∈ (calls.standing g).flatten, f.position.offset ≤ max x.all r.reach
  last : ∀ f ∈ (calls.standing g).getLast?.getD [], f.position.offset ≤ max x.last r.reach
  aside : x.aside ≤ r.reach

theorem covers_none (r : Runner) : r.Covers g .zero .none :=
  ⟨fun _ h => absurd h List.not_mem_nil, fun _ h => absurd h List.not_mem_nil, Nat.zero_le _⟩

/-- One more call that is covered by itself. -/
theorem Covers.called (h : r.Covers g x before) (hle : r.reach ≤ r'.reach)
    (hcall : ∀ f ∈ g.standing visit.id o (inner.standing g),
      f.position.offset ≤ max o.reach r'.reach) :
    r'.Covers g (x.called o) (before ++ .call visit inner o .none) := by
  have hstanding : (before ++ Calls.call visit inner o .none).standing g =
      before.standing g ++ [g.standing visit.id o (inner.standing g)] :=
    Calls.standing_append _ _
  refine ⟨fun f hf => ?_, fun f hf => ?_, Nat.le_trans h.aside hle⟩
  · have hmax : (x.called o).all = max x.all o.reach := rfl
    rw [hstanding, List.flatten_append, List.flatten_singleton, List.mem_append] at hf
    rcases hf with hf | hf
    · have := h.all f hf
      omega
    · have := hcall f hf
      omega
  · rw [hstanding, List.getLast?_concat] at hf
    exact hcall f hf

/-- The run after an error was set aside. -/
def abandoning (r : Runner) (start : Position) (e : ParseError) : Runner :=
  { r with kept := if e.position.offset ≤ start.offset then r.kept else some (e.joinTo r.kept) }

/-- What is set aside is kept, merged with what was kept before, if it got past its start. -/
theorem reach_abandoning (r : Runner) (start : Position) (e : ParseError) :
    (r.abandoning start e).reach =
      if e.position.offset ≤ start.offset then r.reach else max r.reach e.position.offset := by
  unfold abandoning reach
  dsimp only
  split
  · rfl
  · cases r.kept with
    | none => exact (Nat.zero_max _).symm
    | some first => exact merge_offset first e

theorem reach_le_abandoning (r : Runner) (start : Position) (e : ParseError) :
    r.reach ≤ (r.abandoning start e).reach := by
  rw [reach_abandoning]
  split <;> omega

theorem Covers.gaveUp (h : r.Covers g x before) (start : Position) (e : ParseError) :
    (r.abandoning start e).Covers g (x.gaveUp start e) before := by
  have hle := r.reach_le_abandoning start e
  refine ⟨fun f hf => Nat.le_trans (h.all f hf) (max_le_max (Nat.le_refl _) hle),
    fun f hf => Nat.le_trans (h.last f hf) (max_le_max (Nat.le_refl _) hle), ?_⟩
  have haside := h.aside
  rw [reach_abandoning, Extent.gaveUp]
  dsimp only
  split <;> omega

/-- **A run that follows a script covers the calls it makes**, if each of them is covered. -/
theorem follow_covers {R : Extent → α → Prop}
    (hkeeps : ∀ id c r o r', (make id c).run r = .ok (o, r') → r.Keeps r')
    (hmake : ∀ id c r o r', calls id → (make id c).run r = .ok (o, r') → r'.stopped = none →
      o.From c ∧ r.reach ≤ r'.reach ∧ ∃ visit inner, visit.id = id ∧
        r'.turns = r.turns ++ (Calls.call visit inner o .none).turns ∧
        ∀ f ∈ g.standing id o (inner.standing g), f.position.offset ≤ max o.reach r'.reach)
    {s : Script α} {a : α} (hs : s.Spans calls R x) (h : (follow make s).run r = .ok (a, r'))
    (hgoing : r'.stopped = none) (hcovers : r.Covers g x before) :
    r.reach ≤ r'.reach ∧ ∃ new y, r'.turns = r.turns ++ new.turns ∧
      r'.Covers g y (before ++ new) ∧ R y a := by
  induction s generalizing r x before with
  | done b =>
    cases h
    exact ⟨Nat.le_refl _, .none, x, (List.append_nil _).symm, by rwa [Calls.append_none], hs⟩
  | call alone id c next ih =>
    obtain ⟨hid, rfl, hnext⟩ := hs
    rw [follow_call] at h
    obtain ⟨⟨o, r₁⟩, hcalling, hrest⟩ := except_bind_eq_ok h
    obtain ⟨r₁, hcall, rfl⟩ := calling_eq_ok hcalling
    -- the call was not stopped, as the rest was not
    have hlast : Keeps _ r' := follow_keeps hkeeps hrest
    have hgoing₁ : r₁.stopped = none := by
      cases hr₁ : r₁.stopped with
      | none => rfl
      | some e => exact nomatch hgoing.symm.trans (hlast.stopped e hr₁)
    obtain ⟨hfrom, hle, visit, inner, rfl, hturns, hstanding⟩ := hmake id c r o r₁ hid hcall hgoing₁
    obtain ⟨hle', new, y, hturns', hcovers', ha⟩ :=
      ih o (hnext o hfrom) hrest (hcovers.called hle hstanding)
    refine ⟨Nat.le_trans hle hle', .call visit inner o .none ++ new, y, ?_, ?_, ha⟩
    · rw [hturns', Calls.turns_append, ← List.append_assoc]
      exact congrArg (· ++ new.turns) hturns
    · rwa [← Calls.append_assoc]
  | abandon start e next ih =>
    rw [follow_abandon] at h
    obtain ⟨hle, hnew⟩ := ih hs h (hcovers.gaveUp start e)
    exact ⟨Nat.le_trans (r.reach_le_abandoning start e) hle, hnew⟩

end Runner

namespace Graph

open Runner

variable {g : Graph} {root id : ParserId} {room : Nat} {c : Cursor} {r r' : Runner} {o : Outcome}

/-- What stands in a call that does not isolate is within reach of its outcome, or of the error kept
aside. -/
theorem standing_le {kind : Kind} {inner : Calls} {x : Extent} (hkind : g.kind? id = some kind)
    (hcovers : r.Covers g x inner) (hwithin : kind.Within x o) :
    ∀ f ∈ g.standing id o (inner.standing g), f.position.offset ≤ max o.reach r.reach := by
  have hall : x.all ≤ max o.reach x.aside → ∀ f ∈ (inner.standing g).flatten,
      f.position.offset ≤ max o.reach r.reach := by
    intro hx f hf
    have hf := hcovers.all f hf
    have haside := hcovers.aside
    omega
  intro f hf
  unfold standing at hf
  rw [hkind] at hf
  cases kind with
  | terminal t =>
    cases o with
    | matched tree stop => exact hall hwithin f hf
    | failed e =>
      rcases List.mem_cons.1 hf with rfl | hf
      · exact Nat.le_max_left _ _
      · exact hall hwithin f hf
  | alternation branches =>
    cases o with
    | matched tree stop =>
      exact Nat.le_trans (hcovers.last f hf) (max_le_max hwithin (Nat.le_refl _))
    | failed e => exact hall hwithin f hf
  | _ => exact hall hwithin f hf

/-- **No call ends before what stands in it**, unless the error kept aside is as far. -/
theorem trace_reaches (hordered : g.Ordered) (hopen : ∀ q, g.Leads root q → ¬ g.isolates q)
    (hreach : g.contains id → g.Leads root id) (h : (g.trace room id c).run r = .ok (o, r'))
    (hgoing : r'.stopped = none) :
    o.From c ∧ r.reach ≤ r'.reach ∧ ∃ visit inner, visit.id = id ∧
      r'.turns = r.turns ++ (Calls.call visit inner o .none).turns ∧
      ∀ f ∈ g.standing id o (inner.standing g), f.position.offset ≤ max o.reach r'.reach := by
  induction room using Nat.strongRecOn generalizing id c r o r' with
  | ind room ih =>
    cases Steps.of_trace h with
    | stopped hstopped => exact nomatch hgoing.symm.trans hstopped
    | stops _ _ => exact nomatch hgoing
    | @goes room node o r₁ _ _ hnode hfollow =>
      have hkind : g.kind? id = some node.kind := by rw [kind?, hnode]; rfl
      have hleads : g.Leads root id := hreach (contains_iff.2 ⟨node, hnode⟩)
      have hnone : ((r.noted (.begun (r.visiting id c))).inside id).Covers g .zero .none :=
        covers_none _
      obtain ⟨hle, inner, x, hturns, hcovers, hfrom, hwithin⟩ :=
        follow_covers (fun _ _ _ _ _ h => trace_keeps h)
          (fun q d r o r' hq hrun hgoing => ih room (Nat.lt_succ_self _) (fun hlive =>
            hleads.step (by rwa [operands_of_node? hnode]) hlive) hrun hgoing)
          (script_spans hnode (hopen id hleads) (hordered id node hnode) c) hfollow hgoing
          hnone
      refine ⟨by cases o <;> exact hfrom, hle, r.visiting id c, inner, rfl, ?_, ?_⟩
      · change r₁.turns ++ [_] = _
        rw [hturns]
        simp [noted, inside, Calls.turns]
      · have hlabelled : node.kind.Within x (node.labelled o) := by
          cases hnodekind : node.kind <;> cases o <;> rw [hnodekind] at hwithin <;> exact hwithin
        exact standing_le hkind ⟨hcovers.all, hcovers.last, hcovers.aside⟩ hlabelled

/-- **What a run that fails tells is not before any failure that stands.** If nothing that the root
leads to isolates calls, and the run was not stopped, its turns are those of calls such that each
failure of a terminal that stands in them is at the offset of the error or before. Which calls these
are, the turns tell; and where none of them is a call of an alternation, that holds of all failures
of terminals. -/
theorem run_error_reaches (g : Graph) (hordered : g.Ordered) {id : ParserId} {input : String}
    {e : ParseError} (hopen : ∀ q, g.Leads id q → ¬ g.isolates q)
    (hrun : g.run id input = .ok (.error e)) (hstopped : ¬ g.Stopped id input) :
    ∃ o r, ∃ calls : Calls, g.traced id input = .ok (o, r) ∧ calls.turns = r.turns ∧
      (∀ others : Calls, others.turns = r.turns → others = calls) ∧
      (∀ f ∈ (calls.standing g).flatten, f.position.offset ≤ e.position.offset) ∧
      ((∀ turn ∈ r.turns, ∀ branches, g.kind? turn.visit.id ≠ some (.alternation branches)) →
        ∀ visit f t, .ended visit (.failed f) ∈ r.turns →
          g.kind? visit.id = some (.terminal t) → f.position.offset ≤ e.position.offset) := by
  obtain ⟨own, r, htraced, he⟩ := run_error_eq hrun hstopped
  have hgoing : r.stopped = none := by
    cases hr : r.stopped with
    | none => rfl
    | some e => exact absurd ⟨_, r, e, htraced, hr⟩ hstopped
  obtain ⟨-, -, visit, inner, rfl, hturns, hstanding⟩ :=
    trace_reaches hordered hopen (fun hlive => .refl hlive) htraced hgoing
  have hkept : r.kept = joinAll none (g.givenUp r.turns) :=
    trace_kept (fun q hq => absurd hq List.not_mem_nil) htraced rfl
  -- the error is merged from the one that the root failed with and the one that was kept aside
  have hmax : max own.position.offset r.reach = e.position.offset := by
    rw [← hkept] at he
    unfold Runner.reach
    cases hr : r.kept with
    | none =>
      rw [hr] at he
      cases he
      exact Nat.max_zero _
    | some kept =>
      rw [hr] at he
      cases he
      exact (merge_offset own kept).symm
  have hall : ∀ f ∈ ((Calls.call visit inner (.failed own) .none).standing g).flatten,
      f.position.offset ≤ e.position.offset := by
    intro f hf
    rw [← hmax]
    exact hstanding f (by simpa [Calls.standing] using hf)
  refine ⟨_, r, _, htraced, hturns.symm, fun others hothers =>
    Calls.turns_injective (hothers.trans hturns), hall, ?_⟩
  intro halternation visit' f t hturn hterminal
  rw [hturns] at halternation hturn
  exact hall f (Calls.mem_standing halternation hturn hterminal)

/-- Either `abc` or `a`, before a `d`. -/
def forgetful : Graph :=
  ⟨#[.live 0 ⟨none, .terminal (.char 'a')⟩, .live 0 ⟨none, .terminal (.char 'b')⟩,
    .live 0 ⟨none, .terminal (.char 'c')⟩, .live 0 ⟨none, .terminal (.char 'd')⟩,
    .live 0 ⟨none, .sequence [⟨0, 0⟩, ⟨1, 0⟩, ⟨2, 0⟩]⟩,
    .live 0 ⟨none, .alternation [⟨4, 0⟩, ⟨0, 0⟩]⟩,
    .live 0 ⟨none, .sequence [⟨5, 0⟩, ⟨3, 0⟩]⟩], [], 7, 256⟩

/-- The bounds of its repetitions are in order, as there are none, and nothing isolates calls. -/
theorem forgetful_plain : forgetful.Ordered ∧ ∀ q, ¬ forgetful.isolates q := by
  have hslots : ∀ id node, forgetful.node? id = some node →
      .live id.generation node ∈ forgetful.slots :=
    fun id node h => Array.mem_of_getElem? (node?_eq_some_iff.1 h)
  refine ⟨fun id node hnode => ?_, fun q hisolates => ?_⟩
  · have hslot := hslots id node hnode
    simp only [forgetful, List.mem_toArray, List.mem_cons, Slot.live.injEq, List.not_mem_nil,
      or_false] at hslot
    rcases hslot with ⟨-, rfl⟩ | ⟨-, rfl⟩ | ⟨-, rfl⟩ | ⟨-, rfl⟩ | ⟨-, rfl⟩ | ⟨-, rfl⟩ | ⟨-, rfl⟩ <;>
      trivial
  · unfold isolates at hisolates
    split at hisolates
    · next part negated hkind =>
      obtain ⟨⟨name, kind⟩, hnode, rfl⟩ := Option.map_eq_some_iff.1 hkind
      have hslot := hslots q _ hnode
      simp [forgetful] at hslot
    · next part label hkind =>
      obtain ⟨⟨name, kind⟩, hnode, rfl⟩ := Option.map_eq_some_iff.1 hkind
      have hslot := hslots q _ hnode
      simp [forgetful] at hslot
    · exact Bool.noConfusion hisolates

/-- It is not stopped on `abx`. -/
theorem not_stopped_forgetful : ¬ forgetful.Stopped ⟨6, 0⟩ "abx" :=
  not_stopped_of_traced (by cbv)

/-- On `abx`, what stands is the failure of the `d`. -/
theorem run_error_reaches_forgetful :
    forgetful.run ⟨6, 0⟩ "abx" = .ok (.error (.expecting ⟨1, 1, 2⟩ "'d'" (some 'b'))) ∧
      ¬ forgetful.Stopped ⟨6, 0⟩ "abx" ∧
      ∃ o r, ∃ calls : Calls, forgetful.traced ⟨6, 0⟩ "abx" = .ok (o, r) ∧ calls.turns = r.turns ∧
        ∀ f ∈ (calls.standing forgetful).flatten, f.position.offset ≤ 1 := by
  have hrun : forgetful.run ⟨6, 0⟩ "abx" =
      .ok (.error (.expecting ⟨1, 1, 2⟩ "'d'" (some 'b'))) := rfl
  obtain ⟨o, r, calls, htraced, hturns, -, hall, -⟩ :=
    run_error_reaches forgetful forgetful_plain.1 (fun q _ => forgetful_plain.2 q) hrun
      not_stopped_forgetful
  exact ⟨hrun, not_stopped_forgetful, o, r, calls, htraced, hturns, hall⟩

/-- **A failure that does not stand may be further than the error that is told.** On `abx` the `c`
is missing at the third character. The alternation forgets that, as its other branch matches, and
the run tells that the `d` is missing at the second. -/
theorem run_error_before_failure :
    (∀ q, ¬ forgetful.isolates q) ∧ ¬ forgetful.Stopped ⟨6, 0⟩ "abx" ∧
      forgetful.run ⟨6, 0⟩ "abx" = .ok (.error (.expecting ⟨1, 1, 2⟩ "'d'" (some 'b'))) ∧
      ∃ o r visit, forgetful.traced ⟨6, 0⟩ "abx" = .ok (o, r) ∧
        .ended visit (.failed (.expecting ⟨2, 1, 3⟩ "'c'" (some 'x'))) ∈ r.turns ∧
        forgetful.kind? visit.id = some (.terminal (.char 'c')) := by
  have hends : (forgetful.traced ⟨6, 0⟩ "abx").map (fun p => p.2.turns[8]?) =
      .ok (some (.ended ⟨⟨2, 0⟩, ⟨['b', 'a'], ['x'], ⟨2, 1, 3⟩⟩, [⟨4, 0⟩, ⟨5, 0⟩, ⟨6, 0⟩]⟩
        (.failed (.expecting ⟨2, 1, 3⟩ "'c'" (some 'x'))))) := by
    cbv
  cases htraced : forgetful.traced ⟨6, 0⟩ "abx" with
  | error m =>
    rw [htraced] at hends
    cases hends
  | ok p =>
    obtain ⟨o, r⟩ := p
    rw [htraced] at hends
    refine ⟨forgetful_plain.2, not_stopped_forgetful, rfl, o, r, _, rfl,
      List.mem_of_getElem? (Except.ok.inj hends), rfl⟩

end Graph

end ParserGraph
