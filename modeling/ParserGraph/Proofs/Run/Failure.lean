import ParserGraph.Proofs.Run.Halt

/-!
# Messages — how the errors of a run are told

An error is told by what was expected, unless a parser gives it a message of
its own: a terminal that always fails, or a placeholder without a body. In a
graph without these (`Graph.isPlain`) no call fails with a message and none is
kept aside (`Graph.parse_plain`), so that nesting too deep is the only thing a
run tells in words of its own (`Graph.run_error`).
-/

namespace ParserGraph

/-- An error without a message of its own. -/
def ParseError.Plain (e : ParseError) : Prop := e.failure = none

theorem ParseError.Plain.merge {e f : ParseError} (he : e.Plain) (hf : f.Plain) :
    (e.merge f).Plain := by
  unfold ParseError.merge
  split
  · exact he
  split
  · exact hf
  · change e.failure.or f.failure = none
    rw [he, hf]
    rfl

/-- If there is an error, it has no message of its own. -/
def AllPlain (e : Option ParseError) : Prop := ∀ f, e = some f → f.Plain

theorem AllPlain.none : AllPlain none := fun _ h => nomatch h

theorem AllPlain.some {e : ParseError} (h : e.Plain) : AllPlain (some e) :=
  fun _ hf => Option.some.inj hf ▸ h

theorem ParseError.Plain.joinTo {e : ParseError} (he : e.Plain) {before : Option ParseError}
    (h : AllPlain before) : (e.joinTo before).Plain := by
  cases before with
  | none => exact he
  | some first => exact (h first rfl).merge he

/-- An outcome that is no failure with a message of its own. -/
def Outcome.Plain : Outcome → Prop
  | .matched _ _ => True
  | .failed e => e.Plain

namespace Attempt

variable {α β : Type}

/-- Where no error that was kept has a message, a part of a run that finishes comes to a value with
a property and keeps no error with a message. -/
def Plainly (P : α → Prop) (x : Attempt α) : Prop :=
  ∀ kept a kept', AllPlain kept → x.run kept = .ok (a, kept') → P a ∧ AllPlain kept'

namespace Plainly

variable {P : α → Prop} {Q : β → Prop} {x : Attempt α} {f : α → Attempt β}

theorem pure {a : α} (h : P a) : Plainly P (Pure.pure a) := by
  intro kept a' kept' hkept hrun
  cases pure_eq_ok.1 hrun
  exact ⟨h, hkept⟩

theorem bind (hx : Plainly P x) (hf : ∀ a, P a → Plainly Q (f a)) : Plainly Q (x >>= f) := by
  intro kept b kept'' hkept hrun
  obtain ⟨a, kept', hrun, hgo⟩ := bind_eq_ok.1 hrun
  obtain ⟨ha, hkept'⟩ := hx _ _ _ hkept hrun
  exact hf a ha _ _ _ hkept' hgo

end Plainly

theorem abandon_plainly {start : Position} {e : ParseError} (he : e.Plain) :
    Plainly (fun _ => True) (abandon start e) := by
  intro kept u kept' hkept hrun
  have hkept' : kept' = if e.position.offset ≤ start.offset then kept else some (e.joinTo kept) :=
    (congrArg Prod.snd (Except.ok.inj hrun)).symm
  refine ⟨trivial, ?_⟩
  rw [hkept']
  split
  · exact hkept
  · exact .some (he.joinTo hkept)

theorem get_plainly : Plainly AllPlain (get : Attempt (Option ParseError)) := by
  intro kept a kept' hkept hrun
  cases hrun
  exact ⟨hkept, hkept⟩

theorem set_plainly {kept : Option ParseError} (h : AllPlain kept) :
    Plainly (fun _ => True) (set kept : Attempt PUnit) := by
  intro kept' a kept'' _ hrun
  cases hrun
  exact ⟨trivial, h⟩

theorem isolated_plainly {call : Attempt Outcome} (h : Plainly Outcome.Plain call) :
    Plainly Outcome.Plain (isolated call) :=
  get_plainly.bind fun _ houter => (set_plainly .none).bind fun _ _ => h.bind fun _ ho =>
    (set_plainly houter).bind fun _ _ => .pure ho

end Attempt

/-- No call fails with a message of its own. -/
def Call.Plain (call : Call) : Prop := ∀ id c, Attempt.Plainly Outcome.Plain (call id c)

namespace Attempt

variable {call : Call}

/-- Rounds that did not end with a message. -/
def Ending.Plain : Ending → Prop
  | .full => True
  | .stalled => True
  | .gaveUp _ e => e.Plain

/-- A result that is no failure with a message of its own. -/
def PlainResult {α : Type} : Except ParseError α → Prop
  | .error e => e.Plain
  | .ok _ => True

section

variable (hcall : call.Plain)
include hcall

theorem inOrder_plainly (ids : List ParserId) (c : Cursor) :
    Plainly PlainResult (inOrder call ids c) := by
  induction ids generalizing c with
  | nil => exact .pure trivial
  | cons id ids ih =>
    refine (hcall id c).bind fun o ho => ?_
    cases o with
    | failed e => exact .pure ho
    | matched tree stop =>
      refine (ih stop).bind fun r hr => ?_
      cases r with
      | error e => exact .pure hr
      | ok p => exact .pure trivial

theorem firstOf_plainly (ids : List ParserId) (c : Cursor) {failure : Option ParseError}
    (h : AllPlain failure) : Plainly Outcome.Plain (firstOf call c failure ids) := by
  induction ids generalizing failure with
  | nil =>
    cases failure with
    | none => exact .pure rfl
    | some e => exact .pure (h e rfl)
  | cons id ids ih =>
    rw [firstOf]
    refine (hcall id c).bind fun o ho => ?_
    cases o with
    | matched tree stop => exact .pure trivial
    | failed e => exact ih (.some (ParseError.Plain.joinTo ho h))

theorem rounds_plainly (part : ParserId) (unbounded : Bool) (n : Nat) (c : Cursor) :
    Plainly (fun r => r.2.2.Plain) (rounds call part unbounded n c) := by
  induction n generalizing c with
  | zero => exact .pure trivial
  | succ n ih =>
    refine (hcall part c).bind fun o ho => ?_
    cases o with
    | failed e => exact .pure ho
    | matched tree stop =>
      dsimp only
      split
      · exact .pure trivial
      · exact (ih stop).bind fun _ hr => .pure hr

theorem repetition_plainly (part : ParserId) (min : Nat) (max : Option Nat) (c : Cursor) :
    Plainly Outcome.Plain (repetition call part min max c) := by
  refine (rounds_plainly hcall part _ _ c).bind fun ⟨trees, stop, ending⟩ hending => ?_
  cases ending with
  | stalled => exact .pure trivial
  | full =>
    dsimp only
    split
    · exact .pure rfl
    · exact .pure trivial
  | gaveUp start e =>
    dsimp only
    split
    · exact .pure hending
    · exact (abandon_plainly hending).bind fun _ _ => .pure trivial

theorem optional_plainly (part : ParserId) (c : Cursor) :
    Plainly Outcome.Plain (optional call part c) := by
  refine (hcall part c).bind fun o ho => ?_
  cases o with
  | matched tree stop => exact .pure trivial
  | failed e => exact (abandon_plainly ho).bind fun _ _ => .pure trivial

theorem lookahead_plainly (part : ParserId) (negated : Bool) (description : String) (c : Cursor) :
    Plainly Outcome.Plain (lookahead call part negated description c) := by
  refine (isolated_plainly (hcall part c)).bind fun o ho => ?_
  cases o <;> cases negated
  · exact .pure trivial
  · exact .pure rfl
  · exact .pure ho
  · exact .pure trivial

theorem transform_plainly (part : ParserId) (mapping : Tree → Tree) (c : Cursor) :
    Plainly Outcome.Plain (transform call part mapping c) := by
  refine (hcall part c).bind fun o ho => ?_
  cases o with
  | matched tree stop => exact .pure trivial
  | failed e => exact .pure ho

theorem token_plainly (part : ParserId) (c : Cursor) :
    Plainly Outcome.Plain (token call part c) := by
  refine (hcall part c).bind fun o ho => ?_
  cases o with
  | matched tree stop => exact .pure trivial
  | failed e => exact .pure ho

theorem expect_plainly (part : ParserId) (label : String) (c : Cursor) :
    Plainly Outcome.Plain (expect call part label c) := by
  refine (isolated_plainly (hcall part c)).bind fun o ho => ?_
  cases o with
  | matched tree stop => exact .pure trivial
  | failed e => exact .pure rfl

end

end Attempt

/-- Whether a parser of a kind has no message of its own to fail with. -/
def Kind.isPlain : Kind → Bool
  | .terminal (.fail _) => false
  | .rule none => false
  | _ => true

/-- Whether no parser of a graph has a message of its own to fail with. -/
def Graph.isPlain (g : Graph) : Bool := g.liveIds.all fun id => (g.kind? id).all Kind.isPlain

theorem Attempt.terminal_plain {t : Terminal} (h : (Kind.terminal t).isPlain) (c : Cursor) :
    (Attempt.terminal t c).Plain := by
  unfold Attempt.terminal
  split
  · trivial
  · cases t with
    | fail message => exact absurd h Bool.false_ne_true
    | _ => rfl

/-- **A node without a message of its own adds none to the failures of its operands.** -/
theorem Node.perform_plainly {node : Node} (hnode : node.kind.isPlain) (g : Graph) {call : Call}
    (hcall : call.Plain) (c : Cursor) :
    Attempt.Plainly Outcome.Plain (node.perform g call c) := by
  obtain ⟨name, kind⟩ := node
  cases kind with
  | terminal t => exact .pure (Attempt.terminal_plain hnode c)
  | sequence parts =>
    refine (Attempt.inOrder_plainly hcall parts c).bind fun r hr => ?_
    cases r with
    | error e => exact .pure hr
    | ok p => exact .pure trivial
  | alternation branches => exact Attempt.firstOf_plainly hcall branches c .none
  | repetition part min max => exact Attempt.repetition_plainly hcall part min max c
  | optional part => exact Attempt.optional_plainly hcall part c
  | lookahead part negated => exact Attempt.lookahead_plainly hcall part negated _ c
  | transform part mapping => exact Attempt.transform_plainly hcall part mapping c
  | token part => exact Attempt.token_plainly hcall part c
  | expect part label => exact Attempt.expect_plainly hcall part label c
  | rule body =>
    cases body with
    | none => exact absurd hnode Bool.false_ne_true
    | some body => exact hcall body c

namespace Graph

variable {g : Graph}

theorem isPlain_of_node? (hg : g.isPlain) {id : ParserId} {node : Node}
    (hnode : g.node? id = some node) : node.kind.isPlain := by
  have hkind := List.all_eq_true.1 hg id (mem_liveIds hnode)
  rwa [kind?, hnode] at hkind

/-- **In a plain graph, no call fails with a message of its own.** -/
theorem parse_plain (hg : g.isPlain) (room : Nat) : (g.parse room).Plain := by
  induction room with
  | zero =>
    intro id c kept a kept' _ hrun
    cases hrun
  | succ room ih =>
    intro id c
    rw [parse, enter]
    split
    · intro kept a kept' _ hrun
      cases hrun
    · next node hnode =>
      refine (Node.perform_plainly (isPlain_of_node? hg hnode) g ih c).bind fun o ho => ?_
      cases o with
      | matched tree stop => exact .pure trivial
      | failed e => exact .pure ho

/-- A run that nests too deep tells so. -/
theorem eq_tooDeep {room : Nat} {id : ParserId} {c : Cursor} {kept : Option ParseError}
    {e : ParseError} (h : ((g.parse room) id c).run kept = .error (.tooDeep e)) :
    ∃ c', e = g.tooDeep c' := by
  induction room generalizing id c kept with
  | zero => exact ⟨c, (Halt.tooDeep.inj (Except.error.inj h)).symm⟩
  | succ room ih =>
    rcases enter_halts h with ⟨-, hmisuse⟩ | ⟨node, -, q, c', kept', -, hq⟩
    · exact nomatch hmisuse
    · exact ih hq

/-- **The only message of its own that a run of a plain graph ends with is that it nests too
deep.** -/
theorem run_error (hg : g.isPlain) {id : ParserId} {input : String} {e : ParseError}
    (h : g.run id input = .ok (.error e)) : e.Plain ∨ ∃ c, e = g.tooDeep c := by
  have hplain := g.parse_plain hg g.maxDepth id (Cursor.start input)
  rw [run] at h
  split at h
  · next hrun =>
    cases h
    exact Or.inr (eq_tooDeep hrun)
  · cases h
  · cases h
  · next hrun =>
    cases h
    exact Or.inl (hplain _ _ _ .none hrun).1
  · next kept hrun =>
    cases h
    obtain ⟨he, hkept⟩ := hplain _ _ _ .none hrun
    exact Or.inl (ParseError.Plain.merge he (hkept kept rfl))

end Graph

end ParserGraph
