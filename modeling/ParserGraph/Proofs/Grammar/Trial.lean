import Mathlib
import ParserGraph.Proofs.Grammar.Agreement
import ParserGraph.Proofs.Grammar.Canonical
import ParserGraph.Proofs.Run.Composition
import ParserGraph.Proofs.Run.Repetition

/-!
# Trials — trying a grammar as it is written, errors and all

Evaluation tells what definitions match. A trial follows them just as directly
but does what the engine does at every step (`Expr.trial`): it tells where and
why there is no match, and keeps aside what was given up on. Rules are followed
to a depth (`ruleTrial`). A call of a parser that realizes an expression
finishes with nothing but what a trial of the expression finishes with
(`Trials.of_rules`). What is tried goes forward, and stays where it is only if
its form tells that it may (`Expr.trial_honest`).
-/

namespace ParserGraph

/-- What is tried at a place. -/
abbrev Trial := Cursor → Attempt Outcome

/-! ## What finishes alike -/

namespace Attempt

variable {α β : Type} {x y : Attempt α}

/-- Whatever one part of a run finishes with, another finishes with. -/
def Below (x y : Attempt α) : Prop := ∀ kept r, x.run kept = .ok r → y.run kept = .ok r

theorem Below.refl (x : Attempt α) : x.Below x := fun _ _ h => h

/-- Parts of runs one after another. -/
theorem Below.bind {f g : α → Attempt β} (hx : x.Below y) (hf : ∀ a, (f a).Below (g a)) :
    (x >>= f).Below (y >>= g) := by
  intro kept r h
  obtain ⟨a, kept', hrun, hgo⟩ := bind_eq_ok.1 h
  exact bind_eq_ok.2 ⟨a, kept', hx _ _ hrun, hf a _ _ hgo⟩

/-- A part of a run whose kept errors are forgotten. -/
theorem Below.isolated {x y : Attempt Outcome} (h : x.Below y) :
    (Attempt.isolated x).Below (Attempt.isolated y) :=
  (Below.refl _).bind fun _ => (Below.refl _).bind fun _ => h.bind fun _ => Below.refl _

end Attempt

namespace Trial

open Attempt

/-! ## Ways to try -/

/-- Trials one after another, up to the first that fails. -/
def inOrder : List Trial → Cursor → Attempt (Except ParseError (List Tree × Cursor))
  | [], cursor => pure (.ok ([], cursor))
  | t :: ts, cursor => do
    match ← t cursor with
    | .failed e => pure (.error e)
    | .matched tree stop =>
      let rest ← inOrder ts stop
      pure (rest.map (Prod.map (tree :: ·) id))

/-- The first trial that matches; `failure` is what those before came to. -/
def firstOf (cursor : Cursor) : Option ParseError → List Trial → Attempt Outcome
  | none, [] => pure (.failed (.unexpected cursor.position cursor.peek))
  | some failure, [] => pure (.failed failure)
  | failure, t :: ts => do
    match ← t cursor with
    | .matched tree stop => pure (.matched tree stop)
    | .failed e => firstOf cursor (some (e.joinTo failure)) ts

/-- Trials one after another, with their trees under one node. -/
def sequence (ts : List Trial) : Trial := fun cursor => do
  match ← inOrder ts cursor with
  | .error e => pure (.failed e)
  | .ok (trees, stop) => pure (.matched (.branch trees cursor.position) stop)

/-- A trial with its tree reshaped. -/
def reshaped (t : Trial) (mapping : Tree → Tree) : Trial :=
  Attempt.transform (fun _ => t) default mapping

/-- Trials one after another, with their trees folded into one. -/
def folded (ts : List Trial) : Trial := reshaped (sequence ts) Tree.fold

/-- A trial as often as it matches. -/
def repeated (t : Trial) (min : Nat) (max : Option Nat) : Trial :=
  Attempt.repetition (fun _ => t) default min max

/-- A trial or nothing. -/
def optional (t : Trial) : Trial := Attempt.optional (fun _ => t) default

/-- Nothing, where a trial does not match. -/
def absent (t : Trial) (description : String) : Trial :=
  Attempt.lookahead (fun _ => t) default true description

/-- A trial with its failures told as a label, if there is one. -/
def labelled (t : Trial) : Option String → Trial
  | none => t
  | some label => Attempt.expect (fun _ => t) default label

/-! ## Calls that finish as trials do -/

section

variable {call : Call} {id part : ParserId} {ids : List ParserId} {t : Trial} {ts : List Trial}
  {c : Cursor}

/-- Whatever calls of a parser finish with, a trial finishes with. -/
def Covers (t : Trial) (call : Call) (id : ParserId) : Prop := ∀ c, (call id c).Below (t c)

theorem inOrder_covers (h : List.Forall₂ (fun id t => Covers t call id) ids ts) :
    (Attempt.inOrder call ids c).Below (inOrder ts c) := by
  induction h generalizing c with
  | nil => exact Below.refl _
  | cons hid _ ih =>
    refine (hid c).bind fun o => ?_
    cases o with
    | failed e => exact Below.refl _
    | matched tree stop =>
      refine ih.bind fun rest => ?_
      cases rest <;> exact Below.refl _

theorem sequence_covers (h : List.Forall₂ (fun id t => Covers t call id) ids ts) :
    (Attempt.sequence call ids c).Below (sequence ts c) :=
  (inOrder_covers h).bind fun _ => Below.refl _

theorem firstOf_covers (h : List.Forall₂ (fun id t => Covers t call id) ids ts)
    (failure : Option ParseError) :
    (Attempt.firstOf call c failure ids).Below (firstOf c failure ts) := by
  induction h generalizing failure with
  | nil => cases failure <;> exact Below.refl _
  | cons hid _ ih =>
    rw [Attempt.firstOf, firstOf]
    refine (hid c).bind fun o => ?_
    cases o with
    | matched tree stop => exact Below.refl _
    | failed e => exact ih _

theorem rounds_covers (h : t.Covers call part) (unbounded : Bool) (n : Nat) :
    (Attempt.rounds call part unbounded n c).Below
      (Attempt.rounds (fun _ => t) default unbounded n c) := by
  induction n generalizing c with
  | zero => exact Below.refl _
  | succ n ih =>
    refine (h c).bind fun o => ?_
    cases o with
    | failed e => exact Below.refl _
    | matched tree stop =>
      dsimp only
      split
      · exact Below.refl _
      · exact ih.bind fun _ => Below.refl _

theorem repeated_covers (h : t.Covers call part) (min : Nat) (max : Option Nat) :
    (Attempt.repetition call part min max c).Below (t.repeated min max c) :=
  (rounds_covers h _ _).bind fun _ => Below.refl _

theorem optional_covers (h : t.Covers call part) :
    (Attempt.optional call part c).Below (t.optional c) :=
  (h c).bind fun _ => Below.refl _

theorem absent_covers (h : t.Covers call part) (description : String) :
    (Attempt.lookahead call part true description c).Below (t.absent description c) :=
  (h c).isolated.bind fun _ => Below.refl _

theorem reshaped_covers (h : t.Covers call part) (mapping : Tree → Tree) :
    (Attempt.transform call part mapping c).Below (t.reshaped mapping c) :=
  (h c).bind fun _ => Below.refl _

theorem labelled_covers (h : t.Covers call part) (label : String) :
    (Attempt.expect call part label c).Below (t.labelled (some label) c) :=
  (h c).isolated.bind fun _ => Below.refl _

end

end Trial

/-! ## Nodes without a name -/

namespace Graph

variable {g : Graph} {id : ParserId} {kind : Kind} {t : Trial} {room : Nat}

/-- Without room, a call finishes with nothing. -/
theorem covers_zero (t : Trial) : t.Covers (g.parse 0) id := fun _ _ _ h => nomatch h

/-- A call of a node without a name is what the node does. -/
theorem parse_anonymous (hnode : g.node? id = some ⟨none, kind⟩) (c : Cursor) :
    g.parse (room + 1) id c = (⟨none, kind⟩ : Node).perform g (g.parse room) c := by
  have hlabelled : ∀ o, (⟨none, kind⟩ : Node).labelled o = o := fun o => by cases o <;> rfl
  rw [parse, enter_eq hnode]
  simp only [hlabelled]
  exact bind_pure _

/-- So a trial that finishes as the node does with less room finishes as its calls do. -/
theorem covers_of_perform (hnode : g.node? id = some ⟨none, kind⟩)
    (h : ∀ below, room = below + 1 →
      ∀ c, ((⟨none, kind⟩ : Node).perform g (g.parse below) c).Below (t c)) :
    t.Covers (g.parse room) id := by
  cases room with
  | zero => exact covers_zero t
  | succ below =>
    intro c
    rw [parse_anonymous hnode]
    exact h below rfl c

end Graph

namespace Grammar

/-! ## Expressions and rules -/

/-- A terminal alone. -/
def bareTrial (t : Terminal) : Trial := fun c => pure (Attempt.terminal t c)

/-- Any white space, without a tree. -/
def spacesTrial : Trial :=
  ((bareTrial (.satisfy "whitespace" CharSet.whiteSpace.contains)).repeated 0 none).reshaped
    Tree.skip

/-- A terminal; unless white space counts, with the white space after it. -/
def terminalTrial (sensitive : Bool) (t : Terminal) : Trial :=
  if sensitive then bareTrial t
  else (Trial.sequence [bareTrial t, spacesTrial]).reshaped Tree.first

/-- A terminal in words; with the white space after it, it is a transformation. -/
def terminalDescription (sensitive : Bool) (t : Terminal) : String :=
  if sensitive then t.expectation?.getD t.kindName else "transform"

/-- A parser of an expression in words. -/
def Expr.description (sensitive : Bool) : Expr → String
  | .char c => terminalDescription sensitive (.char c)
  | .literal text => terminalDescription sensitive (.literal text)
  | .pattern p => terminalDescription sensitive (.pattern p)
  | .reference name _ => "<" ++ name ++ ">"
  | .sequence _ => "transform"
  | .alternation _ => "alternation"
  | .repetition _ _ _ => "transform"
  | .optional _ => "optional"
  | .absent _ => "lookahead"

mutual

/-- **A trial of an expression**, its references being followed by `rule`. -/
def Expr.trial (sensitive : Bool) (rule : String → Trial) : Expr → Trial
  | .char c => terminalTrial sensitive (.char c)
  | .literal text => terminalTrial sensitive (.literal text)
  | .pattern p => terminalTrial sensitive (.pattern p)
  | .reference name _ => rule name
  | .sequence items => Trial.folded (Expr.trials sensitive rule items)
  | .alternation items => fun c => Trial.firstOf c none (Expr.trials sensitive rule items)
  | .repetition item min max => ((item.trial sensitive rule).repeated min max).reshaped Tree.fold
  | .optional item => (item.trial sensitive rule).optional
  | .absent item => (item.trial sensitive rule).absent (item.description sensitive)

/-- The trials of several expressions. -/
def Expr.trials (sensitive : Bool) (rule : String → Trial) : List Expr → List Trial
  | [] => []
  | item :: items => item.trial sensitive rule :: Expr.trials sensitive rule items

end

/-- **A trial of a rule**: of its body under its label, with a tree that bears its name. References
are followed down to a depth. -/
def ruleTrial (ds : List Definition) (sensitive : Bool) : Nat → String → Trial
  | 0, _, c => throw (.tooDeep (.unexpected c.position c.peek))
  | depth + 1, name, c =>
    match ds.find? (·.name = name) with
    | none => pure (.failed (.unexpected c.position c.peek))
    | some d =>
      (((d.body.trial sensitive (ruleTrial ds sensitive depth)).labelled d.label).reshaped
        (·.tagged name)) c

theorem Expr.trials_eq_map (sensitive : Bool) (rule : String → Trial) (items : List Expr) :
    Expr.trials sensitive rule items = items.map (Expr.trial sensitive rule) := by
  induction items with
  | nil => rfl
  | cons item items ih => rw [Expr.trials, ih, List.map_cons]

/-! ## Calls finish as trials do -/

section

variable {g : Graph} {sensitive : Bool} {rules : RuleTable} {ds : List Definition}
  {room depth : Nat} {id : ParserId} {e : Expr}

/-- A realization of an expression is described as the expression is. -/
theorem Realizes.describe_eq (hrules : Rules g sensitive rules ds)
    (h : Realizes g sensitive rules id e) : g.describe id = e.description sensitive := by
  have hterminal : ∀ {t : Terminal}, RealizesTerminal g sensitive id t →
      g.describe id = terminalDescription sensitive t := by
    intro t ht
    cases sensitive with
    | true =>
      have ht : g.node? id = some ⟨none, .terminal t⟩ := ht
      rw [Graph.describe, ht]
      rfl
    | false =>
      obtain ⟨both, bare, spaces, hid, -⟩ := ht
      rw [Graph.describe, hid]
      rfl
  cases h with
  | char ht => exact hterminal ht
  | literal ht => exact hterminal ht
  | pattern ht => exact hterminal ht
  | reference hname =>
    obtain ⟨d, body, -, hnode, -⟩ := hrules _ _ hname
    rw [Graph.describe, hnode]
    rfl
  | sequence _ _ hid =>
    rw [Graph.describe, hid]
    rfl
  | alternation _ hid =>
    rw [Graph.describe, hid]
    rfl
  | repetition _ _ hid =>
    rw [Graph.describe, hid]
    rfl
  | optional _ hid =>
    rw [Graph.describe, hid]
    rfl
  | absent _ hid =>
    rw [Graph.describe, hid]
    rfl

theorem covers_bare {t : Terminal} (hid : g.node? id = some ⟨none, .terminal t⟩) :
    (bareTrial t).Covers (g.parse room) id :=
  Graph.covers_of_perform hid fun _ _ _ => .refl _

theorem Skips.covers (hid : Skips g id) : spacesTrial.Covers (g.parse room) id := by
  obtain ⟨run, space, hskip, hrun, hspace⟩ := hid
  exact Graph.covers_of_perform hskip fun below _ _ =>
    Trial.reshaped_covers (Graph.covers_of_perform hrun fun below' _ _ =>
      Trial.repeated_covers (covers_bare hspace) _ _) _

theorem RealizesTerminal.covers {t : Terminal} (hid : RealizesTerminal g sensitive id t) :
    (terminalTrial sensitive t).Covers (g.parse room) id := by
  cases sensitive with
  | true => exact covers_bare hid
  | false =>
    obtain ⟨both, bare, spaces, hfirst, hboth, hbare, hspaces⟩ := hid
    exact Graph.covers_of_perform hfirst fun below _ _ =>
      Trial.reshaped_covers (Graph.covers_of_perform hboth fun below' _ _ =>
        Trial.sequence_covers (.cons (covers_bare hbare) (.cons hspaces.covers .nil))) _

/-- Calls with some room finish with nothing but what trials of expressions finish with, at a depth
of at least as much. -/
def Trials (g : Graph) (sensitive : Bool) (rules : RuleTable) (ds : List Definition)
    (room : Nat) : Prop :=
  ∀ id e, Realizes g sensitive rules id e → ∀ depth, room ≤ depth →
    (e.trial sensitive (ruleTrial ds sensitive depth)).Covers (g.parse room) id

theorem Trials.all (h : Trials g sensitive rules ds room) (hdepth : room ≤ depth)
    {ids : List ParserId} {items : List Expr} (hids : RealizesAll g sensitive rules ids items) :
    List.Forall₂ (fun id t => Trial.Covers t (g.parse room) id) ids
      (Expr.trials sensitive (ruleTrial ds sensitive depth) items) := by
  rw [Expr.trials_eq_map, List.forall₂_map_right_iff]
  exact hids.forall₂.imp fun id e hid => h id e hid depth hdepth

/-- What the right-hand side of a definition finishes with, a trial of its body under its label
does. -/
theorem RealizesBody.covers {d : Definition} (h : ∀ below ≤ room, Trials g sensitive rules ds below)
    (hdepth : room ≤ depth) (hbody : RealizesBody g sensitive rules id d) :
    ((d.body.trial sensitive (ruleTrial ds sensitive depth)).labelled d.label).Covers
      (g.parse room) id := by
  unfold RealizesBody at hbody
  cases hlabel : d.label with
  | none =>
    rw [hlabel] at hbody
    exact h room (Nat.le_refl _) id d.body hbody depth hdepth
  | some label =>
    rw [hlabel] at hbody
    obtain ⟨part, hpart, hnode⟩ := hbody
    refine Graph.covers_of_perform hnode fun below hbelow _ => ?_
    exact Trial.labelled_covers
      (h below (by omega) part d.body hpart depth (by omega)) label

/-- **Calls of a parser that realizes an expression finish with nothing but what trials of the
expression finish with.** -/
theorem Trials.of_rules (hrules : Rules g sensitive rules ds) (room : Nat) :
    Trials g sensitive rules ds room := by
  -- on the room, since a node may call two levels down before it reaches a part of the expression
  induction room using Nat.strongRecOn with
  | ind room ih =>
    intro id e hid depth hdepth
    cases hid with
    | char ht => exact ht.covers
    | literal ht => exact ht.covers
    | pattern ht => exact ht.covers
    | @reference _ name position hname =>
      obtain ⟨d, body, hfind, hnode, hbody⟩ := hrules name id hname
      cases room with
      | zero => exact Graph.covers_zero _
      | succ below =>
        cases depth with
        | zero => exact absurd hdepth (Nat.not_succ_le_zero _)
        | succ depth =>
          -- entering the placeholder uses up one room, as following the reference does a depth
          have hcovers := hbody.covers (fun b hb => ih b (Nat.lt_succ_of_le hb))
            (Nat.le_of_succ_le_succ hdepth)
          intro c
          rw [Expr.trial, ruleTrial, hfind, Graph.parse, Graph.enter, hnode]
          exact (hcovers c).bind fun o => by cases o <;> exact .refl _
    | sequence hparts hwhole hfold =>
      refine Graph.covers_of_perform hfold fun below hbelow _ => Trial.reshaped_covers ?_ _
      refine Graph.covers_of_perform hwhole fun below' hbelow' _ => ?_
      exact Trial.sequence_covers ((ih below' (by omega)).all (by omega) hparts)
    | alternation hbranches hnode =>
      refine Graph.covers_of_perform hnode fun below hbelow _ => ?_
      exact Trial.firstOf_covers ((ih below (by omega)).all (by omega) hbranches) none
    | repetition hpart hwhole hfold =>
      refine Graph.covers_of_perform hfold fun below hbelow _ => Trial.reshaped_covers ?_ _
      refine Graph.covers_of_perform hwhole fun below' hbelow' _ => ?_
      exact Trial.repeated_covers (ih below' (by omega) _ _ hpart depth (by omega)) _ _
    | optional hpart hnode =>
      refine Graph.covers_of_perform hnode fun below hbelow _ => ?_
      exact Trial.optional_covers (ih below (by omega) _ _ hpart depth (by omega))
    | @absent _ part item hpart hnode =>
      refine Graph.covers_of_perform hnode fun below hbelow c => ?_
      change (Attempt.lookahead (g.parse below) part true (g.describe part) c).Below _
      rw [hpart.describe_eq hrules]
      exact Trial.absent_covers (ih below (by omega) part item hpart depth (by omega)) _

end

end Grammar

/-! ## Trials go forward -/

namespace Trial

open Attempt

variable {t : Trial} {c stop : Cursor} {kept kept' : Option ParseError} {P Q : Prop}

/-- Where a trial matches, it goes forward, and it stays where it is only under a condition. -/
def Honest (t : Trial) (P : Prop) : Prop :=
  ∀ c kept tree stop kept', (t c).run kept = .ok (.matched tree stop, kept') →
    c ≤ stop ∧ (stop = c → P)

theorem Honest.imp (h : t.Honest P) (hPQ : P → Q) : t.Honest Q :=
  fun c kept tree stop kept' hrun =>
    ⟨(h c kept tree stop kept' hrun).1, hPQ ∘ (h c kept tree stop kept' hrun).2⟩

/-- Steps forward that lead back to where they started lead nowhere in between. -/
theorem forward_trans {mid : Cursor} (h : c ≤ mid ∧ (mid = c → P))
    (h' : mid ≤ stop ∧ (stop = mid → Q)) : c ≤ stop ∧ (stop = c → P ∧ Q) := by
  refine ⟨Cursor.le_trans h.1 h'.1, ?_⟩
  rintro rfl
  have hmid : mid = stop := Cursor.le_antisymm h.1 h'.1
  exact ⟨h.2 hmid, h'.2 hmid.symm⟩

/-- Trials in order stay where they are only if each of them does. -/
theorem inOrder_honest {α : Type} {items : List α} {f : α → Trial} {P : α → Prop}
    (h : ∀ a ∈ items, (f a).Honest (P a)) {trees : List Tree}
    (hrun : (inOrder (items.map f) c).run kept = .ok (.ok (trees, stop), kept')) :
    c ≤ stop ∧ (stop = c → ∀ a ∈ items, P a) := by
  induction items generalizing c kept trees with
  | nil =>
    cases pure_eq_ok.1 hrun
    exact ⟨Cursor.le_refl _, fun _ _ ha => absurd ha List.not_mem_nil⟩
  | cons a items ih =>
    obtain ⟨ha, hitems⟩ := List.forall_mem_cons.1 h
    obtain ⟨o, k₁, hround, hgo⟩ := bind_eq_ok.1 hrun
    cases o with
    | failed e => cases pure_eq_ok.1 hgo
    | matched tree mid =>
      obtain ⟨rest, k₂, hrest, hgo⟩ := bind_eq_ok.1 hgo
      cases rest with
      | error e => cases pure_eq_ok.1 hgo
      | ok p =>
        cases pure_eq_ok.1 hgo
        simp only [List.forall_mem_cons]
        exact forward_trans (ha _ _ _ _ _ hround) (ih hitems hrest)

theorem sequence_honest {α : Type} {items : List α} {f : α → Trial} {P : α → Prop}
    (h : ∀ a ∈ items, (f a).Honest (P a)) :
    (sequence (items.map f)).Honest (∀ a ∈ items, P a) := by
  intro c kept tree stop kept' hrun
  obtain ⟨r, k₁, horder, hgo⟩ := bind_eq_ok.1 hrun
  cases r with
  | error e => cases pure_eq_ok.1 hgo
  | ok p =>
    cases pure_eq_ok.1 hgo
    exact inOrder_honest h horder

/-- The first trial that matches stays where it is only if one of them may. -/
theorem firstOf_honest {α : Type} {items : List α} {f : α → Trial} {P : α → Prop}
    (h : ∀ a ∈ items, (f a).Honest (P a)) (failure : Option ParseError) {tree : Tree}
    (hrun : (firstOf c failure (items.map f)).run kept = .ok (.matched tree stop, kept')) :
    c ≤ stop ∧ (stop = c → ∃ a ∈ items, P a) := by
  induction items generalizing failure kept with
  | nil => cases failure <;> cases pure_eq_ok.1 hrun
  | cons a items ih =>
    obtain ⟨ha, hitems⟩ := List.forall_mem_cons.1 h
    rw [List.map_cons, firstOf] at hrun
    obtain ⟨o, k₁, hround, hgo⟩ := bind_eq_ok.1 hrun
    rw [List.exists_mem_cons_iff]
    cases o with
    | matched tree' mid =>
      cases pure_eq_ok.1 hgo
      exact (ha _ _ _ _ _ hround).imp_right fun h hstop => Or.inl (h hstop)
    | failed e => exact (ih hitems _ hgo).imp_right fun h hstop => Or.inr (h hstop)

theorem reshaped_honest (h : t.Honest P) (mapping : Tree → Tree) :
    (t.reshaped mapping).Honest P := by
  intro c kept tree stop kept' hrun
  obtain ⟨o, k₁, hround, hgo⟩ := bind_eq_ok.1 hrun
  cases o with
  | failed e => cases pure_eq_ok.1 hgo
  | matched tree' mid =>
    cases pure_eq_ok.1 hgo
    exact h _ _ _ _ _ hround

theorem labelled_honest (h : t.Honest P) (label : Option String) : (t.labelled label).Honest P := by
  cases label with
  | none => exact h
  | some label =>
    intro c kept tree stop kept' hrun
    obtain ⟨o, k₁, hround, hgo⟩ := bind_eq_ok.1 hrun
    cases o with
    | failed e => cases pure_eq_ok.1 hgo
    | matched tree' mid =>
      cases pure_eq_ok.1 hgo
      obtain ⟨inner, hround⟩ := isolated_eq_ok hround
      exact h _ _ _ _ _ hround

theorem optional_honest (h : t.Honest P) : t.optional.Honest True := by
  intro c kept tree stop kept' hrun
  obtain ⟨o, k₁, hround, hgo⟩ := bind_eq_ok.1 hrun
  cases o with
  | matched tree' mid =>
    cases pure_eq_ok.1 hgo
    exact ⟨(h _ _ _ _ _ hround).1, fun _ => trivial⟩
  | failed e =>
    obtain ⟨u, k₂, -, hgo⟩ := bind_eq_ok.1 hgo
    cases pure_eq_ok.1 hgo
    exact ⟨Cursor.le_refl _, fun _ => trivial⟩

theorem absent_honest (t : Trial) (description : String) :
    (t.absent description).Honest True := by
  intro c kept tree stop kept' hrun
  obtain ⟨o, k₁, -, hgo⟩ := bind_eq_ok.1 hrun
  cases o with
  | matched tree' mid => cases pure_eq_ok.1 hgo
  | failed e =>
    cases pure_eq_ok.1 hgo
    exact ⟨Cursor.le_refl _, fun _ => trivial⟩

/-- Rounds stay where they are only if there is none or a round may. -/
theorem rounds_honest (h : t.Honest P) {unbounded : Bool} {n : Nat} {trees : List Tree}
    {ending : Ending}
    (hrun : (rounds (fun _ => t) default unbounded n c).run kept =
      .ok ((trees, stop, ending), kept')) : c ≤ stop ∧ (stop = c → trees = [] ∨ P) := by
  induction n generalizing c kept trees with
  | zero =>
    cases pure_eq_ok.1 hrun
    exact ⟨Cursor.le_refl _, fun _ => Or.inl rfl⟩
  | succ n ih =>
    obtain ⟨o, k₁, hround, hgo⟩ := bind_eq_ok.1 hrun
    cases o with
    | failed e =>
      cases pure_eq_ok.1 hgo
      exact ⟨Cursor.le_refl _, fun _ => Or.inl rfl⟩
    | matched tree mid =>
      have hmid := h _ _ _ _ _ hround
      dsimp only at hgo
      split at hgo
      · cases pure_eq_ok.1 hgo
        exact hmid.imp_right fun h hstop => Or.inr (h hstop)
      · obtain ⟨⟨trees', stop', ending'⟩, k₂, hrest, hgo⟩ := bind_eq_ok.1 hgo
        cases pure_eq_ok.1 hgo
        exact (forward_trans hmid (ih hrest)).imp_right fun h hstop => Or.inr (h hstop).1

/-- A repetition stays where it is only if it needs no round or a round may. -/
theorem repeated_honest (h : t.Honest P) (min : Nat) (max : Option Nat) :
    (t.repeated min max).Honest (min = 0 ∨ P) := by
  intro c kept tree stop kept' hrun
  obtain ⟨⟨trees, mid, ending⟩, k₁, hrounds, hgo⟩ := bind_eq_ok.1 hrun
  have hmid := rounds_honest h hrounds
  -- no trees are enough only if none are needed
  have henough : ¬ trees.length < min → trees = [] ∨ P → min = 0 ∨ P := by
    rintro hlength (rfl | hP)
    · exact Or.inl (by simpa using hlength)
    · exact Or.inr hP
  cases ending with
  | stalled =>
    cases pure_eq_ok.1 hgo
    exact hmid.imp_right fun hP hstop =>
      Or.inr ((hP hstop).resolve_left ((rounds_eq_ok hrounds).2 rfl).2)
  | full =>
    dsimp only at hgo
    split at hgo
    · exact nomatch pure_eq_ok.1 hgo
    · next hlength =>
      cases pure_eq_ok.1 hgo
      exact hmid.imp_right fun hP hstop => henough hlength (hP hstop)
  | gaveUp start e =>
    dsimp only at hgo
    split at hgo
    · exact nomatch pure_eq_ok.1 hgo
    · next hlength =>
      obtain ⟨u, k₂, -, hgo⟩ := bind_eq_ok.1 hgo
      cases pure_eq_ok.1 hgo
      exact hmid.imp_right fun hP hstop => henough hlength (hP hstop)

end Trial

namespace Grammar

section

variable {ds : List Definition} {sensitive : Bool} {rule : String → Trial} {e : Expr}

theorem bareTrial_honest {t : Terminal} (hpattern : (Kind.terminal t).KnowsEmpty) :
    (bareTrial t).Honest (t.isNullable = true) := by
  intro c kept tree stop kept' hrun
  have hrun := Attempt.pure_eq_ok.1 hrun
  unfold Attempt.terminal at hrun
  cases hspan : t.span c with
  | none =>
    rw [hspan] at hrun
    cases hrun
  | some n =>
    rw [hspan] at hrun
    cases hrun
    refine ⟨c.le_advance n, fun hstop => ?_⟩
    -- nothing was taken, since as much is ahead as before
    have hlength := congrArg (fun d => d.ahead.length) hstop
    simp only [Cursor.ahead_advance, List.length_drop] at hlength
    have hle := Terminal.span_le hspan
    obtain rfl : n = 0 := by omega
    exact Terminal.isNullable_of_span hpattern hspan

theorem spacesTrial_honest : spacesTrial.Honest True := by
  have hbare := bareTrial_honest (t := .satisfy "whitespace" CharSet.whiteSpace.contains)
    fun p hp => nomatch hp
  exact (Trial.reshaped_honest (Trial.repeated_honest hbare 0 none) _).imp fun _ => trivial

theorem terminalTrial_honest {t : Terminal} (hpattern : (Kind.terminal t).KnowsEmpty) :
    (terminalTrial sensitive t).Honest (t.isNullable = true) := by
  cases sensitive with
  | true => exact bareTrial_honest hpattern
  | false =>
    have hparts : ∀ part ∈ [(bareTrial t, t.isNullable = true), (spacesTrial, True)],
        part.1.Honest part.2 :=
      List.forall_mem_cons.2 ⟨bareTrial_honest hpattern,
        List.forall_mem_singleton.2 spacesTrial_honest⟩
    have hboth := Trial.sequence_honest hparts
    exact (Trial.reshaped_honest hboth _).imp fun h => h _ List.mem_cons_self

/-- **A trial of an expression goes forward, and stays where it is only if the expression is
nullable**, if this is so for the rules and patterns know what they match. -/
theorem Expr.trial_honest (hpattern : ∀ p, Occurs ds (.pattern p) → p.KnowsEmpty)
    (hrule : ∀ name, (rule name).Honest (∃ d ∈ ds, d.name = name ∧ d.body.Nullable ds))
    (e : Expr) (he : Occurs ds e) : (e.trial sensitive rule).Honest (e.Nullable ds) := by
  induction e using Expr.induct with
  | step e ih =>
    have hitems : ∀ item ∈ e.items, (item.trial sensitive rule).Honest (item.Nullable ds) :=
      fun item hitem => ih item hitem (.item he hitem)
    cases e with
    | char x =>
      exact (terminalTrial_honest (t := .char x) fun p hp => nomatch hp).imp fun h => nomatch h
    | literal text =>
      exact (terminalTrial_honest (t := .literal text) fun p hp => nomatch hp).imp
        fun h => .literal h
    | pattern p =>
      refine (terminalTrial_honest fun q hq => ?_).imp fun h => .pattern h
      cases hq
      exact hpattern p he
    | reference name position =>
      exact (hrule name).imp fun ⟨d, hd, hname, h⟩ => .reference hd hname h
    | sequence items =>
      rw [Expr.trial, Expr.trials_eq_map]
      exact (Trial.reshaped_honest (Trial.sequence_honest hitems) _).imp .sequence
    | alternation items =>
      rw [Expr.trial, Expr.trials_eq_map]
      intro c kept tree stop kept' hrun
      exact (Trial.firstOf_honest hitems none hrun).imp_right fun h hstop =>
        (Expr.nullable_alternation_iff items).2 (h hstop)
    | repetition item min max =>
      refine (Trial.reshaped_honest (Trial.repeated_honest
        (hitems item (List.mem_singleton_self item)) min max) _).imp ?_
      exact Expr.nullable_repetition_iff.2
    | optional item =>
      exact (Trial.optional_honest (hitems item (List.mem_singleton_self item))).imp
        fun _ => .optional
    | absent item => exact (Trial.absent_honest _ _).imp fun _ => .absent

/-- **So it is with a trial of a rule**, to whatever depth rules are followed. -/
theorem ruleTrial_honest (hpattern : ∀ p, Occurs ds (.pattern p) → p.KnowsEmpty) (depth : Nat)
    (name : String) :
    (ruleTrial ds sensitive depth name).Honest
      (∃ d ∈ ds, d.name = name ∧ d.body.Nullable ds) := by
  induction depth generalizing name with
  | zero => exact fun c kept tree stop kept' hrun => nomatch hrun
  | succ depth ih =>
    intro c kept tree stop kept' hrun
    rw [ruleTrial] at hrun
    cases hfind : ds.find? (·.name = name) with
    | none =>
      rw [hfind] at hrun
      cases Attempt.pure_eq_ok.1 hrun
    | some d =>
      rw [hfind] at hrun
      have hd := List.mem_of_find?_eq_some hfind
      have hname : d.name = name := by simpa using List.find?_some hfind
      have hbody : (d.body.trial sensitive _).Honest _ :=
        Expr.trial_honest hpattern ih d.body (.body hd)
      exact (Trial.reshaped_honest (Trial.labelled_honest hbody d.label) _ _ _ _ _ _ hrun).imp_right
        fun h hstop => ⟨d, hd, hname, h hstop⟩

end

end Grammar

end ParserGraph
