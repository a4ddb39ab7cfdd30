import ParserGraph.Proofs.Graph.Reach
import ParserGraph.Proofs.Run.Location
import ParserGraph.Proofs.Run.Runner

/-!
# Explanations — where the items of an error come from

An error that a run tells was merged from errors of many calls, some of them
kept aside for long. Still each item that it expects was expected by a call
that failed where the error points and that no parser stood around whose
business it is to tell failures in other words (`Graph.Shields`); and so was
its message told. This is an invariant of the errors that are told or kept
aside in the open (`Graph.Explained`): merging errors keeps it, as errors at
one offset are at one place, and what a parser shields is dropped by it. A
script hands on what its calls tell (`Script.Tells`), so every call keeps the
invariant (`Graph.trace_explains`).
-/

namespace ParserGraph

/-! ## What failed calls tell -/

namespace Graph

/-- A parser that tells the failures of the calls inside its own in other words, or drops them. -/
inductive Shields (g : Graph) (id : ParserId) : Prop
  | expect {part : ParserId} {label : String} :
      g.kind? id = some (.expect part label) → Shields g id
  | lookahead {part : ParserId} : g.kind? id = some (.lookahead part true) → Shields g id

/-- An item that a call of a parser expects where it fails. -/
inductive Expects (g : Graph) (id : ParserId) : String → Prop
  | terminal {t : Terminal} {item : String} :
      g.kind? id = some (.terminal t) → t.expectation? = some item → Expects g id item
  | expect {part : ParserId} {label : String} :
      g.kind? id = some (.expect part label) → Expects g id label
  | lookahead {part : ParserId} :
      g.kind? id = some (.lookahead part true) → Expects g id ("not " ++ g.describe part)

/-- A message that a call of a parser fails with. -/
inductive FailsWith (g : Graph) (id : ParserId) : String → Prop
  | fail {message : String} :
      g.kind? id = some (.terminal (.fail message)) → FailsWith g id message
  | undefined : g.kind? id = some (.rule none) →
      FailsWith g id ("rule <" ++ (g.name? id).getD "" ++ "> is undefined")

/-- Nothing shields the calls inside of some. -/
def Open (g : Graph) (enclosing : List ParserId) : Prop := ∀ q ∈ enclosing, ¬ g.Shields q

/-- A call that failed at a position, in the open. -/
structure FailedAt (g : Graph) (turns : List Turn) (position : Position) (visit : Visit) :
    Prop where
  failed : ∃ e, .ended visit (.failed e) ∈ turns
  position : visit.cursor.position = position
  unshielded : g.Open visit.enclosing

/-- An error whose place is one of the input, and whose items and message are those of calls that
failed there in the open. It says something unless the root leads to an alternation of nothing. -/
structure Explained (g : Graph) (root : ParserId) (input : String) (turns : List Turn)
    (e : ParseError) : Prop where
  place : ∃ d, Cursor.start input ≤ d ∧ e.position = d.position
  expected : ∀ item ∈ e.expected,
    ∃ visit, g.FailedAt turns e.position visit ∧ g.Expects visit.id item
  failure : ∀ message, e.failure = some message →
    ∃ visit, g.FailedAt turns e.position visit ∧ g.FailsWith visit.id message
  telling : (∀ q, g.Leads root q → g.kind? q ≠ some (.alternation [])) →
    (∃ item, item ∈ e.expected) ∨ e.failure.isSome

end Graph

/-- Places of an input at one offset are the same. -/
theorem Cursor.eq_of_offset_eq {input : String} {c d : Cursor} (hc : start input ≤ c)
    (hd : start input ≤ d) (h : c.position.offset = d.position.offset) : c = d := by
  obtain ⟨m, rfl⟩ := hc
  obtain ⟨n, rfl⟩ := hd
  rcases Nat.le_total m n with hmn | hnm
  · obtain ⟨k, rfl⟩ := Nat.exists_eq_add_of_le hmn
    have hle : (start input).advance m ≤ (start input).advance (m + k) :=
      ⟨k, (Cursor.advance_advance _ m k).symm⟩
    exact (Cursor.eq_of_offset_le hle (Nat.le_of_eq h.symm)).symm
  · obtain ⟨k, rfl⟩ := Nat.exists_eq_add_of_le hnm
    have hle : (start input).advance n ≤ (start input).advance (n + k) :=
      ⟨k, (Cursor.advance_advance _ n k).symm⟩
    exact Cursor.eq_of_offset_le hle (Nat.le_of_eq h)

namespace Graph.Explained

variable {g : Graph} {root : ParserId} {input : String} {turns : List Turn} {e f : ParseError}

/-- **Errors that are explained merge into one that is.** -/
theorem merge (he : g.Explained root input turns e) (hf : g.Explained root input turns f) :
    g.Explained root input turns (e.merge f) := by
  unfold ParseError.merge
  split
  · exact he
  split
  · exact hf
  next hef hfe =>
    -- errors at one offset are at one place
    have hposition : f.position = e.position := by
      obtain ⟨c, hc, hec⟩ := he.place
      obtain ⟨d, hd, hfd⟩ := hf.place
      have hcd : c = d := Cursor.eq_of_offset_eq hc hd (by rw [← hec, ← hfd]; omega)
      rw [hec, hfd, hcd]
    refine ⟨he.place, fun item hitem => ?_, fun message hmessage => ?_, fun hroot => ?_⟩
    · rcases ItemSet.mem_union.1 hitem with hitem | hitem
      · exact he.expected item hitem
      · obtain ⟨visit, hvisit, hexpects⟩ := hf.expected item hitem
        exact ⟨visit, hposition ▸ hvisit, hexpects⟩
    · rcases Option.or_eq_some_iff.1 hmessage with hmessage | ⟨-, hmessage⟩
      · exact he.failure message hmessage
      · obtain ⟨visit, hvisit, hfails⟩ := hf.failure message hmessage
        exact ⟨visit, hposition ▸ hvisit, hfails⟩
    · rcases he.telling hroot with ⟨item, hitem⟩ | hmessage
      · exact Or.inl ⟨item, ItemSet.mem_union.2 (Or.inl hitem)⟩
      · exact Or.inr (by simp [Option.isSome_or, hmessage])

variable {visit : Visit} {item message : String} {found : Option Char}

/-- What a call that failed in the open expected is explained by it. -/
theorem expecting (hstart : Cursor.start input ≤ visit.cursor)
    (hvisit : g.FailedAt turns visit.cursor.position visit) (hexpects : g.Expects visit.id item) :
    g.Explained root input turns (.expecting visit.cursor.position item found) := by
  refine ⟨⟨_, hstart, rfl⟩, fun item' hitem => ?_, fun _ h => (nomatch h), fun _ => ?_⟩
  · rw [ItemSet.mem_singleton.1 hitem]
    exact ⟨visit, hvisit, hexpects⟩
  · exact Or.inl ⟨item, ItemSet.mem_singleton.2 rfl⟩

/-- What a call that failed in the open failed with is explained by it. -/
theorem failing (hstart : Cursor.start input ≤ visit.cursor)
    (hvisit : g.FailedAt turns visit.cursor.position visit)
    (hfails : g.FailsWith visit.id message) :
    g.Explained root input turns (.failing visit.cursor.position message found) := by
  refine ⟨⟨_, hstart, rfl⟩, fun _ h => absurd h ItemSet.not_mem_empty, fun message' h => ?_,
    fun _ => Or.inr rfl⟩
  cases h
  exact ⟨visit, hvisit, hfails⟩

end Graph.Explained

/-- With bounds in order, rounds that ran out are enough: they are as many as were allowed, or
without an upper bound would have taken more characters than there were. -/
theorem Kind.Ordered.enough {part : ParserId} {min n : Nat} {max : Option Nat} {c stop : Cursor}
    (h : (Kind.repetition part min max).Ordered) (hlength : n = max.getD (c.ahead.length + 1))
    (htaken : max.isNone = true →
      stop.ahead.length + max.getD (c.ahead.length + 1) ≤ c.ahead.length) : ¬ n < min := by
  cases max with
  | some high =>
    have hmin : min ≤ high := h
    rw [Option.getD_some] at hlength
    omega
  | none =>
    have htaken := htaken rfl
    rw [Option.getD_none] at htaken
    omega

/-! ## What scripts hand on -/

/-- An outcome of a call at a place that ends no earlier, or fails with an error of some sort. -/
def Outcome.Tells (P : ParseError → Prop) (c : Cursor) : Outcome → Prop
  | .matched _ stop => c ≤ stop
  | .failed e => P e

namespace Script

variable {α β : Type} {calls : ParserId → Prop} {P : ParseError → Prop} {c cursor : Cursor}

/-- A script that calls some parsers only, from a place on, and that keeps aside errors of some sort
only and has a result of some sort, if its calls tell such errors. -/
def Tells (calls : ParserId → Prop) (P : ParseError → Prop) (c : Cursor) (R : α → Prop) :
    Script α → Prop
  | done a => R a
  | call _ id cursor next =>
    calls id ∧ c ≤ cursor ∧ ∀ o : Outcome, o.Tells P cursor → (next o).Tells calls P c R
  | abandon _ e next => P e ∧ next.Tells calls P c R

namespace Tells

variable {R : α → Prop} {S : β → Prop}

theorem bind {s : Script α} {f : α → Script β} (hs : s.Tells calls P c R)
    (hf : ∀ a, R a → (f a).Tells calls P c S) : (s >>= f).Tells calls P c S := by
  change (s.bind f).Tells calls P c S
  induction s with
  | done a => exact hf a hs
  | call alone id cursor next ih =>
    obtain ⟨hid, hle, hnext⟩ := hs
    exact ⟨hid, hle, fun o ho => ih o (hnext o ho)⟩
  | abandon start e next ih => exact ⟨hs.1, ih hs.2⟩

theorem ask {id : ParserId} (hid : calls id) (hle : c ≤ cursor) :
    (Script.ask id cursor).Tells calls P c (Outcome.Tells P cursor) :=
  ⟨hid, hle, fun _ ho => ho⟩

theorem askAlone {id : ParserId} (hid : calls id) (hle : c ≤ cursor) :
    (Script.askAlone id cursor).Tells calls P c (Outcome.Tells P cursor) :=
  ⟨hid, hle, fun _ ho => ho⟩

theorem setAside {start : Position} {e : ParseError} (he : P e) :
    (Script.setAside start e).Tells calls P c fun _ => True :=
  ⟨he, trivial⟩

end Tells

theorem inOrder_tells {ids : List ParserId} (hids : ∀ id ∈ ids, calls id) (hle : c ≤ cursor) :
    (inOrder ids cursor).Tells calls P c fun
      | .ok (_, stop) => cursor ≤ stop
      | .error e => P e := by
  induction ids generalizing cursor with
  | nil => exact Cursor.le_refl cursor
  | cons id ids ih =>
    obtain ⟨hid, hids⟩ := List.forall_mem_cons.1 hids
    refine (Tells.ask hid hle).bind fun o ho => ?_
    cases o with
    | failed e => exact ho
    | matched tree stop =>
      have hstop : cursor ≤ stop := ho
      refine (ih hids (Cursor.le_trans hle hstop)).bind fun r hr => ?_
      cases r with
      | error e => exact hr
      | ok p => exact Cursor.le_trans hstop hr

theorem sequence_tells {parts : List ParserId} (hparts : ∀ id ∈ parts, calls id) :
    (sequence parts c).Tells calls P c (Outcome.Tells P c) := by
  refine (inOrder_tells hparts (Cursor.le_refl c)).bind fun r hr => ?_
  cases r with
  | error e => exact hr
  | ok p => exact hr

theorem firstOf_tells (hmerge : ∀ e f, P e → P f → P (e.merge f)) {ids : List ParserId}
    (hids : ∀ id ∈ ids, calls id) {failure : Option ParseError}
    (hfailure : ∀ e, failure = some e → P e)
    (hempty : failure = none → ids = [] → P (.unexpected c.position c.peek)) :
    (firstOf c failure ids).Tells calls P c (Outcome.Tells P c) := by
  induction ids generalizing failure with
  | nil =>
    cases failure with
    | none => exact hempty rfl rfl
    | some e => exact hfailure e rfl
  | cons id ids ih =>
    obtain ⟨hid, hids⟩ := List.forall_mem_cons.1 hids
    rw [firstOf]
    refine (Tells.ask hid (Cursor.le_refl c)).bind fun o ho => ?_
    cases o with
    | matched tree stop => exact ho
    | failed e =>
      refine ih hids (fun f hf => ?_) fun h => absurd h (Option.some_ne_none _)
      cases hf
      cases failure with
      | none => exact ho
      | some first => exact hmerge first e (hfailure first rfl) ho

theorem optional_tells {part : ParserId} (hpart : calls part) :
    (optional part c).Tells calls P c (Outcome.Tells P c) := by
  refine (Tells.ask hpart (Cursor.le_refl c)).bind fun o ho => ?_
  cases o with
  | matched tree stop => exact ho
  | failed e => exact (Tells.setAside ho).bind fun _ _ => Cursor.le_refl c

/-- Rounds that ran out are as many as were allowed and, without an upper bound, took a character
each; a round that failed tells why. -/
theorem rounds_tells {part : ParserId} (hpart : calls part) {unbounded : Bool} {n : Nat}
    (hle : c ≤ cursor) :
    (rounds part unbounded n cursor).Tells calls P c fun
      | (_, stop, .stalled) => cursor ≤ stop
      | (trees, stop, .full) => cursor ≤ stop ∧ trees.length = n ∧
        (unbounded = true → stop.ahead.length + n ≤ cursor.ahead.length)
      | (_, stop, .gaveUp _ e) => cursor ≤ stop ∧ P e := by
  induction n generalizing cursor with
  | zero => exact ⟨Cursor.le_refl cursor, rfl, fun _ => Nat.le_refl _⟩
  | succ n ih =>
    refine (Tells.ask hpart hle).bind fun o ho => ?_
    cases o with
    | failed e => exact ⟨Cursor.le_refl cursor, ho⟩
    | matched tree mid =>
      have hmid : cursor ≤ mid := ho
      dsimp only
      split
      · exact hmid
      · next hgoes =>
        have hnext : unbounded = true → mid.ahead.length < cursor.ahead.length := by
          rintro rfl
          refine Cursor.length_ahead_lt hmid ?_
          rintro rfl
          simp at hgoes
        refine (ih (Cursor.le_trans hle hmid)).bind fun r hr => ?_
        obtain ⟨trees, stop, ending⟩ := r
        cases ending with
        | stalled => exact Cursor.le_trans hmid hr
        | full =>
          obtain ⟨hstop, hlength, htaken⟩ := hr
          refine ⟨Cursor.le_trans hmid hstop, congrArg (· + 1) hlength, fun hu => ?_⟩
          have hrest : stop.ahead.length + n ≤ mid.ahead.length := htaken hu
          have hround : mid.ahead.length < cursor.ahead.length := hnext hu
          show stop.ahead.length + (n + 1) ≤ cursor.ahead.length
          omega
        | gaveUp start e => exact ⟨Cursor.le_trans hmid hr.1, hr.2⟩

/-- With bounds in order, rounds never run out below the lower bound. -/
theorem repetition_tells {part : ParserId} (hpart : calls part) {min : Nat} {max : Option Nat}
    (hbounds : (Kind.repetition part min max).Ordered) :
    (repetition part min max c).Tells calls P c (Outcome.Tells P c) := by
  refine (rounds_tells hpart (Cursor.le_refl c)).bind fun r hr => ?_
  obtain ⟨trees, stop, ending⟩ := r
  cases ending with
  | stalled => exact hr
  | full =>
    obtain ⟨hstop, hlength, htaken⟩ := hr
    dsimp only
    rw [if_neg (hbounds.enough hlength htaken)]
    exact hstop
  | gaveUp start e =>
    dsimp only
    split
    · exact hr.2
    · exact (Tells.setAside hr.2).bind fun _ _ => hr.1

/-- A lookahead for a match hands on why there is none. -/
theorem lookahead_tells {part : ParserId} (hpart : calls part) {description : String} :
    (lookahead part false description c).Tells calls P c (Outcome.Tells P c) := by
  refine (Tells.askAlone hpart (Cursor.le_refl c)).bind fun o ho => ?_
  cases o with
  | matched tree stop => exact Cursor.le_refl c
  | failed e => exact ho

theorem transform_tells {part : ParserId} (hpart : calls part) {mapping : Tree → Tree} :
    (transform part mapping c).Tells calls P c (Outcome.Tells P c) := by
  refine (Tells.ask hpart (Cursor.le_refl c)).bind fun o ho => ?_
  cases o <;> exact ho

theorem token_tells {part : ParserId} (hpart : calls part) :
    (token part c).Tells calls P c (Outcome.Tells P c) := by
  refine (Tells.ask hpart (Cursor.le_refl c)).bind fun o ho => ?_
  cases o <;> exact ho

end Script

/-- **A node that shields nothing hands on what its operands tell**, and what it fails with by
itself. -/
theorem Node.script_tells {node : Node} {g : Graph} {c : Cursor} {P : ParseError → Prop}
    (hmerge : ∀ e f, P e → P f → P (e.merge f)) (hordered : node.kind.Ordered)
    (hexpect : ∀ part label, node.kind ≠ .expect part label)
    (hlookahead : ∀ part, node.kind ≠ .lookahead part true)
    (hterminal : ∀ t, node.kind = .terminal t → (Attempt.terminal t c).Tells P c)
    (hempty : node.kind = .alternation [] → P (.unexpected c.position c.peek))
    (hundefined : node.kind = .rule none → P (Attempt.undefinedRule node.name c)) :
    (node.script g c).Tells (· ∈ node.kind.operands) P c (Outcome.Tells P c) := by
  obtain ⟨name, kind⟩ := node
  cases kind with
  | terminal t => exact hterminal t rfl
  | sequence parts => exact Script.sequence_tells fun _ h => h
  | alternation branches =>
    refine Script.firstOf_tells hmerge (fun _ h => h) (fun _ h => (nomatch h)) fun _ hnil => ?_
    exact hempty (congrArg Kind.alternation hnil)
  | repetition part min max => exact Script.repetition_tells (List.mem_singleton_self part) hordered
  | optional part => exact Script.optional_tells (List.mem_singleton_self part)
  | lookahead part negated =>
    cases negated with
    | false => exact Script.lookahead_tells (List.mem_singleton_self part)
    | true => exact absurd rfl (hlookahead part)
  | transform part mapping => exact Script.transform_tells (List.mem_singleton_self part)
  | token part => exact Script.token_tells (List.mem_singleton_self part)
  | expect part label => exact absurd rfl (hexpect part label)
  | rule body =>
    cases body with
    | none => exact hundefined rfl
    | some body => exact Script.Tells.ask (List.mem_singleton_self body) (Cursor.le_refl c)

/-! ## What runs hand on -/

namespace Runner

variable {α : Type} {make : Routine} {calls : ParserId → Prop} {P : ParseError → Prop} {c : Cursor}
  {turns : List Turn} {enclosing : List ParserId} {r r' : Runner}

/-- The errors kept aside are of some sort. -/
def KeepsAside (P : ParseError → Prop) (r : Runner) : Prop := ∀ e, r.kept = some e → P e

/-- **A run that follows a script hands on what its calls tell**, if none of them stops it. -/
theorem follow_tells (hmerge : ∀ e f, P e → P f → P (e.merge f))
    (hkeeps : ∀ id c r o r', (make id c).run r = .ok (o, r') → r.Keeps r')
    (hmake : ∀ id cursor r o r', calls id → c ≤ cursor → (make id cursor).run r = .ok (o, r') →
      r'.stopped = none → r'.turns <+: turns → r.enclosing = enclosing → r.KeepsAside P →
      r'.KeepsAside P ∧ o.Tells P cursor)
    {s : Script α} {R : α → Prop} {a : α} (hs : s.Tells calls P c R)
    (h : (follow make s).run r = .ok (a, r')) (hgoing : r'.stopped = none)
    (hturns : r'.turns <+: turns) (henclosing : r.enclosing = enclosing)
    (hkept : r.KeepsAside P) : r'.KeepsAside P ∧ R a := by
  induction s generalizing r with
  | done b =>
    cases h
    exact ⟨hkept, hs⟩
  | call alone id cursor next ih =>
    obtain ⟨hid, hle, hnext⟩ := hs
    rw [follow_call] at h
    obtain ⟨⟨o, r₂⟩, hcalling, hrest⟩ := except_bind_eq_ok h
    obtain ⟨r₁, hcall, rfl⟩ := calling_eq_ok hcalling
    -- what the call does to the state is known, as the rest neither goes back on it nor was stopped
    have hfirst := hkeeps _ _ _ _ _ hcall
    have hlast : Keeps _ r' := follow_keeps hkeeps hrest
    have hgoing₁ : r₁.stopped = none := by
      cases hr₁ : r₁.stopped with
      | none => rfl
      | some e => exact nomatch hgoing.symm.trans (hlast.stopped e hr₁)
    have hbefore : { r with kept := if alone then none else r.kept }.KeepsAside P := by
      cases alone with
      | false => exact hkept
      | true => exact fun _ he => (nomatch he)
    obtain ⟨hkept₁, ho⟩ := hmake id cursor _ o r₁ hid hle hcall hgoing₁
      (hlast.turns.trans hturns) henclosing hbefore
    refine ih o (hnext o ho) hrest (hfirst.enclosing.trans henclosing) ?_
    cases alone with
    | false => exact hkept₁
    | true => exact hkept
  | abandon start e next ih =>
    rw [follow_abandon] at h
    refine ih hs.2 h henclosing fun f hf => ?_
    dsimp only at hf
    split at hf
    · exact hkept f hf
    · cases hf
      cases hr : r.kept with
      | none => exact hs.1
      | some first => exact hmerge first e (hkept first hr) hs.1

end Runner

namespace Graph

open Runner

variable {g : Graph} {root id part : ParserId} {input : String} {turns : List Turn}
  {enclosing : List ParserId} {room : Nat} {c : Cursor} {r r' : Runner} {o : Outcome}

/-- An error that is explained if it is told in the open. -/
def ExplainedInside (g : Graph) (root : ParserId) (input : String) (turns : List Turn)
    (enclosing : List ParserId) (e : ParseError) : Prop :=
  g.Open enclosing → g.Explained root input turns e

/-- Inside a parser that shields nothing, the same is in the open as outside. -/
theorem explainedInside_cons (h : ¬ g.Shields id) {e : ParseError} :
    g.ExplainedInside root input turns (id :: enclosing) e ↔
      g.ExplainedInside root input turns enclosing e := by
  have hopen : g.Open (id :: enclosing) ↔ g.Open enclosing := by
    rw [Open, List.forall_mem_cons]
    exact and_iff_right h
  rw [ExplainedInside, hopen]
  rfl

/-- **What a parser that shields makes of the call inside its own**: a match that ends no earlier, or
a failure of its own. -/
theorem Shields.script {node : Node} (h : g.Shields id) (hnode : g.node? id = some node)
    (c : Cursor) :
    ∃ part ∈ node.kind.operands, ∃ next : Outcome → Outcome,
      node.script g c = (do pure (next (← Script.askAlone part c))) ∧
      ∀ (P : ParseError → Prop) (inner : Outcome), inner.Tells P c →
        (∃ tree stop, next inner = .matched tree stop ∧ c ≤ stop) ∨
        ∃ item, next inner = .failed (.expecting c.position item c.peek) ∧ g.Expects id item := by
  have hkind : g.kind? id = some node.kind := by rw [kind?, hnode]; rfl
  obtain ⟨name, kind⟩ := node
  cases h with
  | @expect part label hexpect =>
    cases hkind.symm.trans hexpect
    refine ⟨part, List.mem_singleton_self part, fun
      | .matched tree stop => .matched tree stop
      | .failed _ => .failed (.expecting c.position label c.peek), ?_, fun P inner hinner => ?_⟩
    · exact bind_congr fun o => by cases o <;> rfl
    · cases inner with
      | matched tree stop => exact Or.inl ⟨tree, stop, rfl, hinner⟩
      | failed e => exact Or.inr ⟨label, rfl, .expect hexpect⟩
  | @lookahead part hlookahead =>
    cases hkind.symm.trans hlookahead
    refine ⟨part, List.mem_singleton_self part, fun
      | .matched _ _ => .failed (.expecting c.position ("not " ++ g.describe part) c.peek)
      | .failed _ => .matched (.empty c.position) c, ?_, fun P inner _ => ?_⟩
    · exact bind_congr fun o => by cases o <;> rfl
    · cases inner with
      | matched tree stop => exact Or.inr ⟨_, rfl, .lookahead hlookahead⟩
      | failed e => exact Or.inl ⟨_, c, rfl, Cursor.le_refl c⟩

section

variable {node : Node} {visit : Visit} (hstart : Cursor.start input ≤ visit.cursor)
  (hnode : g.node? visit.id = some node) (hopen : g.Open visit.enclosing)
  (hended : .ended visit (node.labelled o) ∈ turns)
include hstart hnode hopen hended

/-- What a terminal fails with is explained by the call of it. -/
theorem terminal_explained {t : Terminal} (hkind : node.kind = .terminal t)
    (hspan : t.span visit.cursor = none) (ho : o = Attempt.terminal t visit.cursor) :
    g.Explained root input turns (t.failureAt visit.cursor) := by
  have hterminal : g.kind? visit.id = some (.terminal t) := by rw [kind?, hnode, ← hkind]; rfl
  have hfailed : g.FailedAt turns visit.cursor.position visit := by
    refine ⟨⟨t.failureAt visit.cursor, ?_⟩, rfl, hopen⟩
    rw [ho, Attempt.terminal, hspan] at hended
    exact hended
  cases t with
  | fail message => exact .failing hstart hfailed (.fail hterminal)
  | pass => cases hspan
  | _ => exact .expecting hstart hfailed (.terminal hterminal rfl)

/-- What a placeholder without a body fails with is explained by the call of it. -/
theorem undefined_explained (hkind : node.kind = .rule none)
    (ho : o = .failed (Attempt.undefinedRule node.name visit.cursor)) :
    g.Explained root input turns (Attempt.undefinedRule node.name visit.cursor) := by
  have hrule : g.kind? visit.id = some (.rule none) := by rw [kind?, hnode, ← hkind]; rfl
  have hname : g.name? visit.id = node.name := by rw [name?, hnode]; rfl
  subst ho
  have hfails : g.FailsWith visit.id ("rule <" ++ node.name.getD "" ++ "> is undefined") :=
    hname ▸ .undefined hrule
  exact .failing hstart ⟨⟨_, hended⟩, rfl, hopen⟩ hfails

end

section

variable {node : Node} {r₁ : Runner} (hstart : Cursor.start input ≤ c)
  (hnode : g.node? id = some node)
  (hfollow : (follow (g.trace room) (node.script g c)).run
    ((r.noted (.begun (r.visiting id c))).inside id) = .ok (o, r₁))
  (hgoing : r₁.stopped = none) (hturns : r₁.turns <+: turns)
  (hended : .ended (r.visiting id c) (node.labelled o) ∈ turns)
  (hkept : r.KeepsAside (g.ExplainedInside root input turns r.enclosing))
  (hmake : ∀ q cursor r o r', q ∈ node.kind.operands → c ≤ cursor →
    (g.trace room q cursor).run r = .ok (o, r') → r'.stopped = none → r'.turns <+: turns →
    r.KeepsAside (g.ExplainedInside root input turns r.enclosing) →
    r'.KeepsAside (g.ExplainedInside root input turns r.enclosing) ∧
      o.Tells (g.ExplainedInside root input turns r.enclosing) cursor)
include hstart hnode hfollow hgoing hturns hended hkept hmake

/-- A parser that shields leaves the errors kept aside as they were, and tells a failure of its
own. -/
theorem follow_explains_of_shields (hshields : g.Shields id) :
    r₁.KeepsAside (g.ExplainedInside root input turns r.enclosing) ∧
      o.Tells (g.ExplainedInside root input turns r.enclosing) c := by
  obtain ⟨part, hpart, next, hscript, hnext⟩ := hshields.script hnode c
  have hcalled : (follow (g.trace room) (.call true part c fun o => .done (next o))).run
      ((r.noted (.begun (r.visiting id c))).inside id) = .ok (o, r₁) := by
    rw [hscript] at hfollow
    exact hfollow
  rw [follow_call] at hcalled
  obtain ⟨⟨inner, r₂⟩, hcalling, hdone⟩ := except_bind_eq_ok hcalled
  obtain ⟨r₃, hcall, rfl⟩ := calling_eq_ok hcalling
  cases hdone
  obtain ⟨-, hinner⟩ := hmake part c _ inner r₃ hpart (Cursor.le_refl c) hcall hgoing hturns
    fun _ he => (nomatch he)
  refine ⟨hkept, ?_⟩
  rcases hnext _ inner hinner with ⟨tree, stop, hmatched, hle⟩ | ⟨item, hfailed, hexpects⟩
  · rw [hmatched]
    exact hle
  · rw [hfailed] at hended ⊢
    exact fun hopen => .expecting hstart ⟨⟨_, hended⟩, rfl, hopen⟩ hexpects

/-- A parser that shields nothing hands on what it is told. -/
theorem follow_explains_of_not_shields (hg : g.Ordered) (hleads : g.Leads root id)
    (hshields : ¬ g.Shields id) :
    r₁.KeepsAside (g.ExplainedInside root input turns r.enclosing) ∧
      o.Tells (g.ExplainedInside root input turns r.enclosing) c := by
  have hkind : g.kind? id = some node.kind := by rw [kind?, hnode]; rfl
  have hinside : g.ExplainedInside root input turns (id :: r.enclosing) =
      g.ExplainedInside root input turns r.enclosing :=
    funext fun e => propext (explainedInside_cons hshields)
  have hmerge : ∀ e f, g.ExplainedInside root input turns r.enclosing e →
      g.ExplainedInside root input turns r.enclosing f →
      g.ExplainedInside root input turns r.enclosing (e.merge f) :=
    fun e f he hf hopen => (he hopen).merge (hf hopen)
  have hscript : (node.script g c).Tells (· ∈ node.kind.operands)
      (g.ExplainedInside root input turns r.enclosing) c
      (Outcome.Tells (g.ExplainedInside root input turns r.enclosing) c) := by
    refine Node.script_tells hmerge (hg id node hnode) (fun part label hexpect => ?_)
      (fun part hlookahead => ?_) (fun t hterminal => ?_) (fun hempty _ => ?_)
      fun hundefined hopen => ?_
    · exact hshields (.expect (hexpect ▸ hkind))
    · exact hshields (.lookahead (hlookahead ▸ hkind))
    · have ho : o = Attempt.terminal t c := by
        rw [Node.script, hterminal] at hfollow
        cases hfollow
        rfl
      cases hspan : t.span c with
      | some n =>
        rw [Attempt.terminal, hspan]
        exact c.le_advance n
      | none =>
        rw [Attempt.terminal, hspan]
        exact fun hopen => terminal_explained hstart hnode hopen hended hterminal hspan ho
    · exact ⟨⟨c, hstart, rfl⟩, fun _ h => absurd h ItemSet.not_mem_empty,
        fun _ h => absurd h (Option.some_ne_none _).symm,
        fun hroot => absurd (hempty ▸ hkind) (hroot id hleads)⟩
    · have ho : o = .failed (Attempt.undefinedRule node.name c) := by
        rw [Node.script, hundefined] at hfollow
        cases hfollow
        rfl
      exact undefined_explained hstart hnode hopen hended hundefined ho
  refine follow_tells hmerge (fun _ _ _ _ _ h => trace_keeps h) ?_ hscript hfollow hgoing hturns
    rfl hkept
  intro q cursor r₂ o₂ r₃ hq hle hrun hgoing₂ hturns₂ henclosing hkept₂
  have henclosing : r₂.enclosing = id :: r.enclosing := henclosing
  rw [← hinside, ← henclosing] at hkept₂ ⊢
  exact hmake q cursor r₂ o₂ r₃ hq hle hrun hgoing₂ hturns₂ hkept₂

end

/-- **Every call hands on errors that are explained**, if they are told in the open: the error that
it fails with, and the one it leaves aside. -/
theorem trace_explains (hg : g.Ordered) (hreach : g.contains id → g.Leads root id)
    (hstart : Cursor.start input ≤ c) (h : (g.trace room id c).run r = .ok (o, r'))
    (hgoing : r'.stopped = none) (hturns : r'.turns <+: turns)
    (hkept : r.KeepsAside (g.ExplainedInside root input turns r.enclosing)) :
    r'.KeepsAside (g.ExplainedInside root input turns r.enclosing) ∧
      o.Tells (g.ExplainedInside root input turns r.enclosing) c := by
  induction room using Nat.strongRecOn generalizing id c r o r' with
  | ind room ih =>
    cases Steps.of_trace h with
    | stopped hstopped => exact nomatch hgoing.symm.trans hstopped
    | stops _ _ => exact nomatch hgoing
    | @goes room node o r₁ _ _ hnode hfollow =>
      have hleads : g.Leads root id := hreach (contains_iff.2 ⟨node, hnode⟩)
      have hended : .ended (r.visiting id c) (node.labelled o) ∈ turns :=
        hturns.subset (List.mem_append_right _ (List.mem_singleton_self _))
      have hturns₁ : r₁.turns <+: turns := (List.prefix_append _ _).trans hturns
      -- operands are called from here on, and the root leads to them
      have hmake : ∀ q cursor r o r', q ∈ node.kind.operands → c ≤ cursor →
          (g.trace room q cursor).run r = .ok (o, r') → r'.stopped = none →
          r'.turns <+: turns →
          r.KeepsAside (g.ExplainedInside root input turns r.enclosing) →
          r'.KeepsAside (g.ExplainedInside root input turns r.enclosing) ∧
            o.Tells (g.ExplainedInside root input turns r.enclosing) cursor := by
        intro q cursor r o r' hq hle hrun
        refine ih room (Nat.lt_succ_self _) (fun hlive => hleads.step ?_ hlive)
          (Cursor.le_trans hstart hle) hrun
        rwa [operands_of_node? hnode]
      have hends : r₁.KeepsAside (g.ExplainedInside root input turns r.enclosing) ∧
          o.Tells (g.ExplainedInside root input turns r.enclosing) c := by
        by_cases hshields : g.Shields id
        · exact follow_explains_of_shields hstart hnode hfollow hgoing hturns₁ hended hkept hmake
            hshields
        · exact follow_explains_of_not_shields hstart hnode hfollow hgoing hturns₁ hended hkept
            hmake hg hleads hshields
      refine ⟨hends.1, ?_⟩
      cases o <;> exact hends.2

/-- **The error of a run that fails is explained** by what happened in it, unless it was stopped. -/
theorem run_explained (hg : g.Ordered) {e : ParseError} (hrun : g.run id input = .ok (.error e))
    (hstopped : ¬ g.Stopped id input) :
    ∃ o r, g.traced id input = .ok (o, r) ∧ g.Explained id input r.turns e := by
  rw [run_eq_traced] at hrun
  cases htraced : g.traced id input with
  | error m =>
    rw [htraced] at hrun
    exact nomatch hrun
  | ok p =>
    obtain ⟨o, r⟩ := p
    have hverdict : verdict (o, r) = .error e := by
      rw [htraced] at hrun
      exact Except.ok.inj hrun
    have hgoing : r.stopped = none := by
      cases hr : r.stopped with
      | none => rfl
      | some e => exact absurd ⟨o, r, e, htraced, hr⟩ hstopped
    have hopen : g.Open [] := fun q hq => absurd hq List.not_mem_nil
    obtain ⟨hkept, ho⟩ := trace_explains hg (fun hlive => .refl hlive) (Cursor.le_refl _) htraced
      hgoing List.prefix_rfl fun _ he => (nomatch he)
    refine ⟨o, r, rfl, ?_⟩
    -- the error is the one that the call failed with, merged with the one left aside
    unfold verdict at hverdict
    dsimp only at hverdict
    rw [hgoing] at hverdict
    cases o with
    | matched tree stop => exact nomatch hverdict
    | failed last =>
      have hlast : g.Explained id input r.turns last := ho hopen
      cases hr : r.kept with
      | none =>
        rw [hr] at hverdict
        cases hverdict
        exact hlast
      | some kept =>
        rw [hr] at hverdict
        cases hverdict
        exact hlast.merge (hkept kept hr hopen)

end Graph

end ParserGraph
