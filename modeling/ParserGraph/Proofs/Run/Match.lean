import ParserGraph.Graph.Basic
import ParserGraph.Proofs.Run.Place
import ParserGraph.Run.Terminal

/-!
# Matches — what a node comes to, given what the calls of its operands come to

A run threads a kept error and may stop short. Neither matters to what a
finished call comes to: a tree with the place after it, or no match. This
file says what each kind comes to (`Kind.Yields`) and which operands it
calls where (`Kind.Calls`), both over any account of what calls come to, so
that facts about runs can be shown one level of calls at a time.
-/

namespace ParserGraph

/-- What matching comes to: a result with the place after it, or no match. -/
abbrev Match (α : Type) := Option (α × Cursor)

namespace Match

variable {α β γ : Type}

/-- The match with its result changed. -/
def mapResult (f : α → β) (m : Match α) : Match β := m.map fun r => (f r.1, r.2)

@[simp]
theorem mapResult_none (f : α → β) : mapResult f none = none := rfl

@[simp]
theorem mapResult_some (f : α → β) (r : α × Cursor) :
    mapResult f (some r) = some (f r.1, r.2) := rfl

@[simp]
theorem mapResult_mapResult (f : α → β) (g : β → γ) (m : Match α) :
    (m.mapResult f).mapResult g = m.mapResult fun a => g (f a) := by
  cases m <;> rfl

/-- A changed match is a match before the change, up to the same place. -/
theorem mapResult_eq_some_iff {f : α → β} {m : Match α} {b : β} {stop : Cursor} :
    m.mapResult f = some (b, stop) ↔ ∃ a, m = some (a, stop) ∧ f a = b := by
  constructor
  · intro h
    obtain ⟨r, hr, hb⟩ := Option.map_eq_some_iff.1 h
    cases hb
    exact ⟨r.1, hr, rfl⟩
  · rintro ⟨a, rfl, rfl⟩
    rfl

/-- A match ends at a place after the one it was tried at. -/
def EndsAfter (m : Match α) (c : Cursor) : Prop := ∀ a stop, m = some (a, stop) → c ≤ stop

theorem endsAfter_none (c : Cursor) : EndsAfter (none : Match α) c := fun _ _ h => nomatch h

theorem endsAfter_some {a : α} {stop c : Cursor} (h : c ≤ stop) : EndsAfter (some (a, stop)) c :=
  fun _ _ he => by cases he; exact h

theorem EndsAfter.mapResult {f : α → β} {m : Match α} {c : Cursor} (h : m.EndsAfter c) :
    (m.mapResult f).EndsAfter c := by
  intro b stop hb
  obtain ⟨a, ha, -⟩ := mapResult_eq_some_iff.1 hb
  exact h a stop ha

theorem EndsAfter.trans {m : Match α} {c mid : Cursor} (hm : m.EndsAfter mid) (h : c ≤ mid) :
    m.EndsAfter c :=
  fun a stop ha => Cursor.le_trans h (hm a stop ha)

end Match

/-- An account of what calls of parsers come to. -/
abbrev Account := ParserId → Cursor → Match Tree → Prop

/-- Calls match up to a place after the one they were made at. -/
def Account.EndsAfter (R : Account) : Prop := ∀ id c m, R id c m → m.EndsAfter c

theorem Account.EndsAfter.le {R : Account} (hR : R.EndsAfter) {id : ParserId} {c stop : Cursor}
    {t : Tree} (h : R id c (some (t, stop))) : c ≤ stop :=
  hR id c _ h t stop rfl

/-- A call that got nowhere further than where it was made took nothing. -/
theorem Account.EndsAfter.eq_of_le {R : Account} (hR : R.EndsAfter) {id : ParserId}
    {c stop : Cursor} {t : Tree} (h : R id c (some (t, stop))) (hle : stop ≤ c) : stop = c :=
  Cursor.le_antisymm (hR.le h) hle

section

variable (R : Account)

/-! ## What operands come to together -/

/-- What calls one after another come to. -/
inductive InOrder : List ParserId → Cursor → Match (List Tree) → Prop
  /-- No calls match nothing. -/
  | nil {c : Cursor} : InOrder [] c (some ([], c))
  /-- A call that does not match ends them. -/
  | fails {id : ParserId} {ids : List ParserId} {c : Cursor} :
      R id c none → InOrder (id :: ids) c none
  /-- The others go on from where a call matched up to. -/
  | cons {id : ParserId} {ids : List ParserId} {c mid : Cursor} {t : Tree} {m : Match (List Tree)} :
      R id c (some (t, mid)) → InOrder ids mid m → InOrder (id :: ids) c (m.mapResult (t :: ·))

/-- What calls tried one by one at the same place come to. -/
inductive FirstOf : List ParserId → Cursor → Match Tree → Prop
  /-- Without calls there is no match. -/
  | nil {c : Cursor} : FirstOf [] c none
  /-- The first call that matches counts. -/
  | here {id : ParserId} {ids : List ParserId} {c : Cursor} {r : Tree × Cursor} :
      R id c (some r) → FirstOf (id :: ids) c (some r)
  /-- A call that does not match leaves it to the others. -/
  | later {id : ParserId} {ids : List ParserId} {c : Cursor} {m : Match Tree} :
      R id c none → FirstOf ids c m → FirstOf (id :: ids) c m

/-- What rounds of a parser come to, at least `min` and at most `max` of them. -/
inductive Rounds (part : ParserId) : Nat → Option Nat → Cursor → Match (List Tree) → Prop
  /-- No more rounds are allowed, so none may be missing. -/
  | full {min : Nat} {c : Cursor} :
      Rounds part min (some 0) c (if min = 0 then some ([], c) else none)
  /-- A round that does not match is the end, so none may be missing. -/
  | ends {min : Nat} {max : Option Nat} {c : Cursor} :
      max ≠ some 0 → R part c none → Rounds part min max c (if min = 0 then some ([], c) else none)
  /-- Without an upper bound, a round that takes nothing counts for all that are missing. -/
  | stalls {min : Nat} {c : Cursor} {t : Tree} :
      R part c (some (t, c)) → Rounds part min none c (some (List.replicate (max 1 min) t, c))
  /-- The others go on from where a round matched up to. -/
  | again {min : Nat} {max : Option Nat} {c mid : Cursor} {t : Tree} {m : Match (List Tree)} :
      max ≠ some 0 → R part c (some (t, mid)) → (max = none → mid ≠ c) →
      Rounds part (min - 1) (max.map Nat.pred) mid m → Rounds part min max c (m.mapResult (t :: ·))

/-- What a node of a kind comes to, before its tree is tagged. -/
inductive Kind.Yields : Kind → Cursor → Match Tree → Prop
  /-- A terminal takes what it spans. -/
  | terminal {t : Terminal} {c : Cursor} :
      Yields (.terminal t) c ((t.span c).map fun n => (.leaf (c.next n) c.position, c.advance n))
  /-- A sequence puts the trees of its parts under one node. -/
  | sequence {parts : List ParserId} {c : Cursor} {m : Match (List Tree)} :
      InOrder R parts c m → Yields (.sequence parts) c (m.mapResult (.branch · c.position))
  /-- An alternation is the first of its branches that matches. -/
  | alternation {branches : List ParserId} {c : Cursor} {m : Match Tree} :
      FirstOf R branches c m → Yields (.alternation branches) c m
  /-- A repetition puts the trees of its rounds under one node. -/
  | repetition {part : ParserId} {min : Nat} {max : Option Nat} {c : Cursor}
      {m : Match (List Tree)} :
      Rounds R part min max c m →
      Yields (.repetition part min max) c (m.mapResult (.branch · c.position))
  /-- Where its operand does not match, an optional parser matches nothing. -/
  | optional {part : ParserId} {c : Cursor} {m : Match Tree} :
      R part c m → Yields (.optional part) c (some (m.getD (.empty c.position, c)))
  /-- A lookahead takes nothing, where its operand matches or where it does not. -/
  | lookahead {part : ParserId} {negated : Bool} {c : Cursor} {m : Match Tree} :
      R part c m →
      Yields (.lookahead part negated) c
        (if m.isSome = negated then none else some (.empty c.position, c))
  /-- A transformation reshapes the tree. -/
  | transform {part : ParserId} {mapping : Tree → Tree} {c : Cursor} {m : Match Tree} :
      R part c m → Yields (.transform part mapping) c (m.mapResult mapping)
  /-- A token is one leaf over what was taken. -/
  | token {part : ParserId} {c : Cursor} {m : Match Tree} :
      R part c m →
      Yields (.token part) c (m.map fun r => (.leaf (c.upTo r.2) c.position, r.2))
  /-- A label leaves matches as they are. -/
  | expect {part : ParserId} {label : String} {c : Cursor} {m : Match Tree} :
      R part c m → Yields (.expect part label) c m
  /-- A placeholder is its body. -/
  | rule {body : ParserId} {c : Cursor} {m : Match Tree} :
      R body c m → Yields (.rule (some body)) c m
  /-- A placeholder without a body never matches. -/
  | undefined {c : Cursor} : Yields (.rule none) c none

/-! ## Which operands are called where -/

/-- Calls one after another reach a call when those before it matched. -/
inductive CallsInOrder : List ParserId → Cursor → ParserId → Cursor → Prop
  | here {id : ParserId} {ids : List ParserId} {c : Cursor} : CallsInOrder (id :: ids) c id c
  | later {id q : ParserId} {ids : List ParserId} {c mid c' : Cursor} {t : Tree} :
      R id c (some (t, mid)) → CallsInOrder ids mid q c' → CallsInOrder (id :: ids) c q c'

/-- Calls tried one by one reach a call when those before it did not match. -/
inductive CallsFirstOf : List ParserId → Cursor → ParserId → Prop
  | here {id : ParserId} {ids : List ParserId} {c : Cursor} : CallsFirstOf (id :: ids) c id
  | later {id q : ParserId} {ids : List ParserId} {c : Cursor} :
      R id c none → CallsFirstOf ids c q → CallsFirstOf (id :: ids) c q

/-- Rounds reach a call when those before it matched and, without an upper bound, got on. -/
inductive CallsRounds (part : ParserId) : Option Nat → Cursor → Cursor → Prop
  | here {max : Option Nat} {c : Cursor} : max ≠ some 0 → CallsRounds part max c c
  | later {max : Option Nat} {c mid c' : Cursor} {t : Tree} :
      max ≠ some 0 → R part c (some (t, mid)) → (max = none → mid ≠ c) →
      CallsRounds part (max.map Nat.pred) mid c' → CallsRounds part max c c'

/-- A node of a kind, tried at a place, calls an operand at another place. -/
inductive Kind.Calls : Kind → Cursor → ParserId → Cursor → Prop
  | sequence {parts : List ParserId} {c c' : Cursor} {q : ParserId} :
      CallsInOrder R parts c q c' → Calls (.sequence parts) c q c'
  | alternation {branches : List ParserId} {c : Cursor} {q : ParserId} :
      CallsFirstOf R branches c q → Calls (.alternation branches) c q c
  | repetition {part : ParserId} {min : Nat} {max : Option Nat} {c c' : Cursor} :
      CallsRounds R part max c c' → Calls (.repetition part min max) c part c'
  | optional {part : ParserId} {c : Cursor} : Calls (.optional part) c part c
  | lookahead {part : ParserId} {negated : Bool} {c : Cursor} :
      Calls (.lookahead part negated) c part c
  | transform {part : ParserId} {mapping : Tree → Tree} {c : Cursor} :
      Calls (.transform part mapping) c part c
  | token {part : ParserId} {c : Cursor} : Calls (.token part) c part c
  | expect {part : ParserId} {label : String} {c : Cursor} : Calls (.expect part label) c part c
  | rule {body : ParserId} {c : Cursor} : Calls (.rule (some body)) c body c

end

/-! ## What is called is an operand -/

section

variable {R : Account}

theorem CallsInOrder.mem {ids : List ParserId} {c c' : Cursor} {q : ParserId}
    (h : CallsInOrder R ids c q c') : q ∈ ids := by
  induction h with
  | here => exact List.mem_cons_self
  | later _ _ ih => exact List.mem_cons_of_mem _ ih

theorem CallsFirstOf.mem {ids : List ParserId} {c : Cursor} {q : ParserId}
    (h : CallsFirstOf R ids c q) : q ∈ ids := by
  induction h with
  | here => exact List.mem_cons_self
  | later _ _ ih => exact List.mem_cons_of_mem _ ih

/-- What a node calls is one of its operands. -/
theorem Kind.Calls.mem_operands {kind : Kind} {c c' : Cursor} {q : ParserId}
    (h : kind.Calls R c q c') : q ∈ kind.operands := by
  cases h with
  | sequence h => exact h.mem
  | alternation h => exact h.mem
  | _ => exact List.mem_singleton_self _

end

/-! ## Matching goes forward -/

section

variable {R : Account} (hR : R.EndsAfter)
include hR

theorem InOrder.endsAfter {ids : List ParserId} {c : Cursor} {m : Match (List Tree)}
    (h : InOrder R ids c m) : m.EndsAfter c := by
  induction h with
  | nil => exact Match.endsAfter_some (Cursor.le_refl _)
  | fails _ => exact Match.endsAfter_none _
  | cons ht _ ih => exact (ih.mapResult).trans (hR.le ht)

theorem FirstOf.endsAfter {ids : List ParserId} {c : Cursor} {m : Match Tree}
    (h : FirstOf R ids c m) : m.EndsAfter c := by
  induction h with
  | nil => exact Match.endsAfter_none _
  | here h => exact hR _ _ _ h
  | later _ _ ih => exact ih

theorem Rounds.endsAfter {part : ParserId} {min : Nat} {max : Option Nat} {c : Cursor}
    {m : Match (List Tree)} (h : Rounds R part min max c m) : m.EndsAfter c := by
  induction h with
  | full =>
    split
    · exact Match.endsAfter_some (Cursor.le_refl _)
    · exact Match.endsAfter_none _
  | ends _ _ =>
    split
    · exact Match.endsAfter_some (Cursor.le_refl _)
    · exact Match.endsAfter_none _
  | stalls _ => exact Match.endsAfter_some (Cursor.le_refl _)
  | again _ ht _ _ ih => exact (ih.mapResult).trans (hR.le ht)

/-- A node matches up to a place after the one it was tried at, if its operands do. -/
theorem Kind.Yields.endsAfter {kind : Kind} {c : Cursor} {m : Match Tree}
    (h : kind.Yields R c m) : m.EndsAfter c := by
  cases h with
  | terminal =>
    intro t stop hm
    obtain ⟨n, -, hn⟩ := Option.map_eq_some_iff.1 hm
    cases hn
    exact c.le_advance n
  | sequence h => exact (h.endsAfter hR).mapResult
  | alternation h => exact h.endsAfter hR
  | repetition h => exact (h.endsAfter hR).mapResult
  | @optional _ _ m h =>
    cases m with
    | none => exact Match.endsAfter_some (Cursor.le_refl _)
    | some r => exact hR _ _ _ h
  | lookahead _ =>
    split
    · exact Match.endsAfter_none _
    · exact Match.endsAfter_some (Cursor.le_refl _)
  | transform h => exact (hR _ _ _ h).mapResult
  | token h =>
    intro t stop hm
    obtain ⟨r, rfl, hr⟩ := Option.map_eq_some_iff.1 hm
    cases hr
    exact hR.le h
  | expect h => exact hR _ _ _ h
  | rule h => exact hR _ _ _ h
  | undefined => exact Match.endsAfter_none _

end

end ParserGraph
