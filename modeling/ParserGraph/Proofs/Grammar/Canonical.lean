import Mathlib
import ParserGraph.Proofs.Grammar.WellFormed

/-!
# Canonical forms — one spelling of expressions that say the same

A sequence in a sequence can be written without parentheses, and so can an
alternation in an alternation; once or more is once and then any number of
times. The canonical form of an expression is what is left when all of this is
written out (`Expr.canonical`), whatever places its references tell. Which rules an
expression refers to and which patterns are in it (`Expr.Inherited`), what it
may match without taking anything, which rules it may call first and what it
repeats without bound is the same in canonical form, so definitions are
well-formed if their canonical forms are (`wellFormed_canonical_iff`).
-/

namespace ParserGraph.Grammar

/-! ## The form -/

/-- What an expression adds to a sequence around it: a sequence its items, anything else itself. -/
def Expr.parts : Expr → List Expr
  | .sequence items => items
  | e => [e]

/-- What an expression adds to an alternation around it: an alternation its branches, if it has any,
and anything else itself. -/
def Expr.branches : Expr → List Expr
  | .alternation (first :: others) => first :: others
  | e => [e]

/-- An item between two bounds. Where repetitions are unrolled, once or more is once and then any
number of times. -/
def Expr.repeated (unrolled : Bool) (item : Expr) (min : Nat) (max : Option Nat) : Expr :=
  if unrolled = true ∧ min = 1 ∧ max = none then .sequence (item.parts ++ [.repetition item 0 none])
  else .repetition item min max

mutual

/-- **The canonical form of an expression**, with repetitions unrolled or as they are. -/
def Expr.canonical (unrolled : Bool) : Expr → Expr
  | .char c => .char c
  | .literal text => .literal text
  | .pattern p => .pattern p
  | .reference name _ => .reference name .start
  | .sequence items => .sequence ((Expr.canonicalAll unrolled items).flatMap Expr.parts)
  | .alternation items => .alternation ((Expr.canonicalAll unrolled items).flatMap Expr.branches)
  | .repetition item min max => (item.canonical unrolled).repeated unrolled min max
  | .optional item => .optional (item.canonical unrolled)
  | .absent item => .absent (item.canonical unrolled)

/-- The canonical forms of several expressions. -/
def Expr.canonicalAll (unrolled : Bool) : List Expr → List Expr
  | [] => []
  | item :: items => item.canonical unrolled :: Expr.canonicalAll unrolled items

end

/-- A definition with its body in canonical form, wherever it stands. -/
def Definition.canonical (unrolled : Bool) (d : Definition) : Definition :=
  { d with body := d.body.canonical unrolled, position := .start }

namespace Expr

variable {unrolled : Bool} {e item : Expr} {items : List Expr} {min : Nat} {max : Option Nat}

theorem canonicalAll_eq_map (items : List Expr) :
    canonicalAll unrolled items = items.map (canonical unrolled) := by
  induction items with
  | nil => rfl
  | cons item items ih => rw [canonicalAll, ih, List.map_cons]

theorem canonical_sequence (items : List Expr) :
    (sequence items).canonical unrolled =
      .sequence ((items.map (canonical unrolled)).flatMap parts) := by
  rw [canonical, canonicalAll_eq_map]

theorem canonical_alternation (items : List Expr) :
    (alternation items).canonical unrolled =
      .alternation ((items.map (canonical unrolled)).flatMap branches) := by
  rw [canonical, canonicalAll_eq_map]

/-- Once or more, and any other repetition. -/
theorem repeated_cases (unrolled : Bool) (item : Expr) (min : Nat) (max : Option Nat) :
    (unrolled = true ∧ min = 1 ∧ max = none ∧
        item.repeated unrolled min max = .sequence (item.parts ++ [.repetition item 0 none])) ∨
      item.repeated unrolled min max = .repetition item min max := by
  unfold repeated
  split
  · next h => exact Or.inl ⟨h.1, h.2.1, h.2.2, rfl⟩
  · exact Or.inr rfl

/-- An alternation with branches adds these to one around it. -/
theorem branches_alternation (h : items ≠ []) : (alternation items).branches = items := by
  cases items with
  | nil => exact absurd rfl h
  | cons first others => rfl

/-- Every expression adds something to an alternation. -/
theorem branches_ne_nil (e : Expr) : e.branches ≠ [] := by
  unfold branches
  split <;> exact List.cons_ne_nil _ _

/-- What a sequence has if one of its items has it, an expression has if one of its parts does. -/
theorem exists_parts_iff {P : Expr → Prop}
    (hP : ∀ items, P (.sequence items) ↔ ∃ item ∈ items, P item) (e : Expr) :
    (∃ x ∈ e.parts, P x) ↔ P e := by
  cases e with
  | sequence items => exact (hP items).symm
  | _ => simp [parts]

/-- What an alternation has if one of its branches has it, an expression has if one of its branches
does. -/
theorem exists_branches_iff {P : Expr → Prop}
    (hP : ∀ items, P (.alternation items) ↔ ∃ item ∈ items, P item) (e : Expr) :
    (∃ x ∈ e.branches, P x) ↔ P e := by
  cases e with
  | alternation items =>
    cases items with
    | nil => simp [branches]
    | cons first others => exact (hP _).symm
  | _ => simp [branches]

/-- So one of several expressions has it, in canonical form, if one of their parts or branches
does. -/
theorem exists_flatMap_iff {P Q : Expr → Prop} {add : Expr → List Expr}
    (hadd : ∀ e, (∃ x ∈ add e, P x) ↔ P e)
    (h : ∀ item ∈ items, P (item.canonical unrolled) ↔ Q item) :
    (∃ x ∈ (items.map (canonical unrolled)).flatMap add, P x) ↔ ∃ item ∈ items, Q item := by
  constructor
  · rintro ⟨x, hx, hP⟩
    obtain ⟨c, hc, hx⟩ := List.mem_flatMap.1 hx
    obtain ⟨item, hitem, rfl⟩ := List.mem_map.1 hc
    exact ⟨item, hitem, (h item hitem).1 ((hadd _).1 ⟨x, hx, hP⟩)⟩
  · rintro ⟨item, hitem, hQ⟩
    obtain ⟨x, hx, hP⟩ := (hadd _).2 ((h item hitem).2 hQ)
    exact ⟨x, List.mem_flatMap.2 ⟨_, List.mem_map_of_mem hitem, hx⟩, hP⟩

/-- A property that an expression made up of others has if one of these does, wherever a reference
stands. -/
structure Inherited (P : Expr → Prop) : Prop where
  sequence : ∀ items, P (.sequence items) ↔ ∃ item ∈ items, P item
  alternation : ∀ items, P (.alternation items) ↔ ∃ item ∈ items, P item
  repetition : ∀ item min max, P (.repetition item min max) ↔ P item
  optional : ∀ item, P (.optional item) ↔ P item
  absent : ∀ item, P (.absent item) ↔ P item
  reference : ∀ name position, P (.reference name position) ↔ P (.reference name .start)

theorem Inherited.repeated_iff {P : Expr → Prop} (h : Inherited P) (item : Expr) (min : Nat)
    (max : Option Nat) : P (item.repeated unrolled min max) ↔ P item := by
  rcases item.repeated_cases unrolled min max with ⟨-, -, -, hform⟩ | hform
  · have hparts := exists_parts_iff h.sequence item
    rw [hform, h.sequence]
    simp only [List.mem_append, or_and_right, exists_or, hparts, List.mem_singleton, exists_eq_left,
      h.repetition]
    exact or_self_iff
  · rw [hform, h.repetition]

/-- **The canonical form of an expression has the same inherited properties.** -/
theorem Inherited.canonical_iff {P : Expr → Prop} (h : Inherited P) (e : Expr) :
    P (e.canonical unrolled) ↔ P e := by
  induction e using Expr.induct with
  | step e ih =>
    cases e with
    | sequence items =>
      rw [canonical_sequence, h.sequence, h.sequence]
      exact exists_flatMap_iff (exists_parts_iff h.sequence) ih
    | alternation items =>
      rw [canonical_alternation, h.alternation, h.alternation]
      exact exists_flatMap_iff (exists_branches_iff h.alternation) ih
    | repetition item min max =>
      rw [canonical, h.repeated_iff, h.repetition]
      exact ih item (List.mem_singleton_self item)
    | optional item =>
      rw [canonical, h.optional, h.optional]
      exact ih item (List.mem_singleton_self item)
    | absent item =>
      rw [canonical, h.absent, h.absent]
      exact ih item (List.mem_singleton_self item)
    | reference name position => exact (h.reference name position).symm
    | _ => exact Iff.rfl

/-! ## References -/

theorem mem_referencesAll {r : String × Position} :
    r ∈ referencesAll items ↔ ∃ item ∈ items, r ∈ item.references := by
  induction items with
  | nil => simp [referencesAll]
  | cons item items ih => rw [referencesAll, List.mem_append, ih, List.exists_mem_cons_iff]

/-- Whether a rule is referred to. -/
def Refers (e : Expr) (name : String) : Prop := ∃ r ∈ e.references, r.1 = name

variable {name : String}

theorem refers_inherited : Inherited (Refers · name) := by
  have hsome : ∀ items : List Expr,
      (∃ r ∈ referencesAll items, r.1 = name) ↔ ∃ item ∈ items, item.Refers name := by
    intro items
    simp only [mem_referencesAll]
    constructor
    · rintro ⟨r, ⟨item, hitem, hr⟩, hname⟩
      exact ⟨item, hitem, r, hr, hname⟩
    · rintro ⟨item, hitem, r, hr, hname⟩
      exact ⟨r, ⟨item, hitem, hr⟩, hname⟩
  exact ⟨hsome, hsome, fun _ _ _ => Iff.rfl, fun _ => Iff.rfl, fun _ => Iff.rfl,
    fun _ _ => by simp [Refers, references]⟩

/-! ## Patterns, and repetitions without bound -/

/-- An expression is another, or has it in it. -/
inductive Has : Expr → Expr → Prop
  | self {e : Expr} : Has e e
  | inside {e item x : Expr} : item ∈ e.items → Has item x → Has e x

variable {x : Expr}

theorem has_iff (e : Expr) : e.Has x ↔ e = x ∨ ∃ item ∈ e.items, item.Has x := by
  constructor
  · rintro (_ | ⟨hitem, h⟩)
    · exact Or.inl rfl
    · exact Or.inr ⟨_, hitem, h⟩
  · rintro (rfl | ⟨item, hitem, h⟩)
    · exact .self
    · exact .inside hitem h

theorem has_pattern_inherited {p : Pattern} : Inherited (Has · (.pattern p)) := by
  constructor
  case reference =>
    intro name position
    rw [has_iff, has_iff (reference name .start)]
    simp [Expr.items]
  all_goals
    intros
    rw [has_iff]
    simp [Expr.items]

/-- An expression repeats another without bound, wherever in it. -/
def Repeats (e item : Expr) : Prop := ∃ min, e.Has (.repetition item min none)

theorem Repeats.here : (repetition item min none).Repeats item := ⟨min, .self⟩

theorem Repeats.inside (hitem : item ∈ e.items) (h : item.Repeats x) : e.Repeats x :=
  h.imp fun _ => .inside hitem

/-- Either the expression is the repetition, or one of its items has it in it. -/
theorem repeats_iff (e : Expr) :
    e.Repeats x ↔ (∃ min, e = .repetition x min none) ∨ ∃ item ∈ e.items, item.Repeats x := by
  constructor
  · rintro ⟨min, h⟩
    exact ((has_iff e).1 h).imp (fun h => ⟨min, h⟩) fun ⟨item, hitem, h⟩ => ⟨item, hitem, min, h⟩
  · rintro (⟨min, rfl⟩ | ⟨item, hitem, h⟩)
    · exact .here
    · exact .inside hitem h

theorem repeats_sequence_iff (items : List Expr) :
    (sequence items).Repeats x ↔ ∃ item ∈ items, item.Repeats x := by
  rw [repeats_iff]
  simp [Expr.items]

theorem repeats_alternation_iff (items : List Expr) :
    (alternation items).Repeats x ↔ ∃ item ∈ items, item.Repeats x := by
  rw [repeats_iff]
  simp [Expr.items]

theorem repeats_optional_iff : (optional item).Repeats x ↔ item.Repeats x := by
  rw [repeats_iff]
  simp [Expr.items]

theorem repeats_absent_iff : (absent item).Repeats x ↔ item.Repeats x := by
  rw [repeats_iff]
  simp [Expr.items]

theorem not_repeats (h : e.items = []) : ¬ e.Repeats x := by
  rw [repeats_iff, h]
  rintro (⟨min, rfl⟩ | ⟨item, hitem, -⟩)
  · exact List.cons_ne_nil _ _ h
  · exact List.not_mem_nil hitem

theorem repeats_repetition_iff :
    (repetition item min max).Repeats x ↔ max = none ∧ item = x ∨ item.Repeats x := by
  rw [repeats_iff]
  simp [Expr.items, and_comm]

theorem repeats_repeated_iff :
    (item.repeated unrolled min max).Repeats x ↔ max = none ∧ item = x ∨ item.Repeats x := by
  rcases item.repeated_cases unrolled min max with ⟨-, -, rfl, h⟩ | h
  · have hparts := exists_parts_iff (P := (Repeats · x)) repeats_sequence_iff item
    rw [h, repeats_sequence_iff]
    simp only [List.mem_append, or_and_right, exists_or, hparts, List.mem_singleton, exists_eq_left,
      repeats_repetition_iff]
    tauto
  · rw [h, repeats_repetition_iff]

/-- **The canonical form of an expression repeats the canonical forms of what that repeats.** -/
theorem repeats_canonical_iff (e : Expr) :
    (e.canonical unrolled).Repeats x ↔ ∃ y, e.Repeats y ∧ y.canonical unrolled = x := by
  -- what some of several expressions repeat
  have hsome : ∀ {items : List Expr},
      (∃ item ∈ items, ∃ y, item.Repeats y ∧ y.canonical unrolled = x) ↔
        ∃ y, (∃ item ∈ items, item.Repeats y) ∧ y.canonical unrolled = x := by
    intro items
    constructor
    · rintro ⟨item, hitem, y, hy, rfl⟩
      exact ⟨y, ⟨item, hitem, hy⟩, rfl⟩
    · rintro ⟨y, ⟨item, hitem, hy⟩, rfl⟩
      exact ⟨item, hitem, y, hy, rfl⟩
  induction e using Expr.induct with
  | step e ih =>
    cases e with
    | sequence items =>
      rw [canonical_sequence, repeats_sequence_iff]
      simp only [repeats_sequence_iff]
      rw [← hsome]
      exact exists_flatMap_iff (P := (Repeats · x)) (exists_parts_iff repeats_sequence_iff) ih
    | alternation items =>
      rw [canonical_alternation, repeats_alternation_iff]
      simp only [repeats_alternation_iff]
      rw [← hsome]
      exact exists_flatMap_iff (P := (Repeats · x)) (exists_branches_iff repeats_alternation_iff) ih
    | repetition item min max =>
      have hitem : (item.canonical unrolled).Repeats x ↔
          ∃ y, item.Repeats y ∧ y.canonical unrolled = x :=
        ih item (List.mem_singleton_self item)
      rw [canonical, repeats_repeated_iff, hitem]
      simp only [repeats_repetition_iff]
      constructor
      · rintro (⟨hmax, rfl⟩ | ⟨y, hy, rfl⟩)
        · exact ⟨item, Or.inl ⟨hmax, rfl⟩, rfl⟩
        · exact ⟨y, Or.inr hy, rfl⟩
      · rintro ⟨y, ⟨hmax, rfl⟩ | hy, rfl⟩
        · exact Or.inl ⟨hmax, rfl⟩
        · exact Or.inr ⟨y, hy, rfl⟩
    | optional item =>
      rw [canonical, repeats_optional_iff]
      simp only [repeats_optional_iff]
      exact ih item (List.mem_singleton_self item)
    | absent item =>
      rw [canonical, repeats_absent_iff]
      simp only [repeats_absent_iff]
      exact ih item (List.mem_singleton_self item)
    | _ => exact iff_of_false (not_repeats rfl) fun ⟨y, hy, _⟩ => not_repeats rfl hy

/-! ## What may match without taking anything -/

variable {ds : List Definition}

theorem nullable_sequence_iff (items : List Expr) :
    (sequence items).Nullable ds ↔ ∀ item ∈ items, item.Nullable ds :=
  ⟨fun h => by cases h; assumption, .sequence⟩

theorem nullable_alternation_iff (items : List Expr) :
    (alternation items).Nullable ds ↔ ∃ item ∈ items, item.Nullable ds :=
  ⟨fun h => by cases h; exact ⟨_, ‹_›, ‹_›⟩, fun ⟨_, hitem, h⟩ => .alternation hitem h⟩

theorem nullable_repetition_iff :
    (repetition item min max).Nullable ds ↔ min = 0 ∨ item.Nullable ds := by
  constructor
  · rintro (_ | _)
    · exact Or.inl rfl
    · exact Or.inr ‹_›
  · rintro (rfl | h)
    · exact .noRound
    · exact .repetition h

/-- An expression is nullable if all its parts are. -/
theorem forall_parts_nullable_iff (e : Expr) : (∀ x ∈ e.parts, x.Nullable ds) ↔ e.Nullable ds := by
  cases e with
  | sequence items => exact (nullable_sequence_iff items).symm
  | _ => exact List.forall_mem_singleton

theorem nullable_repeated_iff :
    (item.repeated unrolled min max).Nullable ds ↔ min = 0 ∨ item.Nullable ds := by
  rcases item.repeated_cases unrolled min max with ⟨-, rfl, -, h⟩ | h
  · rw [h, nullable_sequence_iff, List.forall_mem_append, forall_parts_nullable_iff,
      List.forall_mem_singleton]
    exact ⟨fun hitem => Or.inr hitem.1,
      fun hitem => ⟨hitem.resolve_left Nat.one_ne_zero, .noRound⟩⟩
  · rw [h, nullable_repetition_iff]

/-- The canonical form of a nullable expression is nullable. -/
theorem Nullable.canonical (h : e.Nullable ds) :
    (e.canonical unrolled).Nullable (ds.map (Definition.canonical unrolled)) := by
  induction h with
  | literal ht => exact .literal ht
  | pattern hp => exact .pattern hp
  | reference hd hname _ ih => exact .reference (List.mem_map_of_mem hd) hname ih
  | sequence _ ih =>
    rw [canonical_sequence, nullable_sequence_iff]
    intro x hx
    obtain ⟨c, hc, hx⟩ := List.mem_flatMap.1 hx
    obtain ⟨item, hitem, rfl⟩ := List.mem_map.1 hc
    exact (forall_parts_nullable_iff _).2 (ih item hitem) x hx
  | alternation hitem _ ih =>
    rw [canonical_alternation, nullable_alternation_iff]
    obtain ⟨x, hx, hnull⟩ := (exists_branches_iff nullable_alternation_iff _).2 ih
    exact ⟨x, List.mem_flatMap.2 ⟨_, List.mem_map_of_mem hitem, hx⟩, hnull⟩
  | noRound =>
    rw [Expr.canonical, nullable_repeated_iff]
    exact Or.inl rfl
  | repetition _ ih =>
    rw [Expr.canonical, nullable_repeated_iff]
    exact Or.inr ih
  | optional => exact .optional
  | absent => exact .absent

/-- Expressions whose canonical form is the given one are nullable. -/
def FormNullable (unrolled : Bool) (ds : List Definition) (x : Expr) : Prop :=
  ∀ e : Expr, e.canonical unrolled = x → e.Nullable ds

/-- An expression is nullable if the parts of its canonical form are forms of nullable ones. -/
theorem nullable_of_parts (e : Expr)
    (h : ∀ x ∈ (e.canonical unrolled).parts, FormNullable unrolled ds x) : e.Nullable ds := by
  induction e using Expr.induct with
  | step e ih =>
    cases e with
    | sequence items =>
      rw [canonical_sequence] at h
      refine .sequence fun item hitem => ih item hitem fun x hx => ?_
      exact h x (List.mem_flatMap.2 ⟨_, List.mem_map_of_mem hitem, hx⟩)
    | repetition item min max =>
      rcases (item.canonical unrolled).repeated_cases unrolled min max with ⟨-, -, -, hform⟩ | hform
      · rw [canonical, hform] at h
        exact .repetition (ih item (List.mem_singleton_self item) fun x hx =>
          h x (List.mem_append_left _ hx))
      · rw [canonical, hform] at h
        exact h _ (List.mem_singleton_self _) _ (by rw [canonical, hform])
    | _ => exact h _ (List.mem_singleton_self _) _ rfl

/-- An expression is nullable if a branch of its canonical form is the form of nullable ones. -/
theorem nullable_of_branches (e : Expr) {x : Expr} (hx : x ∈ (e.canonical unrolled).branches)
    (h : FormNullable unrolled ds x) : e.Nullable ds := by
  induction e using Expr.induct with
  | step e ih =>
    cases e with
    | alternation items =>
      rw [canonical_alternation] at hx
      by_cases hnil : (items.map (canonical unrolled)).flatMap branches = []
      · rw [hnil] at hx
        refine h _ ?_
        rw [canonical_alternation, hnil, List.mem_singleton.1 hx]
      · rw [branches_alternation hnil] at hx
        obtain ⟨c, hc, hx⟩ := List.mem_flatMap.1 hx
        obtain ⟨item, hitem, rfl⟩ := List.mem_map.1 hc
        exact .alternation hitem (ih item hitem hx)
    | repetition item min max =>
      refine h _ ?_
      rw [canonical] at hx ⊢
      rcases (item.canonical unrolled).repeated_cases unrolled min max with ⟨-, -, -, hform⟩ | hform
      · rw [hform] at hx ⊢
        exact (List.mem_singleton.1 hx).symm
      · rw [hform] at hx ⊢
        exact (List.mem_singleton.1 hx).symm
    | _ => exact h _ (List.mem_singleton.1 hx).symm

/-- The form of a repetition, other than of one that is once or more, is that of its item's. -/
theorem exists_of_canonical_eq_repetition (h : e.canonical unrolled = .repetition item min max) :
    ∃ item', item'.canonical unrolled = item ∧ e = .repetition item' min max := by
  cases e with
  | repetition item' min' max' =>
    rw [canonical] at h
    rcases (item'.canonical unrolled).repeated_cases unrolled min' max' with
      ⟨-, -, -, hform⟩ | hform
    · cases hform.symm.trans h
    · cases hform.symm.trans h
      exact ⟨item', rfl, rfl⟩
  | _ => cases h

/-- The form of a repetition is a sequence or a repetition. -/
theorem canonical_repetition_ne {x : Expr} (hsequence : ∀ items, x ≠ .sequence items)
    (hrepetition : ∀ item min max, x ≠ .repetition item min max) :
    (repetition item min max).canonical unrolled ≠ x := by
  intro hx
  rw [canonical] at hx
  rcases (item.canonical unrolled).repeated_cases unrolled min max with ⟨-, -, -, hform⟩ | hform
  · exact hsequence _ (hx.symm.trans hform)
  · exact hrepetition _ _ _ (hx.symm.trans hform)

/-- What has a nullable canonical form is nullable. -/
theorem formNullable_of_nullable {x : Expr}
    (h : x.Nullable (ds.map (Definition.canonical unrolled))) :
    FormNullable unrolled ds x := by
  induction h with
  | literal ht =>
    intro e he
    cases e with
    | literal text => cases he; exact .literal ht
    | repetition => exact absurd he (canonical_repetition_ne nofun nofun)
    | _ => cases he
  | pattern hp =>
    intro e he
    cases e with
    | pattern p => cases he; exact .pattern hp
    | repetition => exact absurd he (canonical_repetition_ne nofun nofun)
    | _ => cases he
  | reference hmem hname _ ih =>
    intro e he
    obtain ⟨d, hd, rfl⟩ := List.mem_map.1 hmem
    cases e with
    | reference => cases he; exact .reference (d := d) hd hname (ih d.body rfl)
    | repetition => exact absurd he (canonical_repetition_ne nofun nofun)
    | _ => cases he
  | sequence _ ih =>
    intro e he
    have hparts : ∀ x ∈ (e.canonical unrolled).parts, FormNullable unrolled ds x := by
      rw [he]
      exact ih
    exact nullable_of_parts e hparts
  | alternation hitem _ ih =>
    intro e he
    refine nullable_of_branches e ?_ ih
    rw [he, branches_alternation (List.ne_nil_of_mem hitem)]
    exact hitem
  | noRound =>
    intro e he
    obtain ⟨item, -, rfl⟩ := exists_of_canonical_eq_repetition he
    exact .noRound
  | repetition _ ih =>
    intro e he
    obtain ⟨item, hitem, rfl⟩ := exists_of_canonical_eq_repetition he
    exact .repetition (ih item hitem)
  | optional =>
    intro e he
    cases e with
    | optional => exact .optional
    | repetition => exact absurd he (canonical_repetition_ne nofun nofun)
    | _ => cases he
  | absent =>
    intro e he
    cases e with
    | absent => exact .absent
    | repetition => exact absurd he (canonical_repetition_ne nofun nofun)
    | _ => cases he

/-- **An expression is nullable if its canonical form is.** -/
theorem nullable_canonical_iff (e : Expr) :
    (e.canonical unrolled).Nullable (ds.map (Definition.canonical unrolled)) ↔ e.Nullable ds :=
  ⟨fun h => formNullable_of_nullable h e rfl, Nullable.canonical⟩

/-! ## What may be called first -/

theorem not_mayCall_nil : ¬ (sequence []).MayCall ds name := by
  intro h
  generalize he : sequence [] = e at h
  cases h with
  | reference => cases he
  | @sequence front back e _ _ _ => simp at he
  | other hno _ _ => exact hno [] he.symm

theorem mayCall_cons_iff : (sequence (item :: items)).MayCall ds name ↔
    item.MayCall ds name ∨ item.Nullable ds ∧ (sequence items).MayCall ds name := by
  constructor
  · intro h
    generalize he : sequence (item :: items) = e at h
    cases h with
    | reference => cases he
    | @sequence front back e _ hfront hcall =>
      have he := sequence.inj he
      cases front with
      | nil =>
        cases he
        exact Or.inl hcall
      | cons first front =>
        cases he
        exact Or.inr ⟨hfront _ List.mem_cons_self,
          .sequence (fun e' he' => hfront e' (List.mem_cons_of_mem _ he')) hcall⟩
    | other hno _ _ => exact absurd he.symm (hno _)
  · rintro (hcall | ⟨hnull, hcall⟩)
    · have hnone : ∀ e ∈ ([] : List Expr), e.Nullable ds := List.forall_mem_nil _
      exact @Expr.MayCall.sequence ds [] items item name hnone hcall
    · generalize he : sequence items = e at hcall
      cases hcall with
      | reference => cases he
      | @sequence front back e _ hfront hcall =>
        cases he
        have hfront' := List.forall_mem_cons.2 ⟨hnull, hfront⟩
        exact @Expr.MayCall.sequence ds (item :: front) back e name hfront' hcall
      | other hno _ _ => exact absurd he.symm (hno _)

theorem mayCall_append_iff {items' : List Expr} :
    (sequence (items ++ items')).MayCall ds name ↔ (sequence items).MayCall ds name ∨
      (∀ item ∈ items, item.Nullable ds) ∧ (sequence items').MayCall ds name := by
  induction items with
  | nil => simp [not_mayCall_nil]
  | cons item items ih =>
    rw [List.cons_append, mayCall_cons_iff, mayCall_cons_iff, ih, List.forall_mem_cons]
    tauto

/-- A sequence of the parts of an expression calls what the expression does. -/
theorem mayCall_parts_iff (e : Expr) : (sequence e.parts).MayCall ds name ↔ e.MayCall ds name := by
  have hsingle : (sequence [e]).MayCall ds name ↔ e.MayCall ds name := by
    rw [mayCall_cons_iff]
    exact or_iff_left fun h => not_mayCall_nil h.2
  cases e with
  | sequence items => exact Iff.rfl
  | _ => exact hsingle

/-- What is no sequence and no reference calls what any of its items does. -/
theorem mayCall_iff (hsequence : ∀ items, e ≠ .sequence items)
    (hreference : ∀ name position, e ≠ .reference name position) :
    e.MayCall ds name ↔ ∃ item ∈ e.items, item.MayCall ds name := by
  constructor
  · intro h
    cases h with
    | reference => exact absurd rfl (hreference _ _)
    | sequence => exact absurd rfl (hsequence _)
    | other _ hitem hcall => exact ⟨_, hitem, hcall⟩
  · rintro ⟨item, hitem, hcall⟩
    exact .other hsequence hitem hcall

theorem mayCall_alternation_iff (items : List Expr) :
    (alternation items).MayCall ds name ↔ ∃ item ∈ items, item.MayCall ds name :=
  mayCall_iff (fun _ h => nomatch h) fun _ _ h => nomatch h

theorem mayCall_repetition_iff :
    (repetition item min max).MayCall ds name ↔ item.MayCall ds name := by
  rw [mayCall_iff (e := repetition item min max) (fun _ h => nomatch h) fun _ _ h => nomatch h]
  simp only [Expr.items, List.mem_singleton, exists_eq_left]

theorem mayCall_optional_iff : (optional item).MayCall ds name ↔ item.MayCall ds name := by
  rw [mayCall_iff (e := optional item) (fun _ h => nomatch h) fun _ _ h => nomatch h]
  simp only [Expr.items, List.mem_singleton, exists_eq_left]

theorem mayCall_absent_iff : (absent item).MayCall ds name ↔ item.MayCall ds name := by
  rw [mayCall_iff (e := absent item) (fun _ h => nomatch h) fun _ _ h => nomatch h]
  simp only [Expr.items, List.mem_singleton, exists_eq_left]

theorem not_mayCall (hitems : e.items = []) (hsequence : ∀ items, e ≠ .sequence items)
    (hreference : ∀ name position, e ≠ .reference name position) : ¬ e.MayCall ds name := by
  rw [mayCall_iff hsequence hreference, hitems]
  exact fun ⟨_, hitem, _⟩ => absurd hitem List.not_mem_nil

theorem mayCall_reference_iff {other : String} {position : Position} :
    (reference other position).MayCall ds name ↔ other = name := by
  constructor
  · intro h
    cases h with
    | reference => rfl
    | other _ hitem _ => exact absurd hitem List.not_mem_nil
  · rintro rfl
    exact .reference

theorem mayCall_repeated_iff :
    (item.repeated unrolled min max).MayCall ds name ↔ item.MayCall ds name := by
  rcases item.repeated_cases unrolled min max with ⟨-, -, -, h⟩ | h
  · rw [h, mayCall_append_iff, mayCall_parts_iff, mayCall_cons_iff, mayCall_repetition_iff]
    exact ⟨fun hcall => hcall.elim id fun hrest => hrest.2.elim id
      fun hnil => absurd hnil.2 not_mayCall_nil, Or.inl⟩
  · rw [h, mayCall_repetition_iff]

/-- **An expression may call the same rules first as its canonical form.** -/
theorem mayCall_canonical_iff (e : Expr) :
    (e.canonical unrolled).MayCall (ds.map (Definition.canonical unrolled)) name ↔
      e.MayCall ds name := by
  induction e using Expr.induct with
  | step e ih =>
    cases e with
    | sequence items =>
      rw [canonical_sequence]
      change ∀ item ∈ items, _ at ih
      induction items with
      | nil => exact iff_of_false not_mayCall_nil not_mayCall_nil
      | cons item items hitems =>
        obtain ⟨hitem, ih⟩ := List.forall_mem_cons.1 ih
        rw [List.map_cons, List.flatMap_cons, mayCall_append_iff, mayCall_parts_iff,
          forall_parts_nullable_iff, nullable_canonical_iff, hitem, hitems ih, mayCall_cons_iff]
    | alternation items =>
      rw [canonical_alternation, mayCall_alternation_iff, mayCall_alternation_iff]
      exact exists_flatMap_iff (P := (MayCall (ds.map (Definition.canonical unrolled)) · name))
        (exists_branches_iff mayCall_alternation_iff) ih
    | repetition item min max =>
      rw [canonical, mayCall_repeated_iff, mayCall_repetition_iff]
      exact ih item (List.mem_singleton_self item)
    | reference other position =>
      rw [canonical, mayCall_reference_iff, mayCall_reference_iff]
    | optional item =>
      rw [canonical, mayCall_optional_iff, mayCall_optional_iff]
      exact ih item (List.mem_singleton_self item)
    | absent item =>
      rw [canonical, mayCall_absent_iff, mayCall_absent_iff]
      exact ih item (List.mem_singleton_self item)
    | _ =>
      exact iff_of_false (not_mayCall rfl (fun _ h => nomatch h) fun _ _ h => nomatch h)
        (not_mayCall rfl (fun _ h => nomatch h) fun _ _ h => nomatch h)

end Expr

/-! ## Definitions -/

variable {ds ds' : List Definition} {unrolled : Bool}

theorem map_name_canonical (ds : List Definition) :
    (ds.map (Definition.canonical unrolled)).map Definition.name = ds.map Definition.name := by
  rw [List.map_map]
  rfl

theorem defined_canonical_iff :
    (∀ d ∈ ds.map (Definition.canonical unrolled), ∀ r ∈ d.body.references,
        r.1 ∈ (ds.map (Definition.canonical unrolled)).map Definition.name) ↔
      ∀ d ∈ ds, ∀ r ∈ d.body.references, r.1 ∈ ds.map Definition.name := by
  have hrefers : ∀ (d : Definition) (names : List String),
      (∀ r ∈ d.body.references, r.1 ∈ names) ↔ ∀ name, d.body.Refers name → name ∈ names :=
    fun d names => ⟨fun h name ⟨r, hr, hname⟩ => hname ▸ h r hr, fun h r hr => h r.1 ⟨r, hr, rfl⟩⟩
  rw [map_name_canonical, List.forall_mem_map]
  refine forall₂_congr fun d _ => ?_
  rw [hrefers, hrefers]
  exact forall_congr' fun name => imp_congr_left (Expr.refers_inherited.canonical_iff d.body)

/-- What occurs in definitions is in the body of one of them. -/
theorem occurs_iff {x : Expr} : Occurs ds x ↔ ∃ d ∈ ds, d.body.Has x := by
  constructor
  · intro h
    have hbody : ∀ {e : Expr}, Occurs ds e → e.Has x → ∃ d ∈ ds, d.body.Has x := by
      intro e he h
      induction he with
      | body hd => exact ⟨_, hd, h⟩
      | item _ hitem ih => exact ih (.inside hitem h)
    exact hbody h .self
  · have hoccurs : ∀ {e : Expr}, e.Has x → Occurs ds e → Occurs ds x := by
      intro e h he
      induction h with
      | self => exact he
      | inside hitem _ ih => exact ih (.item he hitem)
    rintro ⟨d, hd, h⟩
    exact hoccurs h (.body hd)

/-- The same patterns occur in definitions and in their canonical forms. -/
theorem occurs_pattern_canonical_iff {p : Pattern} :
    Occurs (ds.map (Definition.canonical unrolled)) (.pattern p) ↔ Occurs ds (.pattern p) := by
  rw [occurs_iff, occurs_iff]
  constructor
  · rintro ⟨c, hc, h⟩
    obtain ⟨d, hd, rfl⟩ := List.mem_map.1 hc
    exact ⟨d, hd, (Expr.has_pattern_inherited.canonical_iff d.body).1 h⟩
  · rintro ⟨d, hd, h⟩
    exact ⟨_, List.mem_map_of_mem hd, (Expr.has_pattern_inherited.canonical_iff d.body).2 h⟩

/-- What is repeated without bound in definitions is repeated so in the body of one of them. -/
theorem exists_occurs_iff {item : Expr} :
    (∃ min, Occurs ds (.repetition item min none)) ↔ ∃ d ∈ ds, d.body.Repeats item := by
  simp only [occurs_iff]
  constructor
  · rintro ⟨min, d, hd, h⟩
    exact ⟨d, hd, min, h⟩
  · rintro ⟨d, hd, min, h⟩
    exact ⟨min, d, hd, h⟩

theorem advances_canonical_iff :
    (∀ item min, Occurs (ds.map (Definition.canonical unrolled)) (.repetition item min none) →
        ¬ item.Nullable (ds.map (Definition.canonical unrolled))) ↔
      ∀ item min, Occurs ds (.repetition item min none) → ¬ item.Nullable ds := by
  have hsome : ∀ {ds : List Definition},
      (∀ item min, Occurs ds (.repetition item min none) → ¬ item.Nullable ds) ↔
        ∀ item, (∃ d ∈ ds, d.body.Repeats item) → ¬ item.Nullable ds := by
    intro ds
    simp only [← exists_occurs_iff]
    exact ⟨fun h item ⟨min, hoccurs⟩ => h item min hoccurs,
      fun h item min hoccurs => h item ⟨min, hoccurs⟩⟩
  rw [hsome, hsome]
  constructor
  · rintro h item ⟨d, hd, hrepeats⟩ hnull
    exact h (item.canonical unrolled) ⟨d.canonical unrolled, List.mem_map_of_mem hd,
      (Expr.repeats_canonical_iff d.body).2 ⟨item, hrepeats, rfl⟩⟩ hnull.canonical
  · rintro h x ⟨c, hc, hrepeats⟩ hnull
    obtain ⟨d, hd, rfl⟩ := List.mem_map.1 hc
    obtain ⟨item, hitem, rfl⟩ := (Expr.repeats_canonical_iff d.body).1 hrepeats
    exact h item ⟨d, hd, hitem⟩ ((Expr.nullable_canonical_iff item).1 hnull)

theorem ruleCalls_canonical :
    RuleCalls (ds.map (Definition.canonical unrolled)) = RuleCalls ds := by
  funext name other
  refine propext ⟨?_, ?_⟩
  · rintro ⟨c, hc, hname, hcall⟩
    obtain ⟨d, hd, rfl⟩ := List.mem_map.1 hc
    exact ⟨d, hd, hname, (Expr.mayCall_canonical_iff d.body).1 hcall⟩
  · rintro ⟨d, hd, hname, hcall⟩
    exact ⟨_, List.mem_map_of_mem hd, hname, (Expr.mayCall_canonical_iff d.body).2 hcall⟩

/-- **Definitions are well-formed if their canonical forms are.** -/
theorem wellFormed_canonical_iff :
    WellFormed (ds.map (Definition.canonical unrolled)) ↔ WellFormed ds := by
  constructor
  · intro h
    exact ⟨map_name_canonical ds ▸ h.nodup, defined_canonical_iff.1 h.defined,
      advances_canonical_iff.1 h.advances, ruleCalls_canonical ▸ h.descends⟩
  · intro h
    exact ⟨(map_name_canonical ds).symm ▸ h.nodup, defined_canonical_iff.2 h.defined,
      advances_canonical_iff.2 h.advances, ruleCalls_canonical.symm ▸ h.descends⟩

end ParserGraph.Grammar
