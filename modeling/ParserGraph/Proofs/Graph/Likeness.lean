import Mathlib.Data.List.Forall2
import ParserGraph.Proofs.Graph.Reach

/-!
# Likeness — graphs that differ in nothing but ids

Two graphs are alike under a correspondence of ids when ids that correspond
name nodes with the same name that do the same over corresponding operands
(`Graph.Alike`). Nothing is asked of the ids themselves, and one may
correspond to several. What a node leads to then corresponds to what its
counterpart leads to, so that the nodes in reach of corresponding roots are
counterparts of each other (`Graph.Alike.counterparts`).
-/

namespace ParserGraph

variable {B C : ParserId → ParserId → Prop}

/-! ## Kinds over corresponding operands -/

/-- Kinds that do the same, with operands that correspond one by one. -/
inductive Kind.Alike (B : ParserId → ParserId → Prop) : Kind → Kind → Prop
  | terminal {t : Terminal} : Alike B (.terminal t) (.terminal t)
  | sequence {parts parts' : List ParserId} :
      List.Forall₂ B parts parts' → Alike B (.sequence parts) (.sequence parts')
  | alternation {branches branches' : List ParserId} :
      List.Forall₂ B branches branches' → Alike B (.alternation branches) (.alternation branches')
  | repetition {part part' : ParserId} {min : Nat} {max : Option Nat} :
      B part part' → Alike B (.repetition part min max) (.repetition part' min max)
  | optional {part part' : ParserId} : B part part' → Alike B (.optional part) (.optional part')
  | lookahead {part part' : ParserId} {negated : Bool} :
      B part part' → Alike B (.lookahead part negated) (.lookahead part' negated)
  | transform {part part' : ParserId} {mapping : Tree → Tree} :
      B part part' → Alike B (.transform part mapping) (.transform part' mapping)
  | token {part part' : ParserId} : B part part' → Alike B (.token part) (.token part')
  | expect {part part' : ParserId} {label : String} :
      B part part' → Alike B (.expect part label) (.expect part' label)
  | undefined : Alike B (.rule none) (.rule none)
  | rule {body body' : ParserId} : B body body' → Alike B (.rule (some body)) (.rule (some body'))

/-- What corresponds one by one corresponds also in a way that only its members do. -/
theorem forall₂_imp_mem {ids ids' : List ParserId} (h : List.Forall₂ B ids ids')
    (hB : ∀ p ∈ ids, ∀ q ∈ ids', B p q → C p q) : List.Forall₂ C ids ids' := by
  induction h with
  | nil => exact .nil
  | cons hid _ ih =>
    refine .cons (hB _ List.mem_cons_self _ List.mem_cons_self hid) (ih fun p hp q hq => ?_)
    exact hB p (List.mem_cons_of_mem _ hp) q (List.mem_cons_of_mem _ hq)

/-- What is on the left has a counterpart on the right. -/
theorem exists_mem_of_forall₂ {α β : Type} {R : α → β → Prop} {xs : List α} {ys : List β}
    (h : List.Forall₂ R xs ys) {x : α} (hx : x ∈ xs) : ∃ y ∈ ys, R x y := by
  induction h with
  | nil => exact absurd hx List.not_mem_nil
  | cons hxy _ ih =>
    rcases List.mem_cons.1 hx with rfl | hx
    · exact ⟨_, List.mem_cons_self, hxy⟩
    · obtain ⟨y, hy, hxy⟩ := ih hx
      exact ⟨y, List.mem_cons_of_mem _ hy, hxy⟩

namespace Kind.Alike

variable {kind kind' : Kind}

theorem operands (h : kind.Alike B kind') : List.Forall₂ B kind.operands kind'.operands := by
  cases h with
  | terminal => exact .nil
  | sequence h => exact h
  | alternation h => exact h
  | undefined => exact .nil
  | repetition h => exact .cons h .nil
  | optional h => exact .cons h .nil
  | lookahead h => exact .cons h .nil
  | transform h => exact .cons h .nil
  | token h => exact .cons h .nil
  | expect h => exact .cons h .nil
  | rule h => exact .cons h .nil

theorem mono_mem (h : kind.Alike B kind')
    (hB : ∀ p ∈ kind.operands, ∀ q ∈ kind'.operands, B p q → C p q) : kind.Alike C kind' := by
  have hone : ∀ {p q : ParserId}, kind.operands = [p] → kind'.operands = [q] → B p q → C p q :=
    fun hp hq => hB _ (hp ▸ List.mem_singleton_self _) _ (hq ▸ List.mem_singleton_self _)
  cases h with
  | terminal => exact .terminal
  | sequence h => exact .sequence (forall₂_imp_mem h hB)
  | alternation h => exact .alternation (forall₂_imp_mem h hB)
  | undefined => exact .undefined
  | repetition h => exact .repetition (hone rfl rfl h)
  | optional h => exact .optional (hone rfl rfl h)
  | lookahead h => exact .lookahead (hone rfl rfl h)
  | transform h => exact .transform (hone rfl rfl h)
  | token h => exact .token (hone rfl rfl h)
  | expect h => exact .expect (hone rfl rfl h)
  | rule h => exact .rule (hone rfl rfl h)

/-- A kind does the same as itself, if its operands correspond to themselves. -/
theorem refl (h : ∀ o ∈ kind.operands, B o o) : kind.Alike B kind := by
  have hone : ∀ part, kind.operands = [part] → B part part :=
    fun part hpart => h part (hpart ▸ List.mem_singleton_self part)
  cases kind with
  | terminal => exact .terminal
  | sequence => exact .sequence (List.forall₂_same.2 h)
  | alternation => exact .alternation (List.forall₂_same.2 h)
  | repetition part => exact .repetition (hone part rfl)
  | optional part => exact .optional (hone part rfl)
  | lookahead part => exact .lookahead (hone part rfl)
  | transform part => exact .transform (hone part rfl)
  | token part => exact .token (hone part rfl)
  | expect part => exact .expect (hone part rfl)
  | rule body =>
    cases body with
    | none => exact .undefined
    | some body => exact .rule (hone body rfl)

theorem symm (h : kind.Alike B kind') : kind'.Alike (flip B) kind := by
  cases h with
  | terminal => exact .terminal
  | sequence h => exact .sequence h.flip
  | alternation h => exact .alternation h.flip
  | undefined => exact .undefined
  | repetition h => exact .repetition h
  | optional h => exact .optional h
  | lookahead h => exact .lookahead h
  | transform h => exact .transform h
  | token h => exact .token h
  | expect h => exact .expect h
  | rule h => exact .rule h

end Kind.Alike

/-- Nodes of one name that do the same are told in the same words. -/
theorem Node.describe_of_alike {name : Option String} {kind kind' : Kind}
    (h : kind.Alike B kind') :
    (⟨name, kind⟩ : Node).describe = (⟨name, kind'⟩ : Node).describe := by
  cases h <;> cases name <;> rfl

/-! ## Graphs under a correspondence -/

namespace Graph

variable {g g' : Graph} {p q r : ParserId}

/-- Ids that correspond name nodes with the same name that do the same over corresponding
operands. -/
def Alike (B : ParserId → ParserId → Prop) (g g' : Graph) : Prop :=
  ∀ p q, B p q → ∃ name kind kind',
    g.node? p = some ⟨name, kind⟩ ∧ g'.node? q = some ⟨name, kind'⟩ ∧ kind.Alike B kind'

theorem Alike.symm (h : g.Alike B g') : g'.Alike (flip B) g := by
  intro q p hpq
  obtain ⟨name, kind, kind', hp, hq, hkind⟩ := h p q hpq
  exact ⟨name, kind', kind, hq, hp, hkind.symm⟩

theorem Alike.contains (h : g.Alike B g') (hpq : B p q) : g.contains p := by
  obtain ⟨name, kind, -, hp, -⟩ := h p q hpq
  exact contains_iff.2 ⟨_, hp⟩

/-- What corresponds does the same. -/
theorem Alike.kinds (h : g.Alike B g') (hpq : B p q) :
    ∃ kind kind', g.kind? p = some kind ∧ g'.kind? q = some kind' ∧ kind.Alike B kind' := by
  obtain ⟨name, kind, kind', hp, hq, hkind⟩ := h p q hpq
  exact ⟨kind, kind', by rw [kind?, hp]; rfl, by rw [kind?, hq]; rfl, hkind⟩

theorem Alike.describe_eq (h : g.Alike B g') (hpq : B p q) : g.describe p = g'.describe q := by
  obtain ⟨name, kind, kind', hp, hq, hkind⟩ := h p q hpq
  rw [describe, describe, hp, hq]
  exact Node.describe_of_alike hkind

/-- What a node leads to has a counterpart that the node's counterpart leads to. -/
theorem Alike.leads (h : g.Alike B g') (hpq : B p q) (hr : g.Leads p r) :
    ∃ s, B r s ∧ g'.Leads q s := by
  induction hr with
  | refl _ => exact ⟨q, hpq, .refl (h.symm.contains hpq)⟩
  | @step r o _ ho _ ih =>
    obtain ⟨s, hrs, hs⟩ := ih
    obtain ⟨name, kind, kind', hr, hs', hkind⟩ := h r s hrs
    rw [operands_of_node? hr] at ho
    obtain ⟨o', ho', hoo'⟩ := exists_mem_of_forall₂ hkind.operands ho
    rw [← operands_of_node? hs'] at ho'
    exact ⟨o', hoo', hs.step ho' (h.symm.contains hoo')⟩

/-- Graphs alike under a correspondence between all of some ids and all of some others. -/
structure Counterparts (B : ParserId → ParserId → Prop) (g g' : Graph)
    (ids ids' : List ParserId) : Prop where
  alike : g.Alike B g'
  mem_left : ∀ p q, B p q → p ∈ ids
  mem_right : ∀ p q, B p q → q ∈ ids'
  exists_right : ∀ p ∈ ids, ∃ q, B p q
  exists_left : ∀ q ∈ ids', ∃ p, B p q

theorem Counterparts.symm {ids ids' : List ParserId} (h : Counterparts B g g' ids ids') :
    Counterparts (flip B) g' g ids' ids where
  alike := h.alike.symm
  mem_left := fun q p => h.mem_right p q
  mem_right := fun q p => h.mem_left p q
  exists_right := h.exists_left
  exists_left := h.exists_right

/-- **What corresponding roots lead to are counterparts.** -/
theorem Alike.counterparts (h : g.Alike B g') {roots roots' : List ParserId}
    (hright : ∀ r ∈ roots, ∃ r' ∈ roots', B r r')
    (hleft : ∀ r' ∈ roots', ∃ r ∈ roots, B r r') :
    Counterparts (fun p q => B p q ∧ p ∈ g.reachable roots ∧ q ∈ g'.reachable roots')
      g g' (g.reachable roots) (g'.reachable roots') where
  alike := by
    rintro p q ⟨hpq, hp, hq⟩
    obtain ⟨name, kind, kind', hpnode, hqnode, hkind⟩ := h p q hpq
    refine ⟨name, kind, kind', hpnode, hqnode, hkind.mono_mem fun o ho o' ho' hoo' => ?_⟩
    -- operands of what is in reach are in reach, as they live
    obtain ⟨r, hr, hrp⟩ := mem_reachable.1 hp
    obtain ⟨r', hr', hrq⟩ := mem_reachable.1 hq
    rw [← operands_of_node? hpnode] at ho
    rw [← operands_of_node? hqnode] at ho'
    exact ⟨hoo', mem_reachable.2 ⟨r, hr, hrp.step ho (h.contains hoo')⟩,
      mem_reachable.2 ⟨r', hr', hrq.step ho' (h.symm.contains hoo')⟩⟩
  mem_left := fun _ _ hpq => hpq.2.1
  mem_right := fun _ _ hpq => hpq.2.2
  exists_right := by
    intro p hp
    obtain ⟨r, hr, hrp⟩ := mem_reachable.1 hp
    obtain ⟨r', hr', hrr'⟩ := hright r hr
    obtain ⟨q, hpq, hq⟩ := h.leads hrr' hrp
    exact ⟨q, hpq, hp, mem_reachable.2 ⟨r', hr', hq⟩⟩
  exists_left := by
    intro q hq
    obtain ⟨r', hr', hrq⟩ := mem_reachable.1 hq
    obtain ⟨r, hr, hrr'⟩ := hleft r' hr'
    obtain ⟨p, hpq, hp⟩ := h.symm.leads hrr' hrq
    exact ⟨p, hpq, mem_reachable.2 ⟨r, hr, hp⟩, hq⟩

end Graph

end ParserGraph
