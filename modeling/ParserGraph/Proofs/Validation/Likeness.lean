import Mathlib.Logic.Relation
import ParserGraph.Proofs.Graph.Likeness
import ParserGraph.Proofs.Validation.Leading
import ParserGraph.Proofs.Validation.Nullable
import ParserGraph.Validation.Basic

/-!
# Validation of graphs that are alike

Validation walks a graph, sweeps over it and searches it, each in an order
that comes from ids. What it finds does not: the sweeps find the least set
that is closed under nullability (`Graph.nullableAmong_least`), and the search
closes a cycle just where some nodes keep calling each other before they take
anything (`Graph.searchCycles_eq_error_iff`). Both are kept by a
correspondence, so that graphs that are alike have the same fault, or none
(`Graph.Alike.validateExcept_eq`). Only which node is told for it may differ.
-/

namespace ParserGraph

/-- What is wrong with a graph, wherever it is. -/
inductive ValidationError.Fault where
  | undefinedRule
  | nullableRepetition
  | leftRecursion
deriving DecidableEq, Repr

/-- The fault of an error, whatever name it tells. -/
def ValidationError.fault : ValidationError → Fault
  | undefinedRule _ => .undefinedRule
  | nullableRepetition _ => .nullableRepetition
  | leftRecursion _ => .leftRecursion

/-! ## Kinds that are alike -/

section

variable {B : ParserId → ParserId → Prop} {nullable nullable' : ParserId → Bool}
  {ids ids' : List ParserId}

theorem all_of_forall₂ (hB : ∀ p q, B p q → nullable p → nullable' q)
    (h : List.Forall₂ B ids ids') (hall : ids.all nullable) : ids'.all nullable' := by
  induction h with
  | nil => rfl
  | cons hid _ ih =>
    rw [List.all_cons, Bool.and_eq_true] at hall ⊢
    exact ⟨hB _ _ hid hall.1, ih hall.2⟩

theorem any_of_forall₂ (hB : ∀ p q, B p q → nullable p → nullable' q)
    (h : List.Forall₂ B ids ids') (hany : ids.any nullable) : ids'.any nullable' := by
  obtain ⟨p, hp, hnull⟩ := List.any_eq_true.1 hany
  obtain ⟨q, hq, hpq⟩ := exists_mem_of_forall₂ h hp
  exact List.any_eq_true.2 ⟨q, hq, hB p q hpq hnull⟩

/-- What is nullable over some operands is so over operands that are nullable where they are. -/
theorem Kind.Alike.isNullable (hB : ∀ p q, B p q → nullable p → nullable' q) {kind kind' : Kind}
    (h : kind.Alike B kind') (hnull : kind.isNullable nullable) : kind'.isNullable nullable' := by
  cases h with
  | terminal => exact hnull
  | sequence h => exact all_of_forall₂ hB h hnull
  | alternation h => exact any_of_forall₂ hB h hnull
  | repetition h =>
    rw [Kind.isNullable, Bool.or_eq_true] at hnull ⊢
    exact hnull.imp_right (hB _ _ h)
  | optional _ => rfl
  | lookahead _ => rfl
  | transform h => exact hB _ _ h hnull
  | token h => exact hB _ _ h hnull
  | expect h => exact hB _ _ h hnull
  | undefined => exact hnull
  | rule h => exact hB _ _ h hnull

theorem leadingParts_forall₂ (hB : ∀ p q, B p q → nullable p = nullable' q)
    (h : List.Forall₂ B ids ids') :
    List.Forall₂ B (leadingParts nullable ids) (leadingParts nullable' ids') := by
  induction h with
  | nil => exact .nil
  | cons hid _ ih =>
    rw [leadingParts, leadingParts, hB _ _ hid]
    split
    · exact .cons hid ih
    · exact .cons hid .nil

/-- Leading calls correspond where the same is nullable. -/
theorem Kind.Alike.leading (hB : ∀ p q, B p q → nullable p = nullable' q) {kind kind' : Kind}
    (h : kind.Alike B kind') :
    List.Forall₂ B (kind.leading nullable) (kind'.leading nullable') := by
  cases h with
  | sequence h => exact leadingParts_forall₂ hB h
  | terminal => exact .nil
  | alternation h => exact h
  | undefined => exact .nil
  | repetition h => exact .cons h .nil
  | optional h => exact .cons h .nil
  | lookahead h => exact .cons h .nil
  | transform h => exact .cons h .nil
  | token h => exact .cons h .nil
  | expect h => exact .cons h .nil
  | rule h => exact .cons h .nil

theorem Kind.Alike.repeatsNullable (hB : ∀ p q, B p q → nullable p = nullable' q)
    {kind kind' : Kind} (h : kind.Alike B kind') :
    kind.repeatsNullable nullable = kind'.repeatsNullable nullable' := by
  cases h with
  | @repetition part part' min max h =>
    cases max with
    | none => exact hB _ _ h
    | some high => rfl
  | _ => rfl

end

namespace Graph

variable {g g' : Graph} {ids ids' known nullable : List ParserId}

/-! ## The least set of nullable nodes -/

section

variable {S : ParserId → Prop}
  (hS : ∀ id ∈ ids, ∀ known : List ParserId, (∀ o ∈ known, S o) →
    (g.kind? id).any (Kind.isNullable known.contains) → S id)
include hS

theorem noteNullable_least (hknown : ∀ o ∈ known, S o) {id : ParserId} (hid : id ∈ ids) :
    ∀ o ∈ g.noteNullable known id, S o := by
  unfold noteNullable
  split
  · exact hknown
  split
  · next hnull =>
    intro o ho
    rcases List.mem_cons.1 ho with rfl | ho
    · exact hS o hid known hknown hnull
    · exact hknown o ho
  · exact hknown

theorem sweepNullable_least {swept : List ParserId} (hswept : swept ⊆ ids)
    (hknown : ∀ o ∈ known, S o) : ∀ o ∈ g.sweepNullable swept known, S o := by
  induction swept generalizing known with
  | nil => exact hknown
  | cons id swept ih =>
    obtain ⟨hid, hswept⟩ := List.cons_subset.1 hswept
    exact ih hswept (noteNullable_least hS hknown hid)

theorem settleNullable_least (n : Nat) (hknown : ∀ o ∈ known, S o) :
    ∀ o ∈ g.settleNullable ids n known, S o := by
  induction n generalizing known with
  | zero => exact hknown
  | succ n ih =>
    rw [settleNullable]
    split
    · exact hknown
    · exact ih (sweepNullable_least hS (List.Subset.refl ids) hknown)

/-- **What the sweeps find is in every set that nullability does not lead out of.** -/
theorem nullableAmong_least : ∀ id ∈ g.nullableAmong ids, S id :=
  settleNullable_least hS _ fun _ ho => absurd ho List.not_mem_nil

end

/-! ## Cycles of leading calls -/

/-- Some nodes each of which may call one of them before taking anything. -/
def Loops (g : Graph) (ids nullable : List ParserId) : Prop :=
  ∃ S : ParserId → Prop, (∃ p, S p) ∧
    ∀ p, S p → p ∈ ids ∧ ∃ o, S o ∧ o ∈ g.leadingCalls nullable p

/-- A way along leading calls, the node come to last in front. -/
inductive Stacked (g : Graph) (ids nullable : List ParserId) : List Frame → Prop
  | nil : Stacked g ids nullable []
  | cons {f : Frame} {way : List Frame} :
      f.id ∈ ids → (∀ o ∈ f.calls, o ∈ g.leadingCalls nullable f.id) →
      (∀ below ∈ way.head?, f.id ∈ g.leadingCalls nullable below.id) →
      Stacked g ids nullable way → Stacked g ids nullable (f :: way)

theorem Stacked.mem_ids {way : List Frame} (h : Stacked g ids nullable way) :
    ∀ p ∈ way.map Frame.id, p ∈ ids := by
  induction h with
  | nil => exact fun p hp => absurd hp List.not_mem_nil
  | cons hid _ _ _ ih =>
    intro p hp
    rcases List.mem_cons.1 hp with rfl | hp
    · exact hid
    · exact ih p hp

/-- A call between two of some nodes, made before anything is taken. -/
def CallsAmong (g : Graph) (ids nullable : List ParserId) (p o : ParserId) : Prop :=
  p ∈ ids ∧ o ∈ ids ∧ o ∈ g.leadingCalls nullable p

/-- Every node of a way leads to its top. -/
theorem Stacked.leads_top {f : Frame} {way : List Frame} (h : Stacked g ids nullable (f :: way)) :
    ∀ p ∈ (f :: way).map Frame.id, Relation.ReflTransGen (g.CallsAmong ids nullable) p f.id := by
  induction way generalizing f with
  | nil =>
    intro p hp
    rw [List.mem_singleton.1 hp]
  | cons below way ih =>
    intro p hp
    rcases List.mem_cons.1 hp with rfl | hp
    · exact .refl
    · cases h with
      | cons hid _ habove hway =>
        have hbelow : below.id ∈ ids := hway.mem_ids _ List.mem_cons_self
        exact (ih hway p hp).tail ⟨hbelow, hid, habove below rfl⟩

/-- A search that runs back into its way runs into a node that calls lead back to. -/
theorem recurs_of_searchCycle {met : List ParserId} {way : List Frame} {e : ParserId}
    (h : g.searchCycle ids nullable met way = .error e) (hway : Stacked g ids nullable way) :
    Relation.TransGen (g.CallsAmong ids nullable) e e := by
  fun_induction searchCycle g ids nullable met way with
  | case1 met => cases h
  | case2 met id way ih =>
    cases hway with
    | cons _ _ _ hway => exact ih h hway
  | case3 met id next calls way hcycle =>
    -- the node leads up the way to its top, which calls it
    cases h
    have hnext : e ∈ (⟨id, e :: calls⟩ :: way).map Frame.id := by
      obtain ⟨f, hf, he⟩ := List.any_eq_true.1 hcycle
      exact List.mem_map.2 ⟨f, hf, of_decide_eq_true he⟩
    have htop := hway.leads_top e hnext
    have he : e ∈ ids := hway.mem_ids e hnext
    cases hway with
    | cons hid hcalls _ _ => exact .tail' htop ⟨hid, he, hcalls e List.mem_cons_self⟩
  | case4 met id next calls way hcycle hnew ih =>
    rw [Bool.and_eq_true, List.contains_iff_mem] at hnew
    cases hway with
    | cons hid hcalls habove hway =>
      refine ih h (.cons hnew.1 (fun o ho => List.mem_reverse.1 ho) (fun below hbelow => ?_)
        (.cons hid (fun o ho => hcalls o (List.mem_cons_of_mem _ ho)) habove hway))
      cases hbelow
      exact hcalls next List.mem_cons_self
  | case5 met id next calls way hcycle hold ih =>
    cases hway with
    | cons hid hcalls habove hway =>
      exact ih h (.cons hid (fun o ho => hcalls o (List.mem_cons_of_mem _ ho)) habove hway)

/-- **The node that the search is told by lies on a cycle of calls.** -/
theorem recurs_of_searchCycles {met roots : List ParserId} {e : ParserId}
    (h : g.searchCycles ids nullable met roots = .error e) (hroots : roots ⊆ ids) :
    Relation.TransGen (g.CallsAmong ids nullable) e e := by
  induction roots generalizing met with
  | nil => cases h
  | cons root roots ih =>
    obtain ⟨hroot, hroots⟩ := List.cons_subset.1 hroots
    rw [searchCycles] at h
    split at h
    · exact ih h hroots
    · split at h
      · next e' hsearch =>
        cases h
        exact recurs_of_searchCycle hsearch
          (.cons hroot (fun o ho => List.mem_reverse.1 ho)
            (fun _ hbelow => absurd hbelow (by simp)) .nil)
      · exact ih h hroots

/-- **The search closes a cycle exactly where some nodes keep calling each other.** -/
theorem searchCycles_eq_error_iff :
    (∃ e, g.searchCycles ids nullable [] ids = .error e) ↔ g.Loops ids nullable := by
  refine ⟨fun ⟨e, h⟩ => ?_, ?_⟩
  · -- the nodes of the cycle: whatever the node leads to that leads back to it
    have hcycle := recurs_of_searchCycles h (List.Subset.refl ids)
    refine ⟨fun p => Relation.TransGen (g.CallsAmong ids nullable) e p ∧
      Relation.TransGen (g.CallsAmong ids nullable) p e, ⟨e, hcycle, hcycle⟩, ?_⟩
    rintro p ⟨hep, hpe⟩
    obtain ⟨o, hpo, hoe⟩ := Relation.TransGen.head'_iff.1 hpe
    exact ⟨hpo.1, o, ⟨hep.tail hpo, Relation.TransGen.trans_right hoe hcycle⟩, hpo.2.2⟩
  rintro ⟨S, ⟨p, hp⟩, hcalls⟩
  cases hsearch : g.searchCycles ids nullable [] ids with
  | error e => exact ⟨e, rfl⟩
  | ok met =>
    -- a number that goes down with every call cannot go down for ever
    obtain ⟨order, hdown⟩ := exists_order_of_searchCycles hsearch
    have hnone : ∀ n p, order p = n → ¬ S p := by
      intro n
      induction n using Nat.strongRecOn with
      | ind n ih =>
        rintro p rfl hp
        obtain ⟨hid, o, ho, hcall⟩ := hcalls p hp
        exact ih (order o) (hdown p hid o hcall (hcalls o ho).1) o rfl ho
    exact absurd hp (hnone _ p rfl)

/-! ## Counterparts -/

section

variable {B : ParserId → ParserId → Prop} {p q : ParserId}

/-- What is nullable has nullable counterparts only. -/
theorem Counterparts.nullable_right (h : Counterparts B g g' ids ids') (hpq : B p q)
    (hp : p ∈ g.nullableAmong ids) : q ∈ g'.nullableAmong ids' := by
  refine nullableAmong_least (S := fun p => ∀ q, B p q → q ∈ g'.nullableAmong ids') ?_ p hp q hpq
  intro p _ known hknown hnull q hpq
  obtain ⟨kind, kind', hpkind, hqkind, hkind⟩ := h.alike.kinds hpq
  rw [hpkind] at hnull
  refine mem_nullableAmong (h.mem_right p q hpq) hqkind (hkind.isNullable ?_ hnull)
  intro o o' hoo' ho
  exact List.contains_iff_mem.2 (hknown o (List.contains_iff_mem.1 ho) o' hoo')

theorem Counterparts.nullable_eq (h : Counterparts B g g' ids ids') (hpq : B p q) :
    (g.nullableAmong ids).contains p = (g'.nullableAmong ids').contains q := by
  rw [Bool.eq_iff_iff, List.contains_iff_mem, List.contains_iff_mem]
  exact ⟨h.nullable_right hpq, h.symm.nullable_right hpq⟩

/-- What corresponds lacks a body alike. -/
theorem Alike.isUndefinedRule_eq (h : g.Alike B g') (hpq : B p q) :
    g.isUndefinedRule p = g'.isUndefinedRule q := by
  obtain ⟨kind, kind', hpkind, hqkind, hkind⟩ := h.kinds hpq
  rw [isUndefinedRule, isUndefinedRule, hpkind, hqkind]
  cases hkind <;> rfl

theorem Counterparts.repeatsNullable_eq (h : Counterparts B g g' ids ids') (hpq : B p q) :
    (g.kind? p).any (Kind.repeatsNullable (g.nullableAmong ids).contains) =
      (g'.kind? q).any (Kind.repeatsNullable (g'.nullableAmong ids').contains) := by
  obtain ⟨kind, kind', hpkind, hqkind, hkind⟩ := h.alike.kinds hpq
  rw [hpkind, hqkind]
  exact Kind.Alike.repeatsNullable (fun o o' hoo' => h.nullable_eq hoo') hkind

/-- What holds of both counterparts or of neither holds somewhere in both graphs or in neither. -/
theorem Counterparts.exists_iff (h : Counterparts B g g' ids ids') {P P' : ParserId → Bool}
    (hP : ∀ p q, B p q → P p = P' q) : (∃ p ∈ ids, P p) ↔ ∃ q ∈ ids', P' q := by
  constructor
  · rintro ⟨p, hp, hPp⟩
    obtain ⟨q, hpq⟩ := h.exists_right p hp
    exact ⟨q, h.mem_right p q hpq, hP p q hpq ▸ hPp⟩
  · rintro ⟨q, hq, hPq⟩
    obtain ⟨p, hpq⟩ := h.exists_left q hq
    exact ⟨p, h.mem_left p q hpq, (hP p q hpq).symm ▸ hPq⟩

/-- Counterparts of nodes that keep calling each other do so too. -/
theorem Counterparts.loops_right (h : Counterparts B g g' ids ids')
    (hloops : g.Loops ids (g.nullableAmong ids)) : g'.Loops ids' (g'.nullableAmong ids') := by
  obtain ⟨S, ⟨p, hp⟩, hcalls⟩ := hloops
  refine ⟨fun q => ∃ p, S p ∧ B p q, ?_, ?_⟩
  · obtain ⟨q, hpq⟩ := h.exists_right p (hcalls p hp).1
    exact ⟨q, p, hp, hpq⟩
  · rintro q ⟨p, hp, hpq⟩
    obtain ⟨-, o, ho, hcall⟩ := hcalls p hp
    obtain ⟨kind, kind', hpkind, hqkind, hkind⟩ := h.alike.kinds hpq
    have hleading := Kind.Alike.leading (B := B) (fun o o' hoo' => h.nullable_eq hoo') hkind
    rw [leadingCalls, hpkind] at hcall
    obtain ⟨o', ho', hoo'⟩ := exists_mem_of_forall₂ hleading hcall
    refine ⟨h.mem_right p q hpq, o', ⟨o, ho, hoo'⟩, ?_⟩
    rw [leadingCalls, hqkind]
    exact ho'

end

/-! ## The fault of a graph -/

open Classical in
/-- **Which fault is found** depends on what is in reach only, where no placeholder may lack a
body. -/
theorem validateExcept_fault (g : Graph) (roots : List ParserId) :
    (g.validateExcept [] roots).mapError ValidationError.fault =
      if ∃ id ∈ g.reachable roots, g.isUndefinedRule id then .error .undefinedRule
      else if ∃ id ∈ g.reachable roots, (g.kind? id).any
          (Kind.repeatsNullable (g.nullableAmong (g.reachable roots)).contains) then
        .error .nullableRepetition
      else if g.Loops (g.reachable roots) (g.nullableAmong (g.reachable roots)) then
        .error .leftRecursion
      else .ok () := by
  unfold validateExcept
  dsimp only
  split
  · next id hfind =>
    have hid := List.find?_some hfind
    rw [if_pos ⟨id, List.mem_of_find?_eq_some hfind, by simpa using hid⟩]
    rfl
  · next hnone =>
    rw [if_neg fun ⟨id, hid, hopen⟩ => List.find?_eq_none.1 hnone id hid (by simpa using hopen)]
    split
    · next id hfind =>
      have hrepeats := List.find?_some (p := fun id => (g.kind? id).any
        (Kind.repeatsNullable (g.nullableAmong (g.reachable roots)).contains)) hfind
      rw [if_pos ⟨id, List.mem_of_find?_eq_some hfind, hrepeats⟩]
      rfl
    · next hnone =>
      rw [if_neg fun ⟨id, hid, hrepeats⟩ => List.find?_eq_none.1 hnone id hid hrepeats]
      split
      · next id hsearch =>
        rw [if_pos (searchCycles_eq_error_iff.1 ⟨id, hsearch⟩)]
        rfl
      · next met hsearch =>
        rw [if_neg fun hloops => ?_]
        · rfl
        · obtain ⟨e, herror⟩ := searchCycles_eq_error_iff.2 hloops
          exact nomatch hsearch.symm.trans herror

open Classical in
/-- **Graphs that are alike have the same fault, or none.** -/
theorem Alike.validateExcept_eq {B : ParserId → ParserId → Prop} (h : g.Alike B g')
    {roots roots' : List ParserId} (hright : ∀ r ∈ roots, ∃ r' ∈ roots', B r r')
    (hleft : ∀ r' ∈ roots', ∃ r ∈ roots, B r r') :
    (g.validateExcept [] roots).mapError ValidationError.fault =
      (g'.validateExcept [] roots').mapError ValidationError.fault := by
  have hcounter := h.counterparts hright hleft
  rw [validateExcept_fault, validateExcept_fault]
  refine if_congr (hcounter.exists_iff fun _ _ => hcounter.alike.isUndefinedRule_eq) rfl ?_
  refine if_congr (hcounter.exists_iff fun _ _ => hcounter.repeatsNullable_eq) rfl ?_
  exact if_congr ⟨hcounter.loops_right, hcounter.symm.loops_right⟩ rfl rfl

end Graph

end ParserGraph
