import Mathlib.Data.Fintype.Pigeonhole
import Mathlib.Logic.Relation
import Mathlib.Order.Monotone.Basic
import ParserGraph.Proofs.Validation.Likeness
import ParserGraph.Proofs.Validation.Progress

/-!
# What validation decides — its three conditions, without a word on how

The conditions are told of the graph alone. A parser is nullable if the rules
of nullability make it so (`Graph.Nullable`), and may call an operand before
it has taken anything if nothing in front of that operand has to take
anything (`Graph.MayCall`). The sweeps compute the first
(`Graph.mem_nullableAmong_iff`), the search looks for cycles of the second
(`Graph.loops_iff_recurs`), so validation decides its conditions exactly
(`Graph.validate_decides`).
-/

namespace ParserGraph

/-! ## Calls before anything is taken -/

/-- A kind may call an operand before it has taken anything. Only a sequence holds operands back,
behind those that have to take something. -/
inductive Kind.MayCall (nullable : ParserId → Prop) : Kind → ParserId → Prop
  | sequence {front back : List ParserId} {o : ParserId} :
      (∀ q ∈ front, nullable q) → MayCall nullable (.sequence (front ++ o :: back)) o
  | other {kind : Kind} {o : ParserId} :
      (∀ parts, kind ≠ .sequence parts) → o ∈ kind.operands → MayCall nullable kind o

section

variable {nullable : ParserId → Bool} {known : ParserId → Prop} {kind : Kind} {o : ParserId}

theorem Kind.MayCall.mem_operands (h : kind.MayCall known o) : o ∈ kind.operands := by
  cases h with
  | sequence _ => exact List.mem_append_right _ List.mem_cons_self
  | other _ ho => exact ho

/-- Which operands are nullable matters, and nothing else. -/
theorem Kind.MayCall.mono {known' : ParserId → Prop} (h : kind.MayCall known o)
    (hsub : ∀ q ∈ kind.operands, known q → known' q) : kind.MayCall known' o := by
  cases h with
  | sequence hfront =>
    exact .sequence fun q hq => hsub q (List.mem_append_left _ hq) (hfront q hq)
  | other hkind ho => exact .other hkind ho

/-- The leading parts are those that only nullable parts precede. -/
theorem mem_leadingParts_iff {parts : List ParserId} :
    o ∈ leadingParts nullable parts ↔
      ∃ front back, parts = front ++ o :: back ∧ ∀ q ∈ front, nullable q := by
  constructor
  · intro h
    induction parts with
    | nil => exact absurd h List.not_mem_nil
    | cons part parts ih =>
      rw [leadingParts] at h
      split at h
      · next hpart =>
        rcases List.mem_cons.1 h with rfl | h
        · exact ⟨[], parts, rfl, fun q hq => absurd hq List.not_mem_nil⟩
        · obtain ⟨front, back, rfl, hfront⟩ := ih h
          exact ⟨part :: front, back, rfl, List.forall_mem_cons.2 ⟨hpart, hfront⟩⟩
      · rw [List.mem_singleton.1 h]
        exact ⟨[], parts, rfl, fun q hq => absurd hq List.not_mem_nil⟩
  · rintro ⟨front, back, rfl, hfront⟩
    induction front with
    | nil =>
      rw [List.nil_append, leadingParts]
      split
      · exact List.mem_cons_self
      · exact List.mem_singleton_self o
    | cons part front ih =>
      obtain ⟨hpart, hfront⟩ := List.forall_mem_cons.1 hfront
      rw [List.cons_append, leadingParts, if_pos hpart]
      exact List.mem_cons_of_mem _ (ih hfront)

/-- **The leading calls are the calls that may be made before anything is taken.** -/
theorem Kind.mem_leading_iff : o ∈ kind.leading nullable ↔ kind.MayCall (nullable ·) o := by
  constructor
  · intro h
    cases kind with
    | sequence parts =>
      obtain ⟨front, back, rfl, hfront⟩ := mem_leadingParts_iff.1 h
      exact .sequence hfront
    | _ => exact .other (fun _ => Kind.noConfusion) h
  · intro h
    cases h with
    | @sequence front back _ hfront => exact mem_leadingParts_iff.2 ⟨front, back, rfl, hfront⟩
    | other hkind ho =>
      cases kind with
      | sequence parts => exact absurd rfl (hkind parts)
      | _ => exact ho

theorem Kind.repeatsNullable_iff : kind.repeatsNullable nullable ↔
    ∃ part min, kind = .repetition part min none ∧ nullable part := by
  constructor
  · intro h
    unfold repeatsNullable at h
    split at h
    · exact ⟨_, _, rfl, h⟩
    · exact absurd h Bool.false_ne_true
  · rintro ⟨part, min, rfl, h⟩
    exact h

end

namespace Graph

/-- The parsers that the rules of nullability make nullable, and no others. -/
inductive Nullable (g : Graph) : ParserId → Prop
  | terminal {id : ParserId} {t : Terminal} :
      g.kind? id = some (.terminal t) → t.isNullable → Nullable g id
  | sequence {id : ParserId} {parts : List ParserId} :
      g.kind? id = some (.sequence parts) → (∀ o ∈ parts, Nullable g o) → Nullable g id
  | alternation {id o : ParserId} {branches : List ParserId} :
      g.kind? id = some (.alternation branches) → o ∈ branches → Nullable g o → Nullable g id
  | noRound {id part : ParserId} {max : Option Nat} :
      g.kind? id = some (.repetition part 0 max) → Nullable g id
  | repetition {id part : ParserId} {min : Nat} {max : Option Nat} :
      g.kind? id = some (.repetition part min max) → Nullable g part → Nullable g id
  | optional {id part : ParserId} : g.kind? id = some (.optional part) → Nullable g id
  | lookahead {id part : ParserId} {negated : Bool} :
      g.kind? id = some (.lookahead part negated) → Nullable g id
  | transform {id part : ParserId} {mapping : Tree → Tree} :
      g.kind? id = some (.transform part mapping) → Nullable g part → Nullable g id
  | token {id part : ParserId} :
      g.kind? id = some (.token part) → Nullable g part → Nullable g id
  | expect {id part : ParserId} {label : String} :
      g.kind? id = some (.expect part label) → Nullable g part → Nullable g id
  | rule {id body : ParserId} :
      g.kind? id = some (.rule (some body)) → Nullable g body → Nullable g id

/-- A parser may call another before it has taken anything. -/
def MayCall (g : Graph) (p o : ParserId) : Prop :=
  ∃ kind, g.kind? p = some kind ∧ kind.MayCall g.Nullable o

/-! ## The three conditions -/

/-- A node that some root leads to. -/
def InReach (g : Graph) (roots : List ParserId) (id : ParserId) : Prop :=
  ∃ r ∈ roots, g.Leads r id

/-- A placeholder in reach has no body. -/
def LacksBody (g : Graph) (roots : List ParserId) : Prop :=
  ∃ id, g.InReach roots id ∧ g.kind? id = some (.rule none)

/-- A repetition in reach repeats something nullable without bound. -/
def RepeatsNullable (g : Graph) (roots : List ParserId) : Prop :=
  ∃ id part min, g.InReach roots id ∧ g.kind? id = some (.repetition part min none) ∧
    g.Nullable part

/-- A call between parsers in reach, made before anything is taken. -/
def CallsInReach (g : Graph) (roots : List ParserId) (p o : ParserId) : Prop :=
  g.InReach roots p ∧ g.InReach roots o ∧ g.MayCall p o

/-- Such calls lead from a parser back to itself. -/
def Recurs (g : Graph) (roots : List ParserId) : Prop :=
  ∃ p, Relation.TransGen (g.CallsInReach roots) p p

variable {g : Graph} {roots roots' ids : List ParserId} {p o id : ParserId}

theorem InReach.contains (h : g.InReach roots id) : g.contains id := by
  obtain ⟨r, -, hr⟩ := h
  exact hr.contains_right

theorem InReach.operand (h : g.InReach roots p) (ho : o ∈ g.operands p) (hlive : g.contains o) :
    g.InReach roots o := by
  obtain ⟨r, hr, hrp⟩ := h
  exact ⟨r, hr, hrp.step ho hlive⟩

theorem contains_of_kind? {kind : Kind} (h : g.kind? id = some kind) : g.contains id := by
  obtain ⟨node, hnode, -⟩ := Option.map_eq_some_iff.1 h
  exact contains_iff.2 ⟨node, hnode⟩

theorem operands_of_kind? {kind : Kind} (h : g.kind? id = some kind) :
    g.operands id = kind.operands := by
  rw [operands, h]
  rfl

theorem MayCall.mem_operands (h : g.MayCall p o) : o ∈ g.operands p := by
  obtain ⟨kind, hkind, hcall⟩ := h
  rw [operands_of_kind? hkind]
  exact hcall.mem_operands

/-! ## The sweeps compute what is nullable -/

/-- Only what lives is nullable. -/
theorem Nullable.contains (h : g.Nullable id) : g.contains id := by
  cases h <;> exact contains_of_kind? ‹_›

/-- What the rules make of nullable operands is nullable. -/
theorem Nullable.of_kind {kind : Kind} {nullable : ParserId → Bool} (hkind : g.kind? id = some kind)
    (hknown : ∀ o, nullable o → g.Nullable o) (h : kind.isNullable nullable) : g.Nullable id := by
  cases kind with
  | terminal t => exact .terminal hkind h
  | sequence parts => exact .sequence hkind fun o ho => hknown o (List.all_eq_true.1 h o ho)
  | alternation branches =>
    obtain ⟨o, ho, hnull⟩ := List.any_eq_true.1 h
    exact .alternation hkind ho (hknown o hnull)
  | repetition part min max =>
    rw [Kind.isNullable, Bool.or_eq_true, decide_eq_true_eq] at h
    rcases h with rfl | h
    · exact .noRound hkind
    · exact .repetition hkind (hknown part h)
  | optional part => exact .optional hkind
  | lookahead part negated => exact .lookahead hkind
  | transform part mapping => exact .transform hkind (hknown part h)
  | token part => exact .token hkind (hknown part h)
  | expect part label => exact .expect hkind (hknown part h)
  | rule body =>
    cases body with
    | none => exact absurd h Bool.false_ne_true
    | some body => exact .rule hkind (hknown body h)

open Classical in
/-- Whether a parser is nullable is up to its kind and its operands. -/
theorem nullable_iff_of_kind? {kind : Kind} (hkind : g.kind? id = some kind) :
    g.Nullable id ↔ kind.isNullable fun o => decide (g.Nullable o) := by
  constructor
  · intro h
    cases h with
    | terminal hkind' ht =>
      cases hkind.symm.trans hkind'
      exact ht
    | sequence hkind' hparts =>
      cases hkind.symm.trans hkind'
      exact List.all_eq_true.2 fun o ho => decide_eq_true (hparts o ho)
    | alternation hkind' ho hnull =>
      cases hkind.symm.trans hkind'
      exact List.any_eq_true.2 ⟨_, ho, decide_eq_true hnull⟩
    | noRound hkind' =>
      cases hkind.symm.trans hkind'
      rfl
    | repetition hkind' hnull =>
      cases hkind.symm.trans hkind'
      exact (Bool.or_eq_true _ _).mpr (Or.inr (decide_eq_true hnull))
    | optional hkind' =>
      cases hkind.symm.trans hkind'
      rfl
    | lookahead hkind' =>
      cases hkind.symm.trans hkind'
      rfl
    | transform hkind' hnull =>
      cases hkind.symm.trans hkind'
      exact decide_eq_true hnull
    | token hkind' hnull =>
      cases hkind.symm.trans hkind'
      exact decide_eq_true hnull
    | expect hkind' hnull =>
      cases hkind.symm.trans hkind'
      exact decide_eq_true hnull
    | rule hkind' hnull =>
      cases hkind.symm.trans hkind'
      exact decide_eq_true hnull
  · exact .of_kind hkind fun o ho => of_decide_eq_true ho

/-- What is found is nullable, whatever is swept over. -/
theorem Nullable.of_mem_nullableAmong (h : id ∈ g.nullableAmong ids) : g.Nullable id := by
  refine nullableAmong_least (S := g.Nullable) ?_ id h
  intro id _ known hknown hnull
  obtain ⟨kind, hkind, hkindNull⟩ := (Option.any_eq_true _ _).1 hnull
  exact .of_kind hkind (fun o ho => hknown o (List.contains_iff_mem.1 ho)) hkindNull

/-- What is nullable is among known nodes, if these keep to the rules on nodes that have the operands
that live among them. -/
theorem Nullable.mem_of_stable {known : List ParserId} (h : g.Nullable id) (hid : id ∈ ids)
    (hclosed : ∀ p ∈ ids, ∀ o ∈ g.operands p, g.contains o → o ∈ ids)
    (hstable : ∀ p ∈ ids, ∀ kind, g.kind? p = some kind → kind.isNullable known.contains →
      p ∈ known) : id ∈ known := by
  -- an operand that is nullable lives, so it is among the nodes
  have hoperand : ∀ {kind : Kind} {p o : ParserId}, g.kind? p = some kind → p ∈ ids →
      o ∈ kind.operands → g.Nullable o → o ∈ ids := by
    intro kind p o hkind hp ho hnull
    exact hclosed p hp o (operands_of_kind? hkind ▸ ho) hnull.contains
  -- and what has it for its only operand, and goes by that, is known
  have honly : ∀ {kind : Kind} {p o : ParserId}, g.kind? p = some kind → p ∈ ids →
      kind.operands = [o] → (∀ nullable, nullable o → kind.isNullable nullable) → g.Nullable o →
      (o ∈ ids → o ∈ known) → p ∈ known := by
    intro kind p o hkind hp hoperands hgoes hnull ih
    have ho : o ∈ kind.operands := by rw [hoperands]; exact List.mem_singleton_self o
    exact hstable p hp kind hkind
      (hgoes _ (List.contains_iff_mem.2 (ih (hoperand hkind hp ho hnull))))
  induction h with
  | terminal hkind ht => exact hstable _ hid _ hkind ht
  | sequence hkind hparts ih =>
    refine hstable _ hid _ hkind (List.all_eq_true.2 fun o ho => ?_)
    exact List.contains_iff_mem.2 (ih o ho (hoperand hkind hid ho (hparts o ho)))
  | alternation hkind ho hnull ih =>
    refine hstable _ hid _ hkind (List.any_eq_true.2 ⟨_, ho, ?_⟩)
    exact List.contains_iff_mem.2 (ih (hoperand hkind hid ho hnull))
  | noRound hkind => exact hstable _ hid _ hkind rfl
  | repetition hkind hnull ih =>
    refine honly hkind hid rfl (fun nullable hpart => ?_) hnull ih
    rw [Kind.isNullable, hpart, Bool.or_true]
  | optional hkind => exact hstable _ hid _ hkind rfl
  | lookahead hkind => exact hstable _ hid _ hkind rfl
  | transform hkind hnull ih => exact honly hkind hid rfl (fun _ hpart => hpart) hnull ih
  | token hkind hnull ih => exact honly hkind hid rfl (fun _ hpart => hpart) hnull ih
  | expect hkind hnull ih => exact honly hkind hid rfl (fun _ hpart => hpart) hnull ih
  | rule hkind hnull ih => exact honly hkind hid rfl (fun _ hpart => hpart) hnull ih

/-- What is nullable is found, where the operands that live are swept over too. -/
theorem Nullable.mem_nullableAmong (h : g.Nullable id) (hid : id ∈ ids)
    (hclosed : ∀ p ∈ ids, ∀ o ∈ g.operands p, g.contains o → o ∈ ids) :
    id ∈ g.nullableAmong ids :=
  h.mem_of_stable hid hclosed fun _ hp _ hkind hnull => Graph.mem_nullableAmong hp hkind hnull

/-- **What is nullable is in every set that nullability does not lead out of.** -/
theorem Nullable.least {S : ParserId → Prop} (h : g.Nullable id)
    (hS : ∀ id, ∀ known : List ParserId, (∀ o ∈ known, S o) →
      (g.kind? id).any (Kind.isNullable known.contains) → S id) : S id := by
  have hfound : id ∈ g.nullableAmong (g.reachable [id]) :=
    h.mem_nullableAmong (mem_reachable.2 ⟨id, List.mem_singleton_self id, .refl h.contains⟩)
      fun _ hp _ ho hlive => mem_reachable_of_operand hp ho hlive
  exact nullableAmong_least (fun id _ => hS id) id hfound

/-- **In reach of the roots, the sweeps find just what is nullable.** -/
theorem mem_nullableAmong_iff (hid : g.InReach roots id) :
    id ∈ g.nullableAmong (g.reachable roots) ↔ g.Nullable id :=
  ⟨.of_mem_nullableAmong, fun h => h.mem_nullableAmong (mem_reachable.2 hid)
    fun _ hp _ ho hlive => mem_reachable_of_operand hp ho hlive⟩

/-- **The nullable parsers of given roots are those in reach that the rules make nullable.** -/
theorem mem_nullable_iff : id ∈ g.nullable roots ↔ g.InReach roots id ∧ g.Nullable id := by
  rw [mem_nullable]
  constructor
  · intro h
    have hid : id ∈ g.reachable roots :=
      nullableAmong_least (S := (· ∈ g.reachable roots)) (fun o ho _ _ _ => ho) id h
    exact ⟨mem_reachable.1 hid, .of_mem_nullableAmong h⟩
  · rintro ⟨hid, hnull⟩
    exact (mem_nullableAmong_iff hid).2 hnull

/-- Of the operands of a node in reach, the sweeps find just those that are nullable. -/
theorem contains_nullableAmong_iff (hp : g.InReach roots p) (ho : o ∈ g.operands p) :
    (g.nullableAmong (g.reachable roots)).contains o ↔ g.Nullable o := by
  rw [List.contains_iff_mem]
  exact ⟨.of_mem_nullableAmong, fun h => (mem_nullableAmong_iff (hp.operand ho h.contains)).2 h⟩

/-! ## The search looks for cycles of calls -/

/-- The leading calls of a node in reach are those it may make before anything is taken. -/
theorem mem_leadingCalls_iff (hp : g.InReach roots p) :
    o ∈ g.leadingCalls (g.nullableAmong (g.reachable roots)) p ↔ g.MayCall p o := by
  obtain ⟨node, hnode⟩ := contains_iff.1 hp.contains
  have hkind : g.kind? p = some node.kind := by rw [kind?, hnode]; rfl
  have hnull : ∀ q ∈ node.kind.operands,
      (g.nullableAmong (g.reachable roots)).contains q ↔ g.Nullable q := by
    intro q hq
    exact contains_nullableAmong_iff hp (operands_of_kind? hkind ▸ hq)
  rw [leadingCalls, hkind]
  show o ∈ node.kind.leading _ ↔ _
  rw [Kind.mem_leading_iff]
  constructor
  · intro h
    exact ⟨node.kind, hkind, h.mono fun q hq => (hnull q hq).1⟩
  · rintro ⟨kind, hkind', h⟩
    cases hkind.symm.trans hkind'
    exact h.mono fun q hq => (hnull q hq).2

/-- Where each of finitely many things is related to another of them, some come round. -/
theorem exists_transGen_self {α : Type} (all : List α) {r : α → α → Prop} {S : α → Prop} {p : α}
    (hp : S p) (hS : ∀ p, S p → p ∈ all ∧ ∃ o, S o ∧ r p o) : ∃ q, Relation.TransGen r q q := by
  have hfinite : Finite {q // S q} :=
    Set.Finite.subset (List.finite_toSet all) fun q hq => (hS q hq).1
  have hnext : ∀ q : {q // S q}, ∃ o : {q // S q}, r q o := by
    rintro ⟨q, hq⟩
    obtain ⟨-, o, ho, hcall⟩ := hS q hq
    exact ⟨⟨o, ho⟩, hcall⟩
  choose next hcall using hnext
  -- going on for ever meets something twice
  obtain ⟨i, j, hne, hsame⟩ := Finite.exists_ne_map_eq_of_infinite fun n => next^[n] ⟨p, hp⟩
  have hstep : ∀ n, Relation.TransGen r (next^[n] ⟨p, hp⟩).1 (next^[n + 1] ⟨p, hp⟩).1 := by
    intro n
    rw [Function.iterate_succ_apply']
    exact .single (hcall _)
  have hlong : ∀ i j, i < j → Relation.TransGen r (next^[i] ⟨p, hp⟩).1 (next^[j] ⟨p, hp⟩).1 :=
    fun i j hij => Nat.rel_of_forall_rel_succ_of_lt (Relation.TransGen r) hstep hij
  rcases Nat.lt_or_gt_of_ne hne with hij | hji
  · have hround := hlong i j hij
    rw [← hsame] at hround
    exact ⟨_, hround⟩
  · have hround := hlong j i hji
    rw [hsame] at hround
    exact ⟨_, hround⟩

/-- **What the search closes is a cycle of calls made before anything is taken.** -/
theorem loops_iff_recurs :
    g.Loops (g.reachable roots) (g.nullableAmong (g.reachable roots)) ↔ g.Recurs roots := by
  constructor
  · rintro ⟨S, ⟨p, hp⟩, hS⟩
    refine exists_transGen_self (g.reachable roots) hp fun q hq => ?_
    obtain ⟨hreach, o, ho, hcall⟩ := hS q hq
    have hq' : g.InReach roots q := mem_reachable.1 hreach
    exact ⟨hreach, o, ho, hq', mem_reachable.1 (hS o ho).1, (mem_leadingCalls_iff hq').1 hcall⟩
  · rintro ⟨p, hcycle⟩
    -- the nodes of the cycle: whatever the node leads to that leads back to it
    refine ⟨fun q => Relation.TransGen (g.CallsInReach roots) p q ∧
      Relation.TransGen (g.CallsInReach roots) q p, ⟨p, hcycle, hcycle⟩, ?_⟩
    rintro q ⟨hpq, hqp⟩
    obtain ⟨o, hqo, hop⟩ := Relation.TransGen.head'_iff.1 hqp
    have hpo : Relation.TransGen (g.CallsInReach roots) p o := hpq.tail hqo
    refine ⟨mem_reachable.2 hqo.1, o, ⟨hpo, ?_⟩, (mem_leadingCalls_iff hqo.1).2 hqo.2.2⟩
    exact Relation.TransGen.trans_right hop hcycle

/-- Calls that lead from a parser back to itself. -/
def OnCycle (g : Graph) (roots : List ParserId) (p : ParserId) : Prop :=
  Relation.TransGen (g.CallsInReach roots) p p

/-- Calls go round a cycle. -/
theorem OnCycle.exists_call (h : g.OnCycle roots p) :
    g.InReach roots p ∧ ∃ o, g.MayCall p o ∧ g.OnCycle roots o := by
  obtain ⟨o, hcall, hback⟩ := Relation.TransGen.head'_iff.1 h
  exact ⟨hcall.1, o, hcall.2.2, .tail' hback hcall⟩

/-- Where a cycle goes through a node with one operand, it goes on through that. -/
theorem OnCycle.of_singleton {kind : Kind} (h : g.OnCycle roots p) (hkind : g.kind? p = some kind)
    (hops : kind.operands = [o]) : g.OnCycle roots o := by
  obtain ⟨-, o', hcall, ho'⟩ := h.exists_call
  have hmem := hcall.mem_operands
  rw [operands_of_kind? hkind, hops, List.mem_singleton] at hmem
  exact hmem ▸ ho'

/-! ## Roots one by one -/

theorem inReach_append :
    g.InReach (roots ++ roots') id ↔ g.InReach roots id ∨ g.InReach roots' id := by
  constructor
  · rintro ⟨r, hr, hl⟩
    exact (List.mem_append.1 hr).imp (fun hr => ⟨r, hr, hl⟩) fun hr => ⟨r, hr, hl⟩
  · rintro (⟨r, hr, hl⟩ | ⟨r, hr, hl⟩)
    · exact ⟨r, List.mem_append_left _ hr, hl⟩
    · exact ⟨r, List.mem_append_right _ hr, hl⟩

theorem lacksBody_append :
    g.LacksBody (roots ++ roots') ↔ g.LacksBody roots ∨ g.LacksBody roots' := by
  simp only [LacksBody, inReach_append, or_and_right, exists_or]

theorem repeatsNullable_append :
    g.RepeatsNullable (roots ++ roots') ↔ g.RepeatsNullable roots ∨ g.RepeatsNullable roots' := by
  simp only [RepeatsNullable, inReach_append, or_and_right, exists_or]

/-- Calls keep to what is in reach of the roots that they start from. -/
theorem transGen_callsInReach (hcalls : Relation.TransGen (g.CallsInReach roots') p o)
    (hp : g.InReach roots p) :
    Relation.TransGen (g.CallsInReach roots) p o ∧ g.InReach roots o := by
  have hstep : ∀ {q o}, g.InReach roots q → g.CallsInReach roots' q o →
      g.CallsInReach roots q o ∧ g.InReach roots o := by
    intro q o hq hcall
    have ho := hq.operand hcall.2.2.mem_operands hcall.2.1.contains
    exact ⟨⟨hq, ho, hcall.2.2⟩, ho⟩
  induction hcalls with
  | single hcall => exact ⟨.single (hstep hp hcall).1, (hstep hp hcall).2⟩
  | tail _ hcall ih => exact ⟨ih.1.tail (hstep ih.2 hcall).1, (hstep ih.2 hcall).2⟩

theorem recurs_append : g.Recurs (roots ++ roots') ↔ g.Recurs roots ∨ g.Recurs roots' := by
  constructor
  · rintro ⟨p, hcycle⟩
    obtain ⟨o, hcall, -⟩ := Relation.TransGen.head'_iff.1 hcycle
    rcases inReach_append.1 hcall.1 with hp | hp
    · exact Or.inl ⟨p, (transGen_callsInReach hcycle hp).1⟩
    · exact Or.inr ⟨p, (transGen_callsInReach hcycle hp).1⟩
  · rintro (⟨p, hcycle⟩ | ⟨p, hcycle⟩)
    · refine ⟨p, hcycle.lift (fun q => q) fun q o hcall => ?_⟩
      exact ⟨inReach_append.2 (Or.inl hcall.1), inReach_append.2 (Or.inl hcall.2.1), hcall.2.2⟩
    · refine ⟨p, hcycle.lift (fun q => q) fun q o hcall => ?_⟩
      exact ⟨inReach_append.2 (Or.inr hcall.1), inReach_append.2 (Or.inr hcall.2.1), hcall.2.2⟩

/-! ## The decision -/

theorem lacksBody_iff : (∃ id ∈ g.reachable roots, g.isUndefinedRule id) ↔ g.LacksBody roots := by
  have hopen : ∀ id, g.isUndefinedRule id ↔ g.kind? id = some (.rule none) := by
    intro id
    unfold isUndefinedRule
    split
    · next hkind => exact ⟨fun _ => hkind, fun _ => rfl⟩
    · next hkind => exact ⟨fun h => absurd h Bool.false_ne_true, fun h => absurd h hkind⟩
  simp only [hopen, mem_reachable]
  rfl

/-- A node repeats something nullable without bound. -/
def RepeatsAt (g : Graph) (id : ParserId) : Prop :=
  ∃ part min, g.kind? id = some (.repetition part min none) ∧ g.Nullable part

/-- Of a node in reach, validation tells by what the sweeps find whether it is one. -/
theorem repeatsAt_iff (hid : g.InReach roots id) :
    (g.kind? id).any (Kind.repeatsNullable (g.nullableAmong (g.reachable roots)).contains) ↔
      g.RepeatsAt id := by
  -- the operand of a repetition in reach was found just where it is nullable
  have hpart : ∀ {part min}, g.kind? id = some (.repetition part min none) →
      ((g.nullableAmong (g.reachable roots)).contains part ↔ g.Nullable part) := by
    intro part min hkind
    refine contains_nullableAmong_iff hid ?_
    rw [operands_of_kind? hkind]
    exact List.mem_singleton_self part
  constructor
  · intro hrepeats
    obtain ⟨kind, hkind, hkindRepeats⟩ := (Option.any_eq_true _ _).1 hrepeats
    obtain ⟨part, min, rfl, hnull⟩ := Kind.repeatsNullable_iff.1 hkindRepeats
    exact ⟨part, min, hkind, (hpart hkind).1 hnull⟩
  · rintro ⟨part, min, hkind, hnull⟩
    rw [hkind]
    exact (hpart hkind).2 hnull

theorem repeatsNullable_iff : (∃ id ∈ g.reachable roots, (g.kind? id).any
      (Kind.repeatsNullable (g.nullableAmong (g.reachable roots)).contains)) ↔
    g.RepeatsNullable roots := by
  constructor
  · rintro ⟨id, hid, hrepeats⟩
    have hreach : g.InReach roots id := mem_reachable.1 hid
    obtain ⟨part, min, hkind, hnull⟩ := (repeatsAt_iff hreach).1 hrepeats
    exact ⟨id, part, min, hreach, hkind, hnull⟩
  · rintro ⟨id, part, min, hreach, hkind, hnull⟩
    exact ⟨id, mem_reachable.2 hreach, (repeatsAt_iff hreach).2 ⟨part, min, hkind, hnull⟩⟩

open Classical in
/-- The fault that validation finds, told by the three conditions. -/
theorem validate_fault (g : Graph) (roots : List ParserId) :
    (g.validate roots).mapError ValidationError.fault =
      if g.LacksBody roots then .error .undefinedRule
      else if g.RepeatsNullable roots then .error .nullableRepetition
      else if g.Recurs roots then .error .leftRecursion
      else .ok () := by
  rw [validate, validateExcept_fault]
  exact if_congr lacksBody_iff rfl
    (if_congr repeatsNullable_iff rfl (if_congr loops_iff_recurs rfl rfl))

theorem exists_undefinedRule_iff {result : Except ValidationError Unit} :
    (∃ name, result = .error (.undefinedRule name)) ↔
      result.mapError ValidationError.fault = .error .undefinedRule := by
  rcases result with (_ | _ | _) | _ <;> simp [Except.mapError, ValidationError.fault]

theorem exists_nullableRepetition_iff {result : Except ValidationError Unit} :
    (∃ context, result = .error (.nullableRepetition context)) ↔
      result.mapError ValidationError.fault = .error .nullableRepetition := by
  rcases result with (_ | _ | _) | _ <;> simp [Except.mapError, ValidationError.fault]

theorem exists_leftRecursion_iff {result : Except ValidationError Unit} :
    (∃ context, result = .error (.leftRecursion context)) ↔
      result.mapError ValidationError.fault = .error .leftRecursion := by
  rcases result with (_ | _ | _) | _ <;> simp [Except.mapError, ValidationError.fault]

theorem eq_ok_iff_mapError {result : Except ValidationError Unit} :
    result = .ok () ↔ result.mapError ValidationError.fault = .ok () := by
  cases result <;> simp [Except.mapError]

/-- A graph is valid where none of the conditions holds. -/
theorem validate_eq_ok_iff : g.validate roots = .ok () ↔
    ¬ g.LacksBody roots ∧ ¬ g.RepeatsNullable roots ∧ ¬ g.Recurs roots := by
  rw [eq_ok_iff_mapError, validate_fault]
  split_ifs with hbody hrepeats hrecurs <;> simp [*]

/-- **Validation decides its three conditions exactly**, in their order, over what the roots lead
to: a placeholder without a body; something nullable repeated without bound; a cycle of calls made
before anything is taken. What is valid from some roots and from others is valid from both. -/
theorem validate_decides (g : Graph) (roots : List ParserId) :
    ((∃ name, g.validate roots = .error (.undefinedRule name)) ↔ g.LacksBody roots) ∧
    ((∃ context, g.validate roots = .error (.nullableRepetition context)) ↔
      ¬ g.LacksBody roots ∧ g.RepeatsNullable roots) ∧
    ((∃ context, g.validate roots = .error (.leftRecursion context)) ↔
      ¬ g.LacksBody roots ∧ ¬ g.RepeatsNullable roots ∧ g.Recurs roots) ∧
    (g.validate roots = .ok () ↔
      ¬ g.LacksBody roots ∧ ¬ g.RepeatsNullable roots ∧ ¬ g.Recurs roots) ∧
    ∀ roots', g.validate (roots ++ roots') = .ok () ↔
      g.validate roots = .ok () ∧ g.validate roots' = .ok () := by
  refine ⟨?_, ?_, ?_, validate_eq_ok_iff, fun roots' => ?_⟩
  · rw [exists_undefinedRule_iff, validate_fault]
    split_ifs with hbody hrepeats hrecurs <;> simp [*]
  · rw [exists_nullableRepetition_iff, validate_fault]
    split_ifs with hbody hrepeats hrecurs <;> simp [*]
  · rw [exists_leftRecursion_iff, validate_fault]
    split_ifs with hbody hrepeats hrecurs <;> simp [*]
  · -- each condition holds from all roots just where it does from some of them
    rw [validate_eq_ok_iff, validate_eq_ok_iff, validate_eq_ok_iff, lacksBody_append,
      repeatsNullable_append, recurs_append, not_or, not_or, not_or]
    tauto

end Graph

end ParserGraph
