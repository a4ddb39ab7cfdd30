import Mathlib.Data.List.Forall2
import ParserGraph.Proofs.Validation.Owners

/-!
# Padding — nodes that validation passes over

A graph may have nodes around its terminals that another lacks and that
change nothing that validation looks for: they bear no name, lead to such
nodes only and never back, and a terminal is nullable with them where it is
without (`Graph.Padded`). Validation walks, sweeps and searches such a graph in
the order of the other, but for the steps over padding: without these, the
nodes in reach (`Graph.Padded.reachable`), the owners
(`Graph.Padded.ownersAmong`) and the ways of the search
(`Graph.Padded.searchCycles`) correspond. So it comes to the same result, with
the same name in its report (`Graph.Padded.validateExcept_eq`). Graphs that are
alike and whose ids correspond one to one are the case without padding.
-/

namespace ParserGraph

open Relator

variable {B : ParserId → ParserId → Prop} {pad : ParserId → Bool}

/-- Kinds that do the same, but that a terminal may be wrapped in padding that is nullable where
the terminal is. -/
inductive Kind.Padded (pad : ParserId → Bool) (B : ParserId → ParserId → Prop) (g' : Graph) :
    Kind → Kind → Prop
  | alike {kind kind' : Kind} : kind.Alike B kind' → Padded pad B g' kind kind'
  | wrapped {t : Terminal} {both : ParserId} {mapping : Tree → Tree} :
      pad both → (g'.Nullable both ↔ t.isNullable) →
      Padded pad B g' (.terminal t) (.transform both mapping)

/-- The second graph is the first under other ids, with padding around its terminals. -/
structure Graph.Padded (pad : ParserId → Bool) (B : ParserId → ParserId → Prop) (g g' : Graph) :
    Prop where
  /-- Ids that are no padding correspond one to one. -/
  biUnique : BiUnique B
  not_pad : ∀ {p q}, B p q → pad q = false
  /-- Nodes that correspond bear the same name and do the same, but for padding. -/
  nodes : ∀ p q, B p q → ∃ name kind kind', g.node? p = some ⟨name, kind⟩ ∧
    g'.node? q = some ⟨name, kind'⟩ ∧ kind.Padded pad B g' kind'
  /-- Padding leads to padding only, -/
  pad_operands : ∀ {q o}, pad q → o ∈ g'.operands q → pad o
  /-- and never back. -/
  pad_order : ∃ order : ParserId → Nat, ∀ {q o}, pad q → o ∈ g'.operands q → order o < order q
  /-- It bears no name, -/
  pad_name? : ∀ {q}, pad q → g'.name? q = none
  /-- lacks no body -/
  pad_isUndefinedRule : ∀ {q}, pad q → g'.isUndefinedRule q = false
  /-- and repeats nothing nullable without bound. -/
  pad_repeats : ∀ {q part min}, pad q → g'.kind? q = some (.repetition part min none) →
    ¬ g'.Nullable part

/-! ## Lists of corresponding ids -/

section

variable {ids ids' owned owned' : List ParserId} {p q : ParserId}

/-- The ids of a list that are no padding. -/
def bare (pad : ParserId → Bool) (ids : List ParserId) : List ParserId := ids.filter (!pad ·)

theorem bare_cons_of_pad (h : pad q) : bare pad (q :: ids) = bare pad ids :=
  List.filter_cons_of_neg (by simp [h])

theorem bare_cons (h : pad q = false) : bare pad (q :: ids) = q :: bare pad ids :=
  List.filter_cons_of_pos (by simp [h])

theorem bare_append : bare pad (ids ++ ids') = bare pad ids ++ bare pad ids' := List.filter_append _ _

theorem bare_of_forall_pad (h : ∀ q ∈ ids, pad q) : bare pad ids = [] :=
  List.filter_eq_nil_iff.2 fun q hq => by simp [h q hq]

/-- What corresponds is no padding. -/
theorem bare_of_forall₂ (hB : ∀ {p q}, B p q → pad q = false) (h : List.Forall₂ B ids ids') :
    List.Forall₂ B ids (bare pad ids') := by
  have hall : bare pad ids' = ids' := List.filter_eq_self.2 fun q hq => by
    obtain ⟨p, -, hpq⟩ := exists_mem_of_forall₂ h.flip hq
    simp [hB hpq]
  rwa [hall]

/-- What the first of some ids corresponds to comes first but for padding. -/
theorem exists_cons_of_bare (h : List.Forall₂ B ids (bare pad (q :: ids'))) (hq : pad q = false) :
    ∃ p rest, ids = p :: rest ∧ B p q ∧ List.Forall₂ B rest (bare pad ids') := by
  rw [bare_cons hq] at h
  cases h with
  | cons hpq hrest => exact ⟨_, _, rfl, hpq, hrest⟩

/-- An id is listed where its counterpart is. -/
theorem contains_forall₂ (hB : BiUnique B) (hpad : ∀ {p q}, B p q → pad q = false)
    (h : List.Forall₂ B ids (bare pad ids')) (hpq : B p q) : ids.contains p = ids'.contains q := by
  rw [Bool.eq_iff_iff, List.contains_iff_mem, List.contains_iff_mem]
  refine (List.rel_mem hB hpq h).trans ?_
  exact List.mem_filter.trans (and_iff_left (by rw [hpad hpq]; rfl))

/-- The first with a property that padding has not is found at the same place. -/
theorem find?_forall₂ {P P' : ParserId → Bool} (hP : ∀ p q, B p q → P p = P' q)
    (hpad : ∀ q, pad q → P' q = false) (h : List.Forall₂ B ids (bare pad ids')) :
    Option.Rel B (ids.find? P) (ids'.find? P') := by
  induction ids' generalizing ids with
  | nil =>
    cases h
    exact .none
  | cons q ids' ih =>
    by_cases hq : pad q
    · rw [bare_cons_of_pad hq] at h
      rw [List.find?_cons_of_neg (by simp [hpad q hq])]
      exact ih h
    · obtain ⟨p, rest, rfl, hpq, hrest⟩ := exists_cons_of_bare h (Bool.not_eq_true _ ▸ hq)
      rw [List.find?_cons, List.find?_cons, hP p q hpq]
      cases P' q with
      | true => exact .some hpq
      | false => exact ih hrest

theorem unowned_forall₂ (hB : BiUnique B) (hpad : ∀ {p q}, B p q → pad q = false)
    {rest rest' : List ParserId} (hids : List.Forall₂ B ids (bare pad ids'))
    (howned : List.Forall₂ B owned (bare pad owned'))
    (h : List.Forall₂ B rest (bare pad rest')) :
    List.Forall₂ B (Graph.unowned ids owned rest)
      (bare pad (Graph.unowned ids' owned' rest')) := by
  induction rest' generalizing rest owned owned' with
  | nil =>
    cases h
    exact .nil
  | cons q rest' ih =>
    by_cases hq : pad q
    · rw [bare_cons_of_pad hq] at h
      rw [Graph.unowned]
      split
      · rw [bare_cons_of_pad hq]
        exact ih ((bare_cons_of_pad hq).symm ▸ howned) h
      · exact ih howned h
    · rw [Bool.not_eq_true] at hq
      obtain ⟨p, rest, rfl, hpq, hrest⟩ := exists_cons_of_bare h hq
      rw [Graph.unowned, Graph.unowned, contains_forall₂ hB hpad hids hpq,
        contains_forall₂ hB hpad howned hpq]
      split
      · rw [bare_cons hq]
        exact .cons hpq (ih (bare_cons hq ▸ .cons hpq howned) hrest)
      · exact ih howned hrest

end

/-! ## Owners -/

/-- Corresponding nodes with the same name for an owner. -/
def OwnedAlike (B : ParserId → ParserId → Prop) (o o' : ParserId × String) : Prop :=
  B o.1 o'.1 ∧ o.2 = o'.2

section

variable {owners owners' : Owners} {p q : ParserId}

/-- Owners of nodes that are no padding. -/
def bareOwners (pad : ParserId → Bool) (owners : Owners) : Owners := owners.filter (!pad ·.1)

theorem bareOwners_append :
    bareOwners pad (owners ++ owners') = bareOwners pad owners ++ bareOwners pad owners' :=
  List.filter_append _ _

/-- Nodes with one name for an owner, but for padding. -/
theorem bareOwners_map (ids : List ParserId) (name : String) :
    bareOwners pad (ids.map (·, name)) = (bare pad ids).map (·, name) := by
  rw [bareOwners, List.filter_map]
  rfl

theorem forall₂_fst (h : List.Forall₂ (OwnedAlike B) owners (bareOwners pad owners')) :
    List.Forall₂ B (owners.map Prod.fst) (bare pad (owners'.map Prod.fst)) := by
  have hmap : bare pad (owners'.map Prod.fst) = (bareOwners pad owners').map Prod.fst := by
    rw [bare, List.filter_map]
    rfl
  rw [hmap]
  exact List.rel_map (fun _ _ ho => ho.1) h

/-- Counterparts have the same owner. -/
theorem lookup_forall₂ (hB : BiUnique B)
    (h : List.Forall₂ (OwnedAlike B) owners (bareOwners pad owners')) (hpq : B p q)
    (hq : pad q = false) : owners.lookup p = owners'.lookup q := by
  induction owners' generalizing owners with
  | nil =>
    cases h
    rfl
  | cons o' owners' ih =>
    obtain ⟨s, name'⟩ := o'
    by_cases hs : pad s
    · -- the owner of padding is passed over
      rw [bareOwners, List.filter_cons_of_neg (by simp [hs])] at h
      have hne : (q == s) = false := by
        rw [beq_eq_false_iff_ne]
        rintro rfl
        simp [hq] at hs
      rw [List.lookup_cons, hne]
      exact ih h
    · rw [bareOwners, List.filter_cons_of_pos (by simp [hs])] at h
      cases h with
      | @cons o _ owners _ ho hrest =>
        obtain ⟨r, name⟩ := o
        obtain ⟨hrs, rfl⟩ := ho
        have hsame : (p == r) = (q == s) := by
          rw [Bool.eq_iff_iff, beq_iff_eq, beq_iff_eq]
          exact rel_eq hB hpq hrs
        rw [List.lookup_cons, List.lookup_cons, hsame, ih hrest]

end

/-- What is told of the first node with a fault, or else of the rest, is the same where it is so for
counterparts. -/
theorem tell_of_rel {α : Type} {found found' : Option ParserId} {told told' : ParserId → α}
    {rest rest' : α} (htold : ∀ p q, found = some p → B p q → told p = told' q)
    (hrest : rest = rest') :
    Option.Rel B found found' →
      (match found with
        | some p => told p
        | none => rest) =
      match found' with
        | some q => told' q
        | none => rest' := by
  rintro (hpq | _)
  · exact htold _ _ rfl hpq
  · exact hrest

/-! ## Ways -/

/-- Corresponding nodes on the way of a search, with corresponding calls to follow but for
padding. -/
def FramesAlike (pad : ParserId → Bool) (B : ParserId → ParserId → Prop) (f f' : Frame) : Prop :=
  B f.id f'.id ∧ List.Forall₂ B f.calls (bare pad f'.calls)

/-- A way of corresponding nodes with padding on top, where each node has a lower number than what
calls it. -/
inductive WaysAlike (pad : ParserId → Bool) (B : ParserId → ParserId → Prop)
    (order : ParserId → Nat) : List Frame → List Frame → Prop
  | bare {way way' : List Frame} :
      List.Forall₂ (FramesAlike pad B) way way' → WaysAlike pad B order way way'
  | pad {f : Frame} {way way' : List Frame} :
      pad f.id → (∀ o ∈ f.calls, pad o ∧ order o < order f.id) →
      (∀ f' ∈ way', pad f'.id → order f.id < order f'.id) →
      WaysAlike pad B order way way' → WaysAlike pad B order way (f :: way')

/-- Searches that run into corresponding nodes, or meet corresponding ones. -/
inductive EndsAlike (pad : ParserId → Bool) (B : ParserId → ParserId → Prop) :
    Except ParserId (List ParserId) → Except ParserId (List ParserId) → Prop
  | error {p q : ParserId} : B p q → EndsAlike pad B (.error p) (.error q)
  | ok {met met' : List ParserId} :
      List.Forall₂ B met (ParserGraph.bare pad met') → EndsAlike pad B (.ok met) (.ok met')

section

variable {order : ParserId → Nat} {p q : ParserId} {f : Frame} {way way' : List Frame}

/-- A node is on a way where its counterpart is. -/
theorem WaysAlike.any_id_eq (hB : BiUnique B) (hpad : ∀ {p q}, B p q → pad q = false)
    (h : WaysAlike pad B order way way') (hpq : B p q) :
    way.any (·.id = p) = way'.any (·.id = q) := by
  induction h with
  | bare h =>
    induction h with
    | nil => rfl
    | @cons f f' way way' hf _ ih =>
      have hsame : f.id = p ↔ f'.id = q := rel_eq hB hf.1 hpq
      rw [List.any_cons, List.any_cons, ih]
      simp only [hsame]
  | @pad f way way' hf _ _ _ ih =>
    have hne : f.id ≠ q := fun heq => by simp [heq, hpad hpq] at hf
    rw [List.any_cons, ih, decide_eq_false hne, Bool.false_or]

/-- What padding on top calls has a lower number than any padding on the way. -/
theorem WaysAlike.lt_of_pad (h : WaysAlike pad B order way (f :: way'))
    (hpad : ∀ {p q}, B p q → pad q = false) {next : ParserId} (hnext : next ∈ f.calls)
    {f' : Frame} (hf' : f' ∈ f :: way') (hpadded : pad f'.id) : order next < order f'.id := by
  cases h with
  | bare h =>
    -- what corresponds to something is no padding
    obtain ⟨_, -, hff'⟩ := exists_mem_of_forall₂ h.flip hf'
    exact absurd (hpad hff'.1) (by simp [hpadded])
  | pad _ hcalls hbelow _ =>
    rcases List.mem_cons.1 hf' with rfl | hf'
    · exact (hcalls next hnext).2
    · exact Nat.lt_trans (hcalls next hnext).2 (hbelow f' hf' hpadded)

/-- What calls something that is no padding corresponds to what calls its counterpart. -/
theorem WaysAlike.exists_frame {next : ParserId} {calls : List ParserId}
    (h : WaysAlike pad B order way (⟨q, next :: calls⟩ :: way')) (hnext : pad next = false) :
    ∃ p o rest below, way = ⟨p, o :: rest⟩ :: below ∧ B p q ∧ B o next ∧
      List.Forall₂ B rest (ParserGraph.bare pad calls) ∧
      List.Forall₂ (FramesAlike pad B) below way' := by
  cases h with
  | bare h =>
    cases h with
    | @cons f _ below _ hf hbelow =>
      obtain ⟨p, called⟩ := f
      obtain ⟨hpq, hcalled⟩ := hf
      obtain ⟨o, rest, rfl, ho, hrest⟩ := exists_cons_of_bare hcalled hnext
      exact ⟨p, o, rest, below, rfl, hpq, ho, hrest, hbelow⟩
  | pad _ hcalls _ _ => exact absurd (hcalls next List.mem_cons_self).1 (by simp [hnext])

/-- A call of padding can be left out. -/
theorem WaysAlike.drop {next : ParserId} {calls : List ParserId}
    (h : WaysAlike pad B order way (⟨q, next :: calls⟩ :: way')) (hnext : pad next) :
    WaysAlike pad B order way (⟨q, calls⟩ :: way') := by
  cases h with
  | bare h =>
    cases h with
    | cons hf hbelow =>
      refine .bare (.cons ⟨hf.1, ?_⟩ hbelow)
      rw [← bare_cons_of_pad hnext]
      exact hf.2
  | pad hq hcalls hbelow h =>
    exact .pad hq (fun o ho => hcalls o (List.mem_cons_of_mem _ ho)) hbelow h

end

namespace Graph

variable {g g' : Graph} {p q : ParserId} {ids ids' : List ParserId}

theorem mem_operands_of_mem_leadingCalls {nullable : List ParserId} {o : ParserId}
    (h : o ∈ g.leadingCalls nullable p) : o ∈ g.operands p := by
  unfold leadingCalls at h
  cases hkind : g.kind? p with
  | none =>
    rw [hkind] at h
    exact absurd h List.not_mem_nil
  | some kind =>
    rw [hkind] at h
    exact operands_of_kind? hkind ▸ (Kind.mem_leading_iff.1 h).mem_operands

/-! ## The walk -/

/-- A node that lives is visited unless it was met before. -/
theorem reachFrom_cons {node : Node} (hnode : g.node? p = some node)
    (pending visited : List ParserId) :
    g.reachFrom (p :: pending) visited =
      if visited.contains p then g.reachFrom pending visited
      else g.reachFrom (node.kind.operands ++ pending) (p :: visited) := by
  rw [reachFrom]
  split
  · next hnone => cases hnone.symm.trans hnode
  · next node' hsome =>
    cases hsome.symm.trans hnode
    rfl

namespace Padded

variable (h : g.Padded pad B g')
include h

theorem kinds (hpq : B p q) : ∃ kind kind', g.kind? p = some kind ∧ g'.kind? q = some kind' ∧
    kind.Padded pad B g' kind' := by
  obtain ⟨name, kind, kind', hp, hq, hkind⟩ := h.nodes p q hpq
  exact ⟨kind, kind', by rw [kind?, hp]; rfl, by rw [kind?, hq]; rfl, hkind⟩

theorem operands (hpq : B p q) : List.Forall₂ B (g.operands p) (bare pad (g'.operands q)) := by
  obtain ⟨kind, kind', hp, hq, hkind⟩ := h.kinds hpq
  rw [operands_of_kind? hp, operands_of_kind? hq]
  cases hkind with
  | alike hkind => exact bare_of_forall₂ h.not_pad hkind.operands
  | wrapped hboth _ =>
    have hnone : ∀ o ∈ [_], pad o := List.forall_mem_singleton.2 hboth
    exact bare_of_forall_pad hnone ▸ .nil

theorem name?_eq (hpq : B p q) : g.name? p = g'.name? q := by
  obtain ⟨name, kind, kind', hp, hq, -⟩ := h.nodes p q hpq
  rw [name?, name?, hp, hq]
  rfl

theorem contains_eq (hids : List.Forall₂ B ids (bare pad ids')) (hpq : B p q) :
    ids.contains p = ids'.contains q :=
  contains_forall₂ h.biUnique h.not_pad hids hpq

theorem reachFrom {pending pending' visited visited' : List ParserId}
    (hpending : List.Forall₂ B pending (bare pad pending'))
    (hvisited : List.Forall₂ B visited (bare pad visited')) :
    List.Forall₂ B (g.reachFrom pending visited) (bare pad (g'.reachFrom pending' visited')) := by
  fun_induction Graph.reachFrom g' pending' visited' generalizing pending visited with
  | case1 visited' =>
    cases hpending
    rw [Graph.reachFrom]
    exact hvisited
  | case2 visited' q pending' hnone ih =>
    by_cases hq : pad q
    · rw [bare_cons_of_pad hq] at hpending
      exact ih hpending hvisited
    · -- what corresponds to something lives
      obtain ⟨p, rest, rfl, hpq, -⟩ := exists_cons_of_bare hpending (Bool.not_eq_true _ ▸ hq)
      obtain ⟨name, kind, kind', -, hq', -⟩ := h.nodes _ _ hpq
      cases hnone.symm.trans hq'
  | case3 visited' q pending' node hnode hmet ih =>
    by_cases hq : pad q
    · rw [bare_cons_of_pad hq] at hpending
      exact ih hpending hvisited
    · obtain ⟨p, rest, rfl, hpq, hrest⟩ := exists_cons_of_bare hpending (Bool.not_eq_true _ ▸ hq)
      obtain ⟨name, kind, kind', hp, -, -⟩ := h.nodes _ _ hpq
      rw [reachFrom_cons hp, h.contains_eq hvisited hpq, if_pos hmet]
      exact ih hrest hvisited
  | case4 visited' q pending' node hnode hnew ih =>
    have hops := operands_of_node? hnode
    by_cases hq : pad q
    · -- padding brings in padding only
      rw [bare_cons_of_pad hq] at hpending
      have hnone : bare pad node.kind.operands = [] :=
        bare_of_forall_pad fun o ho => h.pad_operands hq (hops ▸ ho)
      exact ih (by rwa [bare_append, hnone]) (by rwa [bare_cons_of_pad hq])
    · rw [Bool.not_eq_true] at hq
      obtain ⟨p, rest, rfl, hpq, hrest⟩ := exists_cons_of_bare hpending hq
      obtain ⟨name, kind, kind', hp, -, -⟩ := h.nodes _ _ hpq
      rw [reachFrom_cons hp, h.contains_eq hvisited hpq, if_neg hnew, ← operands_of_node? hp]
      refine ih ?_ ?_
      · rw [bare_append, ← hops]
        exact List.rel_append (h.operands hpq) hrest
      · rw [bare_cons hq]
        exact .cons hpq hvisited

/-- **Walks from corresponding roots come by corresponding nodes in the same order**, but for
padding. -/
theorem reachable {roots roots' : List ParserId} (hroots : List.Forall₂ B roots roots') :
    List.Forall₂ B (g.reachable roots) (bare pad (g'.reachable roots')) := by
  have hvisited : List.Forall₂ B [] (bare pad []) := .nil
  have hwalk := h.reachFrom (bare_of_forall₂ h.not_pad hroots) hvisited
  rw [Graph.reachable, Graph.reachable, bare, List.filter_reverse]
  exact List.rel_reverse hwalk

/-! ## What is nullable -/

open Classical in
/-- **Counterparts are nullable or not together.** -/
theorem nullable_iff (hpq : B p q) : g.Nullable p ↔ g'.Nullable q := by
  have hdecide : ∀ (g : Graph) o, decide (g.Nullable o) = true → g.Nullable o :=
    fun _ _ ho => of_decide_eq_true ho
  constructor
  · intro hp
    -- over the derivation: what is nullable in the one has nullable counterparts
    refine hp.least (S := fun p => ∀ q, B p q → g'.Nullable q) (fun p known hknown hnull q hpq => ?_)
      q hpq
    obtain ⟨kind, kind', hkind, hkind', hpadded⟩ := h.kinds hpq
    rw [hkind, Option.any_some] at hnull
    cases hpadded with
    | alike halike =>
      refine .of_kind hkind' (hdecide g') (halike.isNullable (fun o o' hoo' ho => ?_) hnull)
      exact decide_eq_true (hknown o (List.contains_iff_mem.1 ho) o' hoo')
    | wrapped _ hboth => exact .transform hkind' (hboth.2 hnull)
  · intro hq
    refine (hq.least (S := fun q => g'.Nullable q ∧ ∀ p, B p q → g.Nullable p)
      (fun q known hknown hnull => ⟨?_, fun p hpq => ?_⟩)).2 p hpq
    · obtain ⟨kind', hkind', hnull⟩ := (Option.any_eq_true _ _).1 hnull
      exact .of_kind hkind' (fun o ho => (hknown o (List.contains_iff_mem.1 ho)).1) hnull
    · obtain ⟨kind, kind', hkind, hkind', hpadded⟩ := h.kinds hpq
      rw [hkind', Option.any_some] at hnull
      cases hpadded with
      | alike halike =>
        refine .of_kind hkind (hdecide g) (halike.symm.isNullable (fun o' o hoo' ho' => ?_) hnull)
        exact decide_eq_true ((hknown o' (List.contains_iff_mem.1 ho')).2 o hoo')
      | wrapped _ hboth => exact .terminal hkind (hboth.1 (hknown _ (List.contains_iff_mem.1 hnull)).1)

/-- **Sweeps find what corresponds.** -/
theorem contains_nullableAmong_eq {roots roots' : List ParserId}
    (hroots : List.Forall₂ B roots roots') (hpq : B p q) :
    (g.nullableAmong (g.reachable roots)).contains p =
      (g'.nullableAmong (g'.reachable roots')).contains q := by
  have hfound : ∀ (g : Graph) roots p, p ∈ g.nullableAmong (g.reachable roots) ↔
      (g.reachable roots).contains p ∧ g.Nullable p := fun g roots p => by
    rw [← mem_nullable, mem_nullable_iff, List.contains_iff_mem, mem_reachable]
    rfl
  rw [Bool.eq_iff_iff, List.contains_iff_mem, List.contains_iff_mem, hfound, hfound,
    h.contains_eq (h.reachable hroots) hpq, h.nullable_iff hpq]

/-! ## Owners are handed down -/

theorem namedAmong (hids : List.Forall₂ B ids (bare pad ids')) :
    List.Forall₂ (OwnedAlike B) (g.namedAmong ids) (bareOwners pad (g'.namedAmong ids')) := by
  -- what has a name is no padding
  have hbare : bareOwners pad (g'.namedAmong ids') = g'.namedAmong (bare pad ids') := by
    rw [bareOwners, Graph.namedAmong, Graph.namedAmong, List.filter_filterMap, bare,
      List.filterMap_filter]
    refine List.filterMap_congr fun q _ => ?_
    by_cases hq : pad q
    · simp [hq, h.pad_name? hq]
    · cases hname : g'.name? q <;> simp [hq, Option.filter]
  rw [hbare]
  refine List.rel_filterMap (fun p q hpq => ?_) hids
  rw [h.name?_eq hpq]
  cases g'.name? q with
  | none => exact .none
  | some name => exact .some ⟨hpq, rfl⟩

theorem spreadOwners (hids : List.Forall₂ B ids (bare pad ids')) {n n' : Nat}
    {queue queue' owners owners' : Owners}
    (hqueue : List.Forall₂ (OwnedAlike B) queue (bareOwners pad queue'))
    (howners : List.Forall₂ (OwnedAlike B) owners (bareOwners pad owners'))
    (hn : Enough ids n queue owners) (hn' : Enough ids' n' queue' owners') :
    List.Forall₂ (OwnedAlike B) (g.spreadOwners ids n queue owners)
      (bareOwners pad (g'.spreadOwners ids' n' queue' owners')) := by
  induction n' generalizing n queue queue' owners owners' with
  | zero =>
    cases queue' with
    | nil =>
      cases hqueue
      rwa [spreadOwners_nil, spreadOwners_nil]
    | cons o' queue' => exact absurd (Nat.le_of_add_right_le hn') (Nat.not_succ_le_zero _)
  | succ n' ih =>
    cases queue' with
    | nil =>
      cases hqueue
      rwa [spreadOwners_nil, spreadOwners_nil]
    | cons o' queue' =>
      obtain ⟨q, name⟩ := o'
      rw [Graph.spreadOwners]
      have hfound := hn'.step (g'.operands q) name
      by_cases hq : pad q
      · -- padding hands its name to padding only
        have hnone : bareOwners pad ((unowned ids' (owners'.map Prod.fst) (g'.operands q)).map
            (·, name)) = [] := by
          rw [bareOwners_map, bare_of_forall_pad fun o ho => ?_]
          · rfl
          · exact h.pad_operands hq ((mem_unowned_iff.1 ho).1)
        rw [bareOwners, List.filter_cons_of_neg (by simp [hq])] at hqueue
        refine ih ?_ ?_ hn hfound
        · rwa [bareOwners_append, hnone, List.append_nil]
        · rwa [bareOwners_append, hnone, List.append_nil]
      · rw [bareOwners, List.filter_cons_of_pos (by simp [hq])] at hqueue
        cases hqueue with
        | @cons o _ queue _ ho hqueue =>
          obtain ⟨p, name'⟩ := o
          obtain ⟨hpq, rfl⟩ := ho
          have hnew : List.Forall₂ (OwnedAlike B)
              ((unowned ids (owners.map Prod.fst) (g.operands p)).map (·, name'))
              (bareOwners pad
                ((unowned ids' (owners'.map Prod.fst) (g'.operands q)).map (·, name'))) := by
            rw [bareOwners_map]
            exact List.rel_map (fun _ _ hrs => ⟨hrs, rfl⟩)
              (unowned_forall₂ h.biUnique h.not_pad hids (forall₂_fst howners) (h.operands hpq))
          cases n with
          | zero => exact absurd (Nat.le_of_add_right_le hn) (Nat.not_succ_le_zero _)
          | succ n =>
            rw [Graph.spreadOwners]
            refine ih ?_ ?_ (hn.step (g.operands p) name') hfound
            · rw [bareOwners_append]
              exact List.rel_append hqueue hnew
            · rw [bareOwners_append]
              exact List.rel_append howners hnew

/-- **Names are handed down to corresponding nodes in the same order**, but for padding. -/
theorem ownersAmong (hids : List.Forall₂ B ids (bare pad ids')) :
    List.Forall₂ (OwnedAlike B) (g.ownersAmong ids) (bareOwners pad (g'.ownersAmong ids')) :=
  h.spreadOwners hids (h.namedAmong hids) (h.namedAmong hids) (enough_namedAmong g ids)
    (enough_namedAmong g' ids')

/-- Counterparts that have operands are reported under the same name. -/
theorem context_eq {owners owners' : Owners}
    (howners : List.Forall₂ (OwnedAlike B) owners (bareOwners pad owners')) (hpq : B p q)
    (hp : g.operands p ≠ []) : g.context owners p = g'.context owners' q := by
  obtain ⟨name, kind, kind', hnode, hnode', hkind⟩ := h.nodes p q hpq
  rw [operands_of_node? hnode] at hp
  rw [context, context, lookup_forall₂ h.biUnique howners hpq (h.not_pad hpq), describe, describe,
    hnode, hnode']
  cases hkind with
  | alike hkind => exact congrArg (Option.getD _) (Node.describe_of_alike hkind)
  | wrapped _ _ => exact absurd rfl hp

/-! ## The search -/

section

variable {nullable nullable' met met' : List ParserId}

/-- Padding calls padding with a lower number. -/
theorem pad_calls {order : ParserId → Nat}
    (horder : ∀ {q o}, pad q → o ∈ g'.operands q → order o < order q) (nullable' : List ParserId)
    (hq : pad q) : ∀ o ∈ (g'.frame nullable' q).calls, pad o ∧ order o < order q := by
  intro o ho
  have hcall : o ∈ g'.operands q := mem_operands_of_mem_leadingCalls (List.mem_reverse.1 ho)
  exact ⟨h.pad_operands hq hcall, horder hq hcall⟩

variable
  (hnullable : ∀ p q, B p q → nullable.contains p = nullable'.contains q)
include hnullable

theorem frame (hpq : B p q) :
    FramesAlike pad B (g.frame nullable p) (g'.frame nullable' q) := by
  obtain ⟨kind, kind', hp, hq, hkind⟩ := h.kinds hpq
  refine ⟨hpq, ?_⟩
  rw [Graph.frame, Graph.frame, leadingCalls, leadingCalls, hp, hq]
  cases hkind with
  | alike hkind =>
    exact bare_of_forall₂ h.not_pad (List.rel_reverse (hkind.leading hnullable))
  | wrapped hboth _ =>
    have hnone : ∀ o ∈ [_], pad o := List.forall_mem_singleton.2 hboth
    exact (bare_of_forall_pad hnone).symm ▸ .nil

theorem searchCycle {order : ParserId → Nat}
    (horder : ∀ {q o}, pad q → o ∈ g'.operands q → order o < order q)
    (hids : List.Forall₂ B ids (bare pad ids')) (hmet : List.Forall₂ B met (bare pad met'))
    {way way' : List Frame} (hway : WaysAlike pad B order way way') :
    EndsAlike pad B (g.searchCycle ids nullable met way)
      (g'.searchCycle ids' nullable' met' way') := by
  fun_induction Graph.searchCycle g' ids' nullable' met' way' generalizing met way with
  | case1 met' =>
    cases hway with
    | bare hway =>
      cases hway
      rw [Graph.searchCycle]
      exact .ok hmet
  | case2 met' q way' ih =>
    cases hway with
    | bare hway =>
      cases hway with
      | @cons f _ way _ hf hway =>
        obtain ⟨p, calls⟩ := f
        obtain ⟨-, hcalls⟩ := hf
        cases hcalls
        rw [Graph.searchCycle]
        exact ih hmet (.bare hway)
    | pad _ _ _ hway => exact ih hmet hway
  | case3 met' q next' calls' way' hcycle =>
    -- padding does not call back what is on the way
    have hnext : pad next' = false := by
      obtain ⟨f, hf, hid⟩ := List.any_eq_true.1 hcycle
      have hdown := hway.lt_of_pad h.not_pad List.mem_cons_self hf
      rw [of_decide_eq_true hid] at hdown
      exact Bool.eq_false_of_not_eq_true fun hpad => Nat.lt_irrefl _ (hdown hpad)
    obtain ⟨p, o, calls, below, rfl, -, ho, -, -⟩ := hway.exists_frame hnext
    rw [← hway.any_id_eq h.biUnique h.not_pad ho] at hcycle
    rw [Graph.searchCycle, if_pos hcycle]
    exact .error ho
  | case4 met' q next' calls' way' hcycle hnew ih =>
    by_cases hnext : pad next'
    · refine ih (by rwa [bare_cons_of_pad hnext])
        (.pad hnext (h.pad_calls horder nullable' hnext) (fun f hf hpad => ?_) (hway.drop hnext))
      rcases List.mem_cons.1 hf with rfl | hf
      · have htop : (⟨q, next' :: calls'⟩ : Frame) ∈ _ :: way' := List.mem_cons_self
        have hdown := hway.lt_of_pad h.not_pad List.mem_cons_self htop
        exact hdown hpad
      · exact hway.lt_of_pad h.not_pad List.mem_cons_self (List.mem_cons_of_mem _ hf) hpad
    · rw [Bool.not_eq_true] at hnext
      obtain ⟨p, o, calls, below, rfl, hpq, ho, hcalls, hbelow⟩ := hway.exists_frame hnext
      rw [← hway.any_id_eq h.biUnique h.not_pad ho] at hcycle
      rw [← h.contains_eq hids ho, ← h.contains_eq hmet ho] at hnew
      rw [Graph.searchCycle, if_neg hcycle, dif_pos hnew]
      refine ih ?_ (.bare (.cons (h.frame hnullable ho) (.cons ⟨hpq, hcalls⟩ hbelow)))
      rw [bare_cons hnext]
      exact .cons ho hmet
  | case5 met' q next' calls' way' hcycle hold ih =>
    by_cases hnext : pad next'
    · exact ih hmet (hway.drop hnext)
    · obtain ⟨p, o, calls, below, rfl, hpq, ho, hcalls, hbelow⟩ :=
        hway.exists_frame (Bool.eq_false_of_not_eq_true hnext)
      rw [← hway.any_id_eq h.biUnique h.not_pad ho] at hcycle
      rw [← h.contains_eq hids ho, ← h.contains_eq hmet ho] at hold
      rw [Graph.searchCycle, if_neg hcycle, dif_neg hold]
      exact ih hmet (.bare (.cons ⟨hpq, hcalls⟩ hbelow))

/-- **Searches run into corresponding nodes, or into none.** -/
theorem searchCycles (hids : List.Forall₂ B ids (bare pad ids')) {roots roots' : List ParserId}
    (hmet : List.Forall₂ B met (bare pad met')) (hroots : List.Forall₂ B roots (bare pad roots')) :
    EndsAlike pad B (g.searchCycles ids nullable met roots)
      (g'.searchCycles ids' nullable' met' roots') := by
  obtain ⟨order, horder⟩ := h.pad_order
  induction roots' generalizing met met' roots with
  | nil =>
    cases hroots
    exact .ok hmet
  | cons r' roots' ih =>
    by_cases hr' : pad r'
    · rw [bare_cons_of_pad hr'] at hroots
      rw [Graph.searchCycles]
      split
      · exact ih hmet hroots
      · -- a search from padding comes to padding only
        have hmet' : List.Forall₂ B met (bare pad (r' :: met')) := by rwa [bare_cons_of_pad hr']
        have hsearch := h.searchCycle hnullable horder hids hmet'
          (.pad (f := g'.frame nullable' r') hr' (h.pad_calls horder nullable' hr')
            (fun _ hf => absurd hf List.not_mem_nil) (.bare .nil))
        rw [Graph.searchCycle] at hsearch
        revert hsearch
        generalize g'.searchCycle ids' nullable' (r' :: met') [g'.frame nullable' r'] = found'
        rintro (_ | hmet)
        exact ih hmet hroots
    · rw [Bool.not_eq_true] at hr'
      obtain ⟨r, roots, rfl, hr, hroots⟩ := exists_cons_of_bare hroots hr'
      have hmet' : List.Forall₂ B (r :: met) (bare pad (r' :: met')) := by
        rw [bare_cons hr']
        exact .cons hr hmet
      have hsearch := h.searchCycle hnullable horder hids hmet'
        (.bare (.cons (h.frame hnullable hr) .nil))
      rw [Graph.searchCycles, Graph.searchCycles, h.contains_eq hmet hr]
      split
      · exact ih hmet hroots
      · revert hsearch
        generalize g.searchCycle ids nullable (r :: met) [g.frame nullable r] = found
        generalize g'.searchCycle ids' nullable' (r' :: met') [g'.frame nullable' r'] = found'
        rintro (hpq | hmet)
        · exact .error hpq
        · exact ih hmet hroots

end

/-! ## The result -/

/-- What corresponds lacks a body alike. -/
theorem isUndefinedRule_eq (hpq : B p q) : g.isUndefinedRule p = g'.isUndefinedRule q := by
  obtain ⟨kind, kind', hp, hq, hkind⟩ := h.kinds hpq
  rw [isUndefinedRule, isUndefinedRule, hp, hq]
  cases hkind with
  | alike hkind => cases hkind <;> rfl
  | wrapped _ _ => rfl

/-- **Validation comes to the same, report and all**, from corresponding roots, where corresponding
placeholders may lack a body. -/
theorem validateExcept_eq {pending pending' roots roots' : List ParserId}
    (hpending : List.Forall₂ B pending pending') (hroots : List.Forall₂ B roots roots') :
    g.validateExcept pending roots = g'.validateExcept pending' roots' := by
  have hids := h.reachable hroots
  have howners := h.ownersAmong hids
  have hnullable : ∀ p q, B p q → _ := fun _ _ => h.contains_nullableAmong_eq hroots
  have hundefined : ∀ p q, B p q → (g.isUndefinedRule p && !pending.contains p) =
      (g'.isUndefinedRule q && !pending'.contains q) := by
    intro p q hpq
    rw [h.isUndefinedRule_eq hpq, h.contains_eq (bare_of_forall₂ h.not_pad hpending) hpq]
  have hrepeats : ∀ p q, B p q →
      (g.kind? p).any (Kind.repeatsNullable (g.nullableAmong (g.reachable roots)).contains) =
        (g'.kind? q).any
          (Kind.repeatsNullable (g'.nullableAmong (g'.reachable roots')).contains) := by
    intro p q hpq
    obtain ⟨kind, kind', hp, hq, hkind⟩ := h.kinds hpq
    rw [hp, hq]
    cases hkind with
    | alike hkind => exact hkind.repeatsNullable hnullable
    | wrapped _ _ => rfl
  have hpadding : ∀ q, pad q → (g'.kind? q).any
      (Kind.repeatsNullable (g'.nullableAmong (g'.reachable roots')).contains) = false := by
    intro q hq
    refine Bool.eq_false_of_not_eq_true fun hany => ?_
    obtain ⟨kind, hkind, hrepeats⟩ := (Option.any_eq_true _ _).1 hany
    obtain ⟨part, min, rfl, hpart⟩ := Kind.repeatsNullable_iff.1 hrepeats
    exact h.pad_repeats hq hkind (.of_mem_nullableAmong (List.contains_iff_mem.1 hpart))
  unfold validateExcept
  refine tell_of_rel (fun p q _ hpq => ?_) ?_ (find?_forall₂ hundefined (fun q hq => ?_) hids)
  · rw [h.name?_eq hpq]
  · refine tell_of_rel (fun p q hp hpq => ?_) ?_ (find?_forall₂ hrepeats hpadding hids)
    · -- what repeats something has an operand
      have hany := List.find?_some (p := fun id => (g.kind? id).any
        (Kind.repeatsNullable (g.nullableAmong (g.reachable roots)).contains)) hp
      obtain ⟨kind, hkind, hrepeats⟩ := (Option.any_eq_true _ _).1 hany
      obtain ⟨part, min, rfl, -⟩ := Kind.repeatsNullable_iff.1 hrepeats
      rw [h.context_eq howners hpq (by rw [operands_of_kind? hkind]; exact List.cons_ne_nil _ _)]
    · have hmet : List.Forall₂ B [] (bare pad []) := .nil
      have hsearch := h.searchCycles hnullable hids hmet hids
      cases hfound : g.searchCycles (g.reachable roots) (g.nullableAmong (g.reachable roots)) []
          (g.reachable roots) with
      | error p =>
        -- and so has what calls something
        obtain ⟨o, ⟨-, -, ho⟩, -⟩ :=
          Relation.TransGen.head'_iff.1 (recurs_of_searchCycles hfound (List.Subset.refl _))
        rw [hfound] at hsearch
        revert hsearch
        generalize g'.searchCycles _ _ _ _ = found'
        rintro (hpq | _)
        dsimp only
        rw [h.context_eq howners hpq (List.ne_nil_of_mem (mem_operands_of_mem_leadingCalls ho))]
      | ok met =>
        rw [hfound] at hsearch
        revert hsearch
        generalize g'.searchCycles _ _ _ _ = found'
        rintro (_ | _)
        rfl
  · rw [h.pad_isUndefinedRule hq, Bool.false_and]

end Padded

/-! ## Graphs without padding -/

section

variable (h : g.Alike B g') (hB : BiUnique B)
include h hB

/-- Graphs that are alike, and whose ids correspond one to one, need no padding. -/
theorem Alike.padded : g.Padded (fun _ => false) B g' where
  biUnique := hB
  not_pad _ := rfl
  nodes p q hpq := by
    obtain ⟨name, kind, kind', hp, hq, hkind⟩ := h p q hpq
    exact ⟨name, kind, kind', hp, hq, .alike hkind⟩
  pad_operands := nofun
  pad_order := ⟨fun _ => 0, nofun⟩
  pad_name? := nofun
  pad_isUndefinedRule := nofun
  pad_repeats := nofun

theorem Alike.validateExcept_eq_of_biUnique {pending pending' roots roots' : List ParserId}
    (hpending : List.Forall₂ B pending pending') (hroots : List.Forall₂ B roots roots') :
    g.validateExcept pending roots = g'.validateExcept pending' roots' :=
  (h.padded hB).validateExcept_eq hpending hroots

/-- **Nullable sets correspond.** -/
theorem Alike.exists_mem_nullable {roots roots' : List ParserId}
    (hroots : List.Forall₂ B roots roots') :
    (∀ p ∈ g.nullable roots, ∃ q ∈ g'.nullable roots', B p q) ∧
      ∀ q ∈ g'.nullable roots', ∃ p ∈ g.nullable roots, B p q := by
  have hids := (h.padded hB).reachable hroots
  have hall : bare (fun _ => false) (g'.reachable roots') = g'.reachable roots' :=
    List.filter_eq_self.2 fun _ _ => rfl
  rw [hall] at hids
  simp only [mem_nullable_iff]
  constructor
  · rintro p ⟨hp, hnull⟩
    obtain ⟨q, hq, hpq⟩ := exists_mem_of_forall₂ hids (mem_reachable.2 hp)
    exact ⟨q, ⟨mem_reachable.1 hq, ((h.padded hB).nullable_iff hpq).1 hnull⟩, hpq⟩
  · rintro q ⟨hq, hnull⟩
    obtain ⟨p, hp, hpq⟩ := exists_mem_of_forall₂ hids.flip (mem_reachable.2 hq)
    exact ⟨p, ⟨mem_reachable.1 hp, ((h.padded hB).nullable_iff hpq).2 hnull⟩, hpq⟩

end

end Graph

end ParserGraph
