import Mathlib.Data.List.Perm.Subperm
import ParserGraph.Proofs.Graph.Reach
import ParserGraph.Proofs.Run.Finish
import ParserGraph.Proofs.Run.Terminal
import ParserGraph.Validation.Nullable

/-!
# Nullability — no match without a character escapes the sweeps

The sweeps end with a set that no rule of nullability leads out of
(`Graph.mem_nullableAmong`): a sweep that adds nothing is a fixed point, and
there are as many sweeps as nodes. A call that matches without taking
anything follows those rules, kind by kind (`Kind.Yields.isNullable`), so its
parser is in the set (`Graph.nullable_of_finishes`). That a pattern matches
without taking anything only if it is known to be nullable
(`Pattern.KnowsEmpty`) is up to the patterns.
-/

namespace ParserGraph

/-- A kind that is nullable over some operands is so over more of them. -/
theorem Kind.isNullable_mono {kind : Kind} {known known' : ParserId → Bool}
    (hsub : ∀ o ∈ kind.operands, known o → known' o) (h : kind.isNullable known) :
    kind.isNullable known' := by
  cases kind with
  | terminal t => exact h
  | sequence parts =>
    exact List.all_eq_true.2 fun o ho => hsub o ho (List.all_eq_true.1 h o ho)
  | alternation branches =>
    obtain ⟨o, ho, hknown⟩ := List.any_eq_true.1 h
    exact List.any_eq_true.2 ⟨o, ho, hsub o ho hknown⟩
  | repetition part min max =>
    rw [isNullable, Bool.or_eq_true] at h ⊢
    exact h.imp_right (hsub part (List.mem_singleton_self part))
  | optional part => rfl
  | lookahead part negated => rfl
  | transform part mapping => exact hsub part (List.mem_singleton_self part) h
  | token part => exact hsub part (List.mem_singleton_self part) h
  | expect part label => exact hsub part (List.mem_singleton_self part) h
  | rule body =>
    cases body with
    | none => exact h
    | some body => exact hsub body (List.mem_singleton_self body) h

namespace Graph

variable {g : Graph} {ids known : List ParserId} {id : ParserId}

/-! ## The sweeps come to a fixed point -/

/-- A node is noted or nothing changes. -/
theorem noteNullable_cases (g : Graph) (known : List ParserId) (id : ParserId) :
    (g.noteNullable known id = id :: known ∧ id ∉ known) ∨
      (g.noteNullable known id = known ∧
        ((g.kind? id).any (Kind.isNullable known.contains) → id ∈ known)) := by
  unfold noteNullable
  split
  · next hknown => exact Or.inr ⟨rfl, fun _ => by simpa using hknown⟩
  · next hknown =>
    split
    · exact Or.inl ⟨rfl, by simpa using hknown⟩
    · next hnot => exact Or.inr ⟨rfl, fun h => absurd h hnot⟩

/-- A sweep puts what it adds in front of what was known. -/
theorem exists_sweepNullable_eq (g : Graph) (ids known : List ParserId) :
    ∃ added, g.sweepNullable ids known = added ++ known := by
  induction ids generalizing known with
  | nil => exact ⟨[], rfl⟩
  | cons id ids ih =>
    obtain ⟨added, hadded⟩ := ih (g.noteNullable known id)
    have hsweep : g.sweepNullable (id :: ids) known = added ++ g.noteNullable known id := hadded
    rcases g.noteNullable_cases known id with ⟨hnote, -⟩ | ⟨hnote, -⟩
    · exact ⟨added ++ [id], by rw [hsweep, hnote, List.append_assoc]; rfl⟩
    · exact ⟨added, by rw [hsweep, hnote]⟩

/-- A sweep never forgets. -/
theorem length_le_sweepNullable (g : Graph) (ids known : List ParserId) :
    known.length ≤ (g.sweepNullable ids known).length := by
  obtain ⟨added, hadded⟩ := g.exists_sweepNullable_eq ids known
  rw [hadded, List.length_append]
  omega

/-- A sweep that adds nothing has met every node that the rules make nullable. -/
theorem mem_of_sweepNullable_length (h : (g.sweepNullable ids known).length = known.length)
    (hid : id ∈ ids) (hnull : (g.kind? id).any (Kind.isNullable known.contains)) : id ∈ known := by
  induction ids with
  | nil => exact absurd hid List.not_mem_nil
  | cons id' ids ih =>
    have hsame : g.noteNullable known id' = known ∧
        ((g.kind? id').any (Kind.isNullable known.contains) → id' ∈ known) := by
      rcases g.noteNullable_cases known id' with ⟨hnote, -⟩ | hsame
      · have hle := g.length_le_sweepNullable ids (g.noteNullable known id')
        have heq : (g.sweepNullable ids (g.noteNullable known id')).length = known.length := h
        rw [hnote, List.length_cons] at hle
        rw [hnote] at heq
        omega
      · exact hsame
    rcases List.mem_cons.1 hid with rfl | hid
    · exact hsame.2 hnull
    · refine ih ?_ hid
      rw [sweepNullable, List.foldl_cons, hsame.1] at h
      exact h

/-- A sweep lists nodes it was given, each once. -/
theorem sweepNullable_nodup_subset (hnodup : known.Nodup) {all : List ParserId}
    (hsub : known ⊆ all) (hids : ids ⊆ all) :
    (g.sweepNullable ids known).Nodup ∧ g.sweepNullable ids known ⊆ all := by
  induction ids generalizing known with
  | nil => exact ⟨hnodup, hsub⟩
  | cons id ids ih =>
    obtain ⟨hid, hids⟩ := List.cons_subset.1 hids
    rcases g.noteNullable_cases known id with ⟨hnote, hnew⟩ | ⟨hnote, -⟩
    · rw [sweepNullable, List.foldl_cons, hnote]
      exact ih (List.nodup_cons.2 ⟨hnew, hnodup⟩) (List.cons_subset.2 ⟨hid, hsub⟩) hids
    · rw [sweepNullable, List.foldl_cons, hnote]
      exact ih hnodup hsub hids

/-- With a sweep left for each node not found yet, the sweeps end at a fixed point. -/
theorem mem_settleNullable {n : Nat} (hnodup : known.Nodup) (hsub : known ⊆ ids)
    (hn : ids.length ≤ known.length + n) (hid : id ∈ ids)
    (hnull : (g.kind? id).any (Kind.isNullable (g.settleNullable ids n known).contains)) :
    id ∈ g.settleNullable ids n known := by
  induction n generalizing known with
  | zero =>
    -- as many were found as there are, so all of them
    have hperm := (List.subperm_of_subset hnodup hsub).perm_of_length_le hn
    exact hperm.mem_iff.2 hid
  | succ n ih =>
    simp only [settleNullable] at hnull ⊢
    split at hnull
    · next hsame =>
      rw [if_pos hsame]
      exact mem_of_sweepNullable_length hsame hid hnull
    · next hmore =>
      rw [if_neg hmore]
      have hle := g.length_le_sweepNullable ids known
      obtain ⟨hnodup', hsub'⟩ :=
        sweepNullable_nodup_subset (g := g) hnodup hsub (List.Subset.refl ids)
      exact ih hnodup' hsub' (by omega) hnull

/-- **No rule of nullability leads out of what the sweeps find.** -/
theorem mem_nullableAmong {kind : Kind} (hid : id ∈ ids) (hkind : g.kind? id = some kind)
    (hnull : kind.isNullable (g.nullableAmong ids).contains) : id ∈ g.nullableAmong ids := by
  refine mem_settleNullable List.nodup_nil (List.nil_subset _) (Nat.le_add_left _ _) hid ?_
  rw [hkind]
  exact hnull

end Graph

/-! ## Matching without a character -/

/-- A pattern that matches without taking anything only if it is known to be nullable. -/
def Pattern.KnowsEmpty (p : Pattern) : Prop :=
  ∀ behind ahead, p.match? behind ahead = some 0 → p.isNullable

/-- What a kind matches with by itself is honest about matching nothing. -/
def Kind.KnowsEmpty (kind : Kind) : Prop := ∀ p, kind = .terminal (.pattern p) → p.KnowsEmpty

/-- A terminal that takes nothing is nullable. -/
theorem Terminal.isNullable_of_span {t : Terminal} {c : Cursor}
    (hpattern : (Kind.terminal t).KnowsEmpty) (h : t.span c = some 0) : t.isNullable := by
  have htakes := span_eq_some_iff.1 h
  generalize c.behind = behind at htakes
  generalize c.ahead = ahead at htakes
  generalize hzero : 0 = n at htakes
  cases htakes with
  | literal =>
    have hempty := List.eq_nil_of_length_eq_zero hzero.symm
    simpa [isNullable] using hempty
  | pattern hp => exact hpattern _ rfl _ _ (hzero ▸ hp)
  | startOfInput => rfl
  | endOfInput => rfl
  | pass => rfl
  | _ => exact nomatch hzero

section

variable {R : Account} {nullable : ParserId → Bool} (hend : R.EndsAfter)
include hend

theorem InOrder.all_nullable {ids : List ParserId} {c : Cursor} {m : Match (List Tree)}
    (h : InOrder R ids c m) (hR : ∀ q ∈ ids, ∀ c t, R q c (some (t, c)) → nullable q)
    {ts : List Tree} (hm : m = some (ts, c)) : ids.all nullable := by
  induction h generalizing ts with
  | nil => rfl
  | fails _ => exact nomatch hm
  | @cons id ids c mid t m hid hids ih =>
    obtain ⟨ts', rfl, -⟩ := Match.mapResult_eq_some_iff.1 hm
    -- what the others end at lies between the two
    have hmid : mid = c := hend.eq_of_le hid (hids.endsAfter hend _ _ rfl)
    subst hmid
    rw [List.all_cons, Bool.and_eq_true]
    exact ⟨hR id List.mem_cons_self _ _ hid,
      ih (fun q hq => hR q (List.mem_cons_of_mem _ hq)) rfl⟩

omit hend in
theorem FirstOf.any_nullable {ids : List ParserId} {c : Cursor} {m : Match Tree}
    (h : FirstOf R ids c m) (hR : ∀ q ∈ ids, ∀ c t, R q c (some (t, c)) → nullable q)
    {t : Tree} (hm : m = some (t, c)) : ids.any nullable := by
  induction h with
  | nil => exact nomatch hm
  | here hid =>
    cases hm
    rw [List.any_cons, Bool.or_eq_true]
    exact Or.inl (hR _ List.mem_cons_self _ _ hid)
  | later _ _ ih =>
    rw [List.any_cons, Bool.or_eq_true]
    exact Or.inr (ih (fun q hq => hR q (List.mem_cons_of_mem _ hq)) hm)

theorem Rounds.zero_or_nullable {part : ParserId} {min : Nat} {max : Option Nat} {c : Cursor}
    {m : Match (List Tree)} (h : Rounds R part min max c m)
    (hR : ∀ c t, R part c (some (t, c)) → nullable part) {ts : List Tree}
    (hm : m = some (ts, c)) : min = 0 ∨ nullable part := by
  cases h with
  | full =>
    split at hm
    · next hmin => exact Or.inl hmin
    · exact nomatch hm
  | ends _ _ =>
    split at hm
    · next hmin => exact Or.inl hmin
    · exact nomatch hm
  | stalls hpart => exact Or.inr (hR _ _ hpart)
  | @again _ _ _ mid _ _ _ hpart _ hrest =>
    obtain ⟨ts', rfl, -⟩ := Match.mapResult_eq_some_iff.1 hm
    have hmid : mid = c := hend.eq_of_le hpart (hrest.endsAfter hend _ _ rfl)
    subst hmid
    exact Or.inr (hR _ _ hpart)

/-- **A kind that matches without taking anything is nullable**, given that its operands that do
are. -/
theorem Kind.Yields.isNullable {kind : Kind} {c : Cursor} {t : Tree}
    (h : kind.Yields R c (some (t, c)))
    (hR : ∀ q ∈ kind.operands, ∀ c t, R q c (some (t, c)) → nullable q)
    (hpattern : kind.KnowsEmpty) : kind.isNullable nullable := by
  generalize hm : some (t, c) = m at h
  cases h with
  | @terminal terminal =>
    obtain ⟨n, hn, hr⟩ := Option.map_eq_some_iff.1 hm.symm
    have hc : c.advance n = c := (Prod.mk.inj hr).2
    have hlen := congrArg (fun d => d.ahead.length) hc
    have hle := Terminal.span_le hn
    simp only [Cursor.ahead_advance, List.length_drop] at hlen
    have hzero : n = 0 := by omega
    subst hzero
    exact Terminal.isNullable_of_span hpattern hn
  | sequence h =>
    obtain ⟨ts, hts, -⟩ := Match.mapResult_eq_some_iff.1 hm.symm
    exact h.all_nullable hend hR hts
  | alternation h => exact h.any_nullable hR hm.symm
  | repetition h =>
    obtain ⟨ts, hts, -⟩ := Match.mapResult_eq_some_iff.1 hm.symm
    have hnull := h.zero_or_nullable hend (hR _ (List.mem_singleton_self _)) hts
    simpa [Kind.isNullable] using hnull
  | optional _ => rfl
  | lookahead _ => rfl
  | transform h =>
    obtain ⟨t', rfl, -⟩ := Match.mapResult_eq_some_iff.1 hm.symm
    exact hR _ (List.mem_singleton_self _) _ _ h
  | token h =>
    obtain ⟨r, rfl, hr⟩ := Option.map_eq_some_iff.1 hm.symm
    cases hr
    exact hR _ (List.mem_singleton_self _) _ _ h
  | expect h => exact hR _ (List.mem_singleton_self _) _ _ (hm ▸ h)
  | rule h => exact hR _ (List.mem_singleton_self _) _ _ (hm ▸ h)
  | undefined => exact nomatch hm

end

namespace Graph

variable {g : Graph} {ids : List ParserId} {among : ParserId → Prop}

/-- **A parser that matches without taking anything is among the nullable ones**, if it is among
nodes that were looked at and have their operands among them. -/
theorem nullable_of_finishes {room : Nat} {id : ParserId} {c : Cursor} {t : Tree}
    (hids : ∀ q, among q → q ∈ ids)
    (hclosed : ∀ q, among q → ∀ o ∈ g.operands q, g.contains o → among o)
    (hpattern : ∀ q, among q → ∀ kind, g.kind? q = some kind → kind.KnowsEmpty) (hid : among id)
    (h : (g.parse room).finishes id c (some (t, c))) : id ∈ g.nullableAmong ids := by
  induction room generalizing id c t with
  | zero => exact absurd h not_parse_zero_finishes
  | succ room ih =>
    obtain ⟨node, hnode, m, hyields, hm⟩ := parse_finishes h
    obtain ⟨t', rfl, -⟩ := Match.mapResult_eq_some_iff.1 hm.symm
    have hkind : g.kind? id = some node.kind := by simp [kind?, hnode]
    refine mem_nullableAmong (hids id hid) hkind ?_
    -- the kind is nullable over what the sweeps found, which no rule leads out of
    refine hyields.isNullable (g.parse_endsAfter room) (fun q hq c' t'' hfin => ?_)
      (hpattern id hid _ hkind)
    -- an operand that finished lives, so it is among them too
    have hlive : g.contains q := contains_of_finishes hfin
    have hamong : among q := hclosed id hid q (operands_of_node? hnode ▸ hq) hlive
    exact List.contains_iff_mem.2 (ih hamong hfin)

end Graph

end ParserGraph
