import ParserGraph.Proofs.Run.Finish
import ParserGraph.Validation.Leading

/-!
# Leading calls — the search for cycles leaves an order behind

A search that closes no cycle is done with a node only after it is done with
all its leading calls. The nodes in the order they are done with are settled
(`Graph.Settled`), and settled nodes can be numbered such that every leading
call goes down (`Graph.Settled.exists_order`). A call that a run makes where it stands is a
leading call (`Kind.Calls.mem_leading`), so such calls cannot go on for
longer than there are numbers.
-/

namespace ParserGraph

/-! ## Calls made before anything is taken -/

section

variable {R : Account} {nullable : ParserId → Bool} (hend : R.EndsAfter)
include hend

/-- Calls one after another are made at a place after the first one. -/
theorem CallsInOrder.le {ids : List ParserId} {c c' : Cursor} {q : ParserId}
    (h : CallsInOrder R ids c q c') : c ≤ c' := by
  induction h with
  | here => exact Cursor.le_refl _
  | later hid _ ih => exact Cursor.le_trans (hend.le hid) ih

theorem CallsRounds.le {part : ParserId} {max : Option Nat} {c c' : Cursor}
    (h : CallsRounds R part max c c') : c ≤ c' := by
  induction h with
  | here _ => exact Cursor.le_refl _
  | later _ hpart _ _ ih => exact Cursor.le_trans (hend.le hpart) ih

/-- A node calls its operands at places after its own. -/
theorem Kind.Calls.le {kind : Kind} {c c' : Cursor} {q : ParserId}
    (h : kind.Calls R c q c') : c ≤ c' := by
  cases h with
  | sequence h => exact h.le hend
  | repetition h => exact h.le hend
  | _ => exact Cursor.le_refl _

theorem CallsInOrder.mem_leadingParts {ids : List ParserId} {c c' : Cursor} {q : ParserId}
    (h : CallsInOrder R ids c q c') (hc : c' = c)
    (hR : ∀ q ∈ ids, ∀ c t, R q c (some (t, c)) → nullable q) :
    q ∈ leadingParts nullable ids := by
  induction h with
  | @here id ids c =>
    rw [leadingParts]
    split
    · exact List.mem_cons_self
    · exact List.mem_singleton_self id
  | @later id q ids c mid c' t hid hreach ih =>
    have hmid : mid = c := hend.eq_of_le hid (hc ▸ hreach.le hend)
    subst hmid
    have hnull : nullable id := hR id List.mem_cons_self _ _ hid
    rw [leadingParts, if_pos hnull]
    exact List.mem_cons_of_mem _ (ih hc fun q hq => hR q (List.mem_cons_of_mem _ hq))

/-- **A call that a node makes where it stands is a leading call.** -/
theorem Kind.Calls.mem_leading {kind : Kind} {c c' : Cursor} {q : ParserId}
    (h : kind.Calls R c q c') (hc : c' = c)
    (hR : ∀ q ∈ kind.operands, ∀ c t, R q c (some (t, c)) → nullable q) :
    q ∈ kind.leading nullable := by
  cases h with
  | sequence h => exact h.mem_leadingParts hend hc hR
  | alternation h => exact h.mem
  | _ => exact List.mem_singleton_self _

end

namespace Graph

/-! ## Settled nodes -/

section

variable {calls : ParserId → ParserId → Prop}

/-- Nodes done with, the last in front, each after everything it calls. -/
inductive Settled (calls : ParserId → ParserId → Prop) : List ParserId → Prop
  | nil : Settled calls []
  | cons {id : ParserId} {done : List ParserId} :
      id ∉ done → (∀ o, calls id o → o ∈ done) → Settled calls done → Settled calls (id :: done)

/-- Settled nodes call settled nodes only. -/
theorem Settled.mem {done : List ParserId} (h : Settled calls done) {id o : ParserId}
    (hid : id ∈ done) (ho : calls id o) : o ∈ done := by
  induction h with
  | nil => exact absurd hid List.not_mem_nil
  | cons _ hcalls _ ih =>
    rcases List.mem_cons.1 hid with rfl | hid
    · exact List.mem_cons_of_mem _ (hcalls o ho)
    · exact List.mem_cons_of_mem _ (ih hid)

/-- **Settled nodes can be numbered so that every call goes down.** -/
theorem Settled.exists_order {done : List ParserId} (h : Settled calls done) :
    ∃ order : ParserId → Nat, (∀ id ∈ done, order id < done.length) ∧
      ∀ id ∈ done, ∀ o, calls id o → order o < order id := by
  induction h with
  | nil => exact ⟨fun _ => 0, fun _ h => absurd h List.not_mem_nil,
      fun _ h => absurd h List.not_mem_nil⟩
  | @cons id done hnew hcalls hsettled ih =>
    obtain ⟨order, hlt, hdown⟩ := ih
    have hne : ∀ o ∈ done, o ≠ id := fun o ho he => hnew (he ▸ ho)
    -- the new node gets the next number
    refine ⟨fun o => if o = id then done.length else order o, fun o ho => ?_, fun q hq o ho => ?_⟩
    · dsimp only
      rw [List.length_cons]
      split
      · exact Nat.lt_succ_self _
      · next ho' => exact Nat.lt_succ_of_lt (hlt o ((List.mem_cons.1 ho).resolve_left ho'))
    · dsimp only
      rcases List.mem_cons.1 hq with rfl | hq
      · have hmem := hcalls o ho
        rw [if_pos rfl, if_neg (hne o hmem)]
        exact hlt o hmem
      · rw [if_neg (hne q hq), if_neg (hne o (hsettled.mem hq ho))]
        exact hdown q hq o ho

end

/-! ## The search -/

variable {g : Graph} {ids nullable : List ParserId}

/-- A call that the search follows: a leading one, to a node that is looked at. -/
def Follows (g : Graph) (ids nullable : List ParserId) (id o : ParserId) : Prop :=
  o ∈ g.leadingCalls nullable id ∧ o ∈ ids

/-- A way of the search: no node on it is done with or comes twice, and what a node calls is done
with, still to follow, or the node that the way goes on to, which is `above`. -/
inductive OnWay (calls : ParserId → ParserId → Prop) (done : List ParserId) :
    Option ParserId → List Frame → Prop
  | nil {above : Option ParserId} : OnWay calls done above []
  | cons {above : Option ParserId} {f : Frame} {way : List Frame} :
      f.id ∉ done → f.id ∉ way.map Frame.id →
      (∀ o, calls f.id o → o ∈ done ∨ o ∈ f.calls ∨ above = some o) →
      OnWay calls done (some f.id) way → OnWay calls done above (f :: way)

/-- When the node above is done with, the way ends below it. -/
theorem OnWay.pop {calls : ParserId → ParserId → Prop} {done : List ParserId} {id : ParserId}
    {way : List Frame} (h : OnWay calls done (some id) way) (hid : id ∉ way.map Frame.id) :
    OnWay calls (id :: done) none way := by
  -- what is done with grows for every node of the way, and the one above counts only for the first
  have hgrow : ∀ {above : Option ParserId} {way : List Frame}, OnWay calls done above way →
      id ∉ way.map Frame.id → OnWay calls (id :: done) above way := by
    intro above way h
    induction h with
    | nil => exact fun _ => .nil
    | @cons above f way hdone hway hcalls _ ih =>
      intro hid
      rw [List.map_cons, List.mem_cons, not_or] at hid
      refine .cons ?_ hway (fun o ho => ?_) (ih hid.2)
      · rw [List.mem_cons, not_or]
        exact ⟨Ne.symm hid.1, hdone⟩
      · exact (hcalls o ho).imp_left (List.mem_cons_of_mem _)
  cases hgrow h hid with
  | nil => exact .nil
  | cons hdone hway hcalls hrest =>
    refine .cons hdone hway (fun o ho => ?_) hrest
    rcases hcalls o ho with hmem | hmem | hmem
    · exact Or.inl hmem
    · exact Or.inr (Or.inl hmem)
    · cases hmem
      exact Or.inl List.mem_cons_self

/-- **A search that closes no cycle settles what it meets.** -/
theorem searchCycle_settled {met met' done : List ParserId} {way : List Frame}
    (h : g.searchCycle ids nullable met way = .ok met')
    (hdone : Settled (g.Follows ids nullable) done)
    (hway : OnWay (g.Follows ids nullable) done none way)
    (hmet : ∀ id, id ∈ met ↔ id ∈ done ∨ id ∈ way.map Frame.id) :
    ∃ done', Settled (g.Follows ids nullable) done' ∧ (∀ id ∈ met, id ∈ met') ∧
      ∀ id, id ∈ met' ↔ id ∈ done' := by
  fun_induction searchCycle g ids nullable met way generalizing done with
  | case1 met =>
    cases h
    exact ⟨done, hdone, fun _ hid => hid, fun id => by simpa using hmet id⟩
  | case2 met id way ih =>
    -- the node has no call left to follow, so it is done with
    cases hway with
    | cons hnew hid hcalls hrest =>
      have hsettled : Settled (g.Follows ids nullable) (id :: done) := by
        refine .cons hnew (fun o ho => ?_) hdone
        rcases hcalls o ho with hmem | hmem | hmem
        · exact hmem
        · exact absurd hmem List.not_mem_nil
        · exact nomatch hmem
      refine ih h hsettled (hrest.pop hid) (fun o => ?_)
      rw [hmet, List.map_cons, List.mem_cons, List.mem_cons, or_left_comm, or_assoc]
  | case3 met id next calls way hcycle => exact nomatch h
  | case4 met id next calls way hcycle hnew ih =>
    -- a call to a node not met yet, which is put on the way
    rw [Bool.and_eq_true, Bool.not_eq_true', List.contains_iff_mem, ← Bool.not_eq_true,
      List.contains_iff_mem, hmet, not_or] at hnew
    obtain ⟨hids, hnotdone, hnotway⟩ := hnew
    cases hway with
    | cons hid hway hcalls hrest =>
      have htop : OnWay (g.Follows ids nullable) done (some next) (⟨id, calls⟩ :: way) := by
        refine .cons hid hway (fun o ho => ?_) hrest
        rcases hcalls o ho with hmem | hmem | hmem
        · exact Or.inl hmem
        · rcases List.mem_cons.1 hmem with rfl | hmem
          · exact Or.inr (Or.inr rfl)
          · exact Or.inr (Or.inl hmem)
        · exact nomatch hmem
      obtain ⟨done', hsettled, hsub, hiff⟩ := ih h hdone
        (.cons hnotdone hnotway (fun o ho => Or.inr (Or.inl (List.mem_reverse.2 ho.1))) htop)
        (fun o => by
          rw [List.mem_cons, hmet, List.map_cons, List.map_cons, List.map_cons, List.mem_cons,
            List.mem_cons, List.mem_cons, frame]
          exact or_left_comm)
      exact ⟨done', hsettled, fun o ho => hsub o (List.mem_cons_of_mem _ ho), hiff⟩
  | case5 met id next calls way hcycle hold ih =>
    -- a call to a node that is not looked at, or was met and is not on the way
    have hnext : next ∈ ids → next ∈ done := by
      intro hids
      rw [Bool.and_eq_true, Bool.not_eq_true', List.contains_iff_mem, ← Bool.not_eq_true,
        List.contains_iff_mem, not_and, Classical.not_not] at hold
      refine ((hmet next).1 (hold hids)).resolve_right fun hway => hcycle ?_
      obtain ⟨f, hf, he⟩ := List.mem_map.1 hway
      exact List.any_eq_true.2 ⟨f, hf, decide_eq_true he⟩
    cases hway with
    | cons hid hway hcalls hrest =>
      refine ih h hdone (.cons hid hway (fun o ho => ?_) hrest) hmet
      rcases hcalls o ho with hmem | hmem | hmem
      · exact Or.inl hmem
      · rcases List.mem_cons.1 hmem with rfl | hmem
        · exact Or.inl (hnext ho.2)
        · exact Or.inr (Or.inl hmem)
      · exact nomatch hmem

/-- Searches from several roots settle them all. -/
theorem searchCycles_settled {met met' done roots : List ParserId}
    (h : g.searchCycles ids nullable met roots = .ok met')
    (hdone : Settled (g.Follows ids nullable) done) (hmet : ∀ id, id ∈ met ↔ id ∈ done) :
    ∃ done', Settled (g.Follows ids nullable) done' ∧
      (∀ id, id ∈ met ∨ id ∈ roots → id ∈ done') := by
  induction roots generalizing met done with
  | nil =>
    refine ⟨done, hdone, fun id hid => (hmet id).1 (hid.resolve_right List.not_mem_nil)⟩
  | cons root roots ih =>
    rw [searchCycles] at h
    split at h
    · next hold =>
      rw [List.contains_iff_mem] at hold
      obtain ⟨done', hsettled, hsub⟩ := ih h hdone hmet
      refine ⟨done', hsettled, fun id hid => ?_⟩
      rcases hid with hid | hid
      · exact hsub id (Or.inl hid)
      · rcases List.mem_cons.1 hid with rfl | hid
        · exact hsub id (Or.inl hold)
        · exact hsub id (Or.inr hid)
    · next hnew =>
      rw [List.contains_iff_mem, hmet] at hnew
      split at h
      · exact nomatch h
      · next met₁ hsearch =>
        have hway : OnWay (g.Follows ids nullable) done none [g.frame nullable root] :=
          .cons hnew List.not_mem_nil
            (fun o ho => Or.inr (Or.inl (List.mem_reverse.2 ho.1))) .nil
        obtain ⟨done₁, hsettled₁, hsub₁, hiff₁⟩ := searchCycle_settled hsearch hdone hway
          (fun id => by rw [List.mem_cons, hmet, List.map_singleton, List.mem_singleton, or_comm,
            frame])
        obtain ⟨done', hsettled, hsub⟩ := ih h hsettled₁ hiff₁
        refine ⟨done', hsettled, fun id hid => ?_⟩
        rcases hid with hid | hid
        · exact hsub id (Or.inl (hsub₁ id (List.mem_cons_of_mem _ hid)))
        · rcases List.mem_cons.1 hid with rfl | hid
          · exact hsub id (Or.inl (hsub₁ id List.mem_cons_self))
          · exact hsub id (Or.inr hid)

/-- **Nodes without a cycle of leading calls can be numbered so that every leading call goes
down.** -/
theorem exists_order_of_searchCycles {met : List ParserId}
    (h : g.searchCycles ids nullable [] ids = .ok met) :
    ∃ order : ParserId → Nat, ∀ id ∈ ids, ∀ o ∈ g.leadingCalls nullable id, o ∈ ids →
      order o < order id := by
  obtain ⟨done, hsettled, hsub⟩ := searchCycles_settled h .nil fun _ => Iff.rfl
  obtain ⟨order, -, hdown⟩ := hsettled.exists_order
  exact ⟨order, fun id hid o ho hoid => hdown id (hsub id (Or.inr hid)) o ⟨ho, hoid⟩⟩

end Graph

end ParserGraph
