import ParserGraph.Proofs.Validation.Decision

/-!
# Owners — whose name a report tells

Names are handed down breadth first, from all nodes that have one, to operands
that have none (`Graph.PassesOn`). A node gets the name of one that they are
handed down from, and none just where there is no such node
(`Graph.owned_or_described`). So a report of left recursion tells a name that
is handed down to the node that the search came to, which lies on a cycle of
calls (`Graph.validate_leftRecursion`). Its bearer need not: names come from
outside of the cycle too, unless nothing outside leads to an unnamed node on
it (`Graph.EntersByName`).
-/

namespace ParserGraph

/-! ## Handing down names takes no more steps than there are nodes -/

theorem unvisited_congr {ids visited visited' : List ParserId}
    (h : ∀ x, x ∈ visited ↔ x ∈ visited') : unvisited ids visited = unvisited ids visited' :=
  Nat.le_antisymm (unvisited_le fun x hx => (h x).2 hx) (unvisited_le fun x hx => (h x).1 hx)

/-- Nodes that are given an owner are no longer without one. -/
theorem unowned_length_add (ids owned rest : List ParserId) :
    (Graph.unowned ids owned rest).length +
      unvisited ids (owned ++ Graph.unowned ids owned rest) ≤ unvisited ids owned := by
  induction rest generalizing owned with
  | nil =>
    rw [Graph.unowned, List.append_nil]
    exact Nat.le_of_eq (Nat.zero_add _)
  | cons id rest ih =>
    rw [Graph.unowned]
    split
    · next hnew =>
      rw [Bool.and_eq_true, Bool.not_eq_true', List.contains_iff_mem] at hnew
      have hless := unvisited_cons_lt hnew.1 hnew.2
      have hrest := ih (id :: owned)
      have hsame : unvisited ids (owned ++ id :: Graph.unowned ids (id :: owned) rest) =
          unvisited ids (id :: owned ++ Graph.unowned ids (id :: owned) rest) :=
        unvisited_congr fun x => by simp [or_left_comm]
      rw [List.length_cons, hsame]
      omega
    · exact ih owned

/-- The steps that are left for handing down names are enough. -/
def Enough (ids : List ParserId) (n : Nat) (queue owners : Owners) : Prop :=
  queue.length + unvisited ids (owners.map Prod.fst) ≤ n

/-- Each step leaves enough steps. -/
theorem Enough.step {ids : List ParserId} {n : Nat} {o : ParserId × String} {queue owners : Owners}
    (h : Enough ids (n + 1) (o :: queue) owners) (operands : List ParserId) (name : String) :
    Enough ids n
      (queue ++ (Graph.unowned ids (owners.map Prod.fst) operands).map (·, name))
      (owners ++ (Graph.unowned ids (owners.map Prod.fst) operands).map (·, name)) := by
  have hfound := unowned_length_add ids (owners.map Prod.fst) operands
  have hids : ∀ found : List ParserId, (found.map fun id => (id, name)).map Prod.fst = found :=
    fun found => by rw [List.map_map]; exact List.map_id _
  unfold Enough at h ⊢
  rw [List.length_cons] at h
  rw [List.length_append, List.length_map, List.map_append, hids]
  omega

namespace Graph

variable {g : Graph} {p o id : ParserId} {name : String} {ids roots : List ParserId}
  {queue owners : Owners}

/-- Found are the operands among the nodes that have no owner yet. -/
theorem mem_unowned_iff {owned rest : List ParserId} :
    o ∈ unowned ids owned rest ↔ o ∈ rest ∧ o ∈ ids ∧ o ∉ owned := by
  induction rest generalizing owned with
  | nil => exact ⟨fun h => absurd h List.not_mem_nil, fun h => absurd h.1 List.not_mem_nil⟩
  | cons id rest ih =>
    rw [unowned]
    split
    · next hnew =>
      rw [Bool.and_eq_true, Bool.not_eq_true', List.contains_iff_mem, ← Bool.not_eq_true,
        List.contains_iff_mem] at hnew
      rw [List.mem_cons, List.mem_cons, ih, List.mem_cons]
      grind
    · next hold =>
      rw [Bool.and_eq_true, Bool.not_eq_true', List.contains_iff_mem, ← Bool.not_eq_true,
        List.contains_iff_mem] at hold
      rw [List.mem_cons, ih]
      grind

theorem spreadOwners_nil (n : Nat) (owners : Owners) : g.spreadOwners ids n [] owners = owners := by
  cases n <;> rfl

/-- Each node is queued at most once, so that one step for each is enough. -/
theorem enough_namedAmong (g : Graph) (ids : List ParserId) :
    Enough ids ids.length (g.namedAmong ids) (g.namedAmong ids) := by
  have hlength : (g.namedAmong ids).length = ids.countP fun id => (g.name? id).isSome := by
    rw [namedAmong, List.length_filterMap_eq_countP]
    exact List.countP_congr fun id _ => by simp
  -- a node that has a name is among those that have an owner from the start
  have hunvisited : unvisited ids ((g.namedAmong ids).map Prod.fst) ≤
      ids.countP fun id => ¬ (g.name? id).isSome := by
    refine List.countP_mono_left fun id hid hout => ?_
    rw [Bool.not_eq_true', ← Bool.not_eq_true, List.contains_iff_mem] at hout
    rw [decide_eq_true_eq, Bool.not_eq_true, Option.isSome_eq_false_iff, Option.isNone_iff_eq_none]
    refine Option.eq_none_iff_forall_ne_some.2 fun name hname => hout ?_
    exact List.mem_map.2 ⟨(id, name), List.mem_filterMap.2 ⟨id, hid, by rw [hname]; rfl⟩, rfl⟩
  have hall := List.length_eq_countP_add_countP (fun id => (g.name? id).isSome) (l := ids)
  unfold Enough
  omega

/-! ## Which names arrive where -/

/-- A name is handed down from a node to an operand without a name. -/
def PassesOn (g : Graph) (ids : List ParserId) (p o : ParserId) : Prop :=
  p ∈ ids ∧ o ∈ ids ∧ o ∈ g.operands p ∧ g.name? o = none

/-- A name is handed down to a node from one that bears it. -/
def Owned (g : Graph) (ids : List ParserId) (id : ParserId) (name : String) : Prop :=
  ∃ m ∈ ids, g.name? m = some name ∧ Relation.ReflTransGen (g.PassesOn ids) m id

theorem Owned.mem (h : g.Owned ids id name) : id ∈ ids := by
  obtain ⟨m, hm, -, hpath⟩ := h
  rcases Relation.ReflTransGen.cases_tail hpath with rfl | ⟨p, -, hlast⟩
  · exact hm
  · exact hlast.2.1

/-- What holds while names are handed down. -/
structure Owning (g : Graph) (ids : List ParserId) (queue owners : Owners) : Prop where
  /-- The names are handed down to the nodes that they are noted for. -/
  owned : ∀ id name, (id, name) ∈ owners → g.Owned ids id name
  /-- What is queued has an owner. -/
  queued : ∀ x ∈ queue, x ∈ owners
  /-- So has every node with a name. -/
  named : ∀ id ∈ ids, g.name? id ≠ none → id ∈ owners.map Prod.fst
  /-- A node with an owner is queued, or its operands have owners too. -/
  passed : ∀ p ∈ owners.map Prod.fst, p ∈ queue.map Prod.fst ∨
    ∀ o ∈ g.operands p, o ∈ ids → o ∈ owners.map Prod.fst

/-- At first just the nodes with names have owners, and all of them are queued. -/
theorem owning_namedAmong (g : Graph) (ids : List ParserId) :
    g.Owning ids (g.namedAmong ids) (g.namedAmong ids) where
  owned := by
    intro id name hmem
    obtain ⟨id', hid, hname⟩ := List.mem_filterMap.1 hmem
    obtain ⟨name', hname, heq⟩ := Option.map_eq_some_iff.1 hname
    cases heq
    exact ⟨id, hid, hname, .refl⟩
  queued _ hx := hx
  named := by
    intro id hid hname
    obtain ⟨name, hname⟩ := Option.ne_none_iff_exists'.1 hname
    exact List.mem_map.2 ⟨(id, name), List.mem_filterMap.2 ⟨id, hid, by rw [hname]; rfl⟩, rfl⟩
  passed _ hp := .inl hp

/-- The first in the queue hands its name down to those of its operands that have no owner yet, which
are queued then. -/
theorem Owning.step (h : g.Owning ids ((id, name) :: queue) owners) :
    g.Owning ids
      (queue ++ (unowned ids (owners.map Prod.fst) (g.operands id)).map (·, name))
      (owners ++ (unowned ids (owners.map Prod.fst) (g.operands id)).map (·, name)) := by
  have hkeys : ∀ o, o ∈ (owners ++ (unowned ids (owners.map Prod.fst) (g.operands id)).map
        (·, name)).map Prod.fst ↔
      o ∈ owners.map Prod.fst ∨ o ∈ unowned ids (owners.map Prod.fst) (g.operands id) := by
    intro o
    rw [List.map_append, List.map_map, List.mem_append]
    exact or_congr_right (by simp)
  refine ⟨fun o name' ho => ?_, fun x hx => ?_, fun o ho hname => ?_, fun p hp => ?_⟩
  · rcases List.mem_append.1 ho with ho | ho
    · exact h.owned o name' ho
    · obtain ⟨o', ho', heq⟩ := List.mem_map.1 ho
      cases heq
      obtain ⟨hoperand, hid, hnew⟩ := mem_unowned_iff.1 ho'
      -- what had no owner has no name
      have hname : g.name? o = none := Classical.byContradiction fun hne =>
        hnew (h.named o hid hne)
      have howned := h.owned id name (h.queued _ List.mem_cons_self)
      have hmem := howned.mem
      obtain ⟨m, hm, hbears, hpath⟩ := howned
      exact ⟨m, hm, hbears, hpath.tail ⟨hmem, hid, hoperand, hname⟩⟩
  · rcases List.mem_append.1 hx with hx | hx
    · exact List.mem_append_left _ (h.queued x (List.mem_cons_of_mem _ hx))
    · exact List.mem_append_right _ hx
  · exact (hkeys o).2 (.inl (h.named o ho hname))
  · rcases (hkeys p).1 hp with hp | hp
    · rcases h.passed p hp with hp | hp
      · rcases List.mem_cons.1 hp with rfl | hp
        · -- the first in the queue has handed its name down
          refine .inr fun o ho hid => (hkeys o).2 ?_
          by_cases hold : o ∈ owners.map Prod.fst
          · exact .inl hold
          · exact .inr (mem_unowned_iff.2 ⟨ho, hid, hold⟩)
        · exact .inl (by rw [List.map_append]; exact List.mem_append_left _ hp)
      · exact .inr fun o ho hid => (hkeys o).2 (.inl (hp o ho hid))
    · refine .inl ?_
      rw [List.map_append, List.map_map]
      exact List.mem_append_right _ (by simpa using hp)

/-- With steps enough, nothing is left in the queue. -/
theorem Owning.spreadOwners {n : Nat} (hn : Enough ids n queue owners)
    (h : g.Owning ids queue owners) : g.Owning ids [] (g.spreadOwners ids n queue owners) := by
  induction n generalizing queue owners with
  | zero =>
    obtain rfl : queue = [] := List.eq_nil_of_length_eq_zero (by unfold Enough at hn; omega)
    exact h
  | succ n ih =>
    cases queue with
    | nil => exact h
    | cons x queue => exact ih (hn.step _ _) h.step

theorem owning_ownersAmong (g : Graph) (ids : List ParserId) :
    g.Owning ids [] (g.ownersAmong ids) :=
  (owning_namedAmong g ids).spreadOwners (enough_namedAmong g ids)

/-- With nothing left in the queue, whatever a name is handed down to has an owner. -/
theorem Owning.mem_of_owned (h : g.Owning ids [] owners) (howned : g.Owned ids id name) :
    id ∈ owners.map Prod.fst := by
  obtain ⟨m, hm, hbears, hpath⟩ := howned
  induction hpath with
  | refl => exact h.named m hm (by rw [hbears]; exact Option.some_ne_none _)
  | @tail p o _ hpasses ih =>
    have hp := (h.passed p ih).resolve_left List.not_mem_nil
    exact hp o hpasses.2.2.1 hpasses.2.1

/-- **A node is told by a name that is handed down to it**, and by what it is only if there is
none. -/
theorem owned_or_described (g : Graph) (ids : List ParserId) (id : ParserId) :
    g.Owned ids id (g.context (g.ownersAmong ids) id) ∨
      g.context (g.ownersAmong ids) id = g.describe id ∧ ∀ name, ¬ g.Owned ids id name := by
  have howning := owning_ownersAmong g ids
  unfold context
  cases hlookup : (g.ownersAmong ids).lookup id with
  | some name =>
    obtain ⟨front, back, hmem, -⟩ := List.lookup_eq_some_iff.1 hlookup
    exact .inl (howning.owned id name (hmem ▸ List.mem_append_right _ List.mem_cons_self))
  | none =>
    refine .inr ⟨rfl, fun name howned => ?_⟩
    obtain ⟨x, hx, rfl⟩ := List.mem_map.1 (howning.mem_of_owned howned)
    exact absurd (List.lookup_eq_none_iff.1 hlookup x hx) (by simp)

/-! ## What is told of left recursion -/

/-- The search comes to a node on a cycle of calls. -/
theorem onCycle_of_searchCycles (h : g.searchCycles (g.reachable roots)
    (g.nullableAmong (g.reachable roots)) [] (g.reachable roots) = .error id) :
    g.OnCycle roots id := by
  refine (recurs_of_searchCycles h (List.Subset.refl _)).lift (fun p => p) fun p o hcall => ?_
  have hp : g.InReach roots p := mem_reachable.1 hcall.1
  exact ⟨hp, mem_reachable.1 hcall.2.1, (mem_leadingCalls_iff hp).1 hcall.2.2⟩

/-- **A report of left recursion tells of a node on a cycle**, by its owner. -/
theorem validate_leftRecursion {context : String}
    (h : g.validate roots = .error (.leftRecursion context)) :
    ∃ id, g.OnCycle roots id ∧ context = g.context (g.ownersAmong (g.reachable roots)) id := by
  unfold validate validateExcept at h
  dsimp only at h
  split at h
  · cases h
  · split at h
    · cases h
    · split at h
      · next id hsearch =>
        cases h
        exact ⟨id, onCycle_of_searchCycles hsearch, rfl⟩
      · cases h

/-- A name that leads to a node by calls, or one after it, is handed down to it. -/
theorem exists_owned {n : ParserId} (hn : g.InReach roots n) (hname : g.name? n ≠ none)
    (hcalls : Relation.ReflTransGen (g.CallsInReach roots) n id) :
    ∃ name, g.Owned (g.reachable roots) id name := by
  have hbears : ∀ {p}, g.InReach roots p → g.name? p ≠ none →
      ∃ name, g.Owned (g.reachable roots) p name := by
    intro p hp hname
    obtain ⟨name, hname⟩ := Option.ne_none_iff_exists'.1 hname
    exact ⟨name, p, mem_reachable.2 hp, hname, .refl⟩
  induction hcalls with
  | refl => exact hbears hn hname
  | @tail p o _ hcall ih =>
    by_cases ho : g.name? o = none
    · obtain ⟨name, m, hm, hmname, hpath⟩ := ih
      exact ⟨name, m, hm, hmname, hpath.tail ⟨mem_reachable.2 hcall.1,
        mem_reachable.2 hcall.2.1, hcall.2.2.mem_operands, ho⟩⟩
    · exact hbears hcall.2.1 ho

/-- Cycles of calls are entered at nodes with names only: what has an unnamed node on a cycle for an
operand is on a cycle itself. -/
def EntersByName (g : Graph) (roots : List ParserId) : Prop :=
  ∀ p o, g.InReach roots p → o ∈ g.operands p → g.name? o = none → g.OnCycle roots o →
    g.OnCycle roots p

/-- Where cycles are entered so, a name that is handed down to a cycle comes from a cycle. -/
theorem EntersByName.onCycle {m : ParserId} (h : g.EntersByName roots)
    (hpath : Relation.ReflTransGen (g.PassesOn (g.reachable roots)) m id)
    (hid : g.OnCycle roots id) : g.OnCycle roots m := by
  induction hpath using Relation.ReflTransGen.head_induction_on with
  | refl => exact hid
  | head hpasses _ ih =>
    exact h _ _ (mem_reachable.1 hpasses.1) hpasses.2.2.1 hpasses.2.2.2 ih

end Graph

end ParserGraph
