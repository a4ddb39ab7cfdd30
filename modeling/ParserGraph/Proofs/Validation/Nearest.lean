import ParserGraph.Proofs.Validation.Owners

/-!
# Nearest names — from how far away an owner comes

Names go out from all nodes that have one at once, and the queue serves first
who came first. So it always holds nodes of two distances at most, the nearer
ones in front (`Graph.Layered`), and the name that comes to a node first comes
from as near as any (`Graph.nearest_of_mem_ownersAmong`). A node has no owner
just where no node with a name leads to it. So a report of an unbounded
repetition tells a nearest name above it, or the repetition itself.
-/

namespace ParserGraph.Graph

/-! ## Distances -/

/-- A node leads to another along so many operands, all of which live. -/
inductive LeadsBy (g : Graph) (p : ParserId) : Nat → ParserId → Prop
  /-- A node that lives leads to itself along none. -/
  | refl : g.contains p → LeadsBy g p 0 p
  /-- What it leads to leads on to each operand that lives, along one more. -/
  | step {n : Nat} {q o : ParserId} :
      LeadsBy g p n q → o ∈ g.operands q → g.contains o → LeadsBy g p (n + 1) o

/-- A node in reach that has a name leads to a node along so many operands. -/
def NamedAbove (g : Graph) (roots : List ParserId) (n : Nat) (id : ParserId) : Prop :=
  ∃ m, g.InReach roots m ∧ g.name? m ≠ none ∧ g.LeadsBy m n id

/-- A name is borne by a node in reach that leads to a node along so many operands, and no node in
reach with a name leads to it along fewer. -/
structure NearestBy (g : Graph) (roots : List ParserId) (n : Nat) (id : ParserId) (name : String) :
    Prop where
  /-- The name is borne at that distance. -/
  borne : ∃ m, g.InReach roots m ∧ g.name? m = some name ∧ g.LeadsBy m n id
  /-- There is no name any nearer. -/
  least : ∀ k, g.NamedAbove roots k id → n ≤ k

/-- The name is that of a node in reach that leads to the node, none with a name being nearer. -/
def Nearest (g : Graph) (roots : List ParserId) (id : ParserId) (name : String) : Prop :=
  ∃ n, g.NearestBy roots n id name

variable {g : Graph} {roots : List ParserId} {p q o m id : ParserId} {name : String} {n d : Nat}
  {now next owners : Owners}

theorem LeadsBy.leads (h : g.LeadsBy p n q) : g.Leads p q := by
  induction h with
  | refl hp => exact .refl hp
  | step _ ho hlive ih => exact ih.step ho hlive

/-- A node leads to another just where it does along some number of operands. -/
theorem leads_iff_exists_leadsBy : g.Leads p q ↔ ∃ n, g.LeadsBy p n q := by
  constructor
  · intro h
    induction h with
    | refl hp => exact ⟨0, .refl hp⟩
    | step _ ho hlive ih =>
      obtain ⟨n, hn⟩ := ih
      exact ⟨n + 1, hn.step ho hlive⟩
  · rintro ⟨n, hn⟩
    exact hn.leads

theorem NamedAbove.inReach (h : g.NamedAbove roots n id) : g.InReach roots id := by
  obtain ⟨m, ⟨root, hroot, hm⟩, -, hleads⟩ := h
  exact ⟨root, hroot, hm.trans hleads.leads⟩

/-- A name further up than the node itself is one above a node that has it for an operand. -/
theorem NamedAbove.exists_above (h : g.NamedAbove roots (n + 1) o) :
    ∃ p, g.NamedAbove roots n p ∧ o ∈ g.operands p := by
  obtain ⟨m, hm, hname, hleads⟩ := h
  cases hleads with
  | step hleads ho _ => exact ⟨_, ⟨m, hm, hname, hleads⟩, ho⟩

theorem NearestBy.namedAbove (h : g.NearestBy roots n id name) : g.NamedAbove roots n id := by
  obtain ⟨m, hm, hname, hleads⟩ := h.borne
  exact ⟨m, hm, by rw [hname]; exact Option.some_ne_none _, hleads⟩

/-- A node that has a name is the nearest to itself. -/
theorem nearestBy_zero (hid : g.InReach roots id) (hname : g.name? id = some name) :
    g.NearestBy roots 0 id name where
  borne := ⟨id, hid, hname, .refl hid.contains⟩
  least k _ := Nat.zero_le k

/-- Nothing else is. -/
theorem NearestBy.name?_eq (h : g.NearestBy roots 0 id name) : g.name? id = some name := by
  obtain ⟨m, -, hname, hleads⟩ := h.borne
  cases hleads
  exact hname

/-! ## The queue goes by distance -/

/-- What holds while names are handed down and those at a distance have their turn: the queue is
`now`, with nodes at that distance, and then `next`, with nodes one further; and every node up to
that distance has an owner. -/
structure Layered (g : Graph) (roots : List ParserId) (d : Nat) (now next owners : Owners) :
    Prop where
  /-- Whoever has an owner has a nearest one. -/
  nearest : ∀ id name, (id, name) ∈ owners → g.Nearest roots id name
  /-- The nodes in front lie at the distance. -/
  here : ∀ id name, (id, name) ∈ now → g.NearestBy roots d id name
  /-- The others lie one further. -/
  beyond : ∀ id name, (id, name) ∈ next → g.NearestBy roots (d + 1) id name
  /-- Whoever lies no further than the distance has an owner. -/
  owned : ∀ k id, k ≤ d → g.NamedAbove roots k id → id ∈ owners.map Prod.fst

/-- At first the nodes with names have their turn. -/
theorem layered_namedAmong (g : Graph) (roots : List ParserId) :
    g.Layered roots 0 (g.namedAmong (g.reachable roots)) [] (g.namedAmong (g.reachable roots)) := by
  have hnamed : ∀ id name, (id, name) ∈ g.namedAmong (g.reachable roots) →
      g.NearestBy roots 0 id name := by
    intro id name hmem
    obtain ⟨id', hid, hname⟩ := List.mem_filterMap.1 hmem
    obtain ⟨name', hname, heq⟩ := Option.map_eq_some_iff.1 hname
    cases heq
    exact nearestBy_zero (mem_reachable.1 hid) hname
  refine ⟨fun id name hmem => ⟨0, hnamed id name hmem⟩, hnamed, fun id name hmem => ?_, ?_⟩
  · exact absurd hmem List.not_mem_nil
  · intro k id hk habove
    obtain rfl : k = 0 := by omega
    obtain ⟨m, hm, hname, hleads⟩ := habove
    cases hleads
    exact (owning_namedAmong g (g.reachable roots)).named id (mem_reachable.2 hm) hname

/-- **One turn**: the operands of the node in front that get its name lie one further than it. -/
theorem Layered.step (h : g.Layered roots d ((id, name) :: now) next owners) :
    g.Layered roots d now
      (next ++ (unowned (g.reachable roots) (owners.map Prod.fst) (g.operands id)).map (·, name))
      (owners ++
        (unowned (g.reachable roots) (owners.map Prod.fst) (g.operands id)).map (·, name)) := by
  have hid : g.NearestBy roots d id name := h.here id name List.mem_cons_self
  have hfound : ∀ o name', (o, name') ∈
      (unowned (g.reachable roots) (owners.map Prod.fst) (g.operands id)).map (·, name) →
      g.NearestBy roots (d + 1) o name' := by
    intro o name' hmem
    obtain ⟨o', ho', heq⟩ := List.mem_map.1 hmem
    cases heq
    obtain ⟨hoperand, hreach, hnew⟩ := mem_unowned_iff.1 ho'
    have hreach : g.InReach roots o := mem_reachable.1 hreach
    have hlive : g.contains o := hreach.contains
    obtain ⟨m, hm, hname, hleads⟩ := hid.borne
    refine ⟨⟨m, hm, hname, hleads.step hoperand hlive⟩, fun k habove => ?_⟩
    -- had a name been any nearer, the operand would have had an owner
    by_contra hless
    exact hnew (h.owned k o (by omega) habove)
  refine ⟨fun o name' hmem => ?_, fun o name' hmem => ?_, fun o name' hmem => ?_,
    fun k o hk habove => ?_⟩
  · rcases List.mem_append.1 hmem with hmem | hmem
    · exact h.nearest o name' hmem
    · exact ⟨d + 1, hfound o name' hmem⟩
  · exact h.here o name' (List.mem_cons_of_mem _ hmem)
  · rcases List.mem_append.1 hmem with hmem | hmem
    · exact h.beyond o name' hmem
    · exact hfound o name' hmem
  · rw [List.map_append]
    exact List.mem_append_left _ (h.owned k o hk habove)

/-- **With no node left at a distance**, the nodes one further have their turn. -/
theorem Layered.turn (h : g.Layered roots d [] next owners)
    (howning : g.Owning (g.reachable roots) next owners) :
    g.Layered roots (d + 1) next [] owners := by
  refine ⟨h.nearest, h.beyond, fun o name' hmem => absurd hmem List.not_mem_nil, ?_⟩
  intro k o hk habove
  by_cases hle : k ≤ d
  · exact h.owned k o hle habove
  · obtain rfl : k = d + 1 := by omega
    obtain ⟨p, hp, ho⟩ := habove.exists_above
    -- the node above has had its turn, since those in the queue lie further away than it
    have hserved : p ∉ next.map Prod.fst := by
      intro hqueued
      obtain ⟨⟨_, name'⟩, hmem, rfl⟩ := List.mem_map.1 hqueued
      have hfar := (h.beyond _ _ hmem).least d hp
      omega
    have hpassed := (howning.passed p (h.owned d p (Nat.le_refl d) hp)).resolve_left hserved
    exact hpassed o ho (mem_reachable.2 habove.inReach)

/-- The first in the queue is one at the distance of some layer. -/
theorem Layered.exists_front {x : ParserId × String} {queue : Owners}
    (h : g.Layered roots d now next owners)
    (howning : g.Owning (g.reachable roots) (now ++ next) owners)
    (hqueue : now ++ next = x :: queue) :
    ∃ d' now' next', queue = now' ++ next' ∧ g.Layered roots d' (x :: now') next' owners := by
  cases now with
  | nil =>
    have hnext : next = x :: queue := hqueue
    subst hnext
    exact ⟨d + 1, queue, [], (List.append_nil queue).symm, h.turn howning⟩
  | cons y now =>
    rw [List.cons_append, List.cons.injEq] at hqueue
    obtain ⟨rfl, rfl⟩ := hqueue
    exact ⟨d, now, next, rfl, h⟩

/-- **Names that are handed down are nearest ones**, however many turns there are. -/
theorem Layered.spreadOwners {queue : Owners} (h : g.Layered roots d now next owners)
    (howning : g.Owning (g.reachable roots) queue owners) (hqueue : queue = now ++ next) :
    ∀ id name, (id, name) ∈ g.spreadOwners (g.reachable roots) n queue owners →
      g.Nearest roots id name := by
  induction n generalizing d now next queue owners with
  | zero => exact h.nearest
  | succ n ih =>
    cases queue with
    | nil => exact h.nearest
    | cons x queue =>
      obtain ⟨d', now', next', rfl, hlayered⟩ := h.exists_front (hqueue ▸ howning) hqueue.symm
      exact ih hlayered.step howning.step (List.append_assoc _ _ _)

/-! ## Owners -/

/-- **Every owner is a nearest one.** -/
theorem nearest_of_mem_ownersAmong (h : (id, name) ∈ g.ownersAmong (g.reachable roots)) :
    g.Nearest roots id name :=
  (layered_namedAmong g roots).spreadOwners (owning_namedAmong g (g.reachable roots))
    (List.append_nil _).symm id name h

theorem nearest_of_lookup (h : (g.ownersAmong (g.reachable roots)).lookup id = some name) :
    g.Nearest roots id name := by
  obtain ⟨front, back, hmem, -⟩ := List.lookup_eq_some_iff.1 h
  refine nearest_of_mem_ownersAmong ?_
  rw [hmem]
  exact List.mem_append_right _ List.mem_cons_self

/-- A node that a node with a name leads to has an owner. -/
theorem exists_lookup (hm : g.InReach roots m) (hname : g.name? m ≠ none) (hleads : g.Leads m id) :
    ∃ name, (g.ownersAmong (g.reachable roots)).lookup id = some name := by
  have howning := owning_ownersAmong g (g.reachable roots)
  have howned : id ∈ (g.ownersAmong (g.reachable roots)).map Prod.fst := by
    induction hleads with
    | refl _ => exact howning.named m (mem_reachable.2 hm) hname
    | @step p o hp ho hlive ih =>
      have hpassed := (howning.passed p ih).resolve_left List.not_mem_nil
      obtain ⟨root, hroot, hrm⟩ := hm
      exact hpassed o ho (mem_reachable.2 ⟨root, hroot, (hrm.trans hp).step ho hlive⟩)
  refine Option.ne_none_iff_exists'.1 fun hnone => ?_
  obtain ⟨x, hx, rfl⟩ := List.mem_map.1 howned
  exact absurd (List.lookup_eq_none_iff.1 hnone x hx) (by simp)

/-- **A report tells a node by a nearest name above it**, or by what it is if there is none. -/
theorem nearest_or_described (g : Graph) (roots : List ParserId) (id : ParserId) :
    g.Nearest roots id (g.context (g.ownersAmong (g.reachable roots)) id) ∨
      g.context (g.ownersAmong (g.reachable roots)) id = g.describe id ∧
        ∀ m, g.InReach roots m → g.Leads m id → g.name? m = none := by
  unfold context
  cases hlookup : (g.ownersAmong (g.reachable roots)).lookup id with
  | some name => exact .inl (nearest_of_lookup hlookup)
  | none =>
    refine .inr ⟨rfl, fun m hm hleads => ?_⟩
    by_contra hname
    obtain ⟨name, hsome⟩ := exists_lookup hm hname hleads
    exact nomatch hlookup.symm.trans hsome

/-- A report of an unbounded repetition is about the first one in the order of the walk. -/
theorem validateExcept_nullableRepetition {pending : List ParserId} {context : String}
    (h : g.validateExcept pending roots = .error (.nullableRepetition context)) :
    ∃ front id back, g.reachable roots = front ++ id :: back ∧ g.RepeatsAt id ∧
      (∀ p ∈ front, ¬ g.RepeatsAt p) ∧
      context = g.context (g.ownersAmong (g.reachable roots)) id := by
  unfold validateExcept at h
  dsimp only at h
  split at h
  · cases h
  · split at h
    · next id hfind =>
      cases h
      obtain ⟨hrepeats, front, back, hsplit, hfront⟩ := List.find?_eq_some_iff_append.1 hfind
      have hreach : ∀ p ∈ front ++ id :: back, g.InReach roots p := by
        intro p hp
        exact mem_reachable.1 (hsplit ▸ hp)
      refine ⟨front, id, back, hsplit, (repeatsAt_iff (hreach id (by simp))).1 hrepeats,
        fun p hp hat => ?_, rfl⟩
      have hnot := hfront p hp
      rw [(repeatsAt_iff (hreach p (List.mem_append_left _ hp))).2 hat] at hnot
      exact Bool.false_ne_true hnot
    · split at h <;> cases h

/-- **Owners are the nearest names above.** Over the nodes in reach of the roots: a node with a name
owns itself; a node has an owner just where a node with a name leads to it, and the owner is the
name of one that leads to it along as few operands as any with a name does. So a report of a
nullable repetition without bound, which is about the first in the order of the walk, tells a name
nearest above that repetition, or what the repetition is if no node with a name leads to it. -/
theorem owners_nearest (g : Graph) (roots : List ParserId) :
    (∀ id ∈ g.reachable roots, ∀ name, g.name? id = some name →
      (g.ownersAmong (g.reachable roots)).lookup id = some name) ∧
    (∀ id ∈ g.reachable roots,
      (∃ name, (g.ownersAmong (g.reachable roots)).lookup id = some name) ↔
        ∃ m ∈ g.reachable roots, g.name? m ≠ none ∧ g.Leads m id) ∧
    (∀ id ∈ g.reachable roots, ∀ name,
      (g.ownersAmong (g.reachable roots)).lookup id = some name →
        ∃ m ∈ g.reachable roots, g.name? m = some name ∧ ∃ n, g.LeadsBy m n id ∧
          ∀ m' ∈ g.reachable roots, g.name? m' ≠ none → ∀ n', g.LeadsBy m' n' id → n ≤ n') ∧
    ∀ pending context, g.validateExcept pending roots = .error (.nullableRepetition context) →
      ∃ front id back, g.reachable roots = front ++ id :: back ∧ g.RepeatsAt id ∧
        (∀ p ∈ front, ¬ g.RepeatsAt p) ∧
        (g.Nearest roots id context ∨
          context = g.describe id ∧ ∀ m ∈ g.reachable roots, g.Leads m id → g.name? m = none) := by
  refine ⟨fun id hid name hname => ?_, fun id _ => ⟨?_, ?_⟩, fun id _ name hlookup => ?_,
    fun pending context h => ?_⟩
  · have hid : g.InReach roots id := mem_reachable.1 hid
    have hne : g.name? id ≠ none := by rw [hname]; exact Option.some_ne_none _
    obtain ⟨name', hlookup⟩ := exists_lookup hid hne (.refl hid.contains)
    obtain ⟨n, hn⟩ := nearest_of_lookup hlookup
    have hzero : n ≤ 0 := hn.least 0 (nearestBy_zero hid hname).namedAbove
    obtain rfl : n = 0 := by omega
    rw [hlookup, ← hname, hn.name?_eq]
  · rintro ⟨name, hlookup⟩
    obtain ⟨n, hn⟩ := nearest_of_lookup hlookup
    obtain ⟨m, hm, hname, hleads⟩ := hn.namedAbove
    exact ⟨m, mem_reachable.2 hm, hname, hleads.leads⟩
  · rintro ⟨m, hm, hname, hleads⟩
    exact exists_lookup (mem_reachable.1 hm) hname hleads
  · obtain ⟨n, ⟨m, hm, hname, hleads⟩, hleast⟩ := nearest_of_lookup hlookup
    exact ⟨m, mem_reachable.2 hm, hname, n, hleads, fun m' hm' hname' n' hleads' =>
      hleast n' ⟨m', mem_reachable.1 hm', hname', hleads'⟩⟩
  · obtain ⟨front, id, back, hsplit, hat, hfront, rfl⟩ := validateExcept_nullableRepetition h
    refine ⟨front, id, back, hsplit, hat, hfront, ?_⟩
    exact (nearest_or_described g roots id).imp_right fun hnone =>
      ⟨hnone.1, fun m hm => hnone.2 m (mem_reachable.1 hm)⟩

/-- A rule that goes round: `far` is `near`, a token of a repetition of `far` or nothing. -/
def roundGraph : Graph where
  slots := #[.live 0 ⟨some "far", .rule (some ⟨1, 0⟩)⟩,
    .live 0 ⟨some "near", .sequence [⟨2, 0⟩]⟩,
    .live 0 ⟨none, .token ⟨3, 0⟩⟩,
    .live 0 ⟨none, .repetition ⟨4, 0⟩ 0 none⟩,
    .live 0 ⟨none, .optional ⟨0, 0⟩⟩]
  free := []
  live := 5
  maxDepth := defaultMaxDepth

/-- Both names lead to the repetition, and to what it repeats. The nearer one owns them, and the
report tells it. -/
theorem owners_nearest_round :
    (roundGraph.ownersAmong (roundGraph.reachable [⟨0, 0⟩])).lookup ⟨4, 0⟩ = some "near" ∧
      (∃ m ∈ roundGraph.reachable [⟨0, 0⟩], roundGraph.name? m = some "near" ∧
        ∃ n, roundGraph.LeadsBy m n ⟨4, 0⟩ ∧ n ≤ 4) ∧
      roundGraph.validateExcept [] [⟨0, 0⟩] = .error (.nullableRepetition "near") ∧
      roundGraph.Nearest [⟨0, 0⟩] ⟨3, 0⟩ "near" := by
  have hreachable : roundGraph.reachable [⟨0, 0⟩] =
      [⟨0, 0⟩, ⟨1, 0⟩, ⟨2, 0⟩, ⟨3, 0⟩, ⟨4, 0⟩] := by cbv
  have hvalidate : roundGraph.validateExcept [] [⟨0, 0⟩] =
      .error (.nullableRepetition "near") := by cbv
  have howner : (roundGraph.ownersAmong (roundGraph.reachable [⟨0, 0⟩])).lookup ⟨4, 0⟩ =
      some "near" := by cbv
  have hfar : roundGraph.LeadsBy ⟨0, 0⟩ 4 ⟨4, 0⟩ :=
    ((((LeadsBy.refl rfl).step (q := ⟨0, 0⟩) (o := ⟨1, 0⟩) (by decide) rfl).step
      (o := ⟨2, 0⟩) (by decide) rfl).step (o := ⟨3, 0⟩) (by decide) rfl).step (by decide) rfl
  obtain ⟨-, -, hnearest, hreport⟩ := owners_nearest roundGraph [⟨0, 0⟩]
  obtain ⟨m, hm, hname, n, hleads, hleast⟩ :=
    hnearest ⟨4, 0⟩ (by rw [hreachable]; decide) "near" howner
  have hfour : n ≤ 4 := hleast ⟨0, 0⟩ (by rw [hreachable]; decide) (by decide) 4 hfar
  obtain ⟨front, id, back, hsplit, ⟨part, min, hkind, -⟩, -, htold⟩ := hreport [] "near" hvalidate
  -- there is just one repetition
  have hid : id = ⟨3, 0⟩ := by
    have hmem : id ∈ roundGraph.reachable [⟨0, 0⟩] := by rw [hsplit]; simp
    rw [hreachable] at hmem
    simp only [List.mem_cons, List.not_mem_nil, or_false] at hmem
    rcases hmem with rfl | rfl | rfl | rfl | rfl
    · cases hkind
    · cases hkind
    · cases hkind
    · rfl
    · cases hkind
  subst hid
  have hdescribed : roundGraph.describe ⟨3, 0⟩ = "repetition" := rfl
  refine ⟨howner, ⟨m, hm, hname, n, hleads, hfour⟩, hvalidate, htold.resolve_right fun h => ?_⟩
  rw [hdescribed] at h
  exact absurd h.1 (by decide)

end ParserGraph.Graph
