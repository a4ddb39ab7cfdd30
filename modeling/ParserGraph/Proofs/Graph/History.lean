import ParserGraph.Proofs.Graph.Arena

/-!
# Histories — what an arena remembers of all that happened to it

A graph comes about from the empty one by single changes: a node is placed,
released or replaced, or the limit on nested parsers is set. Two of these
concern ids, and they are the events of its history (`Graph.Past`). The
arena keeps accounts of them (`Past.arena`): it counts the nodes that live,
lists the slots that hold none, has as many slots as nodes ever lived at
once, and each slot is in the generation of its releases. As long as no
generation comes round again, an id is therefore given out once and names a
node from then until it is released (`Past.identities`).
-/

namespace ParserGraph

/-- What happens to an id. -/
inductive Event where
  /-- It is given to a new node. -/
  | created (id : ParserId)
  /-- Its node is released. -/
  | released (id : ParserId)

namespace Event

/-- The id that is given out, if one is. -/
def createdId? : Event → Option ParserId
  | created id => some id
  | released _ => none

/-- The id whose node is released, if one is. -/
def releasedId? : Event → Option ParserId
  | created _ => none
  | released id => some id

/-- The ids given out, in order. -/
def createdIds (es : List Event) : List ParserId := es.filterMap createdId?

/-- The ids whose nodes are released, in order. -/
def releasedIds (es : List Event) : List ParserId := es.filterMap releasedId?

/-- How many nodes live after some events. -/
def population (es : List Event) : Nat := (createdIds es).length - (releasedIds es).length

/-- How often a slot is released. -/
def releases (es : List Event) (index : Nat) : Nat :=
  (releasedIds es).countP (·.index = index)

variable (es : List Event) (id : ParserId)

@[simp]
theorem createdIds_created : createdIds (es ++ [created id]) = createdIds es ++ [id] := by
  simp [createdIds, createdId?]

@[simp]
theorem createdIds_released : createdIds (es ++ [released id]) = createdIds es := by
  simp [createdIds, createdId?]

@[simp]
theorem releasedIds_created : releasedIds (es ++ [created id]) = releasedIds es := by
  simp [releasedIds, releasedId?]

@[simp]
theorem releasedIds_released : releasedIds (es ++ [released id]) = releasedIds es ++ [id] := by
  simp [releasedIds, releasedId?]

@[simp]
theorem releases_created (index : Nat) :
    releases (es ++ [created id]) index = releases es index := by
  simp [releases]

@[simp]
theorem releases_released (index : Nat) :
    releases (es ++ [released id]) index =
      releases es index + if id.index = index then 1 else 0 := by
  simp [releases, List.countP_append, List.countP_singleton]

end Event

open Event

namespace Graph

/-- A graph came about from the empty one through some events. -/
inductive Past : List Event → Graph → Prop
  /-- Nothing has happened to the empty graph. -/
  | empty : Past [] .empty
  /-- A node is placed. -/
  | placed {es : List Event} {g : Graph} (node : Node) :
      Past es g → Past (es ++ [.created (g.place node).1]) (g.place node).2
  /-- A node is released. -/
  | released {es : List Event} {g g' : Graph} {id : ParserId} {node : Node} :
      Past es g → g.release? id = some (node, g') → Past (es ++ [.released id]) g'
  /-- A node is replaced by another, under the same id. -/
  | replaced {es : List Event} {g : Graph} {id : ParserId} {old : Node} (node : Node) :
      Past es g → g.node? id = some old → Past es (g.replace id node)
  /-- The limit on nested parsers is set. -/
  | limited {es : List Event} {g : Graph} (depth : Nat) : Past es g → Past es (g.setMaxDepth depth)

variable {g g' : Graph} {id : ParserId} {node : Node} {es : List Event}

/-- Every graph that came about is sound. -/
theorem Past.sound (h : g.Past es) : g.Sound := by
  induction h with
  | empty => exact sound_empty
  | placed node _ ih => exact (place_added ih node).sound
  | released _ hr ih => exact sound_release? ih hr
  | replaced node _ hid ih => exact sound_replace ih hid node
  | limited depth _ ih => exact sound_setMaxDepth ih depth

/-! ## What the arena keeps -/

/-- A change to one slot changes the count of slots that hold a node by that slot. -/
theorem occupied_setSlot {index : Nat} {old : Slot} (hold : g.slots[index]? = some old)
    (slot : Slot) (free : List Nat) (live : Nat) :
    occupied ⟨g.slots.setIfInBounds index slot, free, live, g.maxDepth⟩ +
        (if old.isLive then 1 else 0) = g.occupied + if slot.isLive then 1 else 0 := by
  obtain ⟨hlt, hslot⟩ := Array.getElem?_eq_some_iff.1 hold
  simp only [occupied, Array.setIfInBounds, hlt, ↓reduceDIte, Array.countP_set, hslot]
  have hcount : (if old.isLive then 1 else 0) ≤ g.slots.countP Slot.isLive := by
    split
    · next hlive => exact Array.countP_pos_iff.2 ⟨old, hslot ▸ Array.getElem_mem hlt, hlive⟩
    · exact Nat.zero_le _
  omega

/-- A node is placed in the slot released last, which holds nothing, or else in a new one. -/
theorem place_eq (h : g.Sound) (node : Node) :
    (∃ index free generation, g.free = index :: free ∧
      g.slots[index]? = some (.free generation) ∧
      g.place node = (⟨index, generation⟩, { g with
        slots := g.slots.setIfInBounds index (.live generation node)
        free, live := g.live + 1 })) ∨
    (g.free = [] ∧ g.place node = (⟨g.slots.size, 0⟩, { g with
        slots := g.slots.push (.live 0 node), live := g.live + 1 })) := by
  cases hfree : g.free with
  | nil => exact Or.inr ⟨rfl, by rw [place, hfree]⟩
  | cons index free =>
    obtain ⟨generation, hslot⟩ := h.free_slot index (hfree ▸ List.mem_cons_self)
    refine Or.inl ⟨index, free, generation, rfl, hslot, ?_⟩
    simp [place, put, hfree, hslot, Slot.generation]

/-- What an arena keeps of the events it came about through. -/
structure Arena (es : List Event) (g : Graph) : Prop where
  /-- The count is that of the slots that hold a node. -/
  live_eq : g.live = g.occupied
  /-- The stack lists exactly the slots that hold none. -/
  mem_free : ∀ index, index ∈ g.free ↔ ∃ generation, g.slots[index]? = some (.free generation)
  /-- No slot is listed twice. -/
  nodup_free : g.free.Nodup
  /-- Every slot holds a node or is listed. -/
  size_eq : g.live + g.free.length = g.slots.size
  /-- As many nodes live as were given ids and not released. -/
  population_eq : (createdIds es).length = (releasedIds es).length + g.live
  /-- A slot is in the generation of its releases. -/
  generation_eq : ∀ index slot, g.slots[index]? = some slot →
    slot.generation = UInt32.ofNat (releases es index)
  /-- A slot that there is not has never been released. -/
  releases_eq : ∀ index, g.slots.size ≤ index → releases es index = 0
  /-- Never more nodes lived than there are slots. -/
  population_le : ∀ es', es' <+: es → population es' ≤ g.slots.size
  /-- And once as many lived. -/
  exists_population : ∃ es', es' <+: es ∧ population es' = g.slots.size

namespace Arena

theorem empty : Arena [] Graph.empty where
  live_eq := rfl
  mem_free := by simp [Graph.empty]
  nodup_free := List.nodup_nil
  size_eq := rfl
  population_eq := rfl
  generation_eq := by simp [Graph.empty]
  releases_eq := fun _ _ => rfl
  population_le := by
    intro es' hes'
    rw [List.prefix_nil.1 hes']
    exact Nat.le_refl _
  exists_population := ⟨[], List.prefix_rfl, rfl⟩

theorem population_last (h : Arena es g) : population es = g.live := by
  have := h.population_eq
  rw [population]
  omega

/-- After one more event, the peak is kept if the slots are as many as they were or as nodes
live. -/
theorem peak_concat {e : Event} {size : Nat} (h : Arena es g) (hle : g.slots.size ≤ size)
    (hlast : population (es ++ [e]) ≤ size)
    (hpeak : size = g.slots.size ∨ population (es ++ [e]) = size) :
    (∀ es', es' <+: es ++ [e] → population es' ≤ size) ∧
      ∃ es', es' <+: es ++ [e] ∧ population es' = size := by
  refine ⟨fun es' hes' => ?_, ?_⟩
  · rcases List.prefix_concat_iff.1 hes' with rfl | hes'
    · exact hlast
    · exact Nat.le_trans (h.population_le es' hes') hle
  · rcases hpeak with rfl | hpeak
    · obtain ⟨es', hes', hsize⟩ := h.exists_population
      exact ⟨es', hes'.trans (List.prefix_append _ _), hsize⟩
    · exact ⟨_, List.prefix_rfl, hpeak⟩

/-- One more node lives after an id was given out. -/
theorem population_created (h : Arena es g) (id : ParserId) :
    population (es ++ [.created id]) = g.live + 1 := by
  have hpopulation := h.population_eq
  rw [population, createdIds_created, releasedIds_created, List.length_append]
  simp only [List.length_singleton]
  omega

/-- A node in a slot that is taken again keeps the accounts: the slot is listed no more, in the
generation it was in. -/
theorem placed_free (h : Arena es g) (node : Node) {index : Nat} {free : List Nat}
    {generation : UInt32} (hfree : g.free = index :: free)
    (hslot : g.slots[index]? = some (.free generation)) :
    Arena (es ++ [.created ⟨index, generation⟩])
      { g with
        slots := g.slots.setIfInBounds index (.live generation node)
        free, live := g.live + 1 } := by
  have hpopulation := h.population_eq
  have hsize := h.size_eq
  have hlast := h.population_created ⟨index, generation⟩
  have hlength : g.free.length = free.length + 1 := by rw [hfree]; rfl
  have hindex : index < g.slots.size := (Array.getElem?_eq_some_iff.1 hslot).1
  have hnodup := List.nodup_cons.1 (hfree ▸ h.nodup_free)
  have hpeak := h.peak_concat (Nat.le_refl _) (by rw [hlast]; omega) (Or.inl rfl)
  have hgeneration : generation = UInt32.ofNat (releases es index) :=
    h.generation_eq index _ hslot
  refine
    { live_eq := ?_, mem_free := fun i => ?_, nodup_free := hnodup.2, size_eq := ?_,
      population_eq := ?_, generation_eq := fun i slot hi => ?_, releases_eq := fun i hi => ?_,
      population_le := ?_, exists_population := ?_ }
  · have hcount := occupied_setSlot hslot (.live generation node) free (g.live + 1)
    have hlive := h.live_eq
    simp only [Slot.isLive, if_true, Bool.false_eq_true, if_false, Nat.add_zero] at hcount
    dsimp only
    rw [hcount, hlive]
  · by_cases hi : index = i
    · subst hi
      simp [hindex, hnodup.1]
    · have hmem := h.mem_free i
      rw [hfree, List.mem_cons, or_iff_right (Ne.symm hi)] at hmem
      rw [hmem, Array.getElem?_setIfInBounds_ne hi]
  · rw [Array.size_setIfInBounds]
    dsimp only
    omega
  · simp only [createdIds_created, releasedIds_created, List.length_append,
      List.length_singleton]
    omega
  · rw [releases_created]
    by_cases hi' : index = i
    · subst hi'
      rw [Array.getElem?_setIfInBounds_self_of_lt hindex] at hi
      cases hi
      exact hgeneration
    · exact h.generation_eq i slot (Array.getElem?_setIfInBounds_ne hi' ▸ hi)
  · rw [releases_created]
    exact h.releases_eq i (by simpa using hi)
  · rw [Array.size_setIfInBounds]
    exact hpeak.1
  · rw [Array.size_setIfInBounds]
    exact hpeak.2

/-- A node in a new slot keeps the accounts, as no slot was listed: more nodes live than ever. -/
theorem placed_new (h : Arena es g) (node : Node) (hfree : g.free = []) :
    Arena (es ++ [.created ⟨g.slots.size, 0⟩])
      { g with slots := g.slots.push (.live 0 node), live := g.live + 1 } := by
  have hpopulation := h.population_eq
  have hsize := h.size_eq
  have hlast := h.population_created ⟨g.slots.size, 0⟩
  have hlength : g.free.length = 0 := by rw [hfree]; rfl
  have hpush : (g.slots.push (.live 0 node)).size = g.live + 1 := by
    rw [Array.size_push]
    omega
  have hpeak := h.peak_concat (Nat.le_succ g.slots.size)
    (by rw [hlast]; omega) (Or.inr (by rw [hlast]; omega))
  refine
    { live_eq := ?_, mem_free := fun i => ?_, nodup_free := h.nodup_free, size_eq := ?_,
      population_eq := ?_, generation_eq := fun i slot hi => ?_, releases_eq := fun i hi => ?_,
      population_le := ?_, exists_population := ?_ }
  · have hlive := h.live_eq
    simp only [occupied, Array.countP_push, Slot.isLive, if_true]
    rw [hlive, occupied]
  · have hmem := h.mem_free i
    rw [hmem, Array.getElem?_push]
    split
    · next he => simp [he]
    · rfl
  · rw [hpush]
    dsimp only
    omega
  · simp only [createdIds_created, releasedIds_created, List.length_append,
      List.length_singleton]
    omega
  · rw [releases_created]
    rw [Array.getElem?_push] at hi
    split at hi
    · next he =>
      cases hi
      rw [he, h.releases_eq _ (Nat.le_refl _)]
      rfl
    · exact h.generation_eq i slot hi
  · rw [releases_created]
    rw [Array.size_push] at hi
    exact h.releases_eq i (by omega)
  · rw [Array.size_push]
    exact hpeak.1
  · rw [Array.size_push]
    exact hpeak.2

/-- Placing a node keeps the arena's accounts. -/
theorem placed (h : Arena es g) (hsound : g.Sound) (node : Node) :
    Arena (es ++ [.created (g.place node).1]) (g.place node).2 := by
  rcases place_eq hsound node with ⟨index, free, generation, hfree, hslot, hplace⟩ | ⟨hfree, hplace⟩
  · rw [hplace]
    exact h.placed_free node hfree hslot
  · rw [hplace]
    exact h.placed_new node hfree

/-- Releasing a node keeps the arena's accounts. -/
theorem released (h : Arena es g) (hr : g.release? id = some (node, g')) :
    Arena (es ++ [.released id]) g' := by
  simp only [release?, Option.map_eq_some_iff, Prod.mk.injEq] at hr
  obtain ⟨node', hnode, -, rfl⟩ := hr
  have hslot := node?_eq_some_iff.1 hnode
  obtain ⟨hindex, -⟩ := Array.getElem?_eq_some_iff.1 hslot
  have hcount := occupied_setSlot hslot (.free (id.generation + 1)) (id.index :: g.free)
    (g.live - 1)
  simp only [Slot.isLive, if_true, Bool.false_eq_true, if_false, Nat.add_zero] at hcount
  have hlive := h.live_eq
  have hpopulation := h.population_eq
  have hsize := h.size_eq
  have hlast : population (es ++ [.released id]) = g.live - 1 := by
    rw [population, createdIds_released, releasedIds_released, List.length_append]
    simp only [List.length_singleton]
    omega
  have hpeak := h.peak_concat (e := .released id) (Nat.le_refl _) (by omega) (Or.inl rfl)
  have hgeneration : id.generation = UInt32.ofNat (releases es id.index) :=
    h.generation_eq id.index _ hslot
  refine
    { live_eq := ?_, mem_free := fun i => ?_, nodup_free := List.nodup_cons.2 ⟨?_, h.nodup_free⟩,
      size_eq := ?_, population_eq := ?_, generation_eq := fun i slot hi => ?_,
      releases_eq := fun i hi => ?_, population_le := ?_, exists_population := ?_ }
  · dsimp only
    omega
  · dsimp only
    by_cases hi : id.index = i
    · subst hi
      simp [hindex]
    · rw [List.mem_cons, or_iff_right (Ne.symm hi), h.mem_free, Array.getElem?_setIfInBounds_ne hi]
  · intro hmem
    obtain ⟨generation, hfree⟩ := (h.mem_free id.index).1 hmem
    cases hslot.symm.trans hfree
  · dsimp only
    rw [Array.size_setIfInBounds, List.length_cons]
    omega
  · simp only [createdIds_released, releasedIds_released, List.length_append,
      List.length_singleton]
    omega
  · rw [releases_released]
    dsimp only at hi
    by_cases hi' : id.index = i
    · subst hi'
      rw [Array.getElem?_setIfInBounds_self_of_lt hindex] at hi
      cases hi
      rw [if_pos rfl, UInt32.ofNat_add, ← hgeneration]
      rfl
    · rw [if_neg hi']
      exact h.generation_eq i slot (Array.getElem?_setIfInBounds_ne hi' ▸ hi)
  · rw [Array.size_setIfInBounds] at hi
    rw [releases_released, if_neg (by omega), h.releases_eq i hi]
  · rw [Array.size_setIfInBounds]
    exact hpeak.1
  · rw [Array.size_setIfInBounds]
    exact hpeak.2

/-- Replacing a node keeps the arena's accounts. -/
theorem replaced (h : Arena es g) (hnode : g.node? id = some node) (node' : Node) :
    Arena es (g.replace id node') := by
  have hslot := node?_eq_some_iff.1 hnode
  obtain ⟨hindex, -⟩ := Array.getElem?_eq_some_iff.1 hslot
  have hcount := occupied_setSlot hslot (.live id.generation node') g.free g.live
  simp only [Slot.isLive, if_true] at hcount
  refine
    { h with
      live_eq := ?_, mem_free := fun i => ?_, size_eq := ?_, generation_eq := fun i slot hi => ?_,
      releases_eq := fun i hi => h.releases_eq i ?_, population_le := ?_, exists_population := ?_ }
  · exact h.live_eq.trans (Nat.succ.inj hcount).symm
  · rw [replace]
    by_cases hi : id.index = i
    · subst hi
      rw [h.mem_free, Array.getElem?_setIfInBounds_self_of_lt hindex, hslot]
      simp
    · rw [h.mem_free, Array.getElem?_setIfInBounds_ne hi]
  · rw [replace, Array.size_setIfInBounds]
    exact h.size_eq
  · rw [replace] at hi
    by_cases hi' : id.index = i
    · subst hi'
      rw [Array.getElem?_setIfInBounds_self_of_lt hindex] at hi
      cases hi
      have hgeneration : id.generation = _ := h.generation_eq id.index _ hslot
      exact hgeneration
    · exact h.generation_eq i slot (Array.getElem?_setIfInBounds_ne hi' ▸ hi)
  · rw [replace, Array.size_setIfInBounds] at hi
    exact hi
  · rw [replace, Array.size_setIfInBounds]
    exact h.population_le
  · rw [replace, Array.size_setIfInBounds]
    exact h.exists_population

end Arena

/-- **Whatever happens to a graph, its arena keeps its accounts.** -/
theorem Past.arena (h : g.Past es) : g.Arena es := by
  induction h with
  | empty => exact .empty
  | placed node hpast ih => exact ih.placed hpast.sound node
  | released _ hr ih => exact ih.released hr
  | replaced node _ hid ih => exact ih.replaced hid node
  | limited depth _ ih => exact { ih with }

/-! ## What ids name in the course of time -/

/-- **An id is given out once and names a node until it is released, once**, as long as no slot
comes round to a generation it was in. -/
structure Identities (es : List Event) (g : Graph) : Prop where
  /-- No id is given out twice. -/
  nodup_created : (createdIds es).Nodup
  /-- None is released twice. -/
  nodup_released : (releasedIds es).Nodup
  /-- What is released was given out. -/
  created_of_released : ∀ id ∈ releasedIds es, id ∈ createdIds es
  /-- The ids that name nodes are those given out and not released. -/
  contains_iff : ∀ id, g.contains id ↔ id ∈ createdIds es ∧ id ∉ releasedIds es
  /-- A released id is of a generation that its slot has left behind. -/
  generation_lt : ∀ id ∈ releasedIds es, id.generation.toNat < releases es id.index

/-- An id that names a node is in the generation of its slot. -/
theorem Arena.generation_toNat (h : g.Arena es) (hnode : g.node? id = some node)
    (hfew : releases es id.index < UInt32.size) : id.generation.toNat = releases es id.index := by
  have hgeneration := h.generation_eq id.index _ (node?_eq_some_iff.1 hnode)
  have hof : id.generation = UInt32.ofNat (releases es id.index) := hgeneration
  rw [hof, UInt32.toNat_ofNat']
  exact Nat.mod_eq_of_lt hfew

namespace Identities

theorem empty : Identities [] Graph.empty where
  nodup_created := List.nodup_nil
  nodup_released := List.nodup_nil
  created_of_released := fun _ hid => absurd hid List.not_mem_nil
  contains_iff := fun id => by simp [contains, createdIds]
  generation_lt := fun _ hid => absurd hid List.not_mem_nil

/-- An id that is given out was never given out before. -/
theorem placed (h : g.Identities es) (hpast : g.Past es) (node : Node)
    (hfew : ∀ index, releases es index < UInt32.size) :
    (g.place node).2.Identities (es ++ [.created (g.place node).1]) := by
  have hadded := place_added hpast.sound node
  have harena := hpast.placed node
  -- it would name a node still, or its slot would have left its generation behind
  have hnew : (g.place node).1 ∉ createdIds es := by
    intro hmem
    have hdead : ¬ g.contains (g.place node).1 := by simp [contains, hadded.fresh]
    have hreleased : (g.place node).1 ∈ releasedIds es :=
      Classical.byContradiction fun hnot => hdead ((h.contains_iff _).2 ⟨hmem, hnot⟩)
    have hnode : (g.place node).2.node? (g.place node).1 = some node := hadded.node?_self
    have hgeneration := harena.arena.generation_toNat hnode (by simpa using hfew _)
    rw [releases_created] at hgeneration
    exact Nat.ne_of_lt (h.generation_lt _ hreleased) hgeneration
  refine
    { nodup_created := ?_, nodup_released := ?_, created_of_released := fun id hid => ?_,
      contains_iff := fun id => ?_, generation_lt := fun id hid => ?_ }
  · rw [createdIds_created]
    refine List.nodup_append.2 ⟨h.nodup_created, by simp, fun o ho o' ho' he => hnew ?_⟩
    have hsame : o = (g.place node).1 := he.trans (List.mem_singleton.1 ho')
    exact hsame ▸ ho
  · rw [releasedIds_created]
    exact h.nodup_released
  · rw [releasedIds_created] at hid
    rw [createdIds_created]
    exact List.mem_append_left _ (h.created_of_released id hid)
  · rw [createdIds_created, releasedIds_created, List.mem_append, List.mem_singleton, contains,
      hadded.node?_eq]
    by_cases hid : id = (g.place node).1
    · subst hid
      have hnot : (g.place node).1 ∉ releasedIds es := fun hr => hnew (h.created_of_released _ hr)
      simp [hnot]
    · rw [if_neg hid, or_iff_left hid]
      exact h.contains_iff id
  · rw [releasedIds_created] at hid
    rw [releases_created]
    exact h.generation_lt id hid

/-- An id that is released is never released again. -/
theorem released (h : g.Identities es) (harena : g.Arena es)
    (hr : g.release? id = some (node, g')) (hfew : releases es id.index < UInt32.size) :
    g'.Identities (es ++ [.released id]) := by
  have hnode : g.node? id = some node := by
    have hfst := g.release?_fst id
    rw [hr] at hfst
    exact hfst.symm
  have hlive : g.contains id := by rw [contains, hnode]; rfl
  obtain ⟨hcreated, hnot⟩ := (h.contains_iff id).1 hlive
  refine
    { nodup_created := ?_, nodup_released := ?_, created_of_released := fun id' hid => ?_,
      contains_iff := fun id' => ?_, generation_lt := fun id' hid => ?_ }
  · rw [createdIds_released]
    exact h.nodup_created
  · rw [releasedIds_released]
    refine List.nodup_append.2 ⟨h.nodup_released, by simp, fun o ho o' ho' he => hnot ?_⟩
    have hsame : o = id := he.trans (List.mem_singleton.1 ho')
    exact hsame ▸ ho
  · rw [releasedIds_released] at hid
    rw [createdIds_released]
    rcases List.mem_append.1 hid with hid | hid
    · exact h.created_of_released id' hid
    · exact List.mem_singleton.1 hid ▸ hcreated
  · rw [createdIds_released, releasedIds_released, List.mem_append, List.mem_singleton, contains,
      node?_release? hr]
    by_cases hid : id' = id
    · simp [hid]
    · rw [if_neg hid, or_iff_left hid]
      exact h.contains_iff id'
  · rw [releasedIds_released] at hid
    rw [releases_released]
    rcases List.mem_append.1 hid with hid | hid
    · exact Nat.lt_of_lt_of_le (h.generation_lt id' hid) (Nat.le_add_right _ _)
    · cases List.mem_singleton.1 hid
      rw [if_pos rfl, harena.generation_toNat hnode hfew]
      exact Nat.lt_succ_self _

end Identities

/-- **No id is given out twice, and a released one never names a node again**, as long as every slot
has been released fewer times than there are generations. -/
theorem Past.identities (h : g.Past es) (hfew : ∀ index, releases es index < UInt32.size) :
    g.Identities es := by
  induction h with
  | empty => exact .empty
  | @placed es g node hpast ih =>
    have hfew' : ∀ index, releases es index < UInt32.size := fun index => by simpa using hfew index
    exact (ih hfew').placed hpast node hfew'
  | @released es g g' id node hpast hr ih =>
    have hfew' : ∀ index, releases es index < UInt32.size := fun index =>
      Nat.lt_of_le_of_lt (by rw [releases_released]; exact Nat.le_add_right _ _) (hfew index)
    exact (ih hfew').released hpast.arena hr (hfew' id.index)
  | @replaced es g id old node _ hid ih =>
    refine { ih hfew with contains_iff := fun id' => ?_ }
    rw [← (ih hfew).contains_iff, contains, node?_replace hid]
    by_cases he : id' = id
    · simp [he, contains, hid]
    · rw [if_neg he, contains]
  | limited depth _ ih => exact { ih hfew with }

end Graph

end ParserGraph
