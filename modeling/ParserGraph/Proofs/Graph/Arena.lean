import ParserGraph.Graph.Build
import ParserGraph.Graph.Cleanup

/-!
# The arena — what each change to a graph leaves as it was

A graph is sound when its stack lists slots that hold nothing, each once
(`Graph.Sound`); every change keeps it so. In a sound graph a new node takes
nobody's place: its id named nothing before, and every other id names what
it named (`Graph.Added`). Taking bodies away and releasing nodes likewise
are told by what they do to lookups.
-/

namespace ParserGraph

namespace Node

/-- A node without its body, if it is a placeholder. -/
def bodiless : Node → Node
  | ⟨name, .rule _⟩ => ⟨name, .rule none⟩
  | node => node

@[simp]
theorem bodiless_bodiless (node : Node) : node.bodiless.bodiless = node.bodiless := by
  obtain ⟨name, kind⟩ := node
  cases kind <;> rfl

end Node

namespace Graph

variable {g g' : Graph} {id : ParserId} {node : Node}

/-- The stack of a graph lists slots that hold nothing, each once. -/
structure Sound (g : Graph) : Prop where
  /-- A listed slot holds nothing. -/
  free_slot : ∀ index ∈ g.free, ∃ generation, g.slots[index]? = some (.free generation)
  /-- No slot is listed twice. -/
  nodup_free : g.free.Nodup

theorem sound_empty : empty.Sound := ⟨fun _ h => absurd h List.not_mem_nil, List.nodup_nil⟩

theorem sound_setMaxDepth (h : g.Sound) (depth : Nat) : (g.setMaxDepth depth).Sound :=
  ⟨h.free_slot, h.nodup_free⟩

/-- A slot that holds a node is not listed. -/
theorem Sound.not_mem_free (h : g.Sound) (hnode : g.node? id = some node) : id.index ∉ g.free := by
  intro hmem
  obtain ⟨generation, hfree⟩ := h.free_slot id.index hmem
  rw [node?_eq_some_iff, hfree] at hnode
  exact nomatch hnode

/-! ## Adding a node -/

/-- A graph with one more node, which takes nobody's place. -/
structure Added (g : Graph) (id : ParserId) (node : Node) (g' : Graph) : Prop where
  /-- The graph is sound still. -/
  sound : g'.Sound
  /-- The id of the node named nothing before. -/
  fresh : g.node? id = none
  /-- It names the node, and every other id names what it named. -/
  node?_eq : ∀ id', g'.node? id' = if id' = id then some node else g.node? id'
  /-- One node more lives. -/
  live_eq : g'.live = g.live + 1
  /-- The limit on nested parsers is the same. -/
  maxDepth_eq : g'.maxDepth = g.maxDepth

/-- The id of the new node names it. -/
theorem Added.node?_self (h : g.Added id node g') : g'.node? id = some node := by
  rw [h.node?_eq, if_pos rfl]

/-- **Adding to a sound graph takes nobody's place.** -/
theorem place_added (h : g.Sound) (node : Node) :
    g.Added (g.place node).1 node (g.place node).2 := by
  unfold place
  split
  · next index free hfree =>
    -- the slot released last, which holds nothing
    obtain ⟨generation, hslot⟩ := h.free_slot index (hfree ▸ List.mem_cons_self)
    obtain ⟨hindex, -⟩ := Array.getElem?_eq_some_iff.1 hslot
    have hnodup : index ∉ free ∧ free.Nodup := List.nodup_cons.1 (hfree ▸ h.nodup_free)
    have hput : g.put index node = (⟨index, generation⟩,
        { g with slots := g.slots.setIfInBounds index (.live generation node) }) := by
      simp [put, hslot, Slot.generation]
    have hnone : ∀ id', id'.index = index → g.node? id' = none := by
      intro id' hi
      simp [node?, hi, hslot, Slot.node?]
    rw [hput]
    refine ⟨⟨fun i hi => ?_, hnodup.2⟩, hnone _ rfl, fun id' => ?_, rfl, rfl⟩
    · have hne : index ≠ i := fun he => hnodup.1 (he ▸ hi)
      obtain ⟨gen, hgen⟩ := h.free_slot i (hfree ▸ List.mem_cons_of_mem _ hi)
      exact ⟨gen, by rw [← hgen]; exact Array.getElem?_setIfInBounds_ne hne⟩
    · dsimp only
      rw [node?_setSlot g _ _ _ _ hindex]
      obtain ⟨i, gen⟩ := id'
      by_cases hi : i = index
      · subst hi
        by_cases hgen : generation = gen
        · subst hgen
          simp [Slot.node?]
        · have hne : (⟨i, gen⟩ : ParserId) ≠ ⟨i, generation⟩ := by
            rintro he
            cases he
            exact hgen rfl
          simp [Slot.node?, hgen, Ne.symm hgen, hnone]
      · simp [hi]
  · next hfree =>
    -- a new slot, behind all others
    have hnone : g.node? ⟨g.slots.size, 0⟩ = none := by simp [node?]
    refine ⟨⟨fun i hi => ?_, ?_⟩, hnone, fun id' => ?_, rfl, rfl⟩
    · exact absurd (hfree ▸ hi) List.not_mem_nil
    · dsimp only
      rw [hfree]
      exact List.nodup_nil
    · obtain ⟨i, gen⟩ := id'
      simp only [node?, Array.getElem?_push, ParserId.mk.injEq]
      by_cases hi : i = g.slots.size
      · by_cases hgen : gen = 0
        · simp [hi, hgen, Slot.node?]
        · simp [hi, hgen, Slot.node?, Ne.symm hgen]
      · simp [hi]

/-! ## Changing a node -/

/-- Replacing a node that lives keeps the graph sound. -/
theorem sound_replace (h : g.Sound) (hid : g.node? id = some node) (node' : Node) :
    (g.replace id node').Sound := by
  refine ⟨fun i hi => ?_, h.nodup_free⟩
  -- a slot that is listed holds nothing, so it is not the one that changes
  have hne : id.index ≠ i := fun he => h.not_mem_free hid (he ▸ hi)
  obtain ⟨generation, hgen⟩ := h.free_slot i hi
  exact ⟨generation, by rw [← hgen]; exact Array.getElem?_setIfInBounds_ne hne⟩

/-- Replacing a node takes none away. -/
theorem contains_replace (hnode : g.node? id = some node) (node' : Node) (x : ParserId) :
    (g.replace id node').contains x ↔ g.contains x := by
  rw [contains, contains, node?_replace hnode]
  split
  · next he => simp [he, hnode]
  · rfl

/-- A node that bears another name is another node, which replacing leaves as it is. -/
theorem node?_replace_of_name_ne {id' : ParserId} {name name' : Option String} {kind kind' : Kind}
    (hid : g.node? id = some ⟨name, kind⟩) (hid' : g.node? id' = some ⟨name', kind'⟩)
    (hname : name' ≠ name) (node' : Node) :
    (g.replace id node').node? id' = some ⟨name', kind'⟩ := by
  have hne : id' ≠ id := by
    rintro rfl
    exact hname (Node.mk.inj (Option.some.inj (hid'.symm.trans hid))).1
  rw [node?_replace hid, if_neg hne]
  exact hid'

/-- A placeholder is given a body when it has none and both live. -/
theorem define_eq_ok {rule body : ParserId} (h : g.define rule body = .ok g') :
    g.contains body ∧ ∃ name, g.node? rule = some ⟨name, .rule none⟩ ∧
      g' = g.replace rule ⟨name, .rule (some body)⟩ := by
  unfold define at h
  split at h
  · exact nomatch h
  · next hbody =>
    split at h
    · exact nomatch h
    · next node hnode =>
      split at h
      · next hkind =>
        obtain ⟨name, kind⟩ := node
        cases hkind
        exact ⟨by simpa using hbody, name, hnode, (Except.ok.inj h).symm⟩
      · exact nomatch h
      · exact nomatch h

/-- A placeholder without a body can be given any that lives. -/
theorem define_of_undefined {rule body : ParserId} {name : Option String}
    (hbody : g.contains body) (hrule : g.node? rule = some ⟨name, .rule none⟩) :
    g.define rule body = .ok (g.replace rule ⟨name, .rule (some body)⟩) := by
  simp [define, hbody, hrule]

theorem sound_define {rule body : ParserId} (h : g.Sound) (hdefine : g.define rule body = .ok g') :
    g'.Sound := by
  obtain ⟨-, name, hrule, rfl⟩ := define_eq_ok hdefine
  exact sound_replace h hrule _

/-! ## Taking bodies away -/

/-- Taking a body away changes what the placeholder names and nothing else. -/
theorem node?_undefine (g : Graph) (rule id : ParserId) :
    (g.undefine rule).node? id =
      if id = rule then (g.node? rule).map Node.bodiless else g.node? id := by
  unfold undefine
  split
  · next name body hnode =>
    rw [node?_replace hnode, hnode]
    rfl
  · next hother =>
    split
    · next he =>
      subst he
      cases hnode : g.node? id with
      | none => rfl
      | some node =>
        obtain ⟨name, kind⟩ := node
        cases kind with
        | rule body => exact absurd hnode (hother name body)
        | _ => rfl
    · rfl

theorem undefine_live (g : Graph) (rule : ParserId) : (g.undefine rule).live = g.live := by
  unfold undefine
  split <;> rfl

theorem undefine_maxDepth (g : Graph) (rule : ParserId) :
    (g.undefine rule).maxDepth = g.maxDepth := by
  unfold undefine
  split <;> rfl

theorem sound_undefine (h : g.Sound) (rule : ParserId) : (g.undefine rule).Sound := by
  unfold undefine
  split
  · next name body hnode => exact sound_replace h hnode _
  · exact h

/-- Taking several bodies away changes what the placeholders name and nothing else. -/
theorem foldl_undefine (g : Graph) (rules : List ParserId) :
    (∀ id, (rules.foldl undefine g).node? id =
        if id ∈ rules then (g.node? id).map Node.bodiless else g.node? id) ∧
      (rules.foldl undefine g).live = g.live ∧
      (rules.foldl undefine g).maxDepth = g.maxDepth := by
  induction rules generalizing g with
  | nil => exact ⟨fun id => rfl, rfl, rfl⟩
  | cons rule rules ih =>
    obtain ⟨hnode, hlive, hdepth⟩ := ih (g.undefine rule)
    refine ⟨fun id => ?_, hlive.trans (g.undefine_live rule),
      hdepth.trans (g.undefine_maxDepth rule)⟩
    rw [List.foldl_cons, hnode, node?_undefine]
    by_cases hid : id = rule
    · -- a body taken away twice is gone all the same
      subst hid
      simp [Function.comp_def]
    · simp [hid]

theorem sound_foldl_undefine (h : g.Sound) (rules : List ParserId) :
    (rules.foldl undefine g).Sound := by
  induction rules generalizing g with
  | nil => exact h
  | cons rule rules ih => exact ih (sound_undefine h rule)

/-! ## Releasing -/

/-- A released slot goes on the stack. -/
theorem sound_release? (h : g.Sound) (hr : g.release? id = some (node, g')) : g'.Sound := by
  simp only [release?, Option.map_eq_some_iff, Prod.mk.injEq] at hr
  obtain ⟨node', hnode, -, rfl⟩ := hr
  have hnotfree := h.not_mem_free hnode
  obtain ⟨hindex, -⟩ := Array.getElem?_eq_some_iff.1 (node?_eq_some_iff.1 hnode)
  refine ⟨fun i hi => ?_, List.nodup_cons.2 ⟨hnotfree, h.nodup_free⟩⟩
  dsimp only at hi ⊢
  by_cases hid : id.index = i
  · subst hid
    exact ⟨_, Array.getElem?_setIfInBounds_self_of_lt hindex⟩
  · obtain ⟨generation, hgen⟩ := h.free_slot i ((List.mem_cons.1 hi).resolve_left (Ne.symm hid))
    exact ⟨generation, by rw [← hgen]; exact Array.getElem?_setIfInBounds_ne hid⟩

/-- Releasing counts one node less and leaves the limit on nested parsers. -/
theorem release?_live (hr : g.release? id = some (node, g')) :
    g'.live = g.live - 1 ∧ g'.maxDepth = g.maxDepth := by
  simp only [release?, Option.map_eq_some_iff, Prod.mk.injEq] at hr
  obtain ⟨node', -, -, rfl⟩ := hr
  exact ⟨rfl, rfl⟩

theorem sound_cleanupFrom (h : g.Sound) (pending : List ParserId)
    (released : List (ParserId × Node)) : (g.cleanupFrom pending released).2.Sound := by
  fun_induction cleanupFrom g pending released with
  | case1 g released => exact h
  | case2 g released id pending hr ih => exact ih h
  | case3 g released id pending node g' hr ih => exact ih (sound_release? h hr)

theorem sound_discard (h : g.Sound) (ids : List ParserId) : (g.discard ids).Sound := by
  induction ids generalizing g with
  | nil => exact h
  | cons id ids ih =>
    rw [discard, List.foldl_cons]
    refine ih ?_
    cases hr : g.release? id with
    | none => exact h
    | some r => exact sound_release? h hr

/-- Releasing given nodes makes their ids stale and leaves all others as they are. -/
theorem node?_discard (g : Graph) (ids : List ParserId) (id : ParserId) :
    (g.discard ids).node? id = if id ∈ ids then none else g.node? id := by
  induction ids generalizing g with
  | nil => rfl
  | cons released ids ih =>
    have hfirst : (((g.release? released).map Prod.snd).getD g).node? id =
        if id = released then none else g.node? id := by
      cases hr : g.release? released with
      | some r => exact node?_release? hr id
      | none =>
        have hnone : g.node? released = none := by simpa [release?] using hr
        by_cases hid : id = released
        · subst hid
          rw [if_pos rfl]
          exact hnone
        · rw [if_neg hid]
          rfl
    rw [discard, List.foldl_cons]
    refine (ih _).trans ?_
    rw [hfirst]
    by_cases hid : id = released
    · simp [hid]
    · simp [hid]

/-- Releasing nodes that live counts each of them off. -/
theorem discard_live {ids : List ParserId} (hlive : ∀ id ∈ ids, g.contains id)
    (hnodup : ids.Nodup) :
    (g.discard ids).live = g.live - ids.length ∧ (g.discard ids).maxDepth = g.maxDepth := by
  induction ids generalizing g with
  | nil => exact ⟨rfl, rfl⟩
  | cons id ids ih =>
    obtain ⟨hnew, hnodup⟩ := List.nodup_cons.1 hnodup
    obtain ⟨node, hnode⟩ := Option.isSome_iff_exists.1 (hlive id List.mem_cons_self)
    have hr : ∃ g', g.release? id = some (node, g') := by
      rw [release?, hnode]
      exact ⟨_, rfl⟩
    obtain ⟨g', hr⟩ := hr
    obtain ⟨hcount, hdepth⟩ := release?_live hr
    -- the ids differ, so releasing the first leaves the others
    have hlive' : ∀ id' ∈ ids, g'.contains id' := by
      intro id' hid'
      have hne : id' ≠ id := fun he => hnew (he ▸ hid')
      rw [contains, node?_release? hr, if_neg hne]
      exact hlive id' (List.mem_cons_of_mem _ hid')
    obtain ⟨hcount', hdepth'⟩ := ih hlive' hnodup
    have hcons : g.discard (id :: ids) = g'.discard ids := by
      rw [discard, List.foldl_cons, hr]
      rfl
    rw [hcons, List.length_cons]
    exact ⟨by omega, hdepth'.trans hdepth⟩

end Graph

/-! ## What constructors add -/

namespace Build

variable {g g' : Graph} {id : ParserId}

/-- A constructor adds its node, over operands that live. -/
theorem insert_eq_ok {kind : Kind} (hsound : g.Sound) (h : insert kind g = .ok id g') :
    g.Added id ⟨none, kind⟩ g' ∧ ∀ o ∈ kind.operands, g.contains o := by
  unfold insert at h
  split at h
  · exact nomatch h
  · next hnone =>
    cases h
    refine ⟨Graph.place_added hsound _, fun o ho => ?_⟩
    simpa using List.find?_eq_none.1 hnone o ho

/-- A repetition is added when its bounds are in order. -/
theorem repetition_eq_ok {part : ParserId} {min : Nat} {max : Option Nat}
    (h : repetition part min max g = .ok id g') :
    insert (.repetition part min max) g = .ok id g' := by
  unfold repetition at h
  split at h
  · split at h
    · exact nomatch h
    · exact h
  · exact h

/-- Naming replaces a node that lives. -/
theorem named_eq_ok {name : String} {id' : ParserId} (h : named id name g = .ok id' g') :
    id' = id ∧ ∃ node, g.node? id = some node ∧
      g' = g.replace id { node with name := some name } := by
  unfold named at h
  split at h
  · next node hnode =>
    cases h
    exact ⟨rfl, node, hnode, rfl⟩
  · exact nomatch h

/-- A node that is named at once is added under its name. -/
theorem insert_named_eq_ok {kind : Kind} {name : String} (hsound : g.Sound)
    (h : (insert kind >>= fun id => named id name) g = .ok id g') :
    g.Added id ⟨some name, kind⟩ g' := by
  change EStateM.bind (insert kind) (fun id => named id name) g = .ok id g' at h
  unfold EStateM.bind at h
  split at h
  · next id₁ g₁ hinsert =>
    obtain ⟨hadd, -⟩ := insert_eq_ok hsound hinsert
    obtain ⟨rfl, node, hnode, rfl⟩ := named_eq_ok h
    have hsame : g₁.node? id = some ⟨none, kind⟩ := hadd.node?_self
    cases hsame.symm.trans hnode
    -- the name replaces what was added under the same id
    refine ⟨Graph.sound_replace hadd.sound hsame _, hadd.fresh, fun id' => ?_, hadd.live_eq,
      hadd.maxDepth_eq⟩
    rw [Graph.node?_replace hsame, hadd.node?_eq]
    split <;> rfl
  · exact nomatch h

/-- A placeholder is added under its name. -/
theorem rule_eq_ok {name : String} (hsound : g.Sound) (h : rule name g = .ok id g') :
    g.Added id ⟨some name, .rule none⟩ g' :=
  insert_named_eq_ok hsound h

/-- A placeholder is placed without a name, and replaced at once by one that bears its name. -/
theorem rule_eq (hsound : g.Sound) (name : String) :
    rule name g = .ok (g.place ⟨none, .rule none⟩).1
      ((g.place ⟨none, .rule none⟩).2.replace (g.place ⟨none, .rule none⟩).1
        ⟨some name, .rule none⟩) := by
  have hnode : (g.place ⟨none, .rule none⟩).2.node? (g.place ⟨none, .rule none⟩).1 =
      some ⟨none, .rule none⟩ := (Graph.place_added hsound ⟨none, .rule none⟩).node?_self
  change named (g.place ⟨none, .rule none⟩).1 name (g.place ⟨none, .rule none⟩).2 = _
  rw [named, hnode]

end Build

end ParserGraph
