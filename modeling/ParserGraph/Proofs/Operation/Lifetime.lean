import ParserGraph.Proofs.Operation.Basic

/-!
# Lifetimes — what ids name in the course of a program

Whatever operations a program makes, refused ones included, the arena keeps
its accounts, and as long as no slot was released so often that its
generations come round, every id is given out once, names a node until it is
released, and nothing from then on (`Operation.runAll_lifetimes`).
-/

namespace ParserGraph

open Event

namespace Graph

/-- On its way a graph went through one for each beginning of its events. -/
theorem Past.exists_prefix {g : Graph} {es es' : List Event} (h : g.Past es) (hes : es' <+: es) :
    ∃ g' : Graph, g'.Past es' := by
  induction h with
  | empty => exact ⟨.empty, List.prefix_nil.1 hes ▸ .empty⟩
  | placed node hpast ih =>
    rcases List.prefix_concat_iff.1 hes with rfl | hes
    · exact ⟨_, hpast.placed node⟩
    · exact ih hes
  | released hpast hr ih =>
    rcases List.prefix_concat_iff.1 hes with rfl | hes
    · exact ⟨_, hpast.released hr⟩
    · exact ih hes
  | replaced _ _ _ ih => exact ih hes
  | limited _ _ ih => exact ih hes

end Graph

namespace Operation

theorem eventsFrom_append (g : Graph) (ops later : List Operation) :
    eventsFrom g (ops ++ later) =
      eventsFrom g ops ++ eventsFrom (ops.foldl (fun g op => op.run g) g) later := by
  induction ops generalizing g with
  | nil => rfl
  | cons op ops ih => rw [List.cons_append, eventsFrom, eventsFrom, ih, List.append_assoc]; rfl

/-- What happened before happened still when more operations are made. -/
theorem prefix_eventsAll_append (ops later : List Operation) :
    eventsAll ops <+: eventsAll (ops ++ later) := by
  rw [eventsAll, eventsAll, eventsFrom_append]
  exact List.prefix_append _ _

/-- **The arena of a program.** After any operations, the count is that of the slots that hold a
node, the stack lists the other slots, each once, and there are as many slots as nodes ever lived at
once, also in the course of an operation. As long as every slot has been released fewer times than
there are generations, no id is given out twice, those that name a node are those given out and not
released, and a released one names nothing whatever is done later. -/
theorem runAll_lifetimes (ops : List Operation) :
    (runAll ops).Past (eventsAll ops) ∧
      (runAll ops).live = (runAll ops).occupied ∧
      (∀ index, index ∈ (runAll ops).free ↔
        ∃ generation, (runAll ops).slots[index]? = some (.free generation)) ∧
      (runAll ops).free.Nodup ∧
      (runAll ops).live + (runAll ops).free.length = (runAll ops).slots.size ∧
      (∀ es (g : Graph), es <+: eventsAll ops → g.Past es → g.live ≤ (runAll ops).slots.size) ∧
      (∃ es, ∃ g : Graph, es <+: eventsAll ops ∧ g.Past es ∧ g.live = (runAll ops).slots.size) ∧
      ((∀ index, releases (eventsAll ops) index < 2 ^ 32) →
        (createdIds (eventsAll ops)).Nodup ∧
        (∀ id, (runAll ops).contains id ↔
          id ∈ createdIds (eventsAll ops) ∧ id ∉ releasedIds (eventsAll ops)) ∧
        ∀ earlier later id, ops = earlier ++ later → id ∈ releasedIds (eventsAll earlier) →
          (runAll ops).node? id = none) := by
  have hpast := past_runAll ops
  have harena := hpast.arena
  have hlive : ∀ es g, Graph.Past es g → population es = g.live :=
    fun es g h => h.arena.population_last
  refine ⟨hpast, harena.live_eq, harena.mem_free, harena.nodup_free, harena.size_eq,
    fun es g hes h => ?_, ?_, fun hfew => ?_⟩
  · rw [← hlive es g h]
    exact harena.population_le es hes
  · obtain ⟨es, hes, hsize⟩ := harena.exists_population
    obtain ⟨g, hg⟩ := hpast.exists_prefix hes
    exact ⟨es, g, hes, hg, (hlive es g hg).symm.trans hsize⟩
  · have hids := hpast.identities hfew
    refine ⟨hids.nodup_created, hids.contains_iff, fun earlier later id hops hid => ?_⟩
    have hreleased : id ∈ releasedIds (eventsAll ops) := by
      rw [hops]
      exact ((prefix_eventsAll_append earlier later).filterMap _).subset hid
    exact Option.not_isSome_iff_eq_none.1 fun hlive =>
      ((hids.contains_iff id).1 hlive).2 hreleased

/-- A node whose slot is taken by another after it was released. -/
def reuse : List Operation :=
  [.insert (.terminal .any), .cleanup [⟨0, 0⟩], .insert (.terminal .pass)]

/-- The slot is taken in its second generation, and the first id names nothing for good. -/
theorem runAll_lifetimes_reuse :
    eventsAll reuse = [.created ⟨0, 0⟩, .released ⟨0, 0⟩, .created ⟨0, 1⟩] ∧
      (∀ index, releases (eventsAll reuse) index < 2 ^ 32) ∧
      (runAll reuse).node? ⟨0, 0⟩ = none ∧ (runAll reuse).contains ⟨0, 1⟩ ∧
      (runAll reuse).slots.size = 1 := by
  have hevents : eventsAll reuse = [.created ⟨0, 0⟩, .released ⟨0, 0⟩, .created ⟨0, 1⟩] := by
    cbv
  have hearlier : eventsAll (reuse.take 2) = [.created ⟨0, 0⟩, .released ⟨0, 0⟩] := by
    cbv
  have hfew : ∀ index, releases (eventsAll reuse) index < 2 ^ 32 := by
    intro index
    rw [hevents]
    refine Nat.lt_of_le_of_lt List.countP_le_length ?_
    decide
  obtain ⟨-, -, -, -, -, -, -, hids⟩ := runAll_lifetimes reuse
  obtain ⟨-, hcontains, hreleased⟩ := hids hfew
  refine ⟨hevents, hfew, ?_, ?_, ?_⟩
  · refine hreleased (reuse.take 2) (reuse.drop 2) ⟨0, 0⟩ (List.take_append_drop 2 reuse).symm ?_
    rw [hearlier]
    decide
  · rw [hcontains, hevents]
    decide
  · cbv

end Operation

end ParserGraph
