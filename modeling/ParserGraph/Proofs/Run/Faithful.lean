import ParserGraph.Proofs.Graph.Reach
import ParserGraph.Proofs.Run.Terminal
import ParserGraph.Proofs.Tree.Tiling

/-!
# Faithful runs — what a tree tells of the input it was matched against

Runs look ahead, take back what they tried, count a round that took nothing for
several, and take apart and drop the trees they made. Still every call that
matches leaves a tree that lies between the place it was made at and the place
it got to (`Graph.parse_tiling`), provided that trees are reshaped only in ways
that keep to that. So the tree of a run is faithful to what the run took, and
its leaves tell all of it unless some were dropped
(`Graph.run_faithful`).
-/

namespace ParserGraph

open ParserGraph.Tree (Tiling Reshapes)

/-- Calls of a parser match with trees that lie between the place before and the place after. -/
def Account.Tiles (R : Account) (lossy : Bool) (id : ParserId) : Prop :=
  ∀ c t d, R id c (some (t, d)) → Tiling lossy c [t] d

section

variable {R : Account} {lossy : Bool} {id : ParserId} {ids : List ParserId} {c d : Cursor}
  {t : Tree} {ts : List Tree}

/-- Calls one after another leave trees one after another. -/
theorem InOrder.tiling (hids : ∀ id ∈ ids, R.Tiles lossy id) (h : InOrder R ids c (some (ts, d))) :
    Tiling lossy c ts d := by
  induction ids generalizing c ts with
  | nil =>
    obtain ⟨rfl, rfl⟩ := h.nil_eq_some
    exact .nil (.refl lossy d)
  | cons id ids ih =>
    obtain ⟨hid, hids⟩ := List.forall_mem_cons.1 hids
    obtain ⟨t, mid, ts', ht, hrest, rfl⟩ := h.cons_eq_some
    exact (hid c t mid ht).append (ih hids hrest)

/-- Rounds leave trees one after another, also where one round counts for several. -/
theorem Rounds.tiling (hid : R.Tiles lossy id) {min : Nat} {max : Option Nat}
    (h : Rounds R id min max c (some (ts, d))) : Tiling lossy c ts d := by
  generalize hm : some (ts, d) = m at h
  induction h generalizing ts with
  | full =>
    split at hm
    · cases hm
      exact .nil (.refl lossy d)
    · exact nomatch hm
  | ends _ _ =>
    split at hm
    · cases hm
      exact .nil (.refl lossy d)
    · exact nomatch hm
  | stalls hround =>
    cases hm
    exact (hid _ _ _ hround).replicate _
  | again _ hround _ _ ih =>
    obtain ⟨ts', rfl, rfl⟩ := Match.mapResult_eq_some_iff.1 hm.symm
    exact (hid _ _ _ hround).append (ih rfl)

/-- **What a node comes to lies between the place before and the place after**, if that holds of its
operands and it reshapes trees in one of the ways that keep to it. -/
theorem Kind.Yields.tiling (hR : R.EndsAfter) {kind : Kind}
    (hmapping : ∀ part mapping, kind = .transform part mapping → Reshapes lossy mapping)
    (hids : ∀ id ∈ kind.operands, R.Tiles lossy id) (h : kind.Yields R c (some (t, d))) :
    Tiling lossy c [t] d := by
  cases kind with
  | terminal terminal =>
    generalize hm : some (t, d) = m at h
    cases h with
    | terminal =>
      obtain ⟨n, hspan, he⟩ := Option.map_eq_some_iff.1 hm.symm
      cases he
      exact .leaf (c.reads_take (Terminal.span_le hspan))
  | sequence parts =>
    obtain ⟨ts, hparts, rfl⟩ := h.sequence_some
    exact (hparts.tiling hids).branch
  | alternation branches =>
    obtain ⟨id, hid, hbranch⟩ := h.alternation_some
    exact hids id hid c t d hbranch
  | repetition part min max =>
    obtain ⟨ts, hrounds, rfl⟩ := h.repetition_some
    exact (hrounds.tiling (hids part (List.mem_singleton_self part))).branch
  | optional part =>
    rcases h.optional_some with hpart | ⟨-, rfl, rfl⟩
    · exact hids part (List.mem_singleton_self part) c t d hpart
    · exact .empty lossy d
  | lookahead part negated =>
    generalize hm : some (t, d) = m at h
    cases h with
    | lookahead _ =>
      split at hm
      · exact nomatch hm
      · cases hm
        exact .empty lossy c
  | transform part mapping =>
    obtain ⟨t', hpart, rfl⟩ := h.transform_some
    exact (hmapping part mapping rfl).tiling
      (hids part (List.mem_singleton_self part) c t' d hpart)
  | token part =>
    obtain ⟨t', hpart, rfl⟩ := h.token_some
    obtain ⟨text, hreads⟩ := Cursor.exists_reads (hR.le hpart)
    rw [hreads.upTo]
    exact .leaf hreads
  | expect part label =>
    cases h with
    | expect hpart => exact hids part (List.mem_singleton_self part) c t d hpart
  | rule body =>
    generalize hm : some (t, d) = m at h
    cases h with
    | rule hbody =>
      subst hm
      exact hids _ (List.mem_singleton_self _) c t d hbody
    | undefined => exact nomatch hm

end

/-- A name changes no more than the tag of a tree. -/
theorem Node.tiling_label (node : Node) {lossy : Bool} {c d : Cursor} {t : Tree}
    (h : Tiling lossy c [t] d) : Tiling lossy c [node.label t] d := by
  unfold label
  split
  · exact h.tagged _
  · exact h

namespace Graph

variable {g : Graph} {lossy : Bool} {id : ParserId}

/-- The trees of all transformations that a parser leads to are reshaped in ways with a property. -/
def MapsBy (g : Graph) (id : ParserId) (P : (Tree → Tree) → Prop) : Prop :=
  ∀ q part mapping, g.Leads id q → g.kind? q = some (.transform part mapping) → P mapping

/-- What an operand leads to the parser leads to. -/
theorem MapsBy.of_operand {P : (Tree → Tree) → Prop} (h : g.MapsBy id P) {o : ParserId}
    (ho : o ∈ g.operands id) : g.MapsBy o P :=
  fun q part mapping hq hkind =>
    h q part mapping (.head (contains_of_mem_operands ho) ho hq) hkind

/-- **A call that matches leaves a tree that lies between the place it was made at and the place it
got to.** -/
theorem parse_tiling (hmaps : g.MapsBy id (Reshapes lossy)) (room : Nat) :
    (g.parse room).finishes.Tiles lossy id := by
  -- on the room, which the calls of the operands have less of
  induction room generalizing id with
  | zero => exact fun c t d h => absurd h not_parse_zero_finishes
  | succ room ih =>
    intro c t d h
    obtain ⟨node, hnode, m, hyields, hm⟩ := enter_finishes (parse_endsAfter g room) h
    obtain ⟨t', rfl, rfl⟩ := Match.mapResult_eq_some_iff.1 hm.symm
    have hcontains : g.contains id := contains_iff.2 ⟨node, hnode⟩
    refine node.tiling_label (hyields.tiling (parse_endsAfter g room) ?_ fun o ho => ?_)
    · intro part mapping hkind
      exact hmaps id part mapping (.refl hcontains) (by rw [kind?_of_node? hnode, hkind])
    · exact ih (hmaps.of_operand (operands_of_node? hnode ▸ ho))

/-- **The tree of a run is faithful to what the run took of the input**, and the leaves tell all of
it unless a first child or nothing may have been put in place of a tree. -/
theorem run_faithful {input : String} {t : Tree} (hmaps : g.MapsBy id (Reshapes true))
    (hrun : g.run id input = .ok (.ok t)) :
    ∃ taken stop kept, (Cursor.start input).Reads taken stop ∧
      (g.parse g.maxDepth id (Cursor.start input)).run none = .ok (.matched t stop, kept) ∧
      t.Faithful taken ∧
      (g.MapsBy id (fun mapping => mapping ≠ Tree.first ∧ mapping ≠ Tree.skip) →
        String.join (t.leafNodes.map Tree.contents) = String.ofList taken) := by
  obtain ⟨stop, kept, hparse⟩ : ∃ stop kept,
      (g.parse g.maxDepth id (Cursor.start input)).run none = .ok (.matched t stop, kept) := by
    rw [run] at hrun
    split at hrun
    · cases hrun
    · cases hrun
    · next stop kept hparse =>
      cases hrun
      exact ⟨stop, kept, hparse⟩
    · cases hrun
    · cases hrun
  have htiles : ∀ lossy, g.MapsBy id (Reshapes lossy) →
      Tiling lossy (Cursor.start input) [t] stop :=
    fun lossy hmaps => parse_tiling hmaps g.maxDepth _ t stop ⟨none, _, kept, hparse, rfl⟩
  obtain ⟨taken, hreads⟩ := Cursor.exists_reads (htiles true hmaps).le
  refine ⟨taken, stop, kept, hreads, hparse, (htiles true hmaps).faithful hreads, fun hkeeps => ?_⟩
  have hlossless : g.MapsBy id (Reshapes false) := fun q part mapping hq hkind =>
    (hmaps q part mapping hq hkind).lossless (hkeeps q part mapping hq hkind).1
      (hkeeps q part mapping hq hkind).2
  have hall := (htiles false hlossless).reads
  rw [List.flatMap_singleton] at hall
  rw [← String.toList_inj, String.toList_join, List.flatMap_map, String.toList_ofList,
    hreads.unique hall]

/-- A word of an `a` before which one looks ahead for `ab`, and at least three times a `b` or
nothing. -/
def padded : Graph :=
  ⟨#[.live 0 ⟨none, .terminal (.char 'a')⟩, .live 0 ⟨none, .terminal (.char 'b')⟩,
    .live 0 ⟨none, .sequence [⟨0, 0⟩, ⟨1, 0⟩]⟩, .live 0 ⟨none, .lookahead ⟨2, 0⟩ false⟩,
    .live 0 ⟨none, .optional ⟨1, 0⟩⟩, .live 0 ⟨none, .repetition ⟨4, 0⟩ 3 none⟩,
    .live 0 ⟨none, .sequence [⟨3, 0⟩, ⟨0, 0⟩, ⟨5, 0⟩]⟩,
    .live 0 ⟨some "word", .transform ⟨6, 0⟩ Tree.wrap⟩], [], 8, 256⟩

/-- What the word comes to at the start of `abc`: the text that was looked ahead for is told once,
and nothing that was taken for a `b` is there twice. -/
def paddedWord : Tree :=
  ⟨"word", "", ⟨0, 1, 1⟩, [.branch [.empty ⟨0, 1, 1⟩, .leaf "a" ⟨0, 1, 1⟩,
    .branch [.leaf "b" ⟨1, 1, 2⟩, .empty ⟨2, 1, 3⟩, .empty ⟨2, 1, 3⟩] ⟨1, 1, 2⟩] ⟨0, 1, 1⟩]⟩

theorem run_faithful_padded :
    padded.run ⟨7, 0⟩ "abc" = .ok (.ok paddedWord) ∧ paddedWord.Faithful ['a', 'b'] ∧
      String.join (paddedWord.leafNodes.map Tree.contents) = "ab" := by
  have hrun : padded.run ⟨7, 0⟩ "abc" = .ok (.ok paddedWord) := rfl
  have hparse : (padded.parse padded.maxDepth ⟨7, 0⟩ (Cursor.start "abc")).run none =
      .ok (.matched paddedWord ⟨['b', 'a'], ['c'], ⟨2, 1, 3⟩⟩, none) := rfl
  have hwrap : padded.MapsBy ⟨7, 0⟩ (· = Tree.wrap) := by
    intro q part mapping _ hkind
    obtain ⟨node, hnode, -⟩ := Option.map_eq_some_iff.1 hkind
    have hlive : padded.liveIds =
      [⟨0, 0⟩, ⟨1, 0⟩, ⟨2, 0⟩, ⟨3, 0⟩, ⟨4, 0⟩, ⟨5, 0⟩, ⟨6, 0⟩, ⟨7, 0⟩] := rfl
    have hq := mem_liveIds hnode
    simp only [hlive, List.mem_cons, List.not_mem_nil, or_false] at hq
    rcases hq with rfl | rfl | rfl | rfl | rfl | rfl | rfl | rfl <;> cases hkind
    rfl
  obtain ⟨taken, stop, kept, hreads, hparse', hfaithful, hspells⟩ :=
    run_faithful (fun q part mapping hq hkind => hwrap q part mapping hq hkind ▸ .wrap) hrun
  cases hparse.symm.trans hparse'
  have htaken : ['a', 'b'] = taken := List.append_cancel_right hreads.ahead
  subst htaken
  refine ⟨hrun, hfaithful, hspells fun q part mapping hq hkind => ?_⟩
  -- wrapping the empty node is neither its first child nor nothing
  rw [hwrap q part mapping hq hkind]
  exact ⟨fun h => absurd (congrFun h (.empty .start)) (by decide),
    fun h => absurd (congrFun h (.empty .start)) (by decide)⟩

end Graph

end ParserGraph
