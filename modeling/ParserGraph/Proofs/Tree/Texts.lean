import ParserGraph.Proofs.Run.Settled
import ParserGraph.Tree.Listing
import ParserGraph.Tree.Shape

/-!
# Texts of trees — what the leaves of a tree tell of the input

The texts of a tree are those of its leaves that have any, from left to right,
with the positions they claim (`Tree.texts`). Tagging, flattening and folding
move leaves between nodes and change none of them (`Tree.texts_fold`). Texts
that are read one after another, with nothing but gaps between them, spell
what lies between two places of an input (`Cursor.Spells`).
-/

namespace ParserGraph

namespace Tree

/-! ## Leaves from left to right -/

/-- The leaves of a tree, from left to right. -/
def leafNodes (t : Tree) : List Tree := (t.preorder.map Prod.snd).filter isLeaf

/-- The texts of the leaves that have any, with their positions. -/
def texts (t : Tree) : List (String × Position) :=
  (t.leafNodes.filter (·.contents ≠ "")).map fun leaf => (leaf.contents, leaf.position)

mutual

/-- The nodes of a tree do not depend on how deep it lies. -/
theorem map_snd_preorderFrom (depth : Nat) :
    ∀ t, (preorderFrom depth t).map Prod.snd = t.preorder.map Prod.snd
  | ⟨tag, contents, position, children⟩ => by
    rw [preorder, preorderFrom, preorderFrom, List.map_cons, List.map_cons,
      map_snd_preorderAll (depth + 1) children, map_snd_preorderAll (0 + 1) children]

theorem map_snd_preorderAll (depth : Nat) : ∀ ts,
    (preorderAll depth ts).map Prod.snd = ts.flatMap fun t => t.preorder.map Prod.snd
  | [] => rfl
  | t :: ts => by
    rw [preorderAll, List.map_append, map_snd_preorderFrom depth t, map_snd_preorderAll depth ts,
      List.flatMap_cons]

end

/-- The nodes of a tree are the tree and the nodes of its children. -/
theorem map_snd_preorder (t : Tree) :
    t.preorder.map Prod.snd = t :: t.children.flatMap fun t => t.preorder.map Prod.snd := by
  obtain ⟨tag, contents, position, children⟩ := t
  rw [preorder, preorderFrom, List.map_cons, map_snd_preorderAll]

theorem leafNodes_of_isLeaf {t : Tree} (h : t.children = []) : t.leafNodes = [t] := by
  have hleaf : t.isLeaf = true := by rw [isLeaf, h]; rfl
  rw [leafNodes, map_snd_preorder, h, List.flatMap_nil, List.filter_cons_of_pos hleaf,
    List.filter_nil]

/-- The leaves of an inner node are those of its children. -/
theorem leafNodes_of_ne_nil {t : Tree} (h : t.children ≠ []) :
    t.leafNodes = t.children.flatMap leafNodes := by
  have hinner : ¬ t.isLeaf = true := by rwa [isLeaf, List.isEmpty_iff]
  rw [leafNodes, map_snd_preorder, List.filter_cons_of_neg hinner, List.filter_flatMap]
  rfl

/-! ## Texts -/

theorem texts_of_isLeaf {t : Tree} (h : t.children = []) :
    t.texts = if t.contents = "" then [] else [(t.contents, t.position)] := by
  rw [texts, leafNodes_of_isLeaf h]
  by_cases hcontents : t.contents = ""
  · simp [hcontents]
  · simp [hcontents]

theorem texts_of_ne_nil {t : Tree} (h : t.children ≠ []) :
    t.texts = t.children.flatMap texts := by
  rw [texts, leafNodes_of_ne_nil h, List.filter_flatMap, List.map_flatMap]
  rfl

/-- A node that has no text of its own has those of its children. -/
theorem texts_of_contents {t : Tree} (h : t.contents = "") :
    t.texts = t.children.flatMap texts := by
  by_cases hchildren : t.children = []
  · rw [texts_of_isLeaf hchildren, if_pos h, hchildren, List.flatMap_nil]
  · exact texts_of_ne_nil hchildren

@[simp]
theorem texts_empty (position : Position) : (empty position).texts = [] :=
  texts_of_contents rfl

@[simp]
theorem texts_branch (ts : List Tree) (position : Position) :
    (branch ts position).texts = ts.flatMap texts :=
  texts_of_contents rfl

theorem texts_leaf (contents : String) (position : Position) :
    (leaf contents position).texts = if contents = "" then [] else [(contents, position)] :=
  texts_of_isLeaf rfl

/-- A tag changes no text. -/
@[simp]
theorem texts_tagged (t : Tree) (name : String) : (t.tagged name).texts = t.texts := by
  have htagged : (t.tagged name).children = t.children := rfl
  by_cases h : t.children = []
  · rw [texts_of_isLeaf h, texts_of_isLeaf (htagged.trans h)]
    rfl
  · rw [texts_of_ne_nil h, texts_of_ne_nil (htagged ▸ h), htagged]

/-! ## Flattening and folding -/

mutual

/-- What a child becomes has the texts of the child. -/
theorem flatMap_texts_splice : ∀ t : Tree, t.splice.flatMap texts = t.texts
  | ⟨tag, contents, position, children⟩ => by
    rw [splice]
    split
    · next hempty =>
      simp only [Bool.and_eq_true, decide_eq_true_eq] at hempty
      rw [texts_of_contents hempty.1.2, List.isEmpty_iff.1 hempty.2]
    · split
      · next hinner =>
        simp only [Bool.and_eq_true, Bool.not_eq_true', List.isEmpty_eq_false_iff] at hinner
        rw [flatMap_texts_spliceAll children, texts_of_ne_nil hinner.2]
      · rw [List.flatMap_singleton]

theorem flatMap_texts_spliceAll : ∀ ts : List Tree,
    (spliceAll ts).flatMap texts = ts.flatMap texts
  | [] => rfl
  | t :: ts => by
    rw [spliceAll, List.flatMap_append, flatMap_texts_splice t, flatMap_texts_spliceAll ts,
      List.flatMap_cons]

end

/-- **Flattening keeps the texts** of a node that has none of its own. -/
theorem texts_flatten {t : Tree} (h : t.contents = "") : t.flatten.texts = t.texts := by
  have hflat : t.flatten.contents = "" := h
  rw [texts_of_contents hflat, texts_of_contents h]
  exact flatMap_texts_spliceAll t.children

/-- **And so does folding.** -/
theorem texts_fold {t : Tree} (h : t.contents = "") : t.fold.texts = t.texts := by
  rw [← texts_flatten h]
  unfold fold
  dsimp only
  split
  · next honly =>
    rw [Bool.and_eq_true, decide_eq_true_eq, decide_eq_true_eq] at honly
    obtain ⟨only, hchildren⟩ := List.length_eq_one_iff.1 honly.2
    have hflat : t.flatten.contents = "" := h
    rw [texts_of_contents hflat, hchildren, List.flatMap_singleton, first, hchildren]
    rfl
  · rfl

/-- The texts tell what the leaves hold together. -/
theorem join_contents_leafNodes (t : Tree) :
    (String.join (t.leafNodes.map contents)).toList =
      t.texts.flatMap fun text => text.1.toList := by
  rw [texts, List.flatMap_map]
  induction t.leafNodes with
  | nil => rfl
  | cons leaf leaves ih =>
    rw [List.map_cons, String.join_cons, String.toList_append, ih]
    by_cases h : leaf.contents = ""
    · simp [h]
    · simp [h]

end Tree

/-! ## Texts between two places -/

namespace Cursor

variable {gap : Char → Bool} {c d e : Cursor} {texts texts' : List (String × Position)}

/-- What is ahead up to a place can be read. -/
theorem reads_take (c : Cursor) {n : Nat} (h : n ≤ c.ahead.length) :
    c.Reads (c.ahead.take n) (c.advance n) := by
  have hreads := Reads.of_ahead (List.take_append_drop n c.ahead).symm
  rwa [List.length_take, Nat.min_eq_left h] at hreads

/-- Texts that are read one after another, with gaps around them, spell what lies between two
places; the position of each is the one it is read at. -/
inductive Spells (gap : Char → Bool) : Cursor → List (String × Position) → Cursor → Prop
  /-- Behind the last text there is a gap. -/
  | gap {c d : Cursor} {blank : List Char} :
      c.Reads blank d → (∀ x ∈ blank, gap x) → Spells gap c [] d
  /-- A text stands behind a gap. -/
  | text {c mid d e : Cursor} {blank : List Char} {text : String}
      {texts : List (String × Position)} :
      c.Reads blank mid → (∀ x ∈ blank, gap x) → mid.Reads text.toList d → Spells gap d texts e →
      Spells gap c ((text, mid.position) :: texts) e

namespace Spells

protected theorem refl (gap : Char → Bool) (c : Cursor) : Spells gap c [] c :=
  .gap .nil fun _ hx => absurd hx List.not_mem_nil

/-- A gap in front is a gap in front of the first text. -/
theorem after {blank : List Char} (hread : c.Reads blank d) (hblank : ∀ x ∈ blank, gap x)
    (h : Spells gap d texts e) : Spells gap c texts e := by
  have happend : ∀ {blank' : List Char}, (∀ x ∈ blank', gap x) → ∀ x ∈ blank ++ blank', gap x :=
    fun hblank' x hx => (List.mem_append.1 hx).elim (hblank x) (hblank' x)
  cases h with
  | gap hread' hblank' => exact .gap (hread.trans hread') (happend hblank')
  | text hread' hblank' htext hrest =>
    exact .text (hread.trans hread') (happend hblank') htext hrest

/-- Texts between places that follow one another. -/
theorem append (h : Spells gap c texts d) (h' : Spells gap d texts' e) :
    Spells gap c (texts ++ texts') e := by
  induction h with
  | gap hread hblank => exact h'.after hread hblank
  | text hread hblank htext _ ih => exact .text hread hblank htext (ih h')

/-- A leaf over what was read, with a gap behind it. -/
theorem leaf {text blank : List Char} (hread : c.Reads text d) (hread' : d.Reads blank e)
    (hblank : ∀ x ∈ blank, gap x) :
    Spells gap c (Tree.leaf (String.ofList text) c.position).texts e := by
  have hrest : Spells gap d [] e := .gap hread' hblank
  rw [Tree.texts_leaf]
  split
  · next hempty =>
    have hnil : text = [] := by simpa using hempty
    subst hnil
    cases hread.eq_of_nil
    exact hrest
  · have htext : c.Reads (String.ofList text).toList d := by rwa [String.toList_ofList]
    exact .text .nil (fun _ hx => absurd hx List.not_mem_nil) htext hrest

/-- **The text between two places**: a gap, and a gap behind each of the texts. -/
theorem exists_gaps (h : Spells gap c texts d) :
    ∃ first gaps, gaps.length = texts.length ∧ (∀ w ∈ first :: gaps, ∀ x ∈ w, gap x) ∧
      c.Reads (first ++
        (List.zipWith (fun text w => text.1.toList ++ w) texts gaps).flatten) d := by
  induction h with
  | @gap c d blank hread hblank =>
    refine ⟨blank, [], rfl, fun w hw => ?_, ?_⟩
    · cases List.mem_singleton.1 hw
      exact hblank
    · rw [List.zipWith_nil_left, List.flatten_nil, List.append_nil]
      exact hread
  | @text c mid d e blank text texts hread hblank htext _ ih =>
    obtain ⟨first, gaps, hlength, hgaps, hrest⟩ := ih
    refine ⟨blank, first :: gaps, by rw [List.length_cons, hlength, List.length_cons],
      fun w hw => ?_, ?_⟩
    · rcases List.mem_cons.1 hw with rfl | hw
      · exact hblank
      · exact hgaps w hw
    · rw [List.zipWith_cons_cons, List.flatten_cons, List.append_assoc]
      exact hread.trans (htext.trans hrest)

/-- Without gaps, the texts alone. -/
theorem reads_of_no_gap (h : Spells (fun _ => false) c texts d) :
    c.Reads (texts.flatMap fun text => text.1.toList) d := by
  have hnone : ∀ {blank : List Char}, (∀ x ∈ blank, (fun _ : Char => false) x = true) →
      blank = [] :=
    fun hblank => List.eq_nil_iff_forall_not_mem.2 fun x hx =>
      absurd (hblank x hx) Bool.false_ne_true
  induction h with
  | gap hread hblank =>
    cases hnone hblank
    exact hread
  | text hread hblank htext _ ih =>
    cases hnone hblank
    cases hread.eq_of_nil
    rw [List.flatMap_cons]
    exact htext.trans ih

/-- **Each text is what the input holds at its position.** -/
theorem exists_slice {input : String} (h : Spells gap c texts d) (hc : start input ≤ c) :
    ∀ text ∈ texts, ∃ front back, input.toList = front ++ text.1.toList ++ back ∧
      bytes front = text.2.offset := by
  induction h with
  | gap _ _ => exact fun text hmem => absurd hmem List.not_mem_nil
  | @text c mid d e blank text texts hread hblank htext _ ih =>
    have hmid : start input ≤ mid := Cursor.le_trans hc hread.le
    intro text' hmem
    rcases List.mem_cons.1 hmem with rfl | hmem
    · refine ⟨mid.behind.reverse, d.ahead, ?_, ?_⟩
      · rw [← text_of_start_le hmid, htext.ahead, List.append_assoc]
      · rw [bytes_reverse, offset_of_start_le hmid]
    · exact ih (Cursor.le_trans hmid htext.le) text' hmem

end Spells

end Cursor

end ParserGraph
