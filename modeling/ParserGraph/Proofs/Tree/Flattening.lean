import Mathlib.Data.List.Basic
import ParserGraph.Proofs.Tree.Texts

/-!
# Flattening — what is left below a node, and what comes to the same

Flattening looks at each node below another in one of three ways: an empty one
goes, an anonymous inner one (`Tree.isGroup`) is taken apart, and any other is
kept as it is. So what is left are the nodes that only groups lie around, in
the order of the tree (`Tree.flatten_children`), and nothing is left to do for
them (`Tree.spliceAll_spliceAll`). Whatever takes groups apart before, or puts
a node into one more, comes to the same below (`Tree.Absorbed`).
-/

namespace ParserGraph.Tree

variable {t u : Tree} {ts us : List Tree}

/-- Whether the node is anonymous and has children. -/
def isGroup (t : Tree) : Bool := t.tag = "" && !t.isLeaf

/-! ## The three ways a node becomes others -/

theorem isEmpty_iff : t.isEmpty ↔ t.tag = "" ∧ t.contents = "" ∧ t.children = [] := by
  simp [isEmpty, and_assoc]

theorem isGroup_iff : t.isGroup ↔ t.tag = "" ∧ t.children ≠ [] := by
  simp [isGroup, isLeaf]

/-- An empty node has no children, so it is no group. -/
theorem not_isEmpty_of_isGroup (h : t.isGroup) : ¬ t.isEmpty := fun hempty =>
  (isGroup_iff.1 h).2 (isEmpty_iff.1 hempty).2.2

/-- An empty node leaves nothing. -/
theorem splice_of_isEmpty (h : t.isEmpty) : splice t = [] := by
  obtain ⟨tag, contents, position, children⟩ := t
  exact if_pos h

/-- A group leaves what its children do. -/
theorem splice_of_isGroup (h : t.isGroup) : splice t = spliceAll t.children := by
  have hempty : ¬ t.isEmpty := not_isEmpty_of_isGroup h
  obtain ⟨tag, contents, position, children⟩ := t
  exact (if_neg hempty).trans (if_pos h)

/-- Any other node stays as it is. -/
theorem splice_of_not_isGroup (hempty : ¬ t.isEmpty) (hgroup : ¬ t.isGroup) : splice t = [t] := by
  obtain ⟨tag, contents, position, children⟩ := t
  exact (if_neg hempty).trans (if_neg hgroup)

/-- A tree with a tag stays as it is. -/
theorem splice_of_tag_ne (h : t.tag ≠ "") : splice t = [t] :=
  splice_of_not_isGroup (fun hempty => h (isEmpty_iff.1 hempty).1)
    (fun hgroup => h (isGroup_iff.1 hgroup).1)

/-- So does a leaf with some text. -/
theorem splice_leaf {contents : String} (position : Position) (h : contents ≠ "") :
    splice (leaf contents position) = [leaf contents position] :=
  splice_of_not_isGroup (fun hempty => h (isEmpty_iff.1 hempty).2.1)
    (fun hgroup => (isGroup_iff.1 hgroup).2 rfl)

/-- An empty tree leaves nothing. -/
theorem splice_empty (position : Position) : splice (empty position) = [] := rfl

/-- A tree without a tag and without text leaves its parts. -/
theorem splice_branch (children : List Tree) (position : Position) :
    splice (branch children position) = spliceAll children := by
  cases children <;> rfl

theorem spliceAll_eq_flatMap (ts : List Tree) : spliceAll ts = ts.flatMap splice := by
  induction ts with
  | nil => rfl
  | cons t ts ih => rw [spliceAll, ih, List.flatMap_cons]

theorem spliceAll_append (ts ts' : List Tree) :
    spliceAll (ts ++ ts') = spliceAll ts ++ spliceAll ts' := by
  rw [spliceAll_eq_flatMap, spliceAll_eq_flatMap, spliceAll_eq_flatMap, List.flatMap_append]

/-! ## What is left -/

mutual

/-- What a tree leaves below another one is neither empty nor a group. -/
theorem kept_of_mem_splice :
    ∀ t : Tree, ∀ child ∈ splice t, ¬ child.isEmpty ∧ ¬ child.isGroup
  | ⟨tag, contents, position, children⟩ => by
    rw [splice]
    split
    · exact fun _ hchild => absurd hchild List.not_mem_nil
    · next hempty =>
      split
      · exact kept_of_mem_spliceAll children
      · next hgroup => exact List.forall_mem_singleton.2 ⟨hempty, hgroup⟩

theorem kept_of_mem_spliceAll :
    ∀ ts : List Tree, ∀ child ∈ spliceAll ts, ¬ child.isEmpty ∧ ¬ child.isGroup
  | [] => fun _ hchild => absurd hchild List.not_mem_nil
  | t :: ts => by
    rw [spliceAll]
    exact List.forall_mem_append.2 ⟨kept_of_mem_splice t, kept_of_mem_spliceAll ts⟩

end

/-- So it is left there. -/
theorem splice_of_mem_spliceAll (ts : List Tree) (child : Tree) (h : child ∈ spliceAll ts) :
    splice child = [child] :=
  have hkept := kept_of_mem_spliceAll ts child h
  splice_of_not_isGroup hkept.1 hkept.2

theorem spliceAll_spliceAll (ts : List Tree) : spliceAll (spliceAll ts) = spliceAll ts := by
  rw [spliceAll_eq_flatMap (spliceAll ts), List.flatMap_congr (splice_of_mem_spliceAll ts),
    List.flatMap_singleton']

/-- **What was flattened once is flat.** -/
theorem flatten_flatten (t : Tree) : t.flatten.flatten = t.flatten :=
  congrArg (fun children => { t with children }) (spliceAll_spliceAll t.children)

/-! ## Where it was -/

mutual

/-- The nodes of a tree, parents before their children, each with the nodes that it lies in,
innermost first. -/
def nodesIn (around : List Tree) : Tree → List (List Tree × Tree)
  | ⟨tag, contents, position, children⟩ =>
    (around, ⟨tag, contents, position, children⟩) ::
      nodesInAll (⟨tag, contents, position, children⟩ :: around) children

/-- The nodes of several trees, tree after tree, each with the nodes that it lies in. -/
def nodesInAll (around : List Tree) : List Tree → List (List Tree × Tree)
  | [] => []
  | t :: ts => nodesIn around t ++ nodesInAll around ts

end

/-- The nodes below the root, parents before their children, each with the nodes in between. -/
def descendants (t : Tree) : List (List Tree × Tree) := nodesInAll [] t.children

mutual

/-- They are the nodes of the listing, in its order, as deep as there are nodes around them. -/
theorem map_nodesIn (around : List Tree) : ∀ t : Tree,
    (nodesIn around t).map (fun p => (p.1.length, p.2)) = preorderFrom around.length t
  | ⟨tag, contents, position, children⟩ => by
    rw [nodesIn, preorderFrom, List.map_cons, map_nodesInAll]
    rfl

theorem map_nodesInAll (around : List Tree) : ∀ ts : List Tree,
    (nodesInAll around ts).map (fun p => (p.1.length, p.2)) = preorderAll around.length ts
  | [] => rfl
  | t :: ts => by
    rw [nodesInAll, preorderAll, List.map_append, map_nodesIn around t, map_nodesInAll around ts]

end

/-- The descendants of a tree are the nodes of its listing after the first. -/
theorem map_snd_descendants (t : Tree) :
    t :: t.descendants.map Prod.snd = t.preorder.map Prod.snd := by
  have hall : (nodesInAll [] t.children).map Prod.snd =
      ((nodesInAll [] t.children).map fun p => (p.1.length, p.2)).map Prod.snd := by
    rw [List.map_map]
    rfl
  rw [descendants, hall, map_nodesInAll, map_snd_preorderAll, map_snd_preorder]

/-- Whether flattening leaves a descendant: it is not empty, it is tagged or a leaf, and the nodes
in between are groups. -/
def isLeft (p : List Tree × Tree) : Bool :=
  !p.2.isEmpty && (decide (p.2.tag ≠ "") || p.2.isLeaf) && p.1.all isGroup

section IsLeft

variable {around : List Tree}

theorem isLeft_iff : isLeft (around, t) ↔
    ¬ t.isEmpty ∧ ¬ t.isGroup ∧ around.all isGroup := by
  have hgroup : (decide (t.tag ≠ "") || t.isLeaf) = !t.isGroup := by simp [isGroup]
  rw [isLeft, hgroup, Bool.and_eq_true, Bool.and_eq_true, Bool.not_eq_true', Bool.not_eq_true',
    Bool.not_eq_true, Bool.not_eq_true, and_assoc]

mutual

/-- Below a node that is no group all is left to that node. -/
theorem filter_nodesIn_of_not_all {around : List Tree} (h : ¬ around.all isGroup) :
    ∀ t : Tree, (nodesIn around t).filter isLeft = []
  | ⟨tag, contents, position, children⟩ => by
    have hbelow : ¬ (⟨tag, contents, position, children⟩ :: around).all isGroup := fun hall =>
      h (Bool.and_eq_true _ _ ▸ hall).2
    rw [nodesIn, List.filter_cons_of_neg fun hleft => h (isLeft_iff.1 hleft).2.2,
      filter_nodesInAll_of_not_all hbelow children]

theorem filter_nodesInAll_of_not_all {around : List Tree} (h : ¬ around.all isGroup) :
    ∀ ts : List Tree, (nodesInAll around ts).filter isLeft = []
  | [] => rfl
  | t :: ts => by
    rw [nodesInAll, List.filter_append, filter_nodesIn_of_not_all h t,
      filter_nodesInAll_of_not_all h ts, List.append_nil]

end

mutual

/-- Inside of groups, what a tree leaves are its nodes that flattening leaves. The cases are the
three ways: nothing is below an empty node, all below a group is still inside of groups, and nothing
below any other node is. -/
theorem map_snd_filter_nodesIn {around : List Tree} (h : around.all isGroup) :
    ∀ t : Tree, ((nodesIn around t).filter isLeft).map Prod.snd = splice t
  | ⟨tag, contents, position, children⟩ => by
    by_cases hempty : (⟨tag, contents, position, children⟩ : Tree).isEmpty
    · obtain rfl : children = [] := (isEmpty_iff.1 hempty).2.2
      rw [splice_of_isEmpty hempty, nodesIn,
        List.filter_cons_of_neg fun hleft => (isLeft_iff.1 hleft).1 hempty]
      rfl
    · by_cases hgroup : (⟨tag, contents, position, children⟩ : Tree).isGroup
      · have hbelow : (⟨tag, contents, position, children⟩ :: around).all isGroup := by
          rw [List.all_cons, hgroup, h]
          rfl
        rw [splice_of_isGroup hgroup, nodesIn,
          List.filter_cons_of_neg fun hleft => (isLeft_iff.1 hleft).2.1 hgroup]
        exact map_snd_filter_nodesInAll hbelow children
      · have hbelow : ¬ (⟨tag, contents, position, children⟩ :: around).all isGroup := fun hall =>
          hgroup (Bool.and_eq_true _ _ ▸ hall).1
        rw [splice_of_not_isGroup hempty hgroup, nodesIn,
          List.filter_cons_of_pos (isLeft_iff.2 ⟨hempty, hgroup, h⟩),
          filter_nodesInAll_of_not_all hbelow]
        rfl

theorem map_snd_filter_nodesInAll {around : List Tree} (h : around.all isGroup) :
    ∀ ts : List Tree, ((nodesInAll around ts).filter isLeft).map Prod.snd = spliceAll ts
  | [] => rfl
  | t :: ts => by
    rw [nodesInAll, List.filter_append, List.map_append, map_snd_filter_nodesIn h t,
      map_snd_filter_nodesInAll h ts, spliceAll]

end

end IsLeft

/-- **The children of a flattened tree** are its descendants that are neither empty nor groups and
have nothing but groups around them. -/
theorem flatten_children (t : Tree) :
    t.flatten.children = (t.descendants.filter isLeft).map Prod.snd :=
  (map_snd_filter_nodesInAll rfl t.children).symm

/-- Below a leaf there is nothing to flatten. -/
theorem flatten_of_isLeaf (h : t.children = []) : t.flatten = t := by
  obtain ⟨tag, contents, position, children⟩ := t
  obtain rfl : children = [] := h
  rfl

/-! ## Folding -/

/-- An anonymous tree with one node left below it folds to that node. -/
theorem fold_of_only {only : Tree} (htag : t.tag = "") (honly : t.flatten.children = [only]) :
    t.fold = only := by
  have hflat : t.flatten.tag = "" := htag
  simp [fold, first, hflat, honly]

/-- Any other tree is just flattened. -/
theorem fold_of_not_only (h : ¬ (t.tag = "" ∧ ∃ only, t.flatten.children = [only])) :
    t.fold = t.flatten := by
  refine if_neg fun honly => h ?_
  rw [Bool.and_eq_true, decide_eq_true_eq, decide_eq_true_eq, List.length_eq_one_iff] at honly
  exact honly

/-- So a leaf is left as it is. -/
theorem fold_of_isLeaf (h : t.children = []) : t.fold = t := by
  rw [fold_of_not_only, flatten_of_isLeaf h]
  rintro ⟨-, only, honly⟩
  rw [flatten_of_isLeaf h, h] at honly
  exact nomatch honly

/-- Folding is told by what the parts become. -/
theorem fold_branch_spliceAll (ts : List Tree) (p : Position) :
    (branch (spliceAll ts) p).fold = (branch ts p).fold := by
  have hflatten : (branch (spliceAll ts) p).flatten = (branch ts p).flatten :=
    flatten_flatten (branch ts p)
  rw [fold, fold, hflatten]

/-- **What was folded becomes what its parts become.** -/
theorem splice_fold_branch (ts : List Tree) (p : Position) :
    (branch ts p).fold.splice = spliceAll ts := by
  by_cases h : ∃ only, spliceAll ts = [only]
  · obtain ⟨only, honly⟩ := h
    rw [fold_of_only (t := branch ts p) rfl honly, honly]
    exact splice_of_mem_spliceAll ts only (honly ▸ List.mem_singleton_self only)
  · rw [fold_of_not_only (t := branch ts p) fun hone => h hone.2]
    exact (splice_branch _ _).trans (spliceAll_spliceAll ts)

/-- So what is folded last among parts may as well not be. -/
theorem fold_branch_fold (t : Tree) (ts : List Tree) (p q : Position) :
    (branch [t, (branch ts q).fold] p).fold = (branch (t :: ts) p).fold := by
  rw [← fold_branch_spliceAll, spliceAll, spliceAll, spliceAll, splice_fold_branch, List.append_nil,
    ← spliceAll, fold_branch_spliceAll]

/-! ## Nodes that come to the same below another -/

/-- Whether a node has not both a text and children. -/
def IsPlain (t : Tree) : Prop := t.contents = "" ∨ t.children = []

instance (t : Tree) : Decidable t.IsPlain :=
  inferInstanceAs (Decidable (t.contents = "" ∨ t.children = []))

/-- An anonymous tree that is plain has no text, or no children. -/
theorem IsPlain.cases_of_tag (h : t.IsPlain) (htag : t.tag = "") :
    t = branch t.children t.position ∨ t = leaf t.contents t.position := by
  obtain ⟨tag, contents, position, children⟩ := t
  obtain rfl : tag = "" := htag
  rcases h with h | h
  · obtain rfl : contents = "" := h
    exact .inl rfl
  · obtain rfl : children = [] := h
    exact .inr rfl

/-- What may take the place of a node below another: the node itself, an anonymous one flattened or
folded, or any node as the only one in a group. -/
inductive Absorbed : Tree → Tree → Prop
  | same (t : Tree) : Absorbed t t
  | flattened {t : Tree} : t.tag = "" → t.IsPlain → Absorbed t t.flatten
  | folded {t : Tree} : t.tag = "" → t.IsPlain → Absorbed t t.fold
  | wrapped (t : Tree) (position : Position) : Absorbed t (branch [t] position)

/-- It leaves what the node does. -/
theorem Absorbed.splice_eq (h : Absorbed t u) : splice u = splice t := by
  cases h with
  | same => rfl
  | flattened htag hplain =>
    rcases hplain.cases_of_tag htag with h | h
    · rw [h, splice_branch]
      exact (splice_branch _ _).trans (spliceAll_spliceAll _)
    · rw [h]
      rfl
  | folded htag hplain =>
    rcases hplain.cases_of_tag htag with h | h
    · rw [h, splice_fold_branch, splice_branch]
    · rw [h]
      rfl
  | wrapped position => rw [splice_branch, spliceAll, spliceAll, List.append_nil]

/-- **Nodes in whose place others stand that come to the same flatten to the same.** -/
theorem flatten_absorbed (h : List.Forall₂ Absorbed t.children us) :
    { t with children := us }.flatten = t.flatten := by
  have hsplice : spliceAll us = spliceAll t.children := by
    generalize t.children = ts at h
    induction h with
    | nil => rfl
    | cons hfirst _ ih => rw [spliceAll, spliceAll, hfirst.splice_eq, ih]
  rw [flatten, flatten, hsplice]

/-! ## Texts -/

/-- What the leaves of a tree hold together. -/
def leafText (t : Tree) : String := String.join (t.leafNodes.map contents)

/-- It is told by the texts. -/
theorem leafText_congr (h : t.texts = u.texts) : t.leafText = u.leafText :=
  String.ext (by rw [leafText, leafText, join_contents_leafNodes, join_contents_leafNodes, h])

theorem leafText_flatten (h : t.IsPlain) : t.flatten.leafText = t.leafText := by
  rcases h with h | h
  · exact leafText_congr (texts_flatten h)
  · rw [flatten_of_isLeaf h]

theorem leafText_fold (h : t.IsPlain) : t.fold.leafText = t.leafText := by
  rcases h with h | h
  · exact leafText_congr (texts_fold h)
  · rw [fold_of_isLeaf h]

/-- **The shape that flattening and folding leave.** A flattened tree has the tag, the text and the
place of the tree. Its children are, in the order of the listing, the descendants that are not
empty, are tagged or leaves, and have nothing but anonymous inner nodes between them and the root;
so none is empty or an anonymous inner node, and to flatten it again changes nothing. Nothing
changes either if before that some of the anonymous children are flattened or folded, or any are put
into a group of their own. An anonymous tree with one child left folds to it, and any other is just
flattened. And the leaves hold the same text together. -/
theorem flatten_fold_shape (t : Tree) :
    (t.flatten.tag = t.tag ∧ t.flatten.contents = t.contents ∧ t.flatten.position = t.position ∧
      t.flatten.children = (t.descendants.filter isLeft).map Prod.snd ∧
      t :: t.descendants.map Prod.snd = t.preorder.map Prod.snd) ∧
    (∀ child ∈ t.flatten.children, ¬ child.isEmpty ∧ ¬ child.isGroup) ∧
    t.flatten.flatten = t.flatten ∧
    (∀ us, List.Forall₂ Absorbed t.children us →
      { t with children := us }.flatten = t.flatten) ∧
    (∀ only, t.tag = "" → t.flatten.children = [only] → t.fold = only) ∧
    (¬ (t.tag = "" ∧ ∃ only, t.flatten.children = [only]) → t.fold = t.flatten) ∧
    (t.IsPlain → t.flatten.leafText = t.leafText ∧ t.fold.leafText = t.leafText) :=
  ⟨⟨rfl, rfl, rfl, flatten_children t, map_snd_descendants t⟩, kept_of_mem_spliceAll t.children,
    flatten_flatten t, fun _ => flatten_absorbed, fun _ => fold_of_only, fold_of_not_only,
    fun h => ⟨leafText_flatten h, leafText_fold h⟩⟩

/-- A group of an empty node, a group of a group, and a tagged node with a group in it. Only the
tagged one keeps its group; the others may be flattened or folded before, and the tagged one may be
put into a group. -/
theorem flatten_fold_shape_groups :
    let p : Position := ⟨0, 1, 1⟩
    let x := leaf "x" p
    let pair := branch [branch [x] p, empty p] p
    let named := (branch [branch [leaf "y" p] p] p).tagged "n"
    let t := branch [empty p, pair, named] p
    t.flatten.children = [x, named] ∧ t.fold = t.flatten ∧
    (branch [empty p, pair.fold, branch [named] p] p).flatten = t.flatten ∧
    pair.fold = x ∧ pair.IsPlain ∧ pair.fold.leafText = "x" ∧ t.fold.leafText = t.leafText := by
  intro p x pair named t
  have hplain : pair.IsPlain := .inl rfl
  have hpair := flatten_fold_shape pair
  have ht := flatten_fold_shape t
  have hchildren : t.flatten.children = [x, named] := rfl
  refine ⟨hchildren, ht.2.2.2.2.2.1 ?_, ht.2.2.2.1 [empty p, pair.fold, branch [named] p] ?_,
    hpair.2.2.2.2.1 x rfl rfl, hplain, (hpair.2.2.2.2.2.2 hplain).2.trans rfl,
    (ht.2.2.2.2.2.2 (.inl rfl)).2⟩
  · rintro ⟨-, only, honly⟩
    exact nomatch hchildren.symm.trans honly
  · exact .cons (.same _) (.cons (.folded rfl hplain) (.cons (.wrapped _ p) .nil))

end ParserGraph.Tree
