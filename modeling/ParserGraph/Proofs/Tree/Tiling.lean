import ParserGraph.Proofs.Run.Location
import ParserGraph.Proofs.Tree.Texts

/-!
# Tilings — trees that lie one after another between two places of an input

A tree comes from a stretch of the input: it stands where the stretch starts,
reads its text there if it has one, and its children divide what is left among
them. `Tree.Tiling` says so of trees that lie one after another. A tiling leaves
nothing out, unless it is lossy, and then what a tree does not tell lies in
front of it, between its children or behind them. The ways to reshape a tree
that lose nothing keep both kinds of tilings (`Tree.Reshapes.tiling`); taking
the first child or nothing at all makes a tiling lossy.

What is known of a whole tree is read off its tiling: each node in it is a
tiling of its own stretch (`Tree.Tiling.of_mem_preorder`), the leaves follow
one another (`Tree.Tiling.pairwise_leafNodes`), and they tell all of the text if
nothing is left out (`Tree.Tiling.reads`).
-/

namespace ParserGraph

/-- Of two places, the one with the smaller offset is the smaller. -/
theorem Position.compare_of_lt {p q : Position} (h : p.offset < q.offset) :
    Ord.compare p q = .lt := by
  change Position.compare p q = .lt
  rw [Position.compare, Nat.compare_eq_lt.2 h]
  rfl

theorem Position.compare_self (p : Position) : Ord.compare p p = .eq := by
  change Position.compare p p = .eq
  simp [Position.compare]

namespace Cursor

variable {lossy : Bool} {c d e : Cursor}

/-- A place is not after those that are read later. -/
theorem isLE_compare (h : c ≤ d) : (Ord.compare c.position d.position).isLE := by
  rcases Nat.lt_or_ge c.position.offset d.position.offset with hlt | hge
  · rw [Position.compare_of_lt hlt]
    rfl
  · rw [eq_of_offset_le h hge, Position.compare_self]
    rfl

/-- Between a place and a later one there is a text. -/
theorem exists_reads (h : c ≤ d) : ∃ text, c.Reads text d := by
  obtain ⟨n, rfl⟩ := h
  rcases Nat.le_total n c.ahead.length with hle | hge
  · exact ⟨_, c.reads_take hle⟩
  · -- there are fewer characters left, and all of them are read
    refine ⟨c.ahead, ?_, (eq_of_length_le ?_ ?_)⟩
    · rw [ahead_advance, List.drop_eq_nil_of_le hge, List.append_nil]
    · exact ⟨n - c.ahead.length, by rw [advance_advance, Nat.add_sub_cancel' hge]⟩
    · rw [ahead_advance, List.drop_length]
      exact Nat.zero_le _

/-- One text is read between two places. -/
theorem Reads.unique {text text' : List Char} (h : c.Reads text d) (h' : c.Reads text' d) :
    text = text' :=
  List.append_cancel_right (h.ahead.symm.trans h'.ahead)

/-- A place meets the next one where nothing lies between them, or anything if some may be lost. -/
def Meets (lossy : Bool) (c d : Cursor) : Prop := c ≤ d ∧ (lossy = false → d = c)

namespace Meets

protected theorem refl (lossy : Bool) (c : Cursor) : c.Meets lossy c :=
  ⟨Cursor.le_refl c, fun _ => rfl⟩

protected theorem trans (h : c.Meets lossy d) (h' : d.Meets lossy e) : c.Meets lossy e :=
  ⟨Cursor.le_trans h.1 h'.1, fun hl => (h'.2 hl).trans (h.2 hl)⟩

theorem of_le (h : c ≤ d) : c.Meets true d := ⟨h, fun hl => nomatch hl⟩

theorem eq (h : c.Meets false d) : d = c := h.2 rfl

end Meets

end Cursor

namespace Tree

variable {lossy : Bool} {c d e : Cursor} {t : Tree} {ts us : List Tree}

/-- Trees that lie one after another between two places: each stands where its stretch starts, and
what follows its text is a tiling by its children, of which a node with a text has none. -/
inductive Tiling (lossy : Bool) : Cursor → List Tree → Cursor → Prop
  /-- Without trees, there is nothing between the places but what may be lost. -/
  | nil {c d : Cursor} : c.Meets lossy d → Tiling lossy c [] d
  /-- A tree goes before those that lie between the end of its stretch and the last place. -/
  | cons {c here mid stop e : Cursor} {t : Tree} {ts : List Tree} :
      c.Meets lossy here → t.position = here.position → here.Reads t.contents.toList mid →
      t.contents = "" ∨ t.children = [] → Tiling lossy mid t.children stop →
      Tiling lossy stop ts e → Tiling lossy c (t :: ts) e

namespace Tiling

/-! ## Joining tilings -/

theorem le (h : Tiling lossy c ts d) : c ≤ d := by
  induction h with
  | nil hmeets => exact hmeets.1
  | cons hmeets _ hreads _ _ _ hchildren hrest =>
    exact Cursor.le_trans hmeets.1 (Cursor.le_trans hreads.le (Cursor.le_trans hchildren hrest))

/-- What may be lost in front of a tiling is lost in front of its first tree. -/
theorem after (hmeets : c.Meets lossy d) (h : Tiling lossy d ts e) : Tiling lossy c ts e := by
  cases h with
  | nil hmeets' => exact .nil (hmeets.trans hmeets')
  | cons hmeets' hposition hreads heither hchildren hrest =>
    exact .cons (hmeets.trans hmeets') hposition hreads heither hchildren hrest

theorem append (h : Tiling lossy c ts d) (h' : Tiling lossy d us e) :
    Tiling lossy c (ts ++ us) e := by
  induction h with
  | nil hmeets => exact h'.after hmeets
  | cons hmeets hposition hreads heither hchildren _ _ ih =>
    exact .cons hmeets hposition hreads heither hchildren (ih h')

/-- What may be lost behind a tiling is lost behind its last tree. -/
theorem before (h : Tiling lossy c ts d) (hmeets : d.Meets lossy e) : Tiling lossy c ts e := by
  have happend := h.append (.nil hmeets)
  rwa [List.append_nil] at happend

/-- A tree on its own. -/
theorem single {here mid : Cursor} (hmeets : c.Meets lossy here)
    (hposition : t.position = here.position) (hreads : here.Reads t.contents.toList mid)
    (heither : t.contents = "" ∨ t.children = []) (hchildren : Tiling lossy mid t.children d) :
    Tiling lossy c [t] d :=
  .cons hmeets hposition hreads heither hchildren (.nil (.refl _ _))

/-- A tree and what follows it are tilings on their own. -/
theorem of_cons (h : Tiling lossy c (t :: ts) e) :
    ∃ mid, Tiling lossy c [t] mid ∧ Tiling lossy mid ts e := by
  cases h with
  | cons hmeets hposition hreads heither hchildren hrest =>
    exact ⟨_, .single hmeets hposition hreads heither hchildren, hrest⟩

/-- A tree that takes nothing may be there any number of times. -/
theorem replicate (h : Tiling lossy c [t] c) (n : Nat) :
    Tiling lossy c (List.replicate n t) c := by
  induction n with
  | zero => exact .nil (.refl lossy c)
  | succ n ih => exact h.append ih

/-! ## One tree -/

/-- A leaf over what was read. -/
theorem leaf {text : List Char} (h : c.Reads text d) :
    Tiling lossy c [.leaf (String.ofList text) c.position] d := by
  have hreads : c.Reads (String.ofList text).toList d := by rwa [String.toList_ofList]
  exact .single (.refl _ _) rfl hreads (Or.inr rfl) (.nil (.refl _ _))

/-- A node over trees that lie one after another. -/
theorem branch (h : Tiling lossy c ts d) : Tiling lossy c [.branch ts c.position] d :=
  .single (.refl _ _) rfl .nil (Or.inl rfl) h

theorem empty (lossy : Bool) (c : Cursor) : Tiling lossy c [.empty c.position] c :=
  branch (.nil (.refl lossy c))

theorem withTag (h : Tiling lossy c [t] d) (tag : String) : Tiling lossy c [t.withTag tag] d := by
  cases h with
  | cons hmeets hposition hreads heither hchildren hrest =>
    exact .cons hmeets hposition hreads heither hchildren hrest

theorem tagged (h : Tiling lossy c [t] d) (name : String) : Tiling lossy c [t.tagged name] d :=
  h.withTag _

/-- A node without a text can be replaced by its children. -/
theorem children (h : Tiling lossy c [t] d) (hcontents : t.contents = "") :
    Tiling lossy c t.children d := by
  cases h with
  | cons hmeets _ hreads _ hchildren hrest =>
    rw [hcontents] at hreads
    cases hreads.eq_of_nil
    cases hrest with
    | nil hmeets' => exact (hchildren.after hmeets).before hmeets'

theorem contents_eq_or (h : Tiling lossy c [t] d) : t.contents = "" ∨ t.children = [] := by
  cases h with
  | cons _ _ _ heither _ _ => exact heither

/-! ## Reshaping -/

/-- Taking the anonymous inner nodes apart and dropping the empty ones loses nothing. -/
theorem spliceAll (h : Tiling lossy c ts d) : Tiling lossy c (spliceAll ts) d := by
  -- a tree comes apart into its children, once those have come apart
  induction h with
  | nil hmeets => exact .nil hmeets
  | @cons c here mid stop e t ts hmeets hposition hreads heither hchildren _ ih ihrest =>
    have htree : Tiling lossy c [t] stop :=
      .single hmeets hposition hreads heither hchildren
    refine Tiling.append (d := stop) ?_ ihrest
    obtain ⟨tag, contents, position, children⟩ := t
    rw [splice]
    split
    · next hempty =>
      simp only [Bool.and_eq_true, decide_eq_true_eq, List.isEmpty_iff] at hempty
      have hnone := htree.children hempty.1.2
      rwa [show (Tree.mk tag contents position children).children = [] from hempty.2] at hnone
    · split
      · next hinner =>
        simp only [Bool.and_eq_true, Bool.not_eq_true', List.isEmpty_eq_false_iff] at hinner
        have hcontents : contents = "" := heither.resolve_right hinner.2
        subst hcontents
        cases hreads.eq_of_nil
        exact ih.after hmeets
      · exact htree

theorem flatten (h : Tiling lossy c [t] d) : Tiling lossy c [t.flatten] d := by
  cases h with
  | cons hmeets hposition hreads heither hchildren hrest =>
    refine .cons hmeets hposition hreads (heither.imp_right fun hnone => ?_) hchildren.spliceAll
      hrest
    rw [Tree.flatten, hnone]
    rfl

/-- The only child of a node takes its place. -/
theorem first_of_length_eq_one (h : Tiling lossy c [t] d) (honly : t.children.length = 1) :
    Tiling lossy c [t.first] d := by
  obtain ⟨only, hchildren⟩ := List.length_eq_one_iff.1 honly
  have hcontents : t.contents = "" := by
    refine h.contents_eq_or.resolve_right fun hnone => ?_
    rw [hnone] at hchildren
    exact nomatch hchildren
  have hone := h.children hcontents
  rw [hchildren] at hone
  rwa [first, hchildren]

theorem fold (h : Tiling lossy c [t] d) : Tiling lossy c [t.fold] d := by
  unfold Tree.fold
  dsimp only
  split
  · next honly =>
    rw [Bool.and_eq_true, decide_eq_true_eq, decide_eq_true_eq] at honly
    exact h.flatten.first_of_length_eq_one honly.2
  · exact h.flatten

theorem wrap (h : Tiling lossy c [t] d) : Tiling lossy c [t.wrap] d := by
  cases h with
  | @cons _ here _ _ _ _ _ hmeets hposition hreads heither hchildren hrest =>
    have htree : Tiling lossy here [t] d :=
      .cons (.refl _ _) hposition hreads heither hchildren hrest
    rw [Tree.wrap, hposition]
    exact htree.branch.after hmeets

/-- Nothing in place of a tree loses what it took. -/
theorem skip (h : Tiling true c [t] d) : Tiling true c [t.skip] d := by
  cases h with
  | @cons _ here _ _ _ _ _ hmeets hposition hreads _ hchildren hrest =>
    rw [Tree.skip, hposition]
    have hle : here ≤ d := Cursor.le_trans hreads.le (Cursor.le_trans hchildren.le hrest.le)
    exact ((empty true here).after hmeets).before (.of_le hle)

/-- The first child in place of a tree loses what the others took. -/
theorem first (h : Tiling true c [t] d) : Tiling true c [t.first] d := by
  cases hchildren : t.children with
  | nil =>
    rw [Tree.first, hchildren]
    exact h.skip
  | cons child others =>
    have hcontents : t.contents = "" :=
      h.contents_eq_or.resolve_right (hchildren ▸ List.cons_ne_nil child others)
    have hall := h.children hcontents
    rw [hchildren] at hall
    obtain ⟨mid, hfirst, hothers⟩ := hall.of_cons
    rw [Tree.first, hchildren]
    exact hfirst.before (.of_le hothers.le)

end Tiling

/-- The ways to reshape a tree, some of which lose a part of it. -/
inductive Reshapes : Bool → (Tree → Tree) → Prop
  | flatten {lossy : Bool} : Reshapes lossy Tree.flatten
  | fold {lossy : Bool} : Reshapes lossy Tree.fold
  | first : Reshapes true Tree.first
  | id {lossy : Bool} : Reshapes lossy id
  | skip : Reshapes true Tree.skip
  | withTag {lossy : Bool} (tag : String) : Reshapes lossy (·.withTag tag)
  | tagged {lossy : Bool} (name : String) : Reshapes lossy (·.tagged name)
  | wrap {lossy : Bool} : Reshapes lossy Tree.wrap

/-- Nothing is lost unless the first child is taken, or nothing at all. -/
theorem Reshapes.lossless {mapping : Tree → Tree} (h : Reshapes true mapping)
    (hfirst : mapping ≠ Tree.first) (hskip : mapping ≠ Tree.skip) : Reshapes false mapping := by
  cases h with
  | flatten => exact .flatten
  | fold => exact .fold
  | first => exact absurd rfl hfirst
  | id => exact .id
  | skip => exact absurd rfl hskip
  | withTag tag => exact .withTag tag
  | tagged name => exact .tagged name
  | wrap => exact .wrap

/-- **A reshaped tree lies where the tree did.** -/
theorem Reshapes.tiling {mapping : Tree → Tree} (hmapping : Reshapes lossy mapping)
    (h : Tiling lossy c [t] d) : Tiling lossy c [mapping t] d := by
  cases hmapping with
  | flatten => exact h.flatten
  | fold => exact h.fold
  | first => exact h.first
  | id => exact h
  | skip => exact h.skip
  | withTag tag => exact h.withTag tag
  | tagged name => exact h.tagged name
  | wrap => exact h.wrap

namespace Tiling

/-! ## Nodes and leaves -/

/-- **Each node of trees that lie one after another is a tiling of its own stretch**, which starts
where it stands. -/
theorem of_mem_preorder (h : Tiling lossy c ts d) :
    ∀ node ∈ ts.flatMap fun t => t.preorder.map Prod.snd, ∃ here stop,
      c ≤ here ∧ stop ≤ d ∧ node.position = here.position ∧ Tiling lossy here [node] stop := by
  induction h with
  | nil _ => exact fun node hmem => absurd hmem List.not_mem_nil
  | @cons c here mid stop e t ts hmeets hposition hreads heither hchildren hrest ih ihrest =>
    intro node hmem
    rw [List.flatMap_cons, map_snd_preorder] at hmem
    rcases List.mem_append.1 hmem with hmem | hmem
    · rcases List.mem_cons.1 hmem with rfl | hmem
      · exact ⟨here, stop, hmeets.1, hrest.le, hposition,
          .single (.refl _ _) hposition hreads heither hchildren⟩
      · obtain ⟨here', stop', hle, hstop, hnode⟩ := ih node hmem
        exact ⟨here', stop', Cursor.le_trans (Cursor.le_trans hmeets.1 hreads.le) hle,
          Cursor.le_trans hstop hrest.le, hnode⟩
    · obtain ⟨here', stop', hle, hstop, hnode⟩ := ihrest node hmem
      have hfront : c ≤ stop :=
        Cursor.le_trans hmeets.1 (Cursor.le_trans hreads.le hchildren.le)
      exact ⟨here', stop', Cursor.le_trans hfront hle, hstop, hnode⟩

/-- Each leaf reads its text where it stands. -/
theorem of_mem_leafNodes (h : Tiling lossy c ts d) {leaf : Tree}
    (hleaf : leaf ∈ ts.flatMap leafNodes) : ∃ here stop,
      c ≤ here ∧ stop ≤ d ∧ leaf.position = here.position ∧
        here.Reads leaf.contents.toList stop := by
  obtain ⟨t, ht, hleaf⟩ := List.mem_flatMap.1 hleaf
  have hnode : leaf ∈ t.preorder.map Prod.snd := (List.mem_filter.1 hleaf).1
  obtain ⟨front, stop, hfront, hstop, -, htiling⟩ :=
    h.of_mem_preorder leaf (List.mem_flatMap.2 ⟨t, ht, hnode⟩)
  cases htiling with
  | @cons _ here mid _ _ _ _ hmeets hposition hreads _ hchildren hrest =>
    exact ⟨here, mid, Cursor.le_trans hfront hmeets.1,
      Cursor.le_trans hchildren.le (Cursor.le_trans hrest.le hstop), hposition, hreads⟩

/-- **The leaves follow one another**: each ends before those after it start. -/
theorem pairwise_leafNodes (h : Tiling lossy c ts d) :
    (ts.flatMap leafNodes).Pairwise fun leaf later =>
      leaf.position.offset + bytes leaf.contents.toList ≤ later.position.offset := by
  induction h with
  | nil _ => exact .nil
  | @cons c here mid stop e t ts hmeets hposition hreads heither hchildren hrest ih ihrest =>
    have htree : Tiling lossy c [t] stop :=
      .single hmeets hposition hreads heither hchildren
    rw [List.flatMap_cons]
    refine List.pairwise_append.2 ⟨?_, ihrest, fun leaf hleaf later hlater => ?_⟩
    · by_cases hnone : t.children = []
      · rw [leafNodes_of_isLeaf hnone]
        exact List.pairwise_singleton _ _
      · rwa [leafNodes_of_ne_nil hnone]
    · -- a leaf of the tree ends where the tree does or before, and the others start behind it
      obtain ⟨front, back, -, hback, hleafposition, hleafreads⟩ :=
        htree.of_mem_leafNodes (by rwa [List.flatMap_singleton])
      obtain ⟨front', -, hfront', -, hlaterposition, -⟩ := hrest.of_mem_leafNodes hlater
      have hends := Cursor.offset_le (Cursor.le_trans hback hfront')
      rwa [hleafreads.position, Position.offset_after, ← hleafposition, ← hlaterposition] at hends

/-- **Where nothing is left out, the leaves tell all of the text.** -/
theorem reads (h : Tiling false c ts d) :
    c.Reads ((ts.flatMap leafNodes).flatMap fun leaf => leaf.contents.toList) d := by
  induction h with
  | nil hmeets =>
    cases hmeets.eq
    exact .nil
  | @cons c here mid stop e t ts hmeets hposition hreads heither hchildren _ ih ihrest =>
    cases hmeets.eq
    rw [List.flatMap_cons, List.flatMap_append]
    refine Cursor.Reads.trans (d := stop) ?_ ihrest
    by_cases hnone : t.children = []
    · rw [hnone] at ih
      cases ih.eq_of_nil
      rwa [leafNodes_of_isLeaf hnone, List.flatMap_singleton]
    · rw [heither.resolve_right hnone] at hreads
      cases hreads.eq_of_nil
      rwa [leafNodes_of_ne_nil hnone]

end Tiling

/-! ## Faithful trees -/

/-- A tree that tells of a text what it holds, and where. -/
structure Faithful (t : Tree) (text : List Char) : Prop where
  /-- Each leaf holds the slice of the text at its position. -/
  slices : ∀ leaf ∈ t.leafNodes, ∃ front back,
    text = front ++ leaf.contents.toList ++ back ∧ leaf.position = .behind front
  /-- Each leaf ends before those after it start. -/
  ordered : t.leafNodes.Pairwise fun leaf later =>
    leaf.position.offset + bytes leaf.contents.toList ≤ later.position.offset
  /-- Each node stands behind a beginning of the text. -/
  placed : ∀ node ∈ t.preorder.map Prod.snd, ∃ front, front <+: text ∧ node.position = .behind front
  /-- No node stands after a node below it. -/
  nested : ∀ node ∈ t.preorder.map Prod.snd, ∀ below ∈ node.preorder.map Prod.snd,
    (Ord.compare node.position below.position).isLE
  /-- A node with contents has no children. -/
  either : ∀ node ∈ t.preorder.map Prod.snd, node.contents = "" ∨ node.children = []

/-- **A tree that lies between the start of an input and a later place is faithful to what is read
from one to the other.** -/
theorem Tiling.faithful {input : String} {text : List Char}
    (h : Tiling lossy (.start input) [t] d) (hreads : (Cursor.start input).Reads text d) :
    t.Faithful text := by
  have hnodes : ∀ node ∈ t.preorder.map Prod.snd, ∃ here stop,
      Cursor.start input ≤ here ∧ stop ≤ d ∧ node.position = here.position ∧
        Tiling lossy here [node] stop := by
    have hall := h.of_mem_preorder
    rwa [List.flatMap_singleton] at hall
  -- what is read before a place and after it is the text
  have hsplit : ∀ here, Cursor.start input ≤ here → here ≤ d →
      ∃ front, here.position = .behind front ∧
        ∀ back, here.Reads back d → text = front ++ back := by
    intro here hfront hback
    obtain ⟨front, hfront⟩ := Cursor.exists_reads hfront
    exact ⟨front, hfront.position.trans (Position.after_start front),
      fun back hback => hreads.unique (hfront.trans hback)⟩
  constructor
  case slices =>
    intro leaf hleaf
    obtain ⟨here, stop, hfront, hback, hposition, hcontents⟩ :=
      h.of_mem_leafNodes (by rwa [List.flatMap_singleton])
    obtain ⟨front, hbehind, htext⟩ := hsplit here hfront (Cursor.le_trans hcontents.le hback)
    obtain ⟨back, hback⟩ := Cursor.exists_reads hback
    refine ⟨front, back, ?_, hposition.trans hbehind⟩
    rw [htext _ (hcontents.trans hback), List.append_assoc]
  case ordered =>
    have hall := h.pairwise_leafNodes
    rwa [List.flatMap_singleton] at hall
  case placed =>
    intro node hnode
    obtain ⟨here, stop, hfront, hback, hposition, htiling⟩ := hnodes node hnode
    have hle : here ≤ d := Cursor.le_trans htiling.le hback
    obtain ⟨front, hbehind, htext⟩ := hsplit here hfront hle
    obtain ⟨back, hback⟩ := Cursor.exists_reads hle
    exact ⟨front, ⟨back, (htext back hback).symm⟩, hposition.trans hbehind⟩
  case nested =>
    intro node hnode below hbelow
    obtain ⟨here, stop, -, -, hposition, htiling⟩ := hnodes node hnode
    obtain ⟨place, -, hle, -, hplace, -⟩ :=
      htiling.of_mem_preorder below (by rwa [List.flatMap_singleton])
    rw [hposition, hplace]
    exact Cursor.isLE_compare hle
  case either =>
    intro node hnode
    obtain ⟨here, stop, -, -, -, htiling⟩ := hnodes node hnode
    exact htiling.contents_eq_or

end Tree

end ParserGraph
