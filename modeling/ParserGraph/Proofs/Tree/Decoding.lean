import ParserGraph.Tree.Listing

/-!
# Decoding — a tree put together again from its rows

The rows of a listing are read from the last to the first. Trees that are
complete wait, each with its depth, until the row of their parent comes and
takes as many of them as it has children (`Tree.gather`). What waits lists as
the rows that were read (`Tree.flatMap_rowsFrom_of_gather`), and a listing is
read as the tree it lists, but for the byte offsets, which no row keeps
(`Tree.gather_rowsFrom`). Read are exactly the lists of rows whose depths and
numbers of children tell the same story (`Row.IsListing`).
-/

namespace ParserGraph

/-! ## Rows whose depths and numbers of children agree -/

namespace Row

/-- The rows right after one at a depth that lie deeper. -/
def deeper (depth : Nat) (rows : List Row) : List Row := rows.takeWhile (depth < ·.depth)

/-- The first of some rows, if there is any, lies no deeper than given. -/
def StartsWithin (depth : Nat) (rows : List Row) : Prop := ∀ r ∈ rows.head?, r.depth ≤ depth

/-- Depths and numbers of children agree: no row lies more than one deeper than the row before, and
each has as many children as there are rows one deeper among the deeper ones right after it. -/
def Agree : List Row → Prop
  | [] => True
  | r :: rows => StartsWithin (r.depth + 1) rows ∧
      r.children = (deeper r.depth rows).countP (·.depth = r.depth + 1) ∧ Agree rows

/-- Rows that can be the listing of one tree: the first is a root, no other is, and depths and
numbers of children agree. -/
def IsListing : List Row → Prop
  | [] => False
  | r :: rows => r.depth = 0 ∧ (∀ s ∈ rows, 0 < s.depth) ∧ Agree (r :: rows)

end Row

namespace Tree

/-! ## Trees up to byte offsets -/

mutual

/-- The tree with every byte offset set to zero, and all else as it is. -/
def withoutOffsets : Tree → Tree
  | ⟨tag, contents, position, children⟩ =>
    ⟨tag, contents, ⟨0, position.line, position.column⟩, withoutOffsetsAll children⟩

/-- Several trees with every byte offset set to zero. -/
def withoutOffsetsAll : List Tree → List Tree
  | [] => []
  | t :: ts => withoutOffsets t :: withoutOffsetsAll ts

end

/-! ## The decoder -/

/-- The node of a row over children; its byte offset, which the row does not keep, is zero. -/
def ofRow (r : Row) (children : List Tree) : Tree :=
  ⟨r.tag, r.contents, ⟨0, r.line, r.column⟩, children⟩

/-- A row takes its children from the trees that wait, which must be there and lie one deeper, and
its own tree waits in their place. -/
def adopt (r : Row) (waiting : List (Nat × Tree)) : Option (List (Nat × Tree)) :=
  let children := waiting.take r.children
  if children.length = r.children ∧ ∀ child ∈ children, child.1 = r.depth + 1 then
    some ((r.depth, ofRow r (children.map Prod.snd)) :: waiting.drop r.children)
  else none

/-- Reads rows from the last to the first; yields the trees that wait for a parent in the end, each
with its depth. -/
def gather : List Row → Option (List (Nat × Tree))
  | [] => some []
  | r :: rows => (gather rows).bind (adopt r)

/-- The tree that rows list: just one tree is left in the end, and it is a root. -/
def ofRows? (rows : List Row) : Option Tree :=
  match gather rows with
  | some [(0, t)] => some t
  | _ => none

/-! ## Listings of trees at a depth -/

/-- The listing of a tree that lies at a depth. -/
def rowsFrom (depth : Nat) (t : Tree) : List Row :=
  (preorderFrom depth t).map fun (depth, node) => node.row depth

/-- The listing of several trees at one depth. -/
def rowsAll (depth : Nat) (ts : List Tree) : List Row :=
  (preorderAll depth ts).map fun (depth, node) => node.row depth

variable {t : Tree} {ts : List Tree} {r : Row} {rows rest : List Row} {depth : Nat}
  {waiting waiting' : List (Nat × Tree)}

theorem rows_eq_rowsFrom (t : Tree) : t.rows = t.rowsFrom 0 := rfl

/-- A tree is listed as its root and then its children, one deeper. -/
theorem rowsFrom_eq (depth : Nat) (t : Tree) :
    t.rowsFrom depth = t.row depth :: rowsAll (depth + 1) t.children := by
  obtain ⟨tag, contents, position, children⟩ := t
  simp only [rowsFrom, preorderFrom, List.map_cons, rowsAll]

@[simp]
theorem rowsAll_nil (depth : Nat) : rowsAll depth [] = [] := rfl

@[simp]
theorem rowsAll_cons (depth : Nat) (t : Tree) (ts : List Tree) :
    rowsAll depth (t :: ts) = t.rowsFrom depth ++ rowsAll depth ts := by
  simp only [rowsAll, preorderAll, List.map_append, rowsFrom]

@[simp]
theorem withoutOffsetsAll_eq_map (ts : List Tree) :
    withoutOffsetsAll ts = ts.map withoutOffsets := by
  induction ts with
  | nil => rfl
  | cons t ts ih => rw [withoutOffsetsAll, ih, List.map_cons]

theorem rowsAll_eq_flatMap (depth : Nat) (ts : List Tree) :
    rowsAll depth ts = (ts.map (Prod.mk depth)).flatMap fun p => p.2.rowsFrom p.1 := by
  induction ts with
  | nil => rfl
  | cons t ts ih => rw [rowsAll_cons, ih, List.map_cons, List.flatMap_cons]

mutual

/-- No row of a tree lies less deep than the root. -/
theorem le_depth_rowsFrom (depth : Nat) : ∀ t : Tree, ∀ r ∈ t.rowsFrom depth, depth ≤ r.depth
  | ⟨tag, contents, position, children⟩ => by
    intro r hr
    rw [rowsFrom_eq] at hr
    rcases List.mem_cons.1 hr with rfl | hr
    · exact Nat.le_refl depth
    · have hle := le_depth_rowsAll (depth + 1) children r hr
      omega

theorem le_depth_rowsAll (depth : Nat) : ∀ ts : List Tree, ∀ r ∈ rowsAll depth ts, depth ≤ r.depth
  | [] => fun _ hr => absurd hr List.not_mem_nil
  | t :: ts => by
    intro r hr
    rw [rowsAll_cons] at hr
    rcases List.mem_append.1 hr with hr | hr
    · exact le_depth_rowsFrom depth t r hr
    · exact le_depth_rowsAll depth ts r hr

end

/-! ## A listing is read as the tree it lists -/

/-- A row takes as many trees as it has children, if they lie one deeper. -/
theorem adopt_eq_some_iff : adopt r waiting = some waiting' ↔
    ∃ ts others, ts.length = r.children ∧ waiting = ts.map (Prod.mk (r.depth + 1)) ++ others ∧
      waiting' = (r.depth, ofRow r ts) :: others := by
  unfold adopt
  constructor
  · intro h
    dsimp only at h
    split at h
    · next hchildren =>
      have hdepths : ((waiting.take r.children).map Prod.snd).map (Prod.mk (r.depth + 1)) =
          waiting.take r.children := by
        rw [List.map_map]
        refine (List.map_congr_left fun p hp => ?_).trans (List.map_id _)
        exact Prod.ext (hchildren.2 p hp).symm rfl
      refine ⟨(waiting.take r.children).map Prod.snd, waiting.drop r.children, ?_, ?_, ?_⟩
      · rw [List.length_map]
        exact hchildren.1
      · rw [hdepths, List.take_append_drop]
      · exact (Option.some.inj h).symm
    · exact nomatch h
  · rintro ⟨ts, others, hlength, rfl, rfl⟩
    have htake : (ts.map (Prod.mk (r.depth + 1)) ++ others).take r.children =
        ts.map (Prod.mk (r.depth + 1)) := by
      rw [← hlength]
      simp
    have hdrop : (ts.map (Prod.mk (r.depth + 1)) ++ others).drop r.children = others := by
      rw [← hlength]
      simp
    simp only [htake, hdrop]
    rw [if_pos ⟨by rw [List.length_map, hlength], by simp⟩]
    simp [Function.comp_def]

mutual

/-- Read from the last row on, a tree waits for its parent once its root was read. -/
theorem gather_rowsFrom (depth : Nat) (rest : List Row) : ∀ t : Tree,
    gather (t.rowsFrom depth ++ rest) = (gather rest).map ((depth, t.withoutOffsets) :: ·)
  | ⟨tag, contents, position, children⟩ => by
    rw [rowsFrom_eq, List.cons_append, gather, gather_rowsAll (depth + 1) rest children]
    cases gather rest with
    | none => rfl
    | some waiting =>
      rw [Option.map_some, Option.bind_some, Option.map_some, adopt_eq_some_iff]
      refine ⟨children.map withoutOffsets, waiting, List.length_map _, ?_, ?_⟩
      · rw [List.map_map]
        rfl
      · rw [withoutOffsets, withoutOffsetsAll_eq_map]
        rfl

theorem gather_rowsAll (depth : Nat) (rest : List Row) : ∀ ts : List Tree,
    gather (rowsAll depth ts ++ rest) =
      (gather rest).map (ts.map (fun t => (depth, t.withoutOffsets)) ++ ·)
  | [] => by simp
  | t :: ts => by
    rw [rowsAll_cons, List.append_assoc, gather_rowsFrom depth _ t, gather_rowsAll depth rest ts,
      Option.map_map]
    rfl

end

/-- One tree is left in the end, and it is a root. -/
theorem ofRows?_eq_some_iff : ofRows? rows = some t ↔ gather rows = some [(0, t)] := by
  unfold ofRows?
  split
  · next t' hgather => simp [hgather]
  · next hgather => exact iff_of_false (fun h => nomatch h) (hgather t)

/-- **A listing is read as the tree it lists**, but for byte offsets. -/
theorem ofRows?_rows (t : Tree) : ofRows? t.rows = some t.withoutOffsets := by
  have hgather := gather_rowsFrom 0 [] t
  rw [List.append_nil, gather, Option.map_some, ← rows_eq_rowsFrom] at hgather
  exact ofRows?_eq_some_iff.2 hgather

/-! ## What is read lists as the rows that were read -/

/-- The node of a row is listed as the row, if it was given as many children as the row has. -/
theorem row_ofRow (h : ts.length = r.children) : (ofRow r ts).row r.depth = r := by
  obtain ⟨depth, tag, contents, line, column, children⟩ := r
  cases h
  rfl

/-- **The trees that wait list as the rows that were read.** -/
theorem flatMap_rowsFrom_of_gather (h : gather rows = some waiting) :
    waiting.flatMap (fun p => p.2.rowsFrom p.1) = rows := by
  induction rows generalizing waiting with
  | nil =>
    cases h
    rfl
  | cons r rows ih =>
    obtain ⟨before, hbefore, hadopt⟩ := Option.bind_eq_some_iff.1 h
    obtain ⟨ts, others, hlength, rfl, rfl⟩ := adopt_eq_some_iff.1 hadopt
    have hrows := ih hbefore
    rw [List.flatMap_append, ← rowsAll_eq_flatMap] at hrows
    rw [List.flatMap_cons, rowsFrom_eq, row_ofRow hlength, List.cons_append]
    exact congrArg (r :: ·) hrows

/-- **What is read lists as the rows.** -/
theorem rows_of_ofRows? (h : ofRows? rows = some t) : t.rows = rows := by
  have hrows := flatMap_rowsFrom_of_gather (ofRows?_eq_some_iff.1 h)
  rwa [List.flatMap_singleton] at hrows

/-! ## Which rows are read -/

/-- Where the rows that follow lie no deeper, those of several trees are the deeper ones. -/
theorem deeper_rowsAll (ts : List Tree) (h : Row.StartsWithin depth rest) :
    Row.deeper depth (rowsAll (depth + 1) ts ++ rest) = rowsAll (depth + 1) ts := by
  have hinside : ∀ r ∈ rowsAll (depth + 1) ts, decide (depth < r.depth) = true := by
    intro r hr
    exact decide_eq_true (le_depth_rowsAll (depth + 1) ts r hr)
  have houtside : rest.takeWhile (depth < ·.depth) = [] := by
    cases rest with
    | nil => rfl
    | cons r rest =>
      have hle : r.depth ≤ depth := h r rfl
      exact List.takeWhile_cons_of_neg (by simpa using hle)
  rw [Row.deeper, List.takeWhile_append_of_pos hinside, houtside, List.append_nil]

/-- Among the rows of several trees at a depth, just their roots lie at that depth. -/
theorem countP_rowsAll (depth : Nat) (ts : List Tree) :
    (rowsAll depth ts).countP (·.depth = depth) = ts.length := by
  induction ts with
  | nil => rfl
  | cons t ts ih =>
    have hbelow : (rowsAll (depth + 1) t.children).countP (·.depth = depth) = 0 := by
      refine List.countP_eq_zero.2 fun r hr => ?_
      have hle := le_depth_rowsAll (depth + 1) t.children r hr
      simp only [decide_eq_true_eq]
      omega
    have hroot : (t.row depth).depth = depth := rfl
    rw [rowsAll_cons, List.countP_append, ih, rowsFrom_eq, List.countP_cons, hbelow, hroot,
      List.length_cons]
    simp only [decide_true, if_true]
    omega

theorem startsWithin_rowsAll (ts : List Tree) (h : Row.StartsWithin depth rest) :
    Row.StartsWithin depth (rowsAll depth ts ++ rest) := by
  cases ts with
  | nil => exact h
  | cons t ts =>
    rw [rowsAll_cons, rowsFrom_eq]
    intro r hr
    cases hr
    exact Nat.le_refl depth

mutual

/-- In a listing, depths and numbers of children agree, whatever follows that lies no deeper. -/
theorem agree_rowsFrom (depth : Nat) {rest : List Row} (hrest : Row.StartsWithin depth rest)
    (hagree : Row.Agree rest) : ∀ t : Tree, Row.Agree (t.rowsFrom depth ++ rest)
  | ⟨tag, contents, position, children⟩ => by
    have hdeeper : Row.StartsWithin (depth + 1) rest := fun r hr => Nat.le_succ_of_le (hrest r hr)
    rw [rowsFrom_eq]
    refine ⟨startsWithin_rowsAll children hdeeper, ?_, agree_rowsAll (depth + 1) hdeeper hagree _⟩
    show children.length =
      (Row.deeper depth (rowsAll (depth + 1) children ++ rest)).countP (·.depth = depth + 1)
    rw [deeper_rowsAll children hrest, countP_rowsAll]

theorem agree_rowsAll (depth : Nat) {rest : List Row} (hrest : Row.StartsWithin depth rest)
    (hagree : Row.Agree rest) : ∀ ts : List Tree, Row.Agree (rowsAll depth ts ++ rest)
  | [] => hagree
  | t :: ts => by
    rw [rowsAll_cons, List.append_assoc]
    have hbehind := agree_rowsAll depth hrest hagree ts
    exact agree_rowsFrom depth (startsWithin_rowsAll ts hrest) hbehind t

end

/-- The listing of a tree is one. -/
theorem isListing_rows (t : Tree) : Row.IsListing t.rows := by
  have hnone : Row.StartsWithin 0 [] := fun r hr => absurd hr (by simp)
  have hagree : Row.Agree (t.rowsFrom 0 ++ []) := agree_rowsFrom 0 hnone trivial t
  rw [rowsFrom_eq, List.append_nil] at hagree
  rw [rows_eq_rowsFrom, rowsFrom_eq]
  exact ⟨rfl, le_depth_rowsAll 1 t.children, hagree⟩

/-- Trees that wait in order, none more than one deeper than a row, begin with those that lie one
deeper. -/
theorem exists_children (hsorted : (waiting.map Prod.fst).Pairwise (· ≥ ·))
    (hdepths : ∀ p ∈ waiting.head?, p.1 ≤ depth + 1) :
    ∃ (ts : List Tree) (others : List (Nat × Tree)),
      waiting = ts.map (Prod.mk (depth + 1)) ++ others ∧ ∀ p ∈ others, p.1 ≤ depth := by
  induction waiting with
  | nil => exact ⟨[], [], rfl, fun p hp => absurd hp List.not_mem_nil⟩
  | cons p waiting ih =>
    rw [List.map_cons, List.pairwise_cons] at hsorted
    have hp : p.1 ≤ depth + 1 := hdepths p rfl
    have hbehind : ∀ q ∈ waiting, q.1 ≤ p.1 := fun q hq => hsorted.1 q.1 (List.mem_map_of_mem hq)
    by_cases hchild : p.1 = depth + 1
    · obtain ⟨ts, others, rfl, hothers⟩ := ih hsorted.2 fun q hq =>
        Nat.le_trans (hbehind q (List.mem_of_mem_head? hq)) hp
      exact ⟨p.2 :: ts, others, by rw [List.map_cons, ← hchild]; rfl, hothers⟩
    · refine ⟨[], p :: waiting, rfl, List.forall_mem_cons.2 ⟨by omega, fun q hq => ?_⟩⟩
      have hle := hbehind q hq
      omega

/-- What waits begins where the rows do. -/
theorem startsWithin_flatMap : Row.StartsWithin depth (waiting.flatMap fun p => p.2.rowsFrom p.1) ↔
    ∀ p ∈ waiting.head?, p.1 ≤ depth := by
  cases waiting with
  | nil => exact iff_of_true (fun r hr => nomatch hr) (fun p hp => nomatch hp)
  | cons p waiting =>
    rw [List.flatMap_cons, rowsFrom_eq]
    simp [Row.StartsWithin, row]

/-- **Rows whose depths and numbers of children agree are read**, and what waits in the end is in
order of depth. -/
theorem exists_gather (h : Row.Agree rows) :
    ∃ waiting, gather rows = some waiting ∧ (waiting.map Prod.fst).Pairwise (· ≥ ·) := by
  induction rows with
  | nil => exact ⟨[], rfl, List.Pairwise.nil⟩
  | cons r rows ih =>
    obtain ⟨hstarts, hchildren, hagree⟩ := h
    obtain ⟨waiting, hgather, hsorted⟩ := ih hagree
    have hrows := flatMap_rowsFrom_of_gather hgather
    rw [← hrows] at hstarts
    obtain ⟨ts, others, rfl, hothers⟩ :=
      exists_children hsorted (startsWithin_flatMap.1 hstarts)
    -- the deeper rows right after the row are those of the trees that it is to take
    have hlength : ts.length = r.children := by
      have hrest : Row.StartsWithin r.depth (others.flatMap fun p => p.2.rowsFrom p.1) :=
        startsWithin_flatMap.2 fun p hp => hothers p (List.mem_of_mem_head? hp)
      rw [List.flatMap_append, ← rowsAll_eq_flatMap] at hrows
      rw [hchildren, ← hrows, deeper_rowsAll ts hrest, countP_rowsAll]
    have hadopt : adopt r (ts.map (Prod.mk (r.depth + 1)) ++ others) =
        some ((r.depth, ofRow r ts) :: others) :=
      adopt_eq_some_iff.2 ⟨ts, others, hlength, rfl, rfl⟩
    refine ⟨(r.depth, ofRow r ts) :: others, by rw [gather, hgather, Option.bind_some, hadopt], ?_⟩
    rw [List.map_append] at hsorted
    rw [List.map_cons, List.pairwise_cons]
    refine ⟨fun d hd => ?_, (List.pairwise_append.1 hsorted).2.1⟩
    obtain ⟨p, hp, rfl⟩ := List.mem_map.1 hd
    exact hothers p hp

/-- **Just the rows are read that can be a listing.** -/
theorem exists_ofRows?_iff : (∃ t, ofRows? rows = some t) ↔ Row.IsListing rows := by
  constructor
  · rintro ⟨t, h⟩
    rw [← rows_of_ofRows? h]
    exact isListing_rows t
  · intro h
    cases rows with
    | nil => exact h.elim
    | cons r rows =>
      obtain ⟨hroot, hbelow, hagree⟩ := h
      obtain ⟨waiting, hgather, hsorted⟩ := exists_gather hagree
      have hrows := flatMap_rowsFrom_of_gather hgather
      obtain ⟨before, hbefore, hadopt⟩ := Option.bind_eq_some_iff.1 hgather
      obtain ⟨ts, others, hlength, rfl, rfl⟩ := adopt_eq_some_iff.1 hadopt
      rw [List.flatMap_cons, rowsFrom_eq, row_ofRow hlength, List.cons_append,
        List.cons.injEq] at hrows
      -- another tree that waits would be a root among the rows after the first
      have hothers : others = [] := by
        cases others with
        | nil => rfl
        | cons p others =>
          have hsecond : p.2.row p.1 ∈ rows := by
            rw [← hrows.2, List.flatMap_cons, rowsFrom_eq p.1]
            simp
          have hdeep : 0 < p.1 := hbelow _ hsecond
          have hshallow : p.1 ≤ r.depth := (List.pairwise_cons.1 hsorted).1 p.1 (by simp)
          omega
      refine ⟨ofRow r ts, ofRows?_eq_some_iff.2 ?_⟩
      rw [hgather, hothers, hroot]

/-- Trees with the same listing are the same but for byte offsets. -/
theorem rows_eq_iff {t u : Tree} : t.rows = u.rows ↔ t.withoutOffsets = u.withoutOffsets := by
  constructor
  · intro h
    have hread := congrArg ofRows? h
    rw [ofRows?_rows, ofRows?_rows] at hread
    exact Option.some.inj hread
  · intro h
    have ht : t.withoutOffsets.rows = t.rows := rows_of_ofRows? (ofRows?_rows t)
    have hu : u.withoutOffsets.rows = u.rows := rows_of_ofRows? (ofRows?_rows u)
    rw [← ht, h, hu]

/-- **The listing of a tree determines it, but for byte offsets.** Trees list alike just where they
have the same tags, contents, lines, columns and children all the way down. A listing is read as its
tree, with every offset at zero. Whatever rows are read as a tree are its listing; and read are just
the lists of rows that start with a root, have no other, and whose depths and numbers of children
agree. -/
theorem rows_determine_tree :
    (∀ t u : Tree, t.rows = u.rows ↔ t.withoutOffsets = u.withoutOffsets) ∧
    (∀ t : Tree, ofRows? t.rows = some t.withoutOffsets) ∧
    (∀ rows t, ofRows? rows = some t → t.rows = rows) ∧
    ∀ rows, (∃ t, ofRows? rows = some t) ↔ Row.IsListing rows := by
  exact ⟨fun _ _ => rows_eq_iff, ofRows?_rows, fun _ _ => rows_of_ofRows?,
    fun _ => exists_ofRows?_iff⟩

/-- Rows three deep are read as a tree and listed as they were. Without the last row, or with one
more child told of the first, they are no listing. -/
theorem rows_determine_tree_nested :
    let inner : Row := ⟨1, "inner", "", 1, 1, 1⟩
    let a : Row := ⟨2, "", "a", 1, 1, 0⟩
    let b : Row := ⟨1, "", "b", 2, 1, 0⟩
    let t : Tree :=
      ⟨"", "", ⟨0, 1, 1⟩, [⟨"inner", "", ⟨0, 1, 1⟩, [leaf "a" ⟨0, 1, 1⟩]⟩, leaf "b" ⟨0, 2, 1⟩]⟩
    ofRows? [⟨0, "", "", 1, 1, 2⟩, inner, a, b] = some t ∧
      t.rows = [⟨0, "", "", 1, 1, 2⟩, inner, a, b] ∧
      ofRows? [⟨0, "", "", 1, 1, 2⟩, inner, a] = none ∧
      ¬ Row.IsListing [⟨0, "", "", 1, 1, 3⟩, inner, a, b] := by
  intro inner a b t
  have hread : ofRows? [⟨0, "", "", 1, 1, 2⟩, inner, a, b] = some t := rfl
  refine ⟨hread, rows_determine_tree.2.2.1 _ t hread, rfl, fun h => ?_⟩
  obtain ⟨u, hu⟩ := (rows_determine_tree.2.2.2 _).2 h
  exact nomatch hu

end Tree

end ParserGraph
