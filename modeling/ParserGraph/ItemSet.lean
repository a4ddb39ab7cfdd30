/-!
# Item sets — expected items in order, each once

What a parser expected is told in the order of code points and without
repetition. The order is part of the type, so two sets with the same items
are the same set (`ItemSet.ext_mem`).
-/

namespace ParserGraph

/-- A set of texts, kept in ascending order. -/
@[ext]
structure ItemSet where
  /-- The items, lowest first. -/
  items : List String
  /-- No item repeats and none is out of order. -/
  ascending : items.Pairwise (· < ·)

namespace ItemSet

instance : DecidableEq ItemSet := fun s t =>
  decidable_of_iff (s.items = t.items) ⟨ItemSet.ext, fun h => h ▸ rfl⟩

instance : Membership String ItemSet := ⟨fun s item => item ∈ s.items⟩

theorem mem_def {item : String} {s : ItemSet} : item ∈ s ↔ item ∈ s.items := Iff.rfl

instance (item : String) (s : ItemSet) : Decidable (item ∈ s) :=
  inferInstanceAs (Decidable (item ∈ s.items))

/-- The set without an item. -/
def empty : ItemSet := ⟨[], List.Pairwise.nil⟩

instance : Inhabited ItemSet := ⟨empty⟩

/-- The set of one item. -/
def singleton (item : String) : ItemSet := ⟨[item], List.pairwise_singleton _ _⟩

/-- Puts an item into ascending items, at its place. -/
def place (item : String) : List String → List String
  | [] => [item]
  | other :: rest =>
    if item < other then item :: other :: rest
    else if item = other then other :: rest
    else other :: place item rest

theorem mem_place {item x : String} {items : List String} :
    x ∈ place item items ↔ x = item ∨ x ∈ items := by
  induction items with
  | nil => simp [place]
  | cons other rest ih => grind [place]

theorem place_ascending {item : String} {items : List String} (h : items.Pairwise (· < ·)) :
    (place item items).Pairwise (· < ·) := by
  induction items with
  | nil => simp [place]
  | cons other rest ih =>
    obtain ⟨hother, hrest⟩ := List.pairwise_cons.1 h
    unfold place
    split
    · next hlt =>
      refine List.pairwise_cons.2 ⟨fun x hx => ?_, h⟩
      rcases List.mem_cons.1 hx with rfl | hx
      · exact hlt
      · exact String.lt_trans hlt (hother x hx)
    · split
      · exact h
      · next hlt hne =>
        refine List.pairwise_cons.2 ⟨fun x hx => ?_, ih hrest⟩
        rcases mem_place.1 hx with rfl | hx
        · exact Classical.byContradiction fun hno =>
            hne (String.le_antisymm (String.not_lt.1 hno) (String.not_lt.1 hlt))
        · exact hother x hx

/-- The set with one more item. -/
def insert (s : ItemSet) (item : String) : ItemSet :=
  ⟨place item s.items, place_ascending s.ascending⟩

/-- The items of either set. -/
def union (s t : ItemSet) : ItemSet := t.items.foldl insert s

/-- The set of the given items. -/
def ofList (items : List String) : ItemSet := items.foldl insert empty

/-! ## Which items a set holds -/

@[simp]
theorem not_mem_empty {x : String} : x ∉ empty := by simp [mem_def, empty]

@[simp]
theorem mem_singleton {x item : String} : x ∈ singleton item ↔ x = item := by
  simp [mem_def, singleton]

@[simp]
theorem mem_insert {x item : String} {s : ItemSet} : x ∈ s.insert item ↔ x = item ∨ x ∈ s :=
  mem_place

theorem mem_foldl_insert {x : String} {items : List String} {s : ItemSet} :
    x ∈ items.foldl insert s ↔ x ∈ s ∨ x ∈ items := by
  induction items generalizing s with
  | nil => simp
  | cons item items ih => simp [ih, or_assoc, or_left_comm]

@[simp]
theorem mem_union {x : String} {s t : ItemSet} : x ∈ s.union t ↔ x ∈ s ∨ x ∈ t :=
  mem_foldl_insert

/-- Ascending texts are determined by which texts they are. -/
theorem eq_of_ascending {left right : List String} (hl : left.Pairwise (· < ·))
    (hr : right.Pairwise (· < ·)) (h : ∀ x, x ∈ left ↔ x ∈ right) : left = right := by
  induction left generalizing right with
  | nil =>
    cases right with
    | nil => rfl
    | cons y ys => exact absurd ((h y).2 (by simp)) (by simp)
  | cons x xs ih =>
    cases right with
    | nil => exact absurd ((h x).1 (by simp)) (by simp)
    | cons y ys =>
      obtain ⟨hx, hxs⟩ := List.pairwise_cons.1 hl
      obtain ⟨hy, hys⟩ := List.pairwise_cons.1 hr
      have hxy : x = y := by
        rcases List.mem_cons.1 ((h x).1 (by simp)) with hxy | hmem
        · exact hxy
        · rcases List.mem_cons.1 ((h y).2 (by simp)) with hyx | hmem'
          · exact hyx.symm
          · exact absurd (String.lt_trans (hx y hmem') (hy x hmem)) (String.lt_irrefl x)
      subst hxy
      refine congrArg (x :: ·) (ih hxs hys fun z => ⟨fun hz => ?_, fun hz => ?_⟩)
      · rcases List.mem_cons.1 ((h z).1 (List.mem_cons_of_mem _ hz)) with rfl | hz'
        · exact absurd (hx z hz) (String.lt_irrefl z)
        · exact hz'
      · rcases List.mem_cons.1 ((h z).2 (List.mem_cons_of_mem _ hz)) with rfl | hz'
        · exact absurd (hy z hz) (String.lt_irrefl z)
        · exact hz'

/-- Sets with the same items are the same set. -/
theorem ext_mem {s t : ItemSet} (h : ∀ x, x ∈ s ↔ x ∈ t) : s = t :=
  ItemSet.ext (eq_of_ascending s.ascending t.ascending h)

end ItemSet

end ParserGraph
