import ParserGraph.Proofs.Tree.Flattening

/-!
# Normal trees — trees that folding has nothing to do for

Below the root of a normal tree there are tagged nodes, and anonymous leaves
with a text; only the root may be an anonymous inner node, or empty. Folding
takes just that node apart when it has become a part of another, so that parts
in normal form fold to a tree in normal form (`Tree.normal_fold`), which a tag
makes fit to stand below others (`Tree.kept_tagged`).
-/

namespace ParserGraph.Tree

variable {names : List String} {t : Tree} {ts : List Tree}

/-- A node that may stand below another one: an anonymous leaf with a text, or a node tagged with
some of the names, which has either a text or parts that may stand below it. -/
inductive Kept (names : List String) : Tree → Prop
  | text {contents : String} {position : Position} :
      contents ≠ "" → Kept names (.leaf contents position)
  | named {t : Tree} : t.tag ≠ "" →
      (∀ part ∈ components t.tag.toList, String.ofList part ∈ names) →
      t.contents = "" ∨ t.children = [] → (∀ child ∈ t.children, Kept names child) → Kept names t

/-- A tree in normal form: it may stand below another one, but for a root without tag and text. -/
inductive Normal (names : List String) : Tree → Prop
  | kept {t : Tree} : Kept names t → Normal names t
  | group {children : List Tree} {position : Position} :
      (∀ child ∈ children, Kept names child) → Normal names (.branch children position)

/-! ## Folding -/

/-- A node that may stand below another one is left there. -/
theorem Kept.splice_eq (h : Kept names t) : t.splice = [t] := by
  cases h with
  | text hcontents => exact splice_leaf _ hcontents
  | named htag => exact splice_of_tag_ne htag

theorem spliceAll_of_kept (h : ∀ t ∈ ts, Kept names t) : spliceAll ts = ts := by
  induction ts with
  | nil => rfl
  | cons t ts ih =>
    obtain ⟨ht, hts⟩ := List.forall_mem_cons.1 h
    rw [spliceAll, ht.splice_eq, ih hts, List.singleton_append]

/-- What a tree in normal form becomes below another one may stand there. -/
theorem Normal.kept_of_mem_splice (h : Normal names t) : ∀ child ∈ t.splice, Kept names child := by
  cases h with
  | kept h =>
    rw [h.splice_eq]
    exact List.forall_mem_singleton.2 h
  | @group children position hchildren =>
    rw [splice_branch, spliceAll_of_kept hchildren]
    exact hchildren

/-- **Trees in normal form fold to one in normal form.** -/
theorem normal_fold (h : ∀ t ∈ ts, Normal names t) (position : Position) :
    Normal names (branch ts position).fold := by
  have hkept : ∀ child ∈ spliceAll ts, Kept names child := by
    intro child hchild
    rw [spliceAll_eq_flatMap] at hchild
    obtain ⟨t, ht, hchild⟩ := List.mem_flatMap.1 hchild
    exact (h t ht).kept_of_mem_splice child hchild
  by_cases honly : ∃ only, spliceAll ts = [only]
  · obtain ⟨only, honly⟩ := honly
    rw [fold_of_only (t := branch ts position) rfl honly]
    exact .kept (hkept only (honly ▸ List.mem_singleton_self only))
  · rw [fold_of_not_only (t := branch ts position) fun hone => honly hone.2]
    exact .group hkept

/-- A leaf is in normal form, be it empty or not. -/
theorem normal_leaf (contents : String) (position : Position) :
    Normal names (.leaf contents position) := by
  by_cases h : contents = ""
  · subst h
    exact .group fun _ hmem => absurd hmem List.not_mem_nil
  · exact .kept (.text h)

/-! ## Tags -/

/-- A name without bars in front of a bar is the first component of a tag. -/
theorem components_append {name rest : List Char} (h : '|' ∉ name) :
    components (name ++ '|' :: rest) = name :: components rest := by
  induction name with
  | nil => rw [List.nil_append, components, if_pos rfl]
  | cons c name ih =>
    rw [List.mem_cons, not_or] at h
    rw [List.cons_append, components, if_neg (Ne.symm h.1), ih h.2]

theorem components_eq_singleton {name : List Char} (h : '|' ∉ name) : components name = [name] := by
  induction name with
  | nil => rfl
  | cons c name ih =>
    rw [List.mem_cons, not_or] at h
    rw [components, if_neg (Ne.symm h.1), ih h.2]

/-- A name without bars goes before the components that a tag had. -/
theorem components_tagged {name : String} (h : '|' ∉ name.toList) (t : Tree) :
    components (t.tagged name).tag.toList =
      name.toList :: if t.tag = "" then [] else components t.tag.toList := by
  rw [tagged, withTag]
  split
  · exact components_eq_singleton h
  · rw [String.toList_append, String.toList_append, List.append_assoc]
    exact components_append h

/-- **A tag makes a tree in normal form fit to stand below another.** -/
theorem kept_tagged {name : String} (hname : name ∈ names) (hne : name ≠ "")
    (hbar : '|' ∉ name.toList) (h : Normal names t) : Kept names (t.tagged name) := by
  -- the parts of the tree, and the names in its tag if it has one
  have hparts : (t.tag ≠ "" → ∀ part ∈ components t.tag.toList, String.ofList part ∈ names) ∧
      (t.contents = "" ∨ t.children = []) ∧ ∀ child ∈ t.children, Kept names child := by
    cases h with
    | kept h =>
      cases h with
      | text _ => exact ⟨fun htag => absurd rfl htag, Or.inr rfl, fun _ hmem => nomatch hmem⟩
      | named _ htag hcontents hchildren => exact ⟨fun _ => htag, hcontents, hchildren⟩
    | group hchildren => exact ⟨fun htag => absurd rfl htag, Or.inl rfl, hchildren⟩
  obtain ⟨htag, hcontents, hchildren⟩ := hparts
  refine .named ?_ ?_ hcontents hchildren
  · rw [tagged, withTag]
    split
    · exact hne
    · intro hempty
      simp at hempty
  · rw [components_tagged hbar]
    refine List.forall_mem_cons.2 ⟨by rwa [String.ofList_toList], ?_⟩
    split
    · exact fun _ hmem => absurd hmem List.not_mem_nil
    · next hne' => exact htag hne'

/-! ## Nodes -/

/-- **Every node of a tree that may stand below another may stand there itself.** -/
theorem Kept.of_mem_preorder (h : Kept names t) :
    ∀ node ∈ t.preorder.map Prod.snd, Kept names node := by
  induction h with
  | text hcontents => exact List.forall_mem_singleton.2 (.text hcontents)
  | @named t htag hparts hcontents hchildren ih =>
    intro node hnode
    rw [map_snd_preorder] at hnode
    rcases List.mem_cons.1 hnode with rfl | hnode
    · exact .named htag hparts hcontents hchildren
    · obtain ⟨child, hchild, hnode⟩ := List.mem_flatMap.1 hnode
      exact ih child hchild node hnode

end ParserGraph.Tree
