import ParserGraph.Proofs.Grammar.Agreement
import ParserGraph.Proofs.Language.Definitions
import ParserGraph.Proofs.Tree.Normal

/-!
# Normal forms — what compiled trees look like

Every form of an expression either makes a leaf or folds its parts, so what an
expression evaluates to is in normal form if what its references come to is
(`normal_invariant`). A rule tags it with its name, which is a name of the
language and has no bars in it. So the trees of compiled rules have tagged
nodes below their root and leaves with a text, and nothing else
(`compile_run_normal`).
-/

namespace ParserGraph.Grammar

variable {names : List String} {ds : List Definition} {sensitive : Bool} {name : String}

/-- A name that a definition has is not empty, and there is no bar in it. -/
theorem name_of_definitions {dialect : Pattern.Dialect} {text : String}
    (h : definitions dialect text = .ok (.ok ds)) :
    ∀ d ∈ ds, d.name ≠ "" ∧ '|' ∉ d.name.toList := by
  intro d hd
  obtain ⟨n, hn⟩ := Language.exists_name_of_definitions h d hd
  rw [hn]
  refine ⟨fun hempty => ?_, fun hbar => ?_⟩
  · have hnil := congrArg String.toList hempty
    rw [String.toList_ofList] at hnil
    exact nomatch hnil
  · rw [String.toList_ofList] at hbar
    rcases List.mem_cons.1 hbar with hfirst | hothers
    · exact absurd (hfirst ▸ n.start) (by decide)
    · exact absurd (n.part _ hothers) (by decide)

/-- **What an expression evaluates to is in normal form.** -/
theorem normal_invariant (names : List String) (sensitive : Bool) :
    Invariant sensitive (fun _ t _ => t.Normal names) fun _ ts _ => ∀ t ∈ ts, t.Normal names where
  leaf := by
    intro c t stop taken _ h
    obtain ⟨n, -, hr⟩ := Option.map_eq_some_iff.1 h
    cases hr
    exact Tree.normal_leaf _ _
  empty := fun c => Tree.normal_leaf "" c.position
  nil := fun _ _ ht => absurd ht List.not_mem_nil
  cons := fun ht hts => List.forall_mem_cons.2 ⟨ht, hts⟩
  fold := fun hts => Tree.normal_fold hts _

/-- **What a rule evaluates to is a tree in normal form that is tagged with its name.** -/
theorem evaluate_normal {depth : Nat} {c stop : Cursor} {t : Tree}
    (hds : ∀ d ∈ ds, d.name ∈ names ∧ d.name ≠ "" ∧ '|' ∉ d.name.toList)
    (h : evaluate ds sensitive depth name c = some (some (t, stop))) :
    t.Kept names ∧ (Tree.components t.tag.toList).head? = some name.toList := by
  have htag : ∀ d ∈ ds, ∀ {t : Tree}, t.Normal names → (t.tagged d.name).Kept names := by
    intro d hd t ht
    obtain ⟨hmem, hne, hbar⟩ := hds d hd
    exact Tree.kept_tagged hmem hne hbar ht
  obtain ⟨d, hd, rfl, t', ht', rfl⟩ :=
    evaluate_keeps (normal_invariant names sensitive) (fun d hd _ _ _ ht => .kept (htag d hd ht)) h
  refine ⟨htag d hd ht', ?_⟩
  rw [Tree.components_tagged (hds d hd).2.2]
  rfl

/-- The tree that a run of a rule ends with is in normal form and is tagged with its name. -/
theorem kept_of_run {g : Graph} {rules : RuleTable} {id : ParserId} {input : String} {t : Tree}
    (hrules : Rules g sensitive rules ds)
    (hds : ∀ d ∈ ds, d.name ∈ names ∧ d.name ≠ "" ∧ '|' ∉ d.name.toList)
    (hget : rules.get? name = some id) (hrun : g.run id input = .ok (.ok t)) :
    t.Kept names ∧ (Tree.components t.tag.toList).head? = some name.toList := by
  obtain ⟨stop, room, hfinishes⟩ := Graph.settles_of_run hrun
  exact evaluate_normal hds (evaluate_of_finishes hrules hget hfinishes)

/-- **The trees of compiled rules are in normal form**, whatever dialect they are compiled in. The
tag of the root begins with the name of the rule, and every name in a tag of the tree is that of a
rule. Below the root, every node is tagged or is a leaf with a text; and no node has both a text
and parts. -/
theorem compile_run_normal {g g' : Graph} {dialect : Pattern.Dialect} {text : String}
    {compilation : Compilation} (hg : g.Built)
    (hcompile : compile dialect text [] sensitive g = .ok (.ok compilation) g') {id : ParserId}
    (hget : compilation.table.get? name = some id) {input : String} {t : Tree}
    (hrun : g'.run id input = .ok (.ok t)) :
    (Tree.components t.tag.toList).head? = some name.toList ∧
      (∀ node ∈ t.preorder, node.2.tag ≠ "" → ∀ part ∈ Tree.components node.2.tag.toList,
        String.ofList part ∈ compilation.table.names) ∧
      (∀ node ∈ t.preorder, 0 < node.1 →
        node.2.tag ≠ "" ∨ node.2.children = [] ∧ node.2.contents ≠ "") ∧
      ∀ node ∈ t.preorder, node.2.contents = "" ∨ node.2.children = [] := by
  obtain ⟨ds, draft, hdefs, rfl, -, hcomplete⟩ := compile_nil_eq_ok hg.sound hcompile
  have hds : ∀ d ∈ ds,
      d.name ∈ compilation.table.names ∧ d.name ≠ "" ∧ '|' ∉ d.name.toList := by
    intro d hd
    obtain ⟨id, body, hget, -, -⟩ := hcomplete.defined d hd
    exact ⟨RuleTable.mem_names.2 ⟨id, hget⟩, name_of_definitions hdefs d hd⟩
  obtain ⟨hkept, hname⟩ := kept_of_run hcomplete.rules hds hget hrun
  have hnodes : ∀ depth node, (depth, node) ∈ t.preorder → node.Kept compilation.table.names :=
    fun depth node hnode => hkept.of_mem_preorder node (List.mem_map_of_mem hnode)
  refine ⟨hname, fun ⟨depth, node⟩ hnode htag => ?_, fun ⟨depth, node⟩ hnode _ => ?_,
    fun ⟨depth, node⟩ hnode => ?_⟩
  · cases hnodes depth node hnode with
    | text _ => exact absurd rfl htag
    | named _ hparts _ _ => exact hparts
  · cases hnodes depth node hnode with
    | text hcontents => exact Or.inr ⟨rfl, hcontents⟩
    | named htag _ _ _ => exact Or.inl htag
  · cases hnodes depth node hnode with
    | text _ => exact Or.inr rfl
    | named _ _ hcontents _ => exact hcontents

/-- The tree of a recursive rule that matched twice: the rule below the root is tagged, and the
other part of the root is a leaf with a text. -/
theorem compile_run_normal_recursive :
    Graph.empty.Built ∧
      compile .plain "a:'x'a|'y';" [] false Graph.empty =
        .ok (.ok ⟨RuleTable.empty.insert "a" ⟨0, 0⟩, []⟩) recursiveGraph ∧
      recursiveGraph.run ⟨0, 0⟩ "x y " = .ok (.ok recursiveTree) ∧
      (Tree.components recursiveTree.tag.toList).head? = some ['a'] ∧
      ∀ node ∈ recursiveTree.preorder, 0 < node.1 →
        node.2.tag ≠ "" ∨ node.2.children = [] ∧ node.2.contents ≠ "" := by
  have hrun : recursiveGraph.run ⟨0, 0⟩ "x y " = .ok (.ok recursiveTree) := rfl
  have hget : (RuleTable.empty.insert "a" ⟨0, 0⟩).get? "a" = some ⟨0, 0⟩ := rfl
  obtain ⟨hname, -, hbelow, -⟩ := compile_run_normal .empty compile_recursive hget hrun
  exact ⟨.empty, compile_recursive, hrun, hname, hbelow⟩

end ParserGraph.Grammar
