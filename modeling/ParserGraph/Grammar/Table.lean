import ParserGraph.Graph.Basic

/-!
# Rule tables — the rules of a grammar by name

A table lists parsers under names in the order of code points, each name
once. Putting a parser under a name that is taken replaces the one there.
-/

namespace ParserGraph

/-- Parsers by name, lowest name first. -/
@[ext]
structure RuleTable where
  /-- The names with their parsers. -/
  rules : List (String × ParserId)
  /-- No name repeats and none is out of order. -/
  ascending : (rules.map Prod.fst).Pairwise (· < ·)

namespace RuleTable

instance : DecidableEq RuleTable := fun s t =>
  decidable_of_iff (s.rules = t.rules) ⟨RuleTable.ext, fun h => h ▸ rfl⟩

/-- No names are in order. -/
theorem ascending_nil : (([] : List (String × ParserId)).map Prod.fst).Pairwise (· < ·) :=
  List.Pairwise.nil

/-- The table without a rule. -/
def empty : RuleTable := ⟨[], ascending_nil⟩

instance : Inhabited RuleTable := ⟨empty⟩

/-- Puts a parser under a name, at its place among ascending names. -/
def place (name : String) (id : ParserId) : List (String × ParserId) → List (String × ParserId)
  | [] => [(name, id)]
  | other :: rest =>
    if name < other.1 then (name, id) :: other :: rest
    else if name = other.1 then (name, id) :: rest
    else other :: place name id rest

theorem mem_map_fst_place {name x : String} {id : ParserId} {rules : List (String × ParserId)} :
    x ∈ (place name id rules).map Prod.fst ↔ x = name ∨ x ∈ rules.map Prod.fst := by
  induction rules with
  | nil => simp [place]
  | cons other rest ih =>
    unfold place
    split
    · simp
    · split
      · next heq => simp [heq]
      · rw [List.map_cons, List.mem_cons, ih, List.map_cons, List.mem_cons]
        exact or_left_comm

theorem place_ascending {name : String} {id : ParserId} {rules : List (String × ParserId)}
    (h : (rules.map Prod.fst).Pairwise (· < ·)) :
    ((place name id rules).map Prod.fst).Pairwise (· < ·) := by
  induction rules with
  | nil => simp [place]
  | cons other rest ih =>
    rw [List.map_cons] at h
    obtain ⟨hother, hrest⟩ := List.pairwise_cons.1 h
    unfold place
    split
    · next hlt =>
      refine List.pairwise_cons.2 ⟨fun x hx => ?_, h⟩
      rcases List.mem_cons.1 hx with rfl | hx
      · exact hlt
      · exact String.lt_trans hlt (hother x hx)
    · split
      · next heq => exact heq ▸ h
      · next hlt hne =>
        refine List.pairwise_cons.2 ⟨fun x hx => ?_, ih hrest⟩
        rcases mem_map_fst_place.1 hx with rfl | hx
        · exact Classical.byContradiction fun hno =>
            hne (String.le_antisymm (String.not_lt.1 hno) (String.not_lt.1 hlt))
        · exact hother x hx

/-- The table with a parser under a name. -/
def insert (t : RuleTable) (name : String) (id : ParserId) : RuleTable :=
  ⟨place name id t.rules, place_ascending t.ascending⟩

/-- The parser under a name. -/
def get? (t : RuleTable) (name : String) : Option ParserId := t.rules.lookup name

/-- The parser under a name that the table must have. -/
def get (t : RuleTable) (name : String) : Except Misuse ParserId :=
  match t.get? name with
  | some id => .ok id
  | none => .error (.noRule name)

/-- Whether there is a parser under a name. -/
def contains (t : RuleTable) (name : String) : Bool := (t.get? name).isSome

/-- The names in order. -/
def names (t : RuleTable) : List String := t.rules.map Prod.fst

/-- The parsers in the order of their names. -/
def roots (t : RuleTable) : List ParserId := t.rules.map Prod.snd

/-- How many rules there are. -/
def size (t : RuleTable) : Nat := t.rules.length

/-! ## What insertion does to lookups -/

@[simp]
theorem get?_empty (name : String) : empty.get? name = none := rfl

/-- The first rule is looked at first. -/
theorem lookup_cons_eq (rule : String × ParserId) (rules : List (String × ParserId))
    (x : String) :
    (rule :: rules).lookup x = if x = rule.1 then some rule.2 else rules.lookup x := by
  obtain ⟨name, id⟩ := rule
  by_cases h : x = name
  · subst h
    rw [List.lookup_cons_self, if_pos rfl]
  · rw [if_neg h, List.lookup_cons, beq_false_of_ne h]

theorem lookup_place (name x : String) (id : ParserId) (rules : List (String × ParserId)) :
    (place name id rules).lookup x = if x = name then some id else rules.lookup x := by
  induction rules with
  | nil => rw [place, lookup_cons_eq]
  | cons other rest ih =>
    unfold place
    split
    · rw [lookup_cons_eq]
    · split
      · next heq =>
        rw [lookup_cons_eq, lookup_cons_eq other, ← heq]
        split <;> rfl
      · next hne =>
        rw [lookup_cons_eq, lookup_cons_eq other, ih]
        by_cases h : x = other.1
        · rw [if_pos h, if_neg fun hx => hne (hx.symm.trans h), if_pos h]
        · rw [if_neg h, if_neg h]

/-- Insertion changes what is under its own name and nothing else. -/
theorem get?_insert (t : RuleTable) (name x : String) (id : ParserId) :
    (t.insert name id).get? x = if x = name then some id else t.get? x :=
  lookup_place name x id t.rules

end RuleTable

end ParserGraph
