import ParserGraph.Grammar.Reading

/-!
# Comparison — what a text states, by evaluation

Expressions may hold the programs of patterns, which are not compared.
Without patterns they can be told to be the same by looking at them
(`Expr.same`), so that what a text states is a matter of evaluation
(`definitions_of_states`).
-/

namespace ParserGraph.Grammar

mutual

/-- Whether two expressions without patterns are the same. -/
def Expr.same : Expr → Expr → Bool
  | .char c, .char c' => c = c'
  | .literal text, .literal text' => text = text'
  | .reference name position, .reference name' position' => name = name' && position = position'
  | .sequence items, .sequence items' => Expr.sameAll items items'
  | .alternation items, .alternation items' => Expr.sameAll items items'
  | .repetition item min max, .repetition item' min' max' =>
    item.same item' && min = min' && max = max'
  | .optional item, .optional item' => item.same item'
  | .absent item, .absent item' => item.same item'
  | _, _ => false

/-- Whether expressions without patterns are the same one by one. -/
def Expr.sameAll : List Expr → List Expr → Bool
  | [], [] => true
  | item :: items, item' :: items' => item.same item' && Expr.sameAll items items'
  | _, _ => false

end

mutual

theorem Expr.eq_of_same (e e' : Expr) (h : e.same e') : e = e' := by
  cases e with
  | char c =>
    cases e' with
    | char c' => exact congrArg Expr.char (of_decide_eq_true h)
    | _ => exact absurd h Bool.false_ne_true
  | literal text =>
    cases e' with
    | literal text' => exact congrArg Expr.literal (of_decide_eq_true h)
    | _ => exact absurd h Bool.false_ne_true
  | pattern p => cases e' <;> exact absurd h Bool.false_ne_true
  | reference name position =>
    cases e' with
    | reference name' position' =>
      obtain ⟨hname, hposition⟩ := (Bool.and_eq_true _ _).mp h
      rw [of_decide_eq_true hname, of_decide_eq_true hposition]
    | _ => exact absurd h Bool.false_ne_true
  | sequence items =>
    cases e' with
    | sequence items' => exact congrArg Expr.sequence (Expr.eq_of_sameAll items items' h)
    | _ => exact absurd h Bool.false_ne_true
  | alternation items =>
    cases e' with
    | alternation items' => exact congrArg Expr.alternation (Expr.eq_of_sameAll items items' h)
    | _ => exact absurd h Bool.false_ne_true
  | repetition item min max =>
    cases e' with
    | repetition item' min' max' =>
      obtain ⟨h, hmax⟩ := (Bool.and_eq_true _ _).mp h
      obtain ⟨hitem, hmin⟩ := (Bool.and_eq_true _ _).mp h
      rw [item.eq_of_same item' hitem, of_decide_eq_true hmin, of_decide_eq_true hmax]
    | _ => exact absurd h Bool.false_ne_true
  | optional item =>
    cases e' with
    | optional item' => exact congrArg Expr.optional (item.eq_of_same item' h)
    | _ => exact absurd h Bool.false_ne_true
  | absent item =>
    cases e' with
    | absent item' => exact congrArg Expr.absent (item.eq_of_same item' h)
    | _ => exact absurd h Bool.false_ne_true

theorem Expr.eq_of_sameAll : ∀ es es' : List Expr, Expr.sameAll es es' → es = es'
  | [], [], _ => rfl
  | [], _ :: _, h => absurd h Bool.false_ne_true
  | _ :: _, [], h => absurd h Bool.false_ne_true
  | e :: es, e' :: es', h => by
    obtain ⟨he, hes⟩ := (Bool.and_eq_true _ _).mp h
    rw [e.eq_of_same e' he, Expr.eq_of_sameAll es es' hes]

end

/-- Whether two definitions without patterns are the same. -/
def Definition.same (d d' : Definition) : Bool :=
  d.name = d'.name && d.label = d'.label && d.body.same d'.body && d.position = d'.position

theorem Definition.eq_of_same {d d' : Definition} (h : d.same d') : d = d' := by
  obtain ⟨name, label, body, position⟩ := d
  obtain ⟨name', label', body', position'⟩ := d'
  obtain ⟨h, hposition⟩ := (Bool.and_eq_true _ _).mp h
  obtain ⟨h, hbody⟩ := (Bool.and_eq_true _ _).mp h
  obtain ⟨hname, hlabel⟩ := (Bool.and_eq_true _ _).mp h
  rw [Definition.mk.injEq]
  exact ⟨of_decide_eq_true hname, of_decide_eq_true hlabel, Expr.eq_of_same _ _ hbody,
    of_decide_eq_true hposition⟩

/-- Whether a text states some definitions without patterns. -/
def states (text : String) (ds : List Definition) : Bool :=
  match definitions .plain text with
  | .ok (.ok ds') => ds'.isEqv ds Definition.same
  | _ => false

theorem eq_of_isEqv_same {ds ds' : List Definition} (h : ds.isEqv ds' Definition.same) :
    ds = ds' := by
  induction ds generalizing ds' with
  | nil =>
    cases ds' with
    | nil => rfl
    | cons d' ds' => exact absurd h Bool.false_ne_true
  | cons d ds ih =>
    cases ds' with
    | nil => exact absurd h Bool.false_ne_true
    | cons d' ds' =>
      obtain ⟨hd, hds⟩ := (Bool.and_eq_true _ _).mp h
      rw [Definition.eq_of_same hd, ih hds]

/-- **What a text states is found by evaluation**, where it states no patterns. -/
theorem definitions_of_states {text : String} {ds : List Definition} (h : states text ds) :
    definitions .plain text = .ok (.ok ds) := by
  unfold states at h
  split at h
  · next ds' hread => rw [hread, eq_of_isEqv_same h]
  · exact absurd h Bool.false_ne_true

end ParserGraph.Grammar
