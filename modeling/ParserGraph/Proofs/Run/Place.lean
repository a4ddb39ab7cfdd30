import ParserGraph.Run.Cursor

/-!
# Places — the cursors of one input, in the order they are read

A cursor that is reached from another by reading lies after it. Both keep
the same text, behind and ahead taken together, and what was read between
them shows in how much is left and in the bytes passed. So a cursor that is
neither further in characters nor in bytes is the same cursor
(`eq_of_length_le`, `eq_of_offset_le`), which is how a match that took
nothing is told.
-/

namespace ParserGraph

/-- The bytes of a text. -/
def bytes : List Char → Nat
  | [] => 0
  | c :: text => c.utf8Size + bytes text

@[simp]
theorem bytes_nil : bytes [] = 0 := rfl

@[simp]
theorem bytes_cons (c : Char) (text : List Char) :
    bytes (c :: text) = c.utf8Size + bytes text := rfl

@[simp]
theorem bytes_append (front back : List Char) :
    bytes (front ++ back) = bytes front + bytes back := by
  induction front with
  | nil => simp
  | cons c front ih =>
    rw [List.cons_append, bytes_cons, bytes_cons, ih]
    omega

@[simp]
theorem bytes_reverse (text : List Char) : bytes text.reverse = bytes text := by
  induction text with
  | nil => rfl
  | cons c text ih =>
    rw [List.reverse_cons, bytes_append, ih, bytes_cons, bytes_cons, bytes_nil]
    omega

/-- Every character takes bytes, so only the empty text takes none. -/
theorem eq_nil_of_bytes {text : List Char} (h : bytes text = 0) : text = [] := by
  cases text with
  | nil => rfl
  | cons c text =>
    have hc := c.utf8Size_pos
    rw [bytes_cons] at h
    omega

/-- Two beginnings of a text with as many bytes are the same beginning. -/
theorem eq_of_append_of_bytes {front front' back back' : List Char}
    (h : front ++ back = front' ++ back') (hb : bytes front = bytes front') :
    front = front' ∧ back = back' := by
  induction front generalizing front' with
  | nil =>
    have hnil := eq_nil_of_bytes (hb.symm.trans bytes_nil)
    subst hnil
    exact ⟨rfl, h⟩
  | cons c front ih =>
    cases front' with
    | nil => exact absurd (eq_nil_of_bytes (hb.trans bytes_nil)) (List.cons_ne_nil c front)
    | cons c' front' =>
      simp only [List.cons_append, List.cons.injEq] at h
      obtain ⟨rfl, h⟩ := h
      obtain ⟨rfl, hback⟩ := ih h (by rw [bytes_cons, bytes_cons] at hb; omega)
      exact ⟨rfl, hback⟩

/-- Reading a text moves the offset by its bytes. -/
theorem Position.offset_after (p : Position) (text : List Char) :
    (p.after text).offset = p.offset + bytes text := by
  induction text generalizing p with
  | nil => rfl
  | cons c text ih => rw [after_cons, ih, advance_offset, bytes_cons, Nat.add_assoc]

namespace Cursor

/-- A cursor lies before those that are reached from it by reading. -/
instance : LE Cursor := ⟨fun c d => ∃ n, d = c.advance n⟩

variable {c d e : Cursor}

theorem le_advance (c : Cursor) (n : Nat) : c ≤ c.advance n := ⟨n, rfl⟩

@[simp]
theorem advance_zero (c : Cursor) : c.advance 0 = c := by rw [advance]

protected theorem le_refl (c : Cursor) : c ≤ c := ⟨0, c.advance_zero.symm⟩

/-- Reading on after reading is reading all of it at once. -/
theorem advance_advance (c : Cursor) (m n : Nat) :
    (c.advance m).advance n = c.advance (m + n) := by
  fun_induction advance c m with
  | case1 c => rw [Nat.zero_add]
  | case2 c m h =>
    rw [Nat.succ_add, advance, h]
    cases n with
    | zero => exact c.advance_zero
    | succ n => rw [advance, h]
  | case3 c m x ahead h ih => rw [ih, Nat.succ_add, advance, h]

protected theorem le_trans (h : c ≤ d) (h' : d ≤ e) : c ≤ e := by
  obtain ⟨m, rfl⟩ := h
  obtain ⟨n, rfl⟩ := h'
  exact ⟨m + n, c.advance_advance m n⟩

/-! ## What is left, and what was passed -/

/-- Reading leaves no more ahead. -/
theorem length_ahead_le (h : c ≤ d) : d.ahead.length ≤ c.ahead.length := by
  obtain ⟨n, rfl⟩ := h
  rw [ahead_advance, List.length_drop]
  omega

/-- Reading on that leaves as much ahead has read nothing. -/
theorem eq_of_length_le (h : c ≤ d) (hl : c.ahead.length ≤ d.ahead.length) : d = c := by
  obtain ⟨n, rfl⟩ := h
  cases n with
  | zero => exact c.advance_zero
  | succ n =>
    rw [ahead_advance, List.length_drop] at hl
    rw [advance]
    cases hc : c.ahead with
    | nil => rfl
    | cons x ahead => rw [hc, List.length_cons] at hl; omega

/-- Reading that got anywhere leaves less ahead. -/
theorem length_ahead_lt (h : c ≤ d) (hne : d ≠ c) : d.ahead.length < c.ahead.length :=
  Nat.lt_of_not_le fun hle => hne (eq_of_length_le h hle)

/-- Reading there and back again gets nowhere. -/
protected theorem le_antisymm (h : c ≤ d) (h' : d ≤ c) : d = c :=
  eq_of_length_le h (length_ahead_le h')

/-- Reading keeps the text, behind and ahead taken together. -/
theorem text_eq (h : c ≤ d) : d.behind.reverse ++ d.ahead = c.behind.reverse ++ c.ahead := by
  obtain ⟨n, rfl⟩ := h
  rw [ahead_advance, behind_advance, List.reverse_append, List.reverse_reverse, List.append_assoc,
    List.take_append_drop]

/-- The offset grows by the bytes of what was read. -/
theorem offset_advance (c : Cursor) (n : Nat) :
    (c.advance n).position.offset = c.position.offset + bytes (c.ahead.take n) := by
  rw [position_advance, Position.offset_after]

/-- Reading on that passes no bytes has read nothing. -/
theorem eq_of_offset_le (h : c ≤ d) (ho : d.position.offset ≤ c.position.offset) : d = c := by
  refine eq_of_length_le h ?_
  obtain ⟨n, rfl⟩ := h
  rw [offset_advance] at ho
  have hnil : c.ahead.take n = [] := eq_nil_of_bytes (by omega)
  have hsplit := congrArg List.length (List.take_append_drop n c.ahead)
  rw [hnil, List.nil_append] at hsplit
  rw [ahead_advance]
  omega

/-! ## The places of an input -/

/-- At a place of an input, what is behind and what is ahead make up the input. -/
theorem text_of_start_le {input : String} (h : start input ≤ c) :
    c.behind.reverse ++ c.ahead = input.toList := by
  rw [text_eq h]
  rfl

/-- At a place of an input, the offset counts the bytes behind. -/
theorem offset_of_start_le {input : String} (h : start input ≤ c) :
    c.position.offset = bytes c.behind := by
  obtain ⟨n, rfl⟩ := h
  rw [offset_advance, behind_advance]
  simp [start, Position.start]

end Cursor

end ParserGraph
