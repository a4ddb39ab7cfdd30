import Mathlib.Data.List.Count
import ParserGraph.Proofs.Run.Halt
import ParserGraph.Proofs.Validation.Leading
import ParserGraph.Proofs.Validation.Nullable
import ParserGraph.Validation.Basic

/-!
# Nesting — how deep the calls of a run get

A call nests the calls that its node makes before it ends, and those nest
their own (`Graph.Nests`). Going inwards, a call either gets on in the input
or is a leading call, which goes down in the order that a valid graph has.
So the characters ahead and the rank of the parser, taken in this order, go
down with every call (`Graph.Nests.le_rank`), and with `N` parsers in reach
no more than `N` calls nest at one place. A run stopped by the nesting limit
has as many calls nested as there was room, and one more (`Graph.nests_of_tooDeep`).
-/

namespace ParserGraph

/-! ## Accounts that tell more -/

section

variable {R R' : Account} (h : ∀ id c m, R id c m → R' id c m)
include h

theorem CallsInOrder.mono {ids : List ParserId} {c c' : Cursor} {q : ParserId}
    (hq : CallsInOrder R ids c q c') : CallsInOrder R' ids c q c' := by
  induction hq with
  | here => exact .here
  | later hid _ ih => exact .later (h _ _ _ hid) ih

theorem CallsFirstOf.mono {ids : List ParserId} {c : Cursor} {q : ParserId}
    (hq : CallsFirstOf R ids c q) : CallsFirstOf R' ids c q := by
  induction hq with
  | here => exact .here
  | later hid _ ih => exact .later (h _ _ _ hid) ih

theorem CallsRounds.mono {part : ParserId} {max : Option Nat} {c c' : Cursor}
    (hq : CallsRounds R part max c c') : CallsRounds R' part max c c' := by
  induction hq with
  | here hmax => exact .here hmax
  | later hmax hpart hne _ ih => exact .later hmax (h _ _ _ hpart) hne ih

/-- The more calls finish, the more calls are made. -/
theorem Kind.Calls.mono {kind : Kind} {c c' : Cursor} {q : ParserId}
    (hq : kind.Calls R c q c') : kind.Calls R' c q c' := by
  cases hq with
  | sequence hq => exact .sequence (hq.mono h)
  | alternation hq => exact .alternation (hq.mono h)
  | repetition hq => exact .repetition (hq.mono h)
  | optional => exact .optional
  | lookahead => exact .lookahead
  | transform => exact .transform
  | token => exact .token
  | expect => exact .expect
  | rule => exact .rule

end

namespace Graph

variable {g : Graph} {p q : ParserId} {c c' : Cursor} {n : Nat}

/-! ## Nested calls -/

/-- What calls come to that finish with whatever room they need. -/
def account (g : Graph) : Account := fun id c m => ∃ room, (g.parse room).finishes id c m

theorem account_endsAfter (g : Graph) : g.account.EndsAfter := by
  rintro id c m ⟨room, h⟩
  exact g.parse_endsAfter room id c m h

/-- A call of a parser at a place nests `n` calls: itself and those it makes, one inside the
other. -/
inductive Nests (g : Graph) : ParserId → Cursor → Nat → Prop
  | call {p : ParserId} {c : Cursor} : Nests g p c 1
  | inner {p q : ParserId} {c c' : Cursor} {node : Node} {n : Nat} :
      g.node? p = some node → node.kind.Calls g.account c q c' → Nests g q c' n →
      Nests g p c (n + 1)

/-- **A run that finds no room has used all it had.** -/
theorem nests_of_tooDeep {room : Nat} {kept : Option ParseError} {e : ParseError}
    (h : ((g.parse room) p c).run kept = .error (.tooDeep e)) : g.Nests p c (room + 1) := by
  induction room generalizing p c kept with
  | zero => exact .call
  | succ room ih =>
    rcases enter_halts h with ⟨-, hmisuse⟩ | ⟨node, hnode, q, c', k, hcalls, hq⟩
    · exact nomatch hmisuse
    · exact .inner hnode (hcalls.mono fun id c m hm => ⟨room, hm⟩) (ih hq)

/-! ## What goes down -/

/-- Counting fewer things, one of them less, gives less. -/
theorem countP_lt_countP {ids : List ParserId} {fewer more : ParserId → Bool}
    (hsub : ∀ id, fewer id → more id) (hq : q ∈ ids) (hmore : more q) (hfewer : fewer q = false) :
    ids.countP fewer < ids.countP more := by
  rw [List.countP_eq_countP_filter_add ids more fewer]
  have hkeep : (ids.filter fewer).countP more = ids.countP fewer := by
    rw [List.countP_eq_length.2 fun id hid => hsub id (List.mem_filter.1 hid).2,
      List.countP_eq_length_filter]
  have hone : 0 < (ids.filter fun id => !fewer id).countP more :=
    List.countP_pos_iff.2 ⟨q, List.mem_filter.2 ⟨hq, by rw [hfewer]; rfl⟩, hmore⟩
  omega

/-- Nested calls get shorter of room: the characters ahead and the rank go down together. -/
theorem Nests.le_rank {N : Nat} {rank : ParserId → Nat} {among : ParserId → Prop}
    (hrank : ∀ q, among q → rank q < N)
    (hinner : ∀ q node c o c', among q → g.node? q = some node →
      node.kind.Calls g.account c o c' → among o ∧ (c' = c → rank o < rank q))
    (hp : among p) (h : g.Nests p c n) : n ≤ c.ahead.length * N + rank p + 1 := by
  induction h with
  | call => omega
  | @inner p q c c' node n hnode hcalls _ ih =>
    obtain ⟨hq, hdown⟩ := hinner p node c q c' hp hnode hcalls
    have hn := ih hq
    by_cases hmoved : c' = c
    · subst hmoved
      have hlt := hdown rfl
      omega
    · -- one character less pays for the highest rank
      have hlt := Cursor.length_ahead_lt (hcalls.le g.account_endsAfter) hmoved
      have hq' := hrank q hq
      have hpay : (c'.ahead.length + 1) * N ≤ c.ahead.length * N := Nat.mul_le_mul_right N hlt
      rw [Nat.succ_mul] at hpay
      omega

/-! ## Valid graphs -/

/-- A graph that passes validation has no cycle of leading calls. -/
theorem searchCycles_of_validateExcept {pending roots : List ParserId}
    (h : g.validateExcept pending roots = .ok ()) :
    ∃ met, g.searchCycles (g.reachable roots) (g.nullableAmong (g.reachable roots)) []
      (g.reachable roots) = .ok met := by
  simp only [validateExcept] at h
  split at h
  · exact nomatch h
  · split at h
    · exact nomatch h
    · split at h
      · exact nomatch h
      · next met hsearch => exact ⟨met, hsearch⟩

section

variable {ids : List ParserId} (hids : ∀ q, g.Leads p q → q ∈ ids) (hclosed : g.Closed p)
  (hpattern : ∀ q, g.Leads p q → ∀ kind, g.kind? q = some kind → kind.KnowsEmpty)
include hids hclosed hpattern

omit hclosed in
/-- What matches without taking anything in the reach of a parser is among the nullable nodes. -/
theorem nullable_of_account (hq : g.Leads p q) {t : Tree} (h : g.account q c (some (t, c))) :
    q ∈ g.nullableAmong ids := by
  obtain ⟨room, hfinishes⟩ := h
  have hstep : ∀ q, g.Leads p q → ∀ o ∈ g.operands q, g.contains o → g.Leads p o :=
    fun q hq o ho hlive => hq.step ho hlive
  exact nullable_of_finishes hids hstep hpattern hq hfinishes

/-- **A call that a node in the reach of a parser makes where it stands is a leading call.** -/
theorem mem_leadingCalls_of_calls {node : Node} {o : ParserId} (hq : g.Leads p q)
    (hnode : g.node? q = some node) (hcalls : node.kind.Calls g.account c o c') (hc : c' = c) :
    o ∈ g.leadingCalls (g.nullableAmong ids) q := by
  have hoperands : g.operands q = node.kind.operands := operands_of_node? hnode
  have hnullable : ∀ o ∈ node.kind.operands, ∀ d t, g.account o d (some (t, d)) →
      (g.nullableAmong ids).contains o := by
    intro o ho d t h
    rw [← hoperands] at ho
    have hreach : g.Leads p o := hq.step ho (hclosed.2 q hq o ho)
    exact List.contains_iff_mem.2 (nullable_of_account hids hpattern hreach h)
  simp only [leadingCalls, kind?, hnode, Option.map_some, Option.getD_some]
  exact hcalls.mem_leading g.account_endsAfter hc hnullable

end

/-- **In a valid graph, calls nest no deeper than parsers times places.** -/
theorem Nests.le_of_validate {roots : List ParserId} (hvalid : g.validate roots = .ok ())
    (hp : p ∈ g.reachable roots) (hclosed : g.Closed p)
    (hpattern : ∀ q, g.Leads p q → ∀ kind, g.kind? q = some kind → kind.KnowsEmpty)
    (h : g.Nests p c n) : n ≤ (g.reachable [p]).length * (c.ahead.length + 1) := by
  obtain ⟨met, hsearch⟩ := searchCycles_of_validateExcept hvalid
  obtain ⟨order, horder⟩ := exists_order_of_searchCycles hsearch
  obtain ⟨r, hr, hrp⟩ := mem_reachable.1 hp
  have hids : ∀ q, g.Leads p q → q ∈ g.reachable roots :=
    fun q hq => mem_reachable.2 ⟨r, hr, hrp.trans hq⟩
  have hreach : ∀ q, g.Leads p q → q ∈ g.reachable [p] :=
    fun q hq => mem_reachable.2 ⟨p, List.mem_singleton_self p, hq⟩
  -- the rank of a parser: how many of those in reach come before it in the order
  let rank : ParserId → Nat := fun q => (g.reachable [p]).countP fun o => order o < order q
  have hrank : ∀ q, g.Leads p q → rank q < (g.reachable [p]).length := by
    intro q hq
    refine List.countP_lt_length_iff.2 ⟨q, hreach q hq, ?_⟩
    rw [decide_eq_false_iff_not]
    exact Nat.lt_irrefl _
  have hinner : ∀ q node c o c', g.Leads p q → g.node? q = some node →
      node.kind.Calls g.account c o c' → g.Leads p o ∧ (c' = c → rank o < rank q) := by
    intro q node c o c' hq hnode hcalls
    have hop : o ∈ g.operands q := operands_of_node? hnode ▸ hcalls.mem_operands
    have ho : g.Leads p o := hq.step hop (hclosed.2 q hq o hop)
    refine ⟨ho, fun hc => ?_⟩
    -- a leading call goes down in the order, so fewer parsers come before it
    have hleading := mem_leadingCalls_of_calls hids hclosed hpattern hq hnode hcalls hc
    have hlt : order o < order q := horder q (hids q hq) o hleading (hids o ho)
    refine countP_lt_countP (fun id hid => ?_) (hreach o ho) (decide_eq_true hlt) ?_
    · exact decide_eq_true (Nat.lt_trans (of_decide_eq_true hid) hlt)
    · rw [decide_eq_false_iff_not]
      exact Nat.lt_irrefl _
  have hle := h.le_rank hrank hinner (.refl hclosed.1)
  have hlt := hrank p (.refl hclosed.1)
  calc n ≤ c.ahead.length * (g.reachable [p]).length + (g.reachable [p]).length := by omega
    _ = (g.reachable [p]).length * (c.ahead.length + 1) := by
      rw [← Nat.succ_mul, Nat.mul_comm]

end Graph

end ParserGraph
