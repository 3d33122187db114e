import OpenWbem.Wql.Compile

/-!
# Building the heap and pushing negations down

The cells of a clause stand in the array in postfix order: first the cells of the operands, then the
cell of the operation itself. So the cells of a part of the clause are a segment of the array, and
the first two passes of the compiler can be described segment by segment.

## Main definitions

* `Clause` — where clauses, and their items in postfix notation.
* `Clause.cells`, `Clause.root` — the segment of a clause, and the reference to it.
* `Clause.pushed`, `Clause.pushedRoot` — the same after negations have been pushed down.

## Main results

* `buildEvalHeap_items` — the first pass makes the segment of the clause.
* `pushNOTDown_cells` — the second pass pushes negations down, for the whole clause.
-/

namespace OpenWbem.Wql

open EvalEl List Nat

/-! ### Clauses -/

/-- The two operations that have two clauses as operands. -/
inductive Connective where
  | and
  | or
deriving DecidableEq

/-- A where clause. -/
inductive Clause (R : Type) where
  | term (t : TermEl R)
  | not (e : Clause R)
  | binary (c : Connective) (a b : Clause R)

/-- The operation of a connective. -/
def Connective.op : Connective → WQLOperation
  | and => .and
  | or => .or

/-- The operations of terms. -/
def WQLOperation.isComparison : WQLOperation → Bool
  | or | and | not | doNothing => false
  | _ => true

namespace Clause

variable {R : Type}

/-- The terms of a clause, from the left to the right. -/
def terms : Clause R → List (TermEl R)
  | term t => [t]
  | not e => e.terms
  | binary _ a b => a.terms ++ b.terms

/-- The items that `WQLSelectStatementGen` appends for a clause. -/
def items : Clause R → List (OperandOrOperation R)
  | term t => [.operand t.opn1, .operand t.opn2, .operation t.op]
  | not e => e.items ++ [.operation .not]
  | binary c a b => a.items ++ (b.items ++ [.operation c.op])

/-- The number of cells of a clause. -/
def size : Clause R → ℕ
  | term _ => 0
  | not e => e.size + 1
  | binary _ a b => a.size + b.size + 1

/-- The reference to a clause whose cells start at `s` and whose terms start at `t`. -/
def root (s t : ℕ) : Clause R → StackEl
  | term _ => .terminalHeap t
  | not e => .evalHeap (s + e.size)
  | binary _ a b => .evalHeap (s + a.size + b.size)

/-- The cells of a clause. -/
def cells (s t : ℕ) : Clause R → List EvalEl
  | term _ => []
  | not e => e.cells s t ++ [⟨false, .not, e.root s t, .absent⟩]
  | binary c a b => a.cells s t ++ (b.cells (s + a.size) (t + a.terms.length) ++
      [⟨false, c.op, a.root s t, b.root (s + a.size) (t + a.terms.length)⟩])

/-- One cell for each connective. -/
@[simp] lemma length_cells (e : Clause R) (s t : ℕ) : (e.cells s t).length = e.size := by
  induction e generalizing s t with
  | term t => rfl
  | not e ih => simp [cells, size, ih]
  | binary c a b iha ihb => simp [cells, size, iha, ihb, add_assoc]

end Clause

/-! ### The first pass -/

variable {k : ℕ} {u : EvalEl}

section Build

variable {R : Type}

/-- The number of a reference that is not that of an operand. -/
lemma Clause.root_ne_operand (e : Clause R) (s t i : ℕ) : e.root s t ≠ .operand i := by
  cases e <;> simp [Clause.root]

/-- A connective takes two references to clauses from the stack. -/
lemma buildStep_connective (operStack : List (OperandOrOperation R)) {c : Connective}
    {x y : StackEl} (hx : ∀ i, x ≠ .operand i) (stack : List StackEl) (h : Heaps R) (i : ℕ) :
    buildStep operStack (x :: y :: stack, h) (.operation c.op, i) =
      some (.evalHeap h.evals.length :: stack,
        { h with evals := h.evals ++ [⟨false, c.op, y, x⟩] }) := by
  cases c <;> cases x <;> first | exact absurd rfl (hx _) | rfl

/-- A comparison is put on the heap. -/
lemma buildStep_comparison {operStack : List (OperandOrOperation R)} {op : WQLOperation}
    (hop : op.isComparison) {i j : ℕ} {lhs rhs : WQLOperand R}
    (hj : operandAt operStack j = some lhs)
    (hi : operandAt operStack i = some rhs) (stack : List StackEl) (h : Heaps R) :
    buildStep operStack (.operand i :: .operand j :: stack, h) (.operation op, k) =
      some (.terminalHeap h.terms.length :: stack,
        { h with terms := h.terms ++ [⟨op, lhs, rhs⟩] }) := by
  cases op <;> first | exact absurd hop (by decide) | simp [buildStep, hi, hj]

/-- **The items of a clause leave a reference to its cells on the stack**, by induction on the
clause. -/
lemma foldlM_items {e : Clause R} (he : ∀ t ∈ e.terms, t.op.isComparison)
    (pre post : List (OperandOrOperation R)) (stack : List StackEl) (h : Heaps R) :
    (e.items.zipIdx pre.length).foldlM (buildStep (pre ++ (e.items ++ post))) (stack, h) =
      some (e.root h.evals.length h.terms.length :: stack,
        ⟨h.terms ++ e.terms, h.evals ++ e.cells h.evals.length h.terms.length⟩) := by
  induction e generalizing pre post stack h with
  | term t =>
    have hcmp := he t (mem_singleton_self t)
    have h0 : operandAt (pre ++ ((Clause.term t).items ++ post)) pre.length = some t.opn1 := by
      rw [operandAt, getElem?_append_right (Nat.le_refl _), Nat.sub_self]
      rfl
    have h1 : operandAt (pre ++ ((Clause.term t).items ++ post)) (pre.length + 1) =
        some t.opn2 := by
      rw [operandAt, getElem?_append_right (Nat.le_add_right _ _), Nat.add_sub_cancel_left]
      rfl
    have hstep := buildStep_comparison (k := pre.length + 1 + 1) hcmp h0 h1 stack h
    generalize pre ++ ((Clause.term t).items ++ post) = operStack at hstep
    change ((buildStep operStack (.operand (pre.length + 1) :: .operand pre.length :: stack, h)
      (.operation t.op, pre.length + 1 + 1)) >>= pure) = _
    rw [hstep]
    simp [Clause.root, Clause.cells, Clause.terms]
  | not e ih =>
    have hpost : pre ++ ((Clause.not e).items ++ post) =
        pre ++ (e.items ++ (.operation .not :: post)) := by simp [Clause.items]
    rw [hpost, Clause.items, zipIdx_append, foldlM_append, ih he]
    simp [buildStep, Clause.root, Clause.cells, Clause.terms]
  | binary c a b iha ihb =>
    have ha : ∀ t ∈ a.terms, t.op.isComparison := fun t ht => he t (mem_append_left _ ht)
    have hb : ∀ t ∈ b.terms, t.op.isComparison := fun t ht => he t (mem_append_right _ ht)
    have hpost : pre ++ ((Clause.binary c a b).items ++ post) =
        pre ++ (a.items ++ (b.items ++ (.operation c.op :: post))) := by simp [Clause.items]
    have hpost' : pre ++ (a.items ++ (b.items ++ (.operation c.op :: post))) =
        (pre ++ a.items) ++ (b.items ++ (.operation c.op :: post)) := by simp
    rw [hpost, Clause.items, zipIdx_append, foldlM_append, iha ha]
    simp only [Option.bind_eq_bind, Option.bind_some]
    rw [hpost', zipIdx_append, foldlM_append]
    have hb' := ihb hb (pre ++ a.items) (.operation c.op :: post)
      (a.root h.evals.length h.terms.length :: stack)
      ⟨h.terms ++ a.terms, h.evals ++ a.cells h.evals.length h.terms.length⟩
    rw [length_append] at hb'
    rw [hb']
    simp only [Option.bind_eq_bind, Option.bind_some, zipIdx_cons, foldlM_cons]
    rw [buildStep_connective _ (Clause.root_ne_operand _ _ _)]
    simp [Clause.root, Clause.cells, Clause.terms, add_assoc]

/-- **The first pass makes the cells of the clause.** -/
lemma buildEvalHeap_items {e : Clause R} (he : ∀ t ∈ e.terms, t.op.isComparison) :
    buildEvalHeap e.items = some ⟨e.terms, e.cells 0 0⟩ := by
  have h := foldlM_items he [] [] [] ⟨[], []⟩
  simp only [nil_append, append_nil, length_nil] at h
  rw [buildEvalHeap, h]

end Build

/-! ### The cells during and after the second pass -/

/-- Operands that are exchanged by `order`. -/
def swaps : StackEl → StackEl → Bool
  | .evalHeap i, .evalHeap j => i < j
  | .evalHeap _, _ => false
  | s, .evalHeap j => s.opn < j
  | _, _ => false

/-- Ordering may exchange operands. -/
lemma EvalEl.order_eq (e : EvalEl) : e.order =
    if swaps e.first e.second then { e with first := e.second, second := e.first } else e := by
  obtain ⟨m, op, x, y⟩ := e
  cases x <;> cases y <;> simp [order, swaps]

/-- References become another reference. -/
def EvalEl.replace (x y : StackEl) (e : EvalEl) : EvalEl :=
  { e with
    first := if e.first = x then y else e.first
    second := if e.second = x then y else e.second }

/-- The other connective. -/
def Connective.dual : Connective → Connective
  | and => or
  | or => and

namespace Clause

variable {R : Type}

/-- The cells of a clause, with a pending negation at its root or none. -/
def marked (m : Bool) (s t : ℕ) : Clause R → List EvalEl
  | term _ => []
  | not e => e.cells s t ++ [⟨m, .not, e.root s t, .absent⟩]
  | binary c a b => a.cells s t ++ (b.cells (s + a.size) (t + a.terms.length) ++
      [⟨m, c.op, a.root s t, b.root (s + a.size) (t + a.terms.length)⟩])

/-- The terms of a clause, with a pending negation at its root or none. -/
def markedTerms (m : Bool) : Clause R → List (TermEl R)
  | term t => [if m then t.negate else t]
  | not e => e.terms
  | binary _ a b => a.terms ++ b.terms

/-- The reference to a clause after the second pass. -/
def pushedRoot (s t : ℕ) : Clause R → StackEl
  | term _ => .terminalHeap t
  | not e => e.pushedRoot s t
  | binary _ a b => .evalHeap (s + a.size + b.size)

/-- The terms of a clause, or of its negation, after the second pass. -/
def pushedTerms (m : Bool) : Clause R → List (TermEl R)
  | term t => [if m then t.negate else t]
  | not e => e.pushedTerms !m
  | binary _ a b => a.pushedTerms m ++ b.pushedTerms m

/-- The cells of a clause, or of its negation, after the second pass. -/
def pushed (m : Bool) (s t : ℕ) : Clause R → List EvalEl
  | term _ => []
  | not e => e.pushed (!m) s t ++ [⟨false, .doNothing, e.pushedRoot s t, .absent⟩]
  | binary c a b =>
    let s' := s + a.size
    let t' := t + a.terms.length
    a.pushed m s t ++ (b.pushed m s' t' ++
      [if swaps (a.root s t) (b.root s' t') then
        ⟨false, if m then c.dual.op else c.op, b.pushedRoot s' t', a.pushedRoot s t⟩
      else ⟨false, if m then c.dual.op else c.op, a.pushedRoot s t, b.pushedRoot s' t'⟩])

/-- No mark. -/
lemma marked_false (e : Clause R) (s t : ℕ) : e.marked false s t = e.cells s t := by
  cases e <;> rfl

/-- No mark. -/
lemma markedTerms_false (e : Clause R) : e.markedTerms false = e.terms := by
  cases e <;> rfl

/-- Marking keeps the terms. -/
@[simp] lemma length_markedTerms (e : Clause R) (m : Bool) :
    (e.markedTerms m).length = e.terms.length := by
  cases e <;> rfl

/-- Pushing keeps the terms. -/
@[simp] lemma length_pushedTerms (e : Clause R) (m : Bool) :
    (e.pushedTerms m).length = e.terms.length := by
  induction e generalizing m with
  | term t => rfl
  | not e ih => exact ih _
  | binary c a b iha ihb => simp [pushedTerms, terms, iha, ihb]

/-- Marking keeps the cells. -/
@[simp] lemma length_marked (e : Clause R) (m : Bool) (s t : ℕ) :
    (e.marked m s t).length = e.size := by
  cases e <;> simp [marked, size, add_assoc]

/-- Pushing keeps the cells. -/
@[simp] lemma length_pushed (e : Clause R) (m : Bool) (s t : ℕ) :
    (e.pushed m s t).length = e.size := by
  induction e generalizing m s t with
  | term t => rfl
  | not e ih => simp [pushed, size, ih]
  | binary c a b iha ihb => simp [pushed, size, iha, ihb, add_assoc]

/-- A clause has terms. -/
lemma terms_length_pos (e : Clause R) : 0 < e.terms.length := by
  induction e with
  | term t => exact one_pos
  | not e ih => exact ih
  | binary c a b iha ihb => rw [terms, length_append]; omega

/-- The root of a clause. -/
lemma root_cases (e : Clause R) (s t : ℕ) : (e.root s t = .terminalHeap t ∧ e.size = 0) ∨
      ∃ k, e.root s t = .evalHeap k ∧ s ≤ k ∧ k < s + e.size := by
  cases e with
  | term t => exact .inl ⟨rfl, rfl⟩
  | not e => exact .inr ⟨_, rfl, by omega, by simp [size]⟩
  | binary c a b => exact .inr ⟨_, rfl, by omega, by simp [size]; omega⟩

/-- The reference to a clause after the second pass is in its own segment. -/
lemma pushedRoot_cases (e : Clause R) (s t : ℕ) : e.pushedRoot s t = .terminalHeap t ∨
      ∃ k, e.pushedRoot s t = .evalHeap k ∧ s ≤ k ∧ k < s + e.size := by
  induction e with
  | term t => exact .inl rfl
  | not e ih =>
    rcases ih with h | ⟨k, h, hs, hk⟩
    · exact .inl h
    · exact .inr ⟨k, h, hs, by rw [size]; omega⟩
  | binary c a b => exact .inr ⟨_, rfl, by omega, by simp [size]; omega⟩

/-- If the reference is to a term, then the second pass does not change it. -/
lemma pushedRoot_eq_root {e : Clause R} {s t : ℕ} (h : e.size = 0) :
    e.pushedRoot s t = e.root s t := by
  cases e <;> first | rfl | exact absurd h (by simp [size])

end Clause

/-! ### Steps of the second pass -/

section Push

variable {R : Type} {i : ℕ} {A B : List EvalEl} {terms : List (TermEl R)}

/-- Reading in the middle. -/
lemma getD_append_length (A B : List EvalEl) (e d : EvalEl) :
    (A ++ e :: B).getD A.length d = e := by
  simp

/-- What is done to the cells behind an index only. -/
lemma mapIdx_behind (hA : A.length = i) (g : EvalEl → EvalEl) (e : EvalEl) :
    (A ++ e :: B).mapIdx (fun j e => if i < j then g e else e) = A ++ e :: B.map g := by
  subst hA
  rw [mapIdx_append, mapIdx_cons]
  have hl : A.mapIdx (fun j e => if A.length < j then g e else e) = A := by
    refine ext_getElem (by simp) fun j hj _ => ?_
    rw [length_mapIdx] at hj
    simp [show ¬ A.length < j by omega]
  have hr : B.mapIdx (fun j e => if A.length < j + 1 + A.length then g e else e) = B.map g := by
    refine ext_getElem (by simp) fun j hj _ => ?_
    simp
  rw [hl, hr]
  simp

/-- Writing in the middle. -/
lemma set_append_length (hA : A.length = i) (e e' : EvalEl) :
    (A ++ e :: B).set i e' = A ++ e' :: B := by
  subst hA
  simp

/-- A negation is disconnected, and may be pushed on. -/
lemma pushStep_not (hA : A.length = i) (m : Bool) (x : StackEl) :
    pushStep (⟨terms, A ++ ⟨m, .not, x, .absent⟩ :: B⟩ : Heaps R) i =
      (let h : Heaps R := ⟨terms, A ++ ⟨false, .doNothing, x, .absent⟩ ::
        B.map (replace (.evalHeap i) x)⟩
      if m then h else h.flip x) := by
  have hget : (A ++ ⟨m, .not, x, .absent⟩ :: B).getD i .default = ⟨m, .not, x, .absent⟩ := by
    subst hA
    exact getD_append_length _ _ _ _
  have hord : order ⟨m, .not, x, .absent⟩ = ⟨m, .not, x, .absent⟩ := by
    rw [order_eq]
    cases x <;> rfl
  dsimp only [pushStep]
  rw [hget, hord, mapIdx_behind hA, set_append_length hA]
  cases m <;> rfl

/-- A connective is exchanged for the other one if there is a pending negation, which is pushed
on. -/
lemma pushStep_connective (hA : A.length = i) (m : Bool) (c : Connective) (x y : StackEl) :
    pushStep (⟨terms, A ++ ⟨m, c.op, x, y⟩ :: B⟩ : Heaps R) i =
      (let e : EvalEl := .order ⟨false, if m then c.dual.op else c.op, x, y⟩
      let h : Heaps R := ⟨terms, A ++ e :: B⟩
      if m then (h.flip e.first).flip e.second else h) := by
  have hget : (A ++ ⟨m, c.op, x, y⟩ :: B).getD i .default = ⟨m, c.op, x, y⟩ := by
    subst hA
    exact getD_append_length _ _ _ _
  have hop : (if m then c.op.dual else c.op) = if m then c.dual.op else c.op := by cases c <;> rfl
  have hne : c.op ≠ .not := by cases c <;> decide
  dsimp only [pushStep]
  rw [hget, order_eq, order_eq]
  by_cases hs : swaps x y
  · rw [if_pos hs, if_neg hne, set_append_length hA, if_pos hs, hop]
  · rw [if_neg hs, if_neg hne, set_append_length hA, if_neg hs, hop]

/-- Changing in the middle. -/
lemma modify_append_length {α : Type} {A B : List α} (hA : A.length = i) (g : α → α) (e : α) :
    (A ++ e :: B).modify i g = A ++ g e :: B := by
  rw [modify_eq_take_cons_drop (by simp; omega)]
  subst hA
  simp

/-- A flip of a clause's reference toggles its pending negation. -/
lemma flip_root (e : Clause R) (m : Bool) {s t : ℕ} {L U : List EvalEl} {M V : List (TermEl R)}
    (hL : L.length = s) (hTL : M.length = t) :
    (⟨M ++ (e.markedTerms m ++ V), L ++ (e.marked m s t ++ U)⟩ : Heaps R).flip (e.root s t) =
      ⟨M ++ (e.markedTerms (!m) ++ V), L ++ (e.marked (!m) s t ++ U)⟩ := by
  cases e with
  | term u =>
    have hneg : u.negate.negate = u := by
      obtain ⟨op, x, y⟩ := u
      cases op <;> rfl
    have hterm := modify_append_length hTL (B := V) TermEl.negate (if m then u.negate else u)
    cases m
    · exact congrArg (fun ts => (⟨ts, L ++ U⟩ : Heaps R)) hterm
    · refine congrArg (fun ts => (⟨ts, L ++ U⟩ : Heaps R)) (hterm.trans ?_)
      rw [if_pos rfl, hneg]
      rfl
  | not e =>
    have hlen : (L ++ e.cells s t).length = s + e.size := by simp [hL]
    have hcell := modify_append_length hlen (B := U) (fun e => { e with mark := !e.mark })
      ⟨m, .not, e.root s t, .absent⟩
    simpa [Heaps.flip, Clause.marked, Clause.markedTerms, Clause.root.eq_2] using hcell
  | binary c a b =>
    have hlen : (L ++ (a.cells s t ++ b.cells (s + a.size) (t + a.terms.length))).length =
        s + a.size + b.size := by simp [hL, add_assoc]
    have hcell := modify_append_length hlen (B := U) (fun e => { e with mark := !e.mark })
      ⟨m, c.op, a.root s t, b.root (s + a.size) (t + a.terms.length)⟩
    simpa [Heaps.flip, Clause.marked, Clause.markedTerms, Clause.root.eq_3] using hcell

end Push

/-! ### The second pass -/

/-- A cell refers to the cell at an index. -/
def EvalEl.Refers (u : EvalEl) (k : ℕ) : Prop := u.first = .evalHeap k ∨ u.second = .evalHeap k

/-- The same operand again. -/
lemma EvalEl.replace_self (x : StackEl) (u : EvalEl) : u.replace x x = u := by
  obtain ⟨m, op, y, z⟩ := u
  simp only [EvalEl.replace, mk.injEq, true_and]
  constructor <;> split_ifs with h <;> simp [h]

/-- No such operand. -/
lemma EvalEl.replace_of_not_refers (h : ¬ u.Refers k) (y : StackEl) :
    u.replace (.evalHeap k) y = u := by
  obtain ⟨h1, h2⟩ := not_or.mp h
  rw [replace, if_neg h1, if_neg h2]

/-- Two replacements. -/
lemma EvalEl.replace_replace (h : ¬ u.Refers k) (x y : StackEl) :
    (u.replace x (.evalHeap k)).replace (.evalHeap k) y = u.replace x y := by
  obtain ⟨m, op, a, b⟩ := u
  obtain ⟨h1, h2⟩ := not_or.mp h
  by_cases ha : a = x <;> by_cases hb : b = x <;> simp_all [EvalEl.replace]

/-- References after it. -/
lemma EvalEl.refers_replace {x y : StackEl} (h : (u.replace x y).Refers k) :
    u.Refers k ∨ y = .evalHeap k := by
  rcases h with h | h
  · by_cases hx : u.first = x
    · exact .inr (by simpa [EvalEl.replace, hx] using h)
    · exact .inl (.inl (by simpa [EvalEl.replace, hx] using h))
  · by_cases hx : u.second = x
    · exact .inr (by simpa [EvalEl.replace, hx] using h)
    · exact .inl (.inr (by simpa [EvalEl.replace, hx] using h))

section Segments

variable {R : Type}

/-- Cells refer into the segment of a clause by the reference to it only. -/
def Clause.Only (e : Clause R) (s t : ℕ) (U : List EvalEl) : Prop :=
  ∀ u ∈ U, ∀ k, u.Refers k → s ≤ k → k < s + e.size → e.root s t = .evalHeap k

/-- Cells that do not refer into the segment of a clause are not changed. -/
lemma map_replace_eq_self (e : Clause R) {s t : ℕ} {U : List EvalEl}
    (hU : ∀ u ∈ U, ∀ k, u.Refers k → s ≤ k → s + e.size ≤ k) :
    U.map (replace (e.root s t) (e.pushedRoot s t)) = U := by
  refine (map_congr_left fun u hu => ?_).trans (map_id U)
  rcases e.root_cases s t with ⟨-, hsize⟩ | ⟨k, hk, hs, hlt⟩
  · rw [Clause.pushedRoot_eq_root hsize]
    exact replace_self _ u
  · rw [hk]
    refine replace_of_not_refers (fun href => ?_) _
    have := hU u hu k href hs
    omega

/-- The root is a cell of the clause. -/
lemma Clause.of_pushedRoot_eq {e : Clause R} {s t : ℕ} (h : e.pushedRoot s t = .evalHeap k) :
    s ≤ k ∧ k < s + e.size := by
  rcases e.pushedRoot_cases s t with h' | ⟨j, h', hs, hj⟩
  · exact absurd (h'.symm.trans h) (by simp)
  · obtain rfl : j = k := by simpa using h'.symm.trans h
    exact ⟨hs, hj⟩

/-- The root is a cell of the clause. -/
lemma Clause.of_root_eq {e : Clause R} {s t : ℕ} (h : e.root s t = .evalHeap k) :
    s ≤ k ∧ k < s + e.size := by
  rcases e.root_cases s t with ⟨h', -⟩ | ⟨j, h', hs, hj⟩
  · exact absurd (h'.symm.trans h) (by simp)
  · obtain rfl : j = k := by simpa using h'.symm.trans h
    exact ⟨hs, hj⟩

/-- The cells of a clause refer to its own segment. -/
lemma Clause.refers_pushed (e : Clause R) {m : Bool} {s t : ℕ} (hu : u ∈ e.pushed m s t)
    (hk : u.Refers k) : s ≤ k ∧ k < s + e.size := by
  induction e generalizing m s t with
  | term u => exact absurd hu (not_mem_nil)
  | not e ih =>
    rw [Clause.size]
    rcases mem_append.mp hu with hu | hu
    · have := ih hu
      omega
    · obtain rfl := mem_singleton.mp hu
      rcases hk with hk | hk
      · have := Clause.of_pushedRoot_eq hk
        omega
      · cases hk
  | binary c a b iha ihb =>
    rw [Clause.size]
    rcases mem_append.mp hu with hu | hu
    · have := iha hu
      omega
    rcases mem_append.mp hu with hu | hu
    · have := ihb hu
      omega
    · have hroots : a.pushedRoot s t = .evalHeap k ∨
          b.pushedRoot (s + a.size) (t + a.terms.length) = .evalHeap k := by
        rw [mem_singleton.mp hu] at hk
        by_cases hs : swaps (a.root s t) (b.root (s + a.size) (t + a.terms.length))
        · rw [if_pos hs] at hk
          exact hk.symm
        · rwa [if_neg hs] at hk
      rcases hroots with h | h <;> have := Clause.of_pushedRoot_eq h <;> omega

/-- The cell of a connective after its operands have been treated. -/
lemma replace_order_connective {a b : Clause R} {s t : ℕ} (op : WQLOperation) : let s' := s + a.size
    let t' := t + a.terms.length
    ((order ⟨false, op, a.root s t, b.root s' t'⟩).replace (b.root s' t')
      (b.pushedRoot s' t')).replace (a.root s t) (a.pushedRoot s t) =
      if swaps (a.root s t) (b.root s' t') then
        ⟨false, op, b.pushedRoot s' t', a.pushedRoot s t⟩
      else ⟨false, op, a.pushedRoot s t, b.pushedRoot s' t'⟩ := by
  intro s' t'
  -- the reference to the first operand is not one to something behind its segment
  have hapart : ∀ {x}, (x = .terminalHeap t' ∨ ∃ j, x = .evalHeap j ∧ s' ≤ j ∧ j < s' + b.size) →
      a.root s t ≠ x := by
    rintro x hx rfl
    rcases a.root_cases s t with ⟨ha, -⟩ | ⟨k, ha, hs, hk⟩ <;>
      rcases hx with hb | ⟨j, hb, hs', hj⟩ <;> rw [ha] at hb <;> simp at hb
    · have hpos := a.terms_length_pos
      omega
    · omega
  have hroots : a.root s t ≠ b.root s' t' := hapart ((b.root_cases s' t').imp_left And.left)
  have hpushed : b.pushedRoot s' t' ≠ a.root s t := (hapart (b.pushedRoot_cases s' t')).symm
  rw [order_eq]
  by_cases hs : swaps (a.root s t) (b.root s' t') <;> simp [hs, EvalEl.replace, hroots, hpushed]

/-- The step at the cell of a negation: it is disconnected, and its operand gets the pending
negation that it did not have itself. -/
lemma pushStep_negation (e : Clause R) (m : Bool) {s t : ℕ} {L U : List EvalEl}
    {M V : List (TermEl R)} (hL : L.length = s) (hTL : M.length = t) :
    pushStep (⟨M ++ (e.terms ++ V), L ++ ((Clause.not e).marked m s t ++ U)⟩ : Heaps R)
      (s + e.size) = ⟨M ++ (e.markedTerms (!m) ++ V), L ++ (e.marked (!m) s t ++
        ⟨false, .doNothing, e.root s t, .absent⟩ ::
          U.map (replace (.evalHeap (s + e.size)) (e.root s t)))⟩ := by
  have hlen : (L ++ e.cells s t).length = s + e.size := by simp [hL]
  have hsplit : L ++ ((Clause.not e).marked m s t ++ U) =
      (L ++ e.cells s t) ++ ⟨m, .not, e.root s t, .absent⟩ :: U := by
    simp [Clause.marked]
  rw [hsplit, pushStep_not hlen]
  cases m with
  | true => simp [Clause.marked_false, Clause.markedTerms_false]
  | false =>
    have hflip := flip_root e false (U := ⟨false, .doNothing, e.root s t, .absent⟩ ::
      U.map (replace (.evalHeap (s + e.size)) (e.root s t))) (V := V) hL hTL
    rw [Clause.marked_false, Clause.markedTerms_false] at hflip
    simpa using hflip

/-- The step at the cell of a connective: both operands get its pending negation. -/
lemma pushStep_binary (c : Connective) (a b : Clause R) (m : Bool) {s t : ℕ} {L U : List EvalEl}
    {M V : List (TermEl R)} (hL : L.length = s) (hTL : M.length = t) :
    let s' := s + a.size
    let t' := t + a.terms.length
    let cell := order ⟨false, if m then c.dual.op else c.op, a.root s t, b.root s' t'⟩
    pushStep (⟨M ++ ((a.terms ++ b.terms) ++ V),
      L ++ ((Clause.binary c a b).marked m s t ++ U)⟩ : Heaps R) (s' + b.size) =
        ⟨(M ++ a.markedTerms m) ++ (b.markedTerms m ++ V),
          (L ++ a.marked m s t) ++ (b.marked m s' t' ++ cell :: U)⟩ := by
  intro s' t' cell
  have hLa : ∀ m, (L ++ a.marked m s t).length = s' := fun m => by simp [hL, s']
  have hTa : ∀ m, (M ++ a.markedTerms m).length = t' := fun m => by simp [hTL, t']
  have hlen : (L ++ (a.cells s t ++ b.cells s' t')).length = s' + b.size := by
    simp [hL, s', add_assoc]
  have hsplit : L ++ ((Clause.binary c a b).marked m s t ++ U) =
      (L ++ (a.cells s t ++ b.cells s' t')) ++ ⟨m, c.op, a.root s t, b.root s' t'⟩ :: U := by
    simp [Clause.marked, s', t']
  have hstart : (⟨M ++ ((a.terms ++ b.terms) ++ V),
      (L ++ (a.cells s t ++ b.cells s' t')) ++ cell :: U⟩ : Heaps R) =
        ⟨(M ++ a.markedTerms false) ++ (b.markedTerms false ++ V),
          (L ++ a.marked false s t) ++ (b.marked false s' t' ++ cell :: U)⟩ := by
    simp [Clause.marked_false, Clause.markedTerms_false]
  rw [hsplit, pushStep_connective hlen]
  change (if m then ((⟨_, _ ++ cell :: U⟩ : Heaps R).flip cell.first).flip cell.second
    else ⟨_, _ ++ cell :: U⟩) = _
  rw [hstart]
  cases m with
  | false => exact if_neg Bool.false_ne_true
  | true =>
    have hfa : ∀ m, (⟨(M ++ a.markedTerms false) ++ (b.markedTerms m ++ V),
        (L ++ a.marked false s t) ++ (b.marked m s' t' ++ cell :: U)⟩ : Heaps R).flip (a.root s t) =
          ⟨(M ++ a.markedTerms true) ++ (b.markedTerms m ++ V),
            (L ++ a.marked true s t) ++ (b.marked m s' t' ++ cell :: U)⟩ := fun m => by
      simpa using flip_root a false hL hTL
    have hfb : ∀ m, (⟨(M ++ a.markedTerms m) ++ (b.markedTerms false ++ V),
        (L ++ a.marked m s t) ++ (b.marked false s' t' ++ cell :: U)⟩ : Heaps R).flip
          (b.root s' t') =
          ⟨(M ++ a.markedTerms m) ++ (b.markedTerms true ++ V),
            (L ++ a.marked m s t) ++ (b.marked true s' t' ++ cell :: U)⟩ := fun m =>
      flip_root b false (hLa m) (hTa m)
    have hcell := order_eq ⟨false, if true then c.dual.op else c.op, a.root s t, b.root s' t'⟩
    rw [if_pos rfl]
    by_cases hs : swaps (a.root s t) (b.root s' t')
    · rw [if_pos hs] at hcell
      have h1 : cell.first = b.root s' t' := congrArg first hcell
      have h2 : cell.second = a.root s t := congrArg second hcell
      rw [h1, h2, hfb, hfa]
    · rw [if_neg hs] at hcell
      have h1 : cell.first = a.root s t := congrArg first hcell
      have h2 : cell.second = b.root s' t' := congrArg second hcell
      rw [h1, h2, hfa, hfb]

/-- An ordered cell refers to what its operands refer to. -/
lemma refers_order {op : WQLOperation} {x y : StackEl} {k : ℕ}
    (h : (order ⟨false, op, x, y⟩).Refers k) :
    x = .evalHeap k ∨ y = .evalHeap k := by
  rw [order_eq] at h
  by_cases hs : swaps x y
  · rw [if_pos hs] at h
    exact h.symm
  · rwa [if_neg hs] at h

namespace Clause.Only

variable {e a b : Clause R} {c : Connective} {s t : ℕ} {U : List EvalEl}

/-- The cells behind a negation refer to its root only, which is behind the operand. -/
lemma not_refers_operand (hU : (Clause.not e).Only s t U) {u : EvalEl} (hu : u ∈ U) {k : ℕ}
    (hs : s ≤ k) (hlt : k < s + e.size) : ¬ u.Refers k := by
  intro hk
  have hroot := hU u hu k hk hs (by rw [Clause.size]; omega)
  have : s + e.size = k := by simpa [Clause.root] using hroot
  omega

/-- The cells behind the operand of a negation, after the cell of the negation has been treated. -/
lemma negated (hU : (Clause.not e).Only s t U) :
    e.Only s t (⟨false, .doNothing, e.root s t, .absent⟩ ::
    U.map (replace (.evalHeap (s + e.size)) (e.root s t))) := by
  intro u hu k hk hs hlt
  rcases mem_cons.mp hu with rfl | hu
  · rcases hk with hk | hk
    · exact hk
    · cases hk
  · obtain ⟨v, hv, rfl⟩ := mem_map.mp hu
    exact (refers_replace hk).resolve_left (hU.not_refers_operand hv hs hlt)

/-- The references to a negation are adjusted twice. -/
lemma map_replace_negated (hU : (Clause.not e).Only s t U) :
    (U.map (replace (.evalHeap (s + e.size)) (e.root s t))).map
      (replace (e.root s t) (e.pushedRoot s t)) =
      U.map (replace (.evalHeap (s + e.size)) (e.pushedRoot s t)) := by
  rw [map_map]
  refine map_congr_left fun u hu => ?_
  rcases e.root_cases s t with ⟨-, hsize⟩ | ⟨k, hk, hs, hlt⟩
  · rw [Clause.pushedRoot_eq_root hsize, Function.comp_apply, replace_self]
  · rw [hk, Function.comp_apply, replace_replace (hU.not_refers_operand hu hs hlt)]

/-- The cells behind a connective refer to its root only, which is behind both operands. -/
lemma le_of_refers (hU : (Clause.binary c a b).Only s t U) {u : EvalEl} (hu : u ∈ U) {k : ℕ}
    (hk : u.Refers k) (hs : s ≤ k) : s + a.size + b.size ≤ k := by
  by_contra hlt
  have hroot := hU u hu k hk hs (by rw [Clause.size]; omega)
  have : s + a.size + b.size = k := by simpa [Clause.root] using hroot
  omega

variable (hU : (Clause.binary c a b).Only s t U) (op : WQLOperation)

include hU

/-- The cells behind the second operand. -/
lemma second : b.Only (s + a.size) (t + a.terms.length)
    (order ⟨false, op, a.root s t, b.root (s + a.size) (t + a.terms.length)⟩ :: U) := by
  intro u hu k hk hs hlt
  rcases mem_cons.mp hu with rfl | hu
  · rcases refers_order hk with h | h
    · have := Clause.of_root_eq h
      omega
    · exact h
  · have := hU.le_of_refers hu hk (by omega)
    omega

/-- The cells behind the first operand, after the second one has been treated. -/
lemma first (m : Bool) : a.Only s t (b.pushed m (s + a.size) (t + a.terms.length) ++
    (order ⟨false, op, a.root s t, b.root (s + a.size) (t + a.terms.length)⟩).replace
      (b.root (s + a.size) (t + a.terms.length)) (b.pushedRoot (s + a.size) (t + a.terms.length)) ::
    U) := by
  intro u hu k hk hs hlt
  rcases mem_append.mp hu with hu | hu
  · have := b.refers_pushed hu hk
    omega
  rcases mem_cons.mp hu with rfl | hu
  · rcases refers_replace hk with h | h
    · rcases refers_order h with h | h
      · exact h
      · have := Clause.of_root_eq h
        omega
    · have := Clause.of_pushedRoot_eq h
      omega
  · have := hU.le_of_refers hu hk hs
    omega

end Clause.Only

/-- **The second pass treats the segment of a clause as a whole.** The references of the cells
behind it are adjusted.

**Proof sketch.** Induction on the clause: the cell of its operation is treated first, which moves
the pending negation to the operands, then the operands, from the right to the left. -/
lemma pushFrom_segment (e : Clause R) (m : Bool) {s t : ℕ} {L U : List EvalEl}
    {M V : List (TermEl R)} (hL : L.length = s) (hTL : M.length = t) (hU : e.Only s t U) :
    pushFrom (s + e.size) ⟨M ++ (e.markedTerms m ++ V), L ++ (e.marked m s t ++ U)⟩ =
      pushFrom s ⟨M ++ (e.pushedTerms m ++ V),
        L ++ (e.pushed m s t ++ U.map (replace (e.root s t) (e.pushedRoot s t)))⟩ := by
  induction e generalizing m s t L U M V with
  | term u =>
    rw [map_replace_eq_self (.term u) (fun u hu k _ hk => hk)]
    rfl
  | not e ih =>
    have hne : e.root s t ≠ .absent := by cases e <;> simp [Clause.root]
    change pushFrom (s + e.size) (pushStep _ (s + e.size)) = _
    rw [Clause.markedTerms, pushStep_negation e m hL hTL, ih (!m) hL hTL hU.negated, map_cons,
      hU.map_replace_negated]
    simp [EvalEl.replace, hne.symm, Clause.pushed, Clause.pushedTerms, Clause.root.eq_2,
      Clause.pushedRoot.eq_2]
  | binary c a b iha ihb =>
    have hLa : (L ++ a.marked m s t).length = s + a.size := by simp [hL]
    have hTa : (M ++ a.markedTerms m).length = t + a.terms.length := by simp [hTL]
    -- the cells behind the clause refer to neither operand
    have hUb : U.map (replace (b.root (s + a.size) (t + a.terms.length))
        (b.pushedRoot (s + a.size) (t + a.terms.length))) = U :=
      map_replace_eq_self b fun u hu k hk hs => hU.le_of_refers hu hk (by omega)
    have hUa : U.map (replace (a.root s t) (a.pushedRoot s t)) = U :=
      map_replace_eq_self a fun u hu k hk hs => by
        have := hU.le_of_refers hu hk hs
        omega
    have hba : (b.pushed m (s + a.size) (t + a.terms.length)).map
        (replace (a.root s t) (a.pushedRoot s t)) = b.pushed m (s + a.size) (t + a.terms.length) :=
      map_replace_eq_self a fun u hu k hk hs => (b.refers_pushed hu hk).1
    have hself : U.map (replace ((Clause.binary c a b).root s t)
        ((Clause.binary c a b).pushedRoot s t)) = U :=
      (map_congr_left fun u _ => replace_self _ u).trans (map_id U)
    have hsize : s + (Clause.binary c a b).size = s + a.size + b.size + 1 := by
      rw [Clause.size]
      omega
    rw [hsize, hself]
    change pushFrom (s + a.size + b.size) (pushStep _ (s + a.size + b.size)) = _
    rw [Clause.markedTerms, pushStep_binary c a b m hL hTL, ihb m hLa hTa (hU.second _),
      map_cons, hUb]
    have ha := iha m hL hTL (V := b.pushedTerms m ++ V)
      (hU.first (if m then c.dual.op else c.op) m)
    rw [map_append, map_cons, hUa, hba, replace_order_connective] at ha
    simp only [append_assoc] at ha ⊢
    rw [ha]
    simp [Clause.pushed, Clause.pushedTerms]

/-- **The second pass pushes negations down**, for the whole clause. -/
lemma pushNOTDown_cells (e : Clause R) :
    pushNOTDown ⟨e.terms, e.cells 0 0⟩ = ⟨e.pushedTerms false, e.pushed false 0 0⟩ := by
  have h := pushFrom_segment e false (V := []) (L := []) (M := []) rfl rfl
    (fun u hu => absurd hu not_mem_nil)
  rw [Clause.marked_false, Clause.markedTerms_false] at h
  simpa [pushNOTDown, pushFrom] using h

end Segments

end OpenWbem.Wql
