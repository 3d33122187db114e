import Mathlib.Algebra.Order.BigOperators.Group.List
import OpenWbem.Base.GateList
import OpenWbem.Wql.PushDown

/-!
# Distribution of conjunctions over disjunctions

The cells of the heap are gates: each of them refers to cells before it, and its value is a function
of their values. The third pass replaces a conjunction with a disjunction below it by three cells,
moves the cells behind, and adjusts their references.

After the pass a cell may be below several others, but a disjunction is not: the disjunctions that
are met from a cell downwards are in an interval of indices that ends with the cell, and the
intervals of the operands of a disjunction do not meet.

## Main definitions

* `Info`, `info` — what a cell stands for: its value, its interval, and two measures.
* `Good`, `Factored` — what is known of a cell, and of one after the pass.

## Main results

* `factoring_spec` — the third pass terminates, and keeps the value of the clause.
-/

namespace OpenWbem.Wql

open GateList List EvalEl Nat

/-! ### What a cell stands for -/

/-- What is known of a cell: its operation and value, the first index of the disjunctions that are
met from it, a bound for the conjunctions it becomes, and the number of references below it. -/
structure Info where
  op : WQLOperation
  val : Bool
  lo : ℕ
  weight : ℕ
  size : ℕ

/-- The cells that do nothing. -/
def Info.default : Info := ⟨.doNothing, false, 0, 0, 0⟩

variable {e : EvalEl} {x y : StackEl}

section Info

variable (ν : ℕ → Bool)

/-- What a reference stands for, where `ν` are the values of the terms. -/
def refInfo (vs : List Info) : StackEl → Info
  | .evalHeap k => vs.getD k .default
  | .terminalHeap t => ⟨.eq, ν t, vs.length, 2, 1⟩
  | _ => .default

/-- What a cell stands for, behind other cells. -/
def info (vs : List Info) (e : EvalEl) : Info :=
  let a := refInfo ν vs e.first
  let b := refInfo ν vs e.second
  match e.op with
  | .and => ⟨.and, a.val && b.val, vs.length, a.weight * b.weight, a.size + b.size + 1⟩
  | .or =>
    ⟨.or, a.val || b.val, min vs.length (min a.lo b.lo), a.weight + b.weight + 1,
      a.size + b.size + 1⟩
  | _ => .default

variable {ν}

/-- A conjunction. -/
lemma info_and {vs : List Info} (h : e.op = .and) : info ν vs e =
    ⟨.and, (refInfo ν vs e.first).val && (refInfo ν vs e.second).val, vs.length,
      (refInfo ν vs e.first).weight * (refInfo ν vs e.second).weight,
      (refInfo ν vs e.first).size + (refInfo ν vs e.second).size + 1⟩ := by
  rw [info, h]

/-- A disjunction. -/
lemma info_or {vs : List Info} (h : e.op = .or) : info ν vs e =
    ⟨.or, (refInfo ν vs e.first).val || (refInfo ν vs e.second).val,
      min vs.length (min (refInfo ν vs e.first).lo (refInfo ν vs e.second).lo),
      (refInfo ν vs e.first).weight + (refInfo ν vs e.second).weight + 1,
      (refInfo ν vs e.first).size + (refInfo ν vs e.second).size + 1⟩ := by
  rw [info, h]

/-- A cell that is not used. -/
lemma info_doNothing {vs : List Info} (h : e.op = .doNothing) : info ν vs e = .default := by
  rw [info, h]

/-- The lowest cell below. -/
lemma lo_info_le (vs : List Info) (e : EvalEl) : (info ν vs e).lo ≤ vs.length := by
  rw [info]
  split
  · exact le_refl _
  · exact min_le_left _ _
  · exact zero_le _

/-- Exchanging the operands. -/
lemma info_swap (vs : List Info) (m : Bool) (op : WQLOperation) (x y : StackEl) :
    info ν vs ⟨m, op, y, x⟩ = info ν vs ⟨m, op, x, y⟩ := by
  cases op <;> simp [info, Bool.and_comm, Bool.or_comm, mul_comm, add_comm, min_comm]

/-- Ordering the operands. -/
lemma info_order (vs : List Info) (e : EvalEl) : info ν vs e.order = info ν vs e := by
  rw [order_eq]
  split_ifs
  · exact info_swap vs _ _ _ _
  · rfl

end Info

/-! ### Well-formed heaps -/

/-- A cell that does something. -/
structure Info.Live (x : Info) : Prop where
  op : x.op = .and ∨ x.op = .or
  weight : 0 < x.weight

/-- A reference to a term or to an earlier cell that does something. -/
inductive RefOk (T : ℕ) (vs : List Info) : StackEl → Prop
  | term {t : ℕ} (h : t < T) : RefOk T vs (.terminalHeap t)
  | cell {k : ℕ} (h : k < vs.length) (hlive : (vs.getD k .default).Live) : RefOk T vs (.evalHeap k)

/-- The disjunctions that are met from two references are different ones. -/
def Apart (vs : List Info) (x y : StackEl) : Prop :=
  ∀ a b, x = .evalHeap a → y = .evalHeap b →
    a < (vs.getD b .default).lo ∨ b < (vs.getD a .default).lo

/-- Apart is symmetric. -/
lemma Apart.symm {vs : List Info} (h : Apart vs x y) : Apart vs y x :=
  fun a b ha hb => (h b a hb ha).symm

/-- A cell refers to earlier cells, and a disjunction to disjoint intervals. -/
def Good (T : ℕ) (vs : List Info) (e : EvalEl) : Prop :=
  e.op = .doNothing ∨ ((e.op = .and ∨ e.op = .or) ∧ RefOk T vs e.first ∧ RefOk T vs e.second ∧
    (e.op = .or → Apart vs e.first e.second))

/-- A conjunction does not refer to a disjunction. -/
def Factored (vs : List Info) (e : EvalEl) : Prop :=
  e.op = .and → ∀ k, e.Refers k → (vs.getD k .default).op ≠ .or

section Good

variable {ν : ℕ → Bool} {T : ℕ} {vs : List Info}

/-- Exchanging the operands. -/
lemma Good.swap {m : Bool} {op : WQLOperation} (h : Good T vs ⟨m, op, x, y⟩) :
    Good T vs ⟨m, op, y, x⟩ := by
  rcases h with h | ⟨hop, h1, h2, hor⟩
  · exact .inl h
  · exact .inr ⟨hop, h2, h1, fun h => (hor h).symm⟩

/-- Ordering the operands. -/
lemma Good.order (h : Good T vs e) : Good T vs e.order := by
  rw [order_eq]
  split_ifs
  · exact Good.swap h
  · exact h

/-- More cells. -/
lemma RefOk.append (h : RefOk T vs x) (ws : List Info) : RefOk T (vs ++ ws) x := by
  cases h with
  | term h => exact .term h
  | cell h hlive =>
    refine .cell (by rw [length_append]; omega) ?_
    rwa [getD_append _ _ _ _ h]

/-- The value of a reference does not depend on later cells. -/
lemma RefOk.val_append (h : RefOk T vs x) (ws : List Info) :
    (refInfo ν (vs ++ ws) x).val = (refInfo ν vs x).val := by
  cases h with
  | term h => rfl
  | cell h hlive => rw [refInfo, refInfo, getD_append _ _ _ _ h]

/-- The weight stays. -/
lemma RefOk.weight_append (h : RefOk T vs x) (ws : List Info) :
    (refInfo ν (vs ++ ws) x).weight = (refInfo ν vs x).weight := by
  cases h with
  | term h => rfl
  | cell h hlive => rw [refInfo, refInfo, getD_append _ _ _ _ h]

/-- The size stays. -/
lemma RefOk.size_append (h : RefOk T vs x) (ws : List Info) :
    (refInfo ν (vs ++ ws) x).size = (refInfo ν vs x).size := by
  cases h with
  | term h => rfl
  | cell h hlive => rw [refInfo, refInfo, getD_append _ _ _ _ h]

/-- A weight is positive. -/
lemma RefOk.weight_pos (h : RefOk T vs x) : 0 < (refInfo ν vs x).weight := by
  cases h with
  | term h => exact two_pos
  | cell h hlive => exact hlive.weight

/-- A well-formed cell that does something stands for something. -/
lemma Good.live (h : Good T vs e) (hop : e.op ≠ .doNothing) : (info ν vs e).Live := by
  rcases h with h | ⟨h, h1, h2, -⟩
  · exact absurd h hop
  rcases h with h | h
  · rw [info_and h]
    exact ⟨.inl rfl, mul_pos h1.weight_pos h2.weight_pos⟩
  · rw [info_or h]
    exact ⟨.inr rfl, succ_pos _⟩

/-- The operation of a cell. -/
lemma Good.op_info (h : Good T vs e) : (info ν vs e).op = e.op := by
  rcases h with h | ⟨h | h, -⟩
  · rw [info_doNothing h, h]
    rfl
  · rw [info_and h, h]
  · rw [info_or h, h]

end Good

/-! ### Moving cells -/

section Shift

variable {ν : ℕ → Bool} {T i : ℕ}

/-- Where a cell is after two cells have been inserted behind the cell at `i`, which becomes the
last of the three. -/
def moveCell (i k : ℕ) : ℕ := if i ≤ k then k + 2 else k

/-- Where an interval starts afterwards. -/
def moveLo (i x : ℕ) : ℕ := if x ≤ i then x else x + 2

variable {a : ℕ} {ws ws' : List Info}

/-- Moving keeps the order. -/
lemma moveCell_lt_moveLo {x : ℕ} (h : a < x) : moveCell i a < moveLo i x := by
  unfold moveCell moveLo
  split_ifs <;> omega

/-- The lower of two. -/
lemma moveLo_min (x y : ℕ) : moveLo i (min x y) = min (moveLo i x) (moveLo i y) := by
  unfold moveLo
  split_ifs <;> omega

/-- What stays of a cell. -/
structure Moved (i : ℕ) (x x' : Info) : Prop where
  val : x'.val = x.val
  lo : x'.lo = moveLo i x.lo
  weight : x'.weight ≤ x.weight
  live : x.Live → x'.Live

/-- A reference to a cell. -/
lemma shift_evalHeap (i k : ℕ) : (StackEl.evalHeap k).shift i = .evalHeap (moveCell i k) := by
  rw [StackEl.shift, moveCell]
  split_ifs <;> rfl

/-- Where it came from. -/
lemma of_shift_eq_evalHeap (h : x.shift i = .evalHeap a) :
    ∃ k, x = .evalHeap k ∧ moveCell i k = a := by
  cases x with
  | evalHeap k => exact ⟨k, rfl, StackEl.evalHeap.inj ((shift_evalHeap i k).symm.trans h)⟩
  | terminalHeap k | operand k | absent => exact absurd h (by simp [StackEl.shift])

/-- References after a move. -/
lemma RefOk.shift (h : RefOk T ws x) (hsim : Sim (Moved i) .default (moveCell i) ws ws')
    (hi : i < ws.length) (hlen : ws'.length = ws.length + 2) :
    RefOk T ws' (x.shift i) ∧ Moved i (refInfo ν ws x) (refInfo ν ws' (x.shift i)) := by
  cases h with
  | term h =>
    refine ⟨.term h, rfl, ?_, le_refl _, fun hlive => ⟨hlive.op, hlive.weight⟩⟩
    change ws'.length = moveLo i ws.length
    rw [moveLo, if_neg (by omega), hlen]
  | @cell k h hlive =>
    obtain ⟨hlt, hmoved⟩ := hsim k h
    rw [shift_evalHeap]
    exact ⟨.cell hlt (hmoved.live hlive), hmoved⟩

/-- Cells after a move. -/
lemma Good.shift (h : Good T ws e) (hsim : Sim (Moved i) .default (moveCell i) ws ws')
    (hi : i < ws.length)
    (hlen : ws'.length = ws.length + 2) : (Moved i (info ν ws e) (info ν ws' (e.shift i)) ∧
      (info ν ws' (e.shift i)).op = (info ν ws e).op) ∧ Good T ws' (e.shift i) := by
  have hgood := h
  have hop : (e.shift i).op = e.op := rfl
  rcases h with h | ⟨h, h1, h2, hor⟩
  · rw [info_doNothing h, info_doNothing (hop.trans h)]
    exact ⟨⟨⟨rfl, rfl, le_refl _, id⟩, rfl⟩, .inl h⟩
  obtain ⟨h1', m1⟩ := h1.shift (ν := ν) hsim hi hlen
  obtain ⟨h2', m2⟩ := h2.shift (ν := ν) hsim hi hlen
  have hgood' : Good T ws' (e.shift i) := by
    refine .inr ⟨h, h1', h2', fun ho a b ha hb => ?_⟩
    obtain ⟨k, hx, rfl⟩ := of_shift_eq_evalHeap ha
    obtain ⟨j, hy, rfl⟩ := of_shift_eq_evalHeap hb
    have hka : k < ws.length := by
      rw [hx] at h1
      cases h1
      assumption
    have hjb : j < ws.length := by
      rw [hy] at h2
      cases h2
      assumption
    rw [(hsim k hka).2.lo, (hsim j hjb).2.lo]
    exact (hor ho k j hx hy).imp moveCell_lt_moveLo moveCell_lt_moveLo
  have hlive : (info ν ws' (e.shift i)).Live := hgood'.live (by
    rcases h with h | h <;> rw [hop, h] <;> decide)
  refine ⟨⟨?_, by rw [hgood'.op_info, hgood.op_info, hop]⟩, hgood'⟩
  have hself : moveLo i ws.length = ws'.length := by rw [moveLo, if_neg (by omega), hlen]
  rcases h with h | h
  · rw [info_and (hop.trans h)] at hlive ⊢
    rw [info_and h]
    refine ⟨?_, hself.symm, Nat.mul_le_mul m1.weight m2.weight, fun _ => hlive⟩
    exact congrArg₂ and m1.val m2.val
  · rw [info_or (hop.trans h)] at hlive ⊢
    rw [info_or h]
    refine ⟨congrArg₂ or m1.val m2.val, ?_, ?_, fun _ => hlive⟩
    · rw [moveLo_min, moveLo_min, hself]
      exact congrArg₂ (fun x y => min ws'.length (min x y)) m1.lo m2.lo
    · exact Nat.succ_le_succ (Nat.add_le_add m1.weight m2.weight)

end Shift

/-! ### One distribution -/

section Distribute

variable {ν : ℕ → Bool} {T : ℕ} {A B : List EvalEl} {c : EvalEl}

variable {index k : ℕ} {evals : List EvalEl} {s : StackEl} {xs ys : List Info}

/-- What one step writes. -/
lemma distribute_eq (hindex : index < A.length) (s : StackEl) :
    distribute A.length index s (A ++ c :: B) =
      A ++ order ⟨false, .and, s, (A.getD index .default).second⟩ ::
        order ⟨false, .and, s, (A.getD index .default).first⟩ ::
          ⟨false, .or, .evalHeap (A.length + 1), .evalHeap A.length⟩ :: B.map (shift A.length) := by
  have htwo : insertTwo A.length (A ++ c :: B) =
      A ++ c :: ⟨false, .or, .evalHeap (A.length + 1), .evalHeap A.length⟩ ::
        ⟨false, .or, .evalHeap (A.length + 1), .evalHeap A.length⟩ :: B.map (shift A.length) := by
    have htake : (A ++ c :: B).take (A.length + 1) = A ++ [c] := by
      simp [take_append]
    dsimp only [insertTwo]
    rw [htake]
    simp
  have hset : ∀ (x y y' : EvalEl) (l : List EvalEl),
      (A ++ x :: y :: l).set (A.length + 1) y' = A ++ x :: y' :: l := fun x y y' l => by
    simp
  dsimp only [distribute]
  rw [htwo, hset, getD_append _ _ _ _ hindex, getD_append _ _ _ _ hindex, set_append_length rfl]

/-- What `findOr` finds: one operand of the conjunction is a disjunction, and the other one is
given. -/
lemma findOr_eq_some (h : findOr evals c = some (index, s)) :
    c.op = .and ∧ (evals.getD index .default).op = .or ∧
      ((c.first = .evalHeap index ∧ s = c.second) ∨
        (c.second = .evalHeap index ∧ s = c.first)) := by
  obtain ⟨m, op, x, y⟩ := c
  by_cases hop : op = .and
  · subst hop
    refine ⟨rfl, ?_⟩
    cases x <;> cases y <;> simp only [findOr] at h <;> grind
  · rw [findOr, if_neg hop] at h
    cases h

/-- There is no disjunction below. -/
lemma findOr_eq_none (h : findOr evals c = none) (hop : c.op = .and)
    (hk : c.Refers k) : (evals.getD k .default).op ≠ .or := by
  obtain ⟨m, op, x, y⟩ := c
  subst hop
  intro hor
  rcases hk with hk | hk
  · subst hk
    simp only [findOr, hor] at h
    cases h
  · cases x <;> simp only [findOr] at h <;> grind

/-- The measure of the cells that are still to be treated. -/
def measure (infos : List Info) : ℕ :=
  (infos.map fun x => 3 * (if x.op = .and then x.weight else 0) + 1).sum

/-- The value of the last cell that does something. -/
def rootVal (infos : List Info) : Option Bool :=
  ((infos.filter fun x => x.op != .doNothing).getLast?).map Info.val

/-- One cell more. -/
lemma measure_cons (x : Info) (infos : List Info) : measure (x :: infos) =
    3 * (if x.op = .and then x.weight else 0) + 1 + measure infos := by
  simp [measure]

/-- Moving does not increase it. -/
lemma measure_le {i : ℕ} (h : List.Forall₂ (fun x x' => Moved i x x' ∧ x'.op = x.op) xs ys) :
    measure ys ≤ measure xs := by
  induction h with
  | nil => exact le_refl _
  | cons hx _ ih =>
    rw [measure_cons, measure_cons, hx.2]
    have := hx.1.weight
    split_ifs <;> omega

/-- The root after a move. -/
lemma rootVal_append {i : ℕ} {l l' : List Info} (hl : rootVal l = rootVal l')
    (h : List.Forall₂ (fun x x' => Moved i x x' ∧ x'.op = x.op) xs ys) :
    rootVal (l' ++ ys) = rootVal (l ++ xs) := by
  have hroot : ∀ (l : List Info) (xs : List Info),
      rootVal (l ++ xs) = (rootVal xs).or (rootVal l) := fun l xs => by
    simp [rootVal, Option.map_or]
  have hlast : rootVal ys = rootVal xs := by
    induction h with
    | nil => rfl
    | @cons x y xs ys hx _ ih =>
      have hone : rootVal [y] = rootVal [x] := by
        simp only [rootVal, filter_cons, hx.2]
        split_ifs <;> simp [hx.1.val]
      have hy := hroot [y] ys
      have hx := hroot [x] xs
      rw [singleton_append] at hx hy
      rw [hx, hy, ih, hone]
  rw [hroot, hroot, hl, hlast]

/-- What a disjunction stands for, and its operands. -/
lemma or_at (hA : All (info ν) (Good T) [] A) (hk : k < A.length)
    (hop : (A.getD k .default).op = .or) :
    let vs := extend (info ν) [] A
    let d := A.getD k .default
    RefOk T vs d.first ∧ RefOk T vs d.second ∧
      (vs.getD k .default).val = ((refInfo ν vs d.first).val || (refInfo ν vs d.second).val) ∧
      (vs.getD k .default).weight = (refInfo ν vs d.first).weight +
        (refInfo ν vs d.second).weight + 1 := by
  intro vs d
  obtain ⟨ws, rest, hvs, -, hget, hgood⟩ := hA.exists_before hk .default .default
  rcases hgood with h | ⟨-, h1, h2, -⟩
  · exact absurd (hop.symm.trans h) (by decide)
  have hvs' : vs = ws ++ rest := hvs
  refine ⟨hvs' ▸ h1.append rest, hvs' ▸ h2.append rest, ?_, ?_⟩
  · rw [hget, info_or hop, hvs', h1.val_append, h2.val_append]
  · rw [hget, info_or hop, hvs', h1.weight_append, h2.weight_append]

/-- The cells of one step. -/
lemma three_cells {vs : List Info} (hs : RefOk T vs s) (hx : RefOk T vs x) (hy : RefOk T vs y) :
    let cells : List EvalEl := [order ⟨false, .and, s, y⟩, order ⟨false, .and, s, x⟩,
      ⟨false, .or, .evalHeap (vs.length + 1), .evalHeap vs.length⟩]
    let w := (refInfo ν vs s).weight
    All (info ν) (Good T) vs cells ∧ ∃ p q o, extend (info ν) vs cells = [p, q, o] ∧
        p.op = .and ∧ p.weight = w * (refInfo ν vs y).weight ∧
        q.op = .and ∧ q.weight = w * (refInfo ν vs x).weight ∧
        o.op = .or ∧ o.Live ∧ o.lo = vs.length ∧
        o.val = ((refInfo ν vs s).val && ((refInfo ν vs x).val || (refInfo ν vs y).val)) ∧
        o.weight = w * (refInfo ν vs x).weight + w * (refInfo ν vs y).weight + 1 := by
  intro cells w
  set p := info ν vs ⟨false, .and, s, y⟩ with hp
  set q := info ν (vs ++ [p]) ⟨false, .and, s, x⟩ with hq
  set o :=
    info ν (vs ++ [p] ++ [q]) ⟨false, .or, .evalHeap (vs.length + 1), .evalHeap vs.length⟩ with ho
  have hext : extend (info ν) vs cells = [p, q, o] := by
    simp only [cells, extend_cons, extend_nil, info_order, ← hp, ← hq, ← ho]
  have hpeq := hp.trans (info_and rfl)
  have hqeq := hq.trans (info_and rfl)
  have hoeq := ho.trans (info_or rfl)
  have hgetp : (vs ++ [p] ++ [q]).getD vs.length .default = p := by
    simp
  have hgetq : (vs ++ [p] ++ [q]).getD (vs.length + 1) .default = q := by
    simp
  have hgoodp : Good T vs ⟨false, .and, s, y⟩ := .inr ⟨.inl rfl, hs, hy, nofun⟩
  have hgoodq : Good T (vs ++ [p]) ⟨false, .and, s, x⟩ :=
    .inr ⟨.inl rfl, hs.append _, hx.append _, nofun⟩
  have hgoodo : Good T (vs ++ [p] ++ [q]) ⟨false, .or, .evalHeap (vs.length + 1),
      .evalHeap vs.length⟩ := by
    refine .inr ⟨.inr rfl, .cell (by simp) ?_, .cell (by simp) ?_, fun _ a b ha hb => .inr ?_⟩
    · rw [hgetq]
      exact hgoodq.live (by simp)
    · rw [hgetp]
      exact hgoodp.live (by simp)
    · obtain rfl := StackEl.evalHeap.inj ha
      obtain rfl := StackEl.evalHeap.inj hb
      rw [hqeq]
      simp
  refine ⟨⟨hgoodp.order, ?_, ?_, trivial⟩, p, q, o, hext, ?_⟩
  · rw [info_order]
    exact hgoodq.order
  · rw [info_order, info_order]
    exact hgoodo
  · have hlive := hgoodo.live (ν := ν) (by simp)
    refine ⟨by rw [hpeq], by rw [hpeq], by rw [hqeq], ?_, by rw [hoeq], hlive, ?_, ?_, ?_⟩
    · rw [hqeq]
      exact congrArg₂ (· * ·) (hs.weight_append _) (hx.weight_append _)
    · rw [hoeq]
      change min _ (min ((vs ++ [p] ++ [q]).getD (vs.length + 1) .default).lo
        ((vs ++ [p] ++ [q]).getD vs.length .default).lo) = _
      rw [hpeq, hqeq]
      simp
    · rw [hoeq]
      change (((vs ++ [p] ++ [q]).getD (vs.length + 1) .default).val ||
        ((vs ++ [p] ++ [q]).getD vs.length .default).val) = _
      rw [hgetp, hgetq, hpeq, hqeq]
      rw [hs.val_append, hx.val_append, Bool.and_or_distrib_left]
    · rw [hoeq]
      change ((vs ++ [p] ++ [q]).getD (vs.length + 1) .default).weight +
        ((vs ++ [p] ++ [q]).getD vs.length .default).weight + 1 = _
      rw [hgetp, hgetq, hpeq, hqeq]
      rw [hs.weight_append, hx.weight_append]

/-- **A distribution keeps the value, and leaves less to do.** The third of the new cells takes the
place of the conjunction, and the cells behind are moved. -/
lemma distribute_spec (h : All (info ν) (Good T) [] (A ++ c :: B))
    (hfind : findOr (A ++ c :: B) c = some (index, s)) :
    ∃ B', distribute A.length index s (A ++ c :: B) = A ++ B' ∧ All (info ν) (Good T) [] (A ++ B') ∧
      rootVal (extend (info ν) [] (A ++ B')) = rootVal (extend (info ν) [] (A ++ c :: B)) ∧
      measure (extend (info ν) (extend (info ν) [] A) B') <
        measure (extend (info ν) (extend (info ν) [] A) (c :: B)) := by
  obtain ⟨hop, hor, hrefs⟩ := findOr_eq_some hfind
  rw [GateList.all_append] at h
  obtain ⟨hA, hc, hB⟩ := h
  set vs := extend (info ν) [] A with hvs
  have hlen : vs.length = A.length := length_extend _ _ _
  -- the operands of the conjunction and of the disjunction
  obtain ⟨hs, hindex, hval, hweight⟩ : RefOk T vs s ∧ RefOk T vs (.evalHeap index) ∧
      (info ν vs c).val = ((refInfo ν vs s).val && (vs.getD index .default).val) ∧
      (info ν vs c).weight = (refInfo ν vs s).weight * (vs.getD index .default).weight := by
    rcases hc with hc | ⟨-, h1, h2, -⟩
    · exact absurd (hop.symm.trans hc) (by decide)
    rw [info_and hop]
    rcases hrefs with ⟨hf, rfl⟩ | ⟨hf, rfl⟩
    · rw [hf] at h1 ⊢
      exact ⟨h2, h1, Bool.and_comm _ _, mul_comm _ _⟩
    · rw [hf] at h2 ⊢
      exact ⟨h1, h2, rfl, rfl⟩
  have hlt : index < A.length := by
    cases hindex with
    | cell h _ => exact hlen ▸ h
  rw [getD_append _ _ _ _ hlt] at hor
  obtain ⟨h1, h2, hval', hweight'⟩ := or_at hA hlt hor
  rw [← hvs] at h1 h2 hval' hweight'
  set d := A.getD index .default with hd
  obtain ⟨hcells, p, q, o, hext, hpop, hpw, hqop, hqw, hoop, holive, holo, hoval, how⟩ :=
    three_cells hs h1 h2
  rw [hlen] at hcells hext
  set cells : List EvalEl := [order ⟨false, .and, s, d.second⟩,
    order ⟨false, .and, s, d.first⟩,
    ⟨false, .or, .evalHeap (A.length + 1), .evalHeap A.length⟩] with hcellsdef
  -- the third of them takes the place of the conjunction
  have hmoved : Moved A.length (info ν vs c) o := by
    refine ⟨?_, ?_, ?_, fun _ => holive⟩
    · rw [hoval, hval, hval']
    · rw [holo, info_and hop, hlen]
      simp [moveLo]
    · have hpos := hs.weight_pos (ν := ν)
      rw [hweight, hweight', mul_add, mul_add]
      omega
  have hsim : Sim (Moved A.length) .default (moveCell A.length) (vs ++ [info ν vs c])
      (vs ++ [p, q, o]) := by
    intro k hk
    rw [length_append, hlen] at hk
    rcases Nat.lt_succ_iff_lt_or_eq.mp hk with hk | rfl
    · have hlo :=
        forall_getD_extend (info ν) (Q := fun k x => x.lo ≤ k) lo_info_le (d := .default) A hk
      rw [moveCell, if_neg (by omega), getD_append _ _ _ _ (by omega),
        getD_append _ _ _ _ (by omega)]
      refine ⟨by simp; omega, rfl, ?_, le_refl _, id⟩
      rw [moveLo, if_pos (by rw [← hvs] at hlo; omega)]
    · rw [moveCell]
      refine ⟨by simp [hlen], ?_⟩
      simpa [← hlen] using hmoved
  obtain ⟨hall, hprops, -⟩ := sim_extend (S := fun x x' => Moved A.length x x' ∧ x'.op = x.op)
    (fun x y h => h.1) (fun k hk => by
      rw [length_append] at hk ⊢
      rw [moveCell, if_pos (by omega)]
      simp
      omega) hsim
    (fun ws ws' e hsim hle heq hgood => by
      simp only [length_append, length_cons] at hle heq
      exact hgood.shift hsim (by omega) (by omega)) hB
  refine ⟨cells ++ B.map (shift A.length), distribute_eq hlt s, ?_, ?_, ?_⟩
  · rw [GateList.all_append, GateList.all_append, nil_append, hext]
    exact ⟨hA, hcells, hprops⟩
  · rw [extend_append, extend_append _ _ A, nil_append, extend_append, hext, extend_cons,
      ← append_assoc, append_cons vs (info ν vs c)]
    refine rootVal_append ?_ hall
    have hcop : (info ν vs c).op = .and := by rw [info_and hop]
    simp [rootVal, hcop, hoop, hmoved.val]
  · rw [extend_append, hext, extend_cons, measure_cons]
    change measure (p :: q :: o :: extend (info ν) (vs ++ [p, q, o]) _) < _
    rw [measure_cons, measure_cons, measure_cons]
    have := measure_le hall
    have hpos := hs.weight_pos (ν := ν)
    have hcop : (info ν vs c).op = .and := by rw [info_and hop]
    rw [if_pos hpop, if_pos hqop, if_neg (by rw [hoop]; decide), if_pos hcop, hweight, hweight',
      mul_add (refInfo ν vs s).weight, mul_add (refInfo ν vs s).weight]
    omega

/-- **The third pass terminates, and keeps the value of the clause.** Afterwards no conjunction
refers to a disjunction. Each turn of the loop decreases the measure. -/
lemma factoring_spec (n : ℕ) (hgood : All (info ν) (Good T) [] (A ++ B))
    (hfact : All (info ν) Factored [] A)
    (hn : measure (extend (info ν) (extend (info ν) [] A) B) ≤ n) :
    ∃ evals, (∀ fuel, n < fuel → factoring fuel A.length (A ++ B) = some evals) ∧
      All (info ν) (Good T) [] evals ∧ All (info ν) Factored [] evals ∧
      rootVal (extend (info ν) [] evals) = rootVal (extend (info ν) [] (A ++ B)) := by
  induction n using Nat.strong_induction_on generalizing A B with
  | _ n ih =>
  cases B with
  | nil =>
    rw [append_nil] at hgood ⊢
    refine ⟨A, fun fuel hfuel => ?_, hgood, hfact, rfl⟩
    obtain ⟨fuel, rfl⟩ := exists_eq_succ_of_ne_zero (ne_zero_of_lt hfuel)
    rw [factoring, if_neg (lt_irrefl _)]
  | cons c B =>
    have hlt : A.length < (A ++ c :: B).length := by simp
    have hget := getD_append_length A B c .default
    rcases hfind : findOr (A ++ c :: B) c with - | ⟨index, s⟩
    · -- nothing to distribute: the next cell
      rw [extend_cons, measure_cons] at hn
      have hfact' : All (info ν) Factored [] (A ++ [c]) := by
        rw [GateList.all_append, nil_append]
        refine ⟨hfact, fun hop k hk => ?_, trivial⟩
        have hor := findOr_eq_none hfind hop hk
        intro hor'
        rw [GateList.all_append] at hgood
        rcases hgood.2.1 with h | ⟨-, h1, h2, -⟩
        · exact absurd (hop.symm.trans h) (by decide)
        have hklt : k < A.length := by
          rw [← length_extend (info ν) [] A]
          rcases hk with hk | hk
          · rw [hk] at h1
            cases h1
            assumption
          · rw [hk] at h2
            cases h2
            assumption
        obtain ⟨ws, rest, -, -, hval, hgoodk⟩ := hgood.1.exists_before hklt .default .default
        rw [hval, hgoodk.op_info] at hor'
        rw [getD_append _ _ _ _ hklt] at hor
        exact hor hor'
      have hsplit : A ++ c :: B = (A ++ [c]) ++ B := by simp
      have hext : extend (info ν) [] (A ++ [c]) =
          extend (info ν) [] A ++ [info ν (extend (info ν) [] A) c] := by
        rw [extend_append, nil_append, extend_cons, extend_nil]
      rw [hsplit] at hgood
      rw [← hext] at hn
      obtain ⟨evals, hrun, hevals⟩ := ih _ (by omega) hgood hfact' (le_refl _)
      refine ⟨evals, fun fuel hfuel => ?_, by rw [hsplit]; exact hevals⟩
      obtain ⟨fuel, rfl⟩ := exists_eq_succ_of_ne_zero (ne_zero_of_lt hfuel)
      rw [factoring, if_pos hlt, hget, hfind]
      have hrun := hrun fuel (by omega)
      rwa [length_append, ← hsplit] at hrun
    · obtain ⟨B', hB', hgood', hroot, hmeasure⟩ := distribute_spec hgood hfind
      obtain ⟨evals, hrun, hgoods, hfacts, hroots⟩ := ih _ (by omega) hgood' hfact (le_refl _)
      refine ⟨evals, fun fuel hfuel => ?_, hgoods, hfacts, hroots.trans hroot⟩
      obtain ⟨fuel, rfl⟩ := exists_eq_succ_of_ne_zero (ne_zero_of_lt hfuel)
      rw [factoring, if_pos hlt, hget, hfind]
      change factoring fuel A.length (distribute A.length index s (A ++ c :: B)) = _
      rw [hB']
      exact hrun fuel (by omega)

end Distribute

end OpenWbem.Wql
