import Mathlib.Data.List.Basic
import Mathlib.Order.Compare
import Mathlib.Order.Lattice
import Mathlib.Data.List.Lex

/-!
# An exchange sort that compares with an old key

A pass of an exchange sort exchanges the element at its place with every one behind it that is
smaller. Here the elements behind are compared with the element that was at the place when the pass
began, not with the one that is there: a pass takes the last one that is smaller than the first, and
not the least.

## Main definitions

* `pass` — a pass: what it leaves at its place, and behind it.
* `exchangeSort` — the passes, one after the other.
* `Shadowed` — a list with a key that a pass takes too early.

## Main results

* `pairwise_exchangeSort_iff` — **which lists are sorted.**
-/

namespace OpenWbem.ExchangeSort

open List

variable {κ : Type} [LinearOrder κ]

/-- A pass, when `x` is at its place: the elements that are less than `k` are exchanged with the one
there. -/
def pass (k : κ) : κ → List κ → κ × List κ
  | x, [] => (x, [])
  | x, y :: ys => if y < k then ((pass k y ys).1, x :: (pass k y ys).2)
    else ((pass k x ys).1, y :: (pass k x ys).2)

variable {k x y z b : κ} {l ys : List κ}

/-- A smaller element is exchanged. -/
lemma pass_of_lt (h : y < k) : pass k x (y :: ys) = ((pass k y ys).1, x :: (pass k y ys).2) :=
  if_pos h

/-- Another one is not. -/
lemma pass_of_le (h : k ≤ y) : pass k x (y :: ys) = ((pass k x ys).1, y :: (pass k x ys).2) :=
  if_neg h.not_gt

/-- A pass only moves elements. -/
lemma pass_perm (k x : κ) (l : List κ) : ((pass k x l).1 :: (pass k x l).2).Perm (x :: l) := by
  induction l generalizing x with
  | nil => exact .refl _
  | cons y ys ih =>
    rcases lt_or_ge y k with h | h
    · rw [pass_of_lt h]
      exact (Perm.swap _ _ _).trans ((ih y).cons x)
    · rw [pass_of_le h]
      exact (Perm.swap _ _ _).trans (((ih x).cons y).trans (Perm.swap _ _ _))

/-- A pass keeps the length. -/
@[simp]
lemma length_pass : (pass k x l).2.length = l.length :=
  Nat.succ_injective (pass_perm k x l).length_eq

/-- The passes one after the other. -/
def exchangeSort : List κ → List κ
  | [] => []
  | x :: l => (pass x x l).1 :: exchangeSort (pass x x l).2
termination_by l => l.length
decreasing_by simp

/-- The elements stay the same. -/
lemma exchangeSort_perm (l : List κ) : (exchangeSort l).Perm l := by
  induction l using exchangeSort.induct with
  | case1 => rw [exchangeSort]
  | case2 x l ih =>
    rw [exchangeSort]
    exact (ih.cons _).trans (pass_perm x x l)

/-! ### How the elements compare with a key -/

/-- What follows the first larger element: after `q` smaller ones no other one precedes an equal
one. -/
def TailOk : ℕ → List Ordering → Prop
  | _, [] => True
  | 0, .lt :: w => .eq ∉ w
  | q + 1, .lt :: w => TailOk q w
  | q, _ :: w => TailOk q w

/-- As many smaller elements as there are equal ones before the first larger one may precede
others. -/
def Ok : ℕ → List Ordering → Prop
  | _, [] => True
  | q, .gt :: w => TailOk q w
  | q, .eq :: w => Ok (q + 1) w
  | q, .lt :: w => Ok q w

/-- An equal element in front. -/
lemma tailOk_cons_eq {q : ℕ} {w : List Ordering} : TailOk q (.eq :: w) ↔ TailOk q w := by
  cases q <;> rfl

/-- A greater element in front. -/
lemma tailOk_cons_gt {q : ℕ} {w : List Ordering} : TailOk q (.gt :: w) ↔ TailOk q w := by
  cases q <;> rfl

/-- An equal element in the place of the first smaller one. -/
lemma tailOk_replace {q : ℕ} {w : List Ordering} :
    TailOk q (w.replace .lt .eq) ↔ TailOk (q + 1) w := by
  induction w with
  | nil => simp [TailOk]
  | cons o w ih =>
    cases o with
    | lt => exact tailOk_cons_eq
    | eq => exact tailOk_cons_eq.trans ih
    | gt => exact tailOk_cons_gt.trans ih

/-- Smaller elements taken for equal ones. -/
lemma ok_replace {q : ℕ} {w : List Ordering} : Ok q (w.replace .lt .eq) ↔ Ok (q + 1) w := by
  induction w generalizing q with
  | nil => simp [Ok]
  | cons o w ih =>
    cases o with
    | lt => exact .rfl
    | eq => exact ih
    | gt => exact tailOk_replace

/-- Only the elements that are not larger count. -/
lemma tailOk_filter {w : List Ordering} : TailOk 0 (w.filter (· ≠ .gt)) ↔ TailOk 0 w := by
  induction w with
  | nil => exact .rfl
  | cons o w ih =>
    cases o with
    | lt => simp [TailOk]
    | eq => simpa [tailOk_cons_eq] using ih
    | gt => simpa [tailOk_cons_gt] using ih

/-- An element at the end. -/
lemma tailOk_concat {o : Ordering} {w : List Ordering} :
    TailOk 0 (w ++ [o]) ↔ TailOk 0 w ∧ (o = .eq → .lt ∉ w) := by
  induction w with
  | nil => cases o <;> simp [TailOk]
  | cons p w ih =>
    cases p with
    | lt => simp [TailOk]; tauto
    | eq => simpa [tailOk_cons_eq] using ih
    | gt => simpa [tailOk_cons_gt] using ih

/-! ### What a pass does to them -/

/-- How the elements of a list compare with `b`. -/
def cmps (b : κ) (l : List κ) : List Ordering := l.map (compare · b)

/-- A pass for a smaller element changes nothing. -/
lemma cmps_pass_of_lt (hk : k ≤ b) (hx : x < b) : cmps b (pass k x l).2 = cmps b l := by
  induction l generalizing x with
  | nil => rfl
  | cons y ys ih =>
    rcases lt_or_ge y k with h | h
    · rw [pass_of_lt h]
      have hy := h.trans_le hk
      simp only [cmps, map_cons, compare_lt_iff_lt.2 hx, compare_lt_iff_lt.2 hy]
      exact congrArg _ (ih hy)
    · rw [pass_of_le h]
      exact congrArg (_ :: ·) (ih hx)

/-- A pass for an equal element puts it in the place of the first smaller one. -/
lemma cmps_pass_self : cmps b (pass b b l).2 = (cmps b l).replace .lt .eq := by
  induction l with
  | nil => rfl
  | cons y ys ih =>
    rcases lt_or_ge y b with h | h
    · rw [pass_of_lt h]
      simp only [cmps, map_cons, compare_lt_iff_lt.2 h, replace_cons_self, compare_eq_iff_eq.2 rfl]
      exact congrArg _ (cmps_pass_of_lt le_rfl h)
    · have hy : compare y b ≠ .lt := fun hlt => h.not_gt (compare_lt_iff_lt.1 hlt)
      rw [pass_of_le h, cmps, map_cons, cmps, map_cons, replace_cons, beq_false_of_ne hy.symm]
      exact congrArg _ ih

/-- A pass for a larger element moves the others by one place. -/
lemma filter_cmps_pass (hk : b < k) :
    (cmps b ((pass k x l).2 ++ [(pass k x l).1])).filter (· ≠ .gt) =
      (cmps b (x :: l)).filter (· ≠ .gt) := by
  induction l generalizing x with
  | nil => rfl
  | cons y ys ih =>
    rcases lt_or_ge y k with h | h
    · have hx := congrArg ((cmps b [x]).filter (· ≠ .gt) ++ ·) (ih (x := y))
      rw [pass_of_lt h]
      simpa only [cmps, ← filter_append, ← map_append, singleton_append, cons_append, nil_append]
        using hx
    · have hy : compare y b = .gt := compare_gt_iff_gt.2 (hk.trans_le h)
      rw [pass_of_le h]
      simpa [cmps, hy, filter_cons] using ih

/-- The first element behind the place of a pass for a larger element. -/
lemma ok_cmps_pass (hk : b < k) (hx : b < x) :
    Ok 0 (cmps b (pass k x l).2) ↔ TailOk 0 (cmps b (pass k x l).2) := by
  cases l with
  | nil => exact .rfl
  | cons y ys =>
    rcases lt_or_ge y k with h | h
    · rw [pass_of_lt h, cmps, map_cons, compare_gt_iff_gt.2 hx, tailOk_cons_gt, Ok]
    · rw [pass_of_le h, cmps, map_cons, compare_gt_iff_gt.2 (hk.trans_le h), tailOk_cons_gt, Ok]

/-- A pass for a larger element takes an equal one only if there is no smaller one. -/
lemma tailOk_cmps_pass (hk : b < k) : TailOk 0 (cmps b (x :: l)) ↔
    TailOk 0 (cmps b (pass k x l).2) ∧ ((pass k x l).1 = b → ∀ y ∈ (pass k x l).2, b ≤ y) := by
  have hconcat : cmps b ((pass k x l).2 ++ [(pass k x l).1]) =
      cmps b (pass k x l).2 ++ [compare (pass k x l).1 b] := by simp [cmps]
  rw [← tailOk_filter, ← filter_cmps_pass hk, tailOk_filter, hconcat, tailOk_concat,
    compare_eq_iff_eq]
  simp [cmps, compare_lt_iff_lt]

/-- **What a pass must take**, for the elements that are equal to `b`. -/
lemma ok_cmps_cons : Ok 0 (cmps b (x :: l)) ↔ Ok 0 (cmps b (pass x x l).2) ∧
    (b < x → (pass x x l).1 = b → ∀ y ∈ (pass x x l).2, b ≤ y) := by
  rcases lt_trichotomy x b with h | rfl | h
  · rw [cmps, map_cons, ← cmps, compare_lt_iff_lt.2 h, cmps_pass_of_lt h.le h, Ok]
    exact (and_iff_left fun h' => absurd h' h.not_gt).symm
  · rw [cmps, map_cons, ← cmps, compare_eq_iff_eq.2 rfl, cmps_pass_self, Ok, ok_replace]
    exact (and_iff_left fun h' => absurd h' (lt_irrefl _)).symm
  · have hx : cmps b (x :: l) = .gt :: cmps b l := by
      rw [cmps, map_cons, compare_gt_iff_gt.2 h, ← cmps]
    rw [ok_cmps_pass h h, hx, Ok, ← tailOk_cons_gt, ← hx, tailOk_cmps_pass h]
    exact and_congr_right fun _ => ⟨fun hy _ => hy, fun hy => hy h⟩

/-- What a pass leaves at its place is less than what was there, or it is least. -/
lemma pass_fst : (pass k x l).1 < k ∨ (pass k x l).1 = x ∧ ∀ y ∈ (pass k x l).2, k ≤ y := by
  induction l generalizing x with
  | nil => exact .inr ⟨rfl, by simp [pass]⟩
  | cons y ys ih =>
    rcases lt_or_ge y k with h | h
    · rw [pass_of_lt h]
      exact .inl (ih.elim id fun hz => hz.1.trans_lt h)
    · rw [pass_of_le h]
      exact (ih (x := x)).imp_right fun hz => ⟨hz.1, forall_mem_cons.2 ⟨h, hz.2⟩⟩

/-- The passes sort a list iff each of them takes a least element. -/
lemma pairwise_exchangeSort : (exchangeSort l).Pairwise (· ≤ ·) ↔ ∀ b, Ok 0 (cmps b l) := by
  induction l using exchangeSort.induct with
  | case1 => simp [exchangeSort, cmps, Ok]
  | case2 x l ih =>
    simp only [exchangeSort, pairwise_cons, ih, ok_cmps_cons, (exchangeSort_perm _).mem_iff,
      forall_and]
    rw [and_comm]
    refine and_congr_right fun _ => ⟨fun h b _ hb => hb ▸ h, fun h => ?_⟩
    rcases pass_fst (k := x) (x := x) (l := l) with hz | ⟨hz, hle⟩
    · exact h _ hz rfl
    · exact hz.symm ▸ hle

/-! ### The condition in terms of the list -/

/-- When the elements behind the first larger one are not in order. -/
lemma not_tailOk_iff {q : ℕ} {w : List Ordering} : ¬ TailOk q w ↔
    ∃ mid post, w = mid ++ .lt :: post ∧ .eq ∈ post ∧ q ≤ mid.count .lt := by
  constructor
  · intro h
    induction w generalizing q with
    | nil => exact absurd trivial h
    | cons o w ih =>
      have hmore {q' : ℕ} (h : ¬ TailOk q' w) (hq : q ≤ q' + [o].count .lt) :
          ∃ mid post, o :: w = mid ++ .lt :: post ∧ .eq ∈ post ∧ q ≤ mid.count .lt := by
        obtain ⟨mid, post, rfl, hpost, hle⟩ := ih h
        refine ⟨o :: mid, post, rfl, hpost, ?_⟩
        rw [← singleton_append, count_append]
        omega
      cases o with
      | lt =>
        cases q with
        | zero => exact ⟨[], w, rfl, not_not.1 h, le_rfl⟩
        | succ q => exact hmore h (by simp)
      | eq => exact hmore (tailOk_cons_eq.not.1 h) (by simp)
      | gt => exact hmore (tailOk_cons_gt.not.1 h) (by simp)
  · rintro ⟨mid, post, rfl, hpost, hle⟩ h
    induction mid generalizing q with
    | nil =>
      rw [Nat.le_zero.1 hle] at h
      exact h hpost
    | cons o mid ih =>
      cases o with
      | lt =>
        cases q with
        | zero => exact h (by simp [hpost])
        | succ q => exact ih (by simpa using hle) h
      | eq => exact ih (by simpa using hle) (tailOk_cons_eq.1 h)
      | gt => exact ih (by simpa using hle) (tailOk_cons_gt.1 h)

/-- What a bad word looks like. -/
lemma not_ok_iff {q : ℕ} {w : List Ordering} : ¬ Ok q w ↔ ∃ pre mid post,
    w = pre ++ .gt :: (mid ++ .lt :: post) ∧ .eq ∈ post ∧ q + pre.count .eq ≤ mid.count .lt := by
  constructor
  · intro h
    induction w generalizing q with
    | nil => exact absurd trivial h
    | cons o w ih =>
      cases o with
      | gt =>
        obtain ⟨mid, post, rfl, hpost, hle⟩ := not_tailOk_iff.1 h
        exact ⟨[], mid, post, rfl, hpost, hle⟩
      | lt =>
        obtain ⟨pre, mid, post, rfl, hpost, hle⟩ := ih h
        exact ⟨.lt :: pre, mid, post, rfl, hpost, by simpa using hle⟩
      | eq =>
        obtain ⟨pre, mid, post, rfl, hpost, hle⟩ := ih h
        exact ⟨.eq :: pre, mid, post, rfl, hpost, by simp; omega⟩
  · rintro ⟨pre, mid, post, rfl, hpost, hle⟩ h
    induction pre generalizing q with
    | nil => exact not_tailOk_iff.2 ⟨mid, post, rfl, hpost, hle⟩ h
    | cons o pre ih =>
      cases o with
      | gt =>
        refine not_tailOk_iff.2 ⟨pre ++ .gt :: mid, post, by simp, hpost, ?_⟩ h
        simp
        omega
      | lt => exact ih (by simpa using hle) h
      | eq => exact ih (by simp at hle; omega) h

/-- A key is shadowed: a smaller one stands before it, behind a larger one, and there are not as
many equal ones before the larger one that make up for the smaller ones. -/
def Shadowed (b : κ) (l : List κ) : Prop :=
  ∃ pre c mid a post, l = pre ++ c :: (mid ++ a :: post) ∧ a < b ∧ b < c ∧ b ∈ post ∧
    pre.count b ≤ mid.countP (· < b)

/-- Bad words are those of shadowed elements. -/
lemma not_ok_cmps_iff : ¬ Ok 0 (cmps b l) ↔ Shadowed b l := by
  have hlt (l : List κ) : (cmps b l).count .lt = l.countP (· < b) := by
    rw [cmps, count, countP_map]
    exact countP_congr fun y _ => by simp [compare_lt_iff_lt]
  have heq (l : List κ) : (cmps b l).count .eq = l.count b := by
    rw [cmps, count, countP_map]
    exact countP_congr fun y _ => by simp
  have hmem (l : List κ) : .eq ∈ cmps b l ↔ b ∈ l := by simp [cmps]
  rw [not_ok_iff]
  constructor
  · rintro ⟨pre, mid, post, h, hpost, hle⟩
    obtain ⟨pre, l₁, rfl, rfl, h₁⟩ := map_eq_append_iff.1 h
    obtain ⟨c, l₂, rfl, hc, h₂⟩ := map_eq_cons_iff.1 h₁
    obtain ⟨mid, l₃, rfl, rfl, h₃⟩ := map_eq_append_iff.1 h₂
    obtain ⟨a, post, rfl, ha, rfl⟩ := map_eq_cons_iff.1 h₃
    refine ⟨pre, c, mid, a, post, rfl, compare_lt_iff_lt.1 ha, compare_gt_iff_gt.1 hc,
      (hmem post).1 hpost, ?_⟩
    rw [← hlt, ← heq]
    simpa [cmps] using hle
  · rintro ⟨pre, c, mid, a, post, rfl, ha, hc, hpost, hle⟩
    refine ⟨cmps b pre, cmps b mid, cmps b post, ?_, (hmem post).2 hpost, by
      simpa [hlt, heq] using hle⟩
    simp [cmps, compare_lt_iff_lt.2 ha, compare_gt_iff_gt.2 hc]

/-- **Which lists are sorted.** -/
theorem pairwise_exchangeSort_iff :
    (exchangeSort l).Pairwise (· ≤ ·) ↔ ∀ b, ¬ Shadowed b l := by
  rw [pairwise_exchangeSort]
  exact forall_congr' fun b => by rw [← not_ok_cmps_iff, not_not]

end OpenWbem.ExchangeSort
