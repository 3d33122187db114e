import Mathlib.Algebra.BigOperators.Group.Finset.Basic
import Mathlib.Algebra.GroupWithZero.Nat
import Mathlib.Order.Interval.Finset.Nat

/-!
# Intervals that tile an interval

Finitely many intervals of numbers tile an interval if they lie in it, do not overlap, and leave no
number out. Their lengths then sum to its length.

## Main definitions

* `Tiles` — some intervals tile another one.

## Main results

* `Tiles.sum_eq` — **the lengths sum to the length of the whole.**
-/

variable {ι : Type} {l : List ι} {start size : ι → ℕ} {lo hi : ℕ}

/-- The intervals that start at `start i` and have the length `size i`, for `i` in `l`, tile the
interval from `lo` to `hi`. -/
structure Tiles (l : List ι) (start size : ι → ℕ) (lo hi : ℕ) : Prop where
  within : ∀ i ∈ l, lo ≤ start i ∧ start i + size i ≤ hi
  apart : ∀ i ∈ l, ∀ j ∈ l, i ≠ j → start i + size i ≤ start j ∨ start j + size j ≤ start i
  covered : ∀ p, lo ≤ p → p < hi → ∃ i ∈ l, start i ≤ p ∧ p < start i + size i

/-- **The lengths of tiles sum to the length of the whole.**

**Proof sketch.** The whole is the union of the tiles, which are disjoint. -/
theorem Tiles.sum_eq [DecidableEq ι] (h : Tiles l start size lo hi) (hnd : l.Nodup) :
    (l.map size).sum = hi - lo := by
  have hunion : (l.toFinset.biUnion fun i => Finset.Ico (start i) (start i + size i)) =
      Finset.Ico lo hi := by
    ext p
    simp only [Finset.mem_biUnion, List.mem_toFinset, Finset.mem_Ico]
    constructor
    · rintro ⟨i, hi, hlow, hhigh⟩
      have := h.within i hi
      omega
    · rintro ⟨hlow, hhigh⟩
      exact h.covered p hlow hhigh
  have hcard := congrArg Finset.card hunion
  rw [Finset.card_biUnion fun i hi j hj hne => ?_] at hcard
  · simp only [Nat.card_Ico, Nat.add_sub_cancel_left] at hcard
    rw [← hcard, List.sum_toFinset _ hnd]
  · refine Finset.disjoint_left.2 fun p hp hp' => ?_
    rw [Finset.mem_Ico] at hp hp'
    have := h.apart i (List.mem_toFinset.1 hi) j (List.mem_toFinset.1 hj) hne
    omega
