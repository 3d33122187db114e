import Mathlib.Data.List.Lex
import Mathlib.Order.Lattice

/-!
# Ordered maps

A finite map as a list of entries in strictly increasing key order: what a search tree on disk
provides. Besides exact lookup, insertion and removal there is the search for the first entry at
or behind a key, which is how a cursor is positioned.

## Main definitions

* `OrderedIndex` — entries in strictly increasing key order.
* `OrderedIndex.find`, `OrderedIndex.put`, `OrderedIndex.remove` — the map operations.
* `OrderedIndex.lowerBound` — the first entry at or behind a key.

## Main results

* `OrderedIndex.find_put`, `OrderedIndex.find_remove` — the laws of a map.
* `OrderedIndex.lowerBound_of_find` — a cursor stands on the key it was positioned at, if the map
  has it.
-/

/-- A finite map with entries in strictly increasing key order. -/
structure OrderedIndex (K V : Type) [LinearOrder K] where
  entries : List (K × V)
  sorted : entries.Pairwise fun d e => d.1 < e.1

namespace OrderedIndex

open List

variable {K V : Type} [LinearOrder K]

/-- The map without entries. -/
def empty : OrderedIndex K V := ⟨[], List.Pairwise.nil⟩

/-- The value stored under a key. -/
def find (m : OrderedIndex K V) (k : K) : Option V :=
  (m.entries.find? fun e => e.1 = k).map Prod.snd

/-- The first entry whose key is at or behind `k`. -/
def lowerBound (m : OrderedIndex K V) (k : K) : Option (K × V) :=
  m.entries.find? fun e => k ≤ e.1

/-- The entries below `k`, then one for `k`, then the entries above it. -/
def put (m : OrderedIndex K V) (k : K) (v : V) : OrderedIndex K V where
  entries := m.entries.filter (fun e => e.1 < k) ++ (k, v) :: m.entries.filter fun e => k < e.1
  sorted := by
    rw [pairwise_append]
    refine ⟨m.sorted.filter _, pairwise_cons.2 ⟨fun e he => ?_, m.sorted.filter _⟩, ?_⟩
    · simpa using (mem_filter.1 he).2
    · intro d hd e he
      have hdk : d.1 < k := by simpa using (mem_filter.1 hd).2
      rcases mem_cons.1 he with rfl | he
      · exact hdk
      · exact lt_trans hdk (by simpa using (mem_filter.1 he).2)

/-- Remove the entry of a key. -/
def remove (m : OrderedIndex K V) (k : K) : OrderedIndex K V where
  entries := m.entries.filter fun e => e.1 ≠ k
  sorted := m.sorted.filter _

/-- Nothing in the empty index. -/
@[simp] lemma find_empty (k : K) : (empty : OrderedIndex K V).find k = none := rfl

variable {m : OrderedIndex K V} {k : K} {v : V}

/-- Lookup as membership: keys are unique. -/
lemma find_eq_some_iff : m.find k = some v ↔ (k, v) ∈ m.entries := by
  obtain ⟨es, hes⟩ := m
  change (es.find? _).map _ = _ ↔ _
  induction es with
  | nil => simp
  | cons e es ih =>
    obtain ⟨hlt, hes'⟩ := pairwise_cons.1 hes
    by_cases hk : e.1 = k
    · rw [find?_cons_of_pos (by simpa using hk)]
      constructor
      · intro h
        have hv : e.2 = v := by simpa using h
        rw [← hk, ← hv]
        exact mem_cons_self
      · intro h
        rcases mem_cons.1 h with rfl | h
        · rfl
        · exact absurd (hlt _ h) (by simp [hk])
    · rw [find?_cons_of_neg (by simpa using hk), ih hes', mem_cons]
      constructor
      · exact .inr
      · rintro (rfl | h)
        · exact absurd rfl hk
        · exact h

/-- **Lookup after insertion.** -/
lemma find_put (m : OrderedIndex K V) (k : K) (v : V) (k' : K) :
    (m.put k v).find k' = if k' = k then some v else m.find k' := by
  refine Option.ext fun w => ?_
  rw [find_eq_some_iff]
  simp only [put, mem_append, mem_filter, mem_cons, decide_eq_true_eq]
  by_cases hk : k' = k
  · subst hk
    simp [eq_comm]
  · rw [if_neg hk, find_eq_some_iff]
    constructor
    · rintro (⟨h, -⟩ | ⟨rfl, -⟩ | ⟨h, -⟩)
      · exact h
      · exact absurd rfl hk
      · exact h
    · intro h
      rcases lt_or_gt_of_ne hk with hlt | hgt
      · exact .inl ⟨h, hlt⟩
      · exact .inr (.inr ⟨h, hgt⟩)

/-- **Lookup after removal.** -/
lemma find_remove (m : OrderedIndex K V) (k k' : K) :
    (m.remove k).find k' = if k' = k then none else m.find k' := by
  refine Option.ext fun w => ?_
  rw [find_eq_some_iff]
  simp only [remove]
  by_cases hk : k' = k
  · simp [hk]
  · simp [hk, find_eq_some_iff]

/-- A cursor positioned at a key of the map stands on that key. -/
lemma lowerBound_of_find (h : m.find k = some v) : m.lowerBound k = some (k, v) := by
  rw [find_eq_some_iff] at h
  obtain ⟨es, hes⟩ := m
  change es.find? _ = _
  induction es with
  | nil => simp at h
  | cons e es ih =>
    obtain ⟨hlt, hes'⟩ := pairwise_cons.1 hes
    rcases mem_cons.1 h with rfl | h
    · rw [find?_cons_of_pos (by simp)]
    · rw [find?_cons_of_neg (by simpa using hlt _ h), ih hes' h]

/-- A cursor positioned at a key that the map lacks stands on another key, or on none. -/
lemma ne_of_lowerBound {e : K × V} (h : m.find k = none) (he : m.lowerBound k = some e) :
    e.1 ≠ k := by
  rintro rfl
  have hmem : (e.1, e.2) ∈ m.entries := mem_of_find?_eq_some he
  rw [find_eq_some_iff.2 hmem] at h
  cases h

/-- A cursor positioned at a key that the map lacks stands on an entry iff there is a greater
key. -/
lemma lowerBound_isSome_iff (h : m.find k = none) :
    (m.lowerBound k).isSome ↔ ∃ k' v, k < k' ∧ m.find k' = some v := by
  rw [lowerBound, find?_isSome]
  constructor
  · rintro ⟨⟨k', v⟩, hmem, hle⟩
    have hfind : m.find k' = some v := find_eq_some_iff.2 hmem
    refine ⟨k', v, lt_of_le_of_ne (by simpa using hle) ?_, hfind⟩
    rintro rfl
    rw [h] at hfind
    cases hfind
  · rintro ⟨k', v, hlt, hfind⟩
    exact ⟨(k', v), find_eq_some_iff.1 hfind, by simpa using hlt.le⟩

end OrderedIndex
