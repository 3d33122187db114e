import Mathlib.Data.Fintype.EquivFin

/-!
# Lists that cover each other

Two lists of the same length are compared by looking in the second one for a partner of each element
of the first one, where a partner may be found more than once. With a relation that is reflexive and
transitive this is reflexive and transitive, but it need not be symmetric.

## Main definitions

* `Covers` — each element of a list has a partner in another one.

## Main results

* `Covers.symm_iff` — the lists for which the comparison is symmetric.
-/

namespace OpenWbem

open List

variable {α : Type} {M : α → α → Prop} {l l' l'' : List α}

/-- The lists have the same length, and each element of the first one has a partner in the second
one. -/
def Covers (M : α → α → Prop) (l l' : List α) : Prop :=
  l.length = l'.length ∧ ∀ x ∈ l, ∃ y ∈ l', M x y

namespace Covers

/-- The order does not matter. -/
lemma of_perm (hrefl : ∀ x, M x x) (h : l.Perm l') : Covers M l l' :=
  ⟨h.length_eq, fun x hx => ⟨x, h.mem_iff.1 hx, hrefl x⟩⟩

/-- Covering is transitive. -/
lemma trans (htrans : ∀ {x y z}, M x y → M y z → M x z) (h : Covers M l l') (h' : Covers M l' l'') :
    Covers M l l'' := by
  refine ⟨h.1.trans h'.1, fun x hx => ?_⟩
  obtain ⟨y, hy, hxy⟩ := h.2 x hx
  obtain ⟨z, hz, hyz⟩ := h'.2 y hy
  exact ⟨z, hz, htrans hxy hyz⟩

/-- A list with another element at one place, if the element there has a partner. -/
lemma set (hrefl : ∀ x, M x x) {i : ℕ} (hi : i < l.length) (z : α) (h : ∃ y ∈ l.set i z, M l[i] y) :
    Covers M l (l.set i z) := by
  refine ⟨by simp, fun x hx => ?_⟩
  obtain ⟨j, hj, rfl⟩ := getElem_of_mem hx
  by_cases hij : i = j
  · subst hij
    exact h
  · exact ⟨l[j], mem_iff_getElem.2 ⟨j, by simpa using hj, by simp [hij]⟩, hrefl _⟩

/-- **When covering is symmetric.** A list is covered by every list that it covers just if no two of
its elements are partners, and each of its elements is a partner of its partners.

**Proof sketch.** The partners of different elements are at different places, and there is no other
place. Conversely, an element with a partner in the list can be replaced by one without a partner,
and an element by each of its partners. -/
theorem symm_iff (hrefl : ∀ x, M x x) (htrans : ∀ {x y z}, M x y → M y z → M x z)
    (hfresh : ∃ z, ∀ y ∈ l, ¬ M z y) : (∀ l', Covers M l l' → Covers M l' l) ↔
      l.Pairwise (fun x y => ¬ M x y ∧ ¬ M y x) ∧ ∀ x ∈ l, ∀ y, M x y → M y x := by
  rw [pairwise_iff_getElem]
  constructor
  · intro h
    have hone (i j : ℕ) (hi : i < l.length) (hj : j < l.length) (hij : i ≠ j) : ¬ M l[i] l[j] := by
      intro hm
      obtain ⟨z, hz⟩ := hfresh
      have hmem : l[j] ∈ l.set i z := mem_iff_getElem.2 ⟨j, by simpa using hj, by simp [hij]⟩
      obtain ⟨y, hy, hzy⟩ := (h _ (.set hrefl hi z ⟨_, hmem, hm⟩)).2 z (mem_set hi z)
      exact hz y hy hzy
    refine ⟨fun i j hi hj hij => ⟨hone i j hi hj hij.ne, hone j i hj hi hij.ne'⟩,
      fun x hx y hxy => ?_⟩
    obtain ⟨i, hi, rfl⟩ := getElem_of_mem hx
    have hmem : y ∈ l.set i y := mem_set hi y
    obtain ⟨z, hz, hyz⟩ := (h _ (.set hrefl hi y ⟨y, hmem, hxy⟩)).2 y hmem
    obtain ⟨j, hj, rfl⟩ := getElem_of_mem hz
    by_cases hij : i = j
    · subst hij
      exact hyz
    · exact absurd (htrans hxy hyz) (hone i j hi hj hij)
  · rintro ⟨hone, hsymm⟩ l' ⟨hlen, hall⟩
    have hpartner (i : Fin l.length) : ∃ j : Fin l'.length, M l[i] l'[j] := by
      obtain ⟨y, hy, hm⟩ := hall _ (getElem_mem i.2)
      obtain ⟨j, hj, rfl⟩ := getElem_of_mem hy
      exact ⟨⟨j, hj⟩, hm⟩
    choose f hf using hpartner
    have hinj : Function.Injective f := by
      intro i j hij
      have hm : M l[i] l[j] := htrans (hf i) (hij ▸ hsymm _ (getElem_mem j.2) _ (hf j))
      rcases lt_trichotomy i j with hlt | heq | hlt
      · exact absurd hm (hone i j i.2 j.2 hlt).1
      · exact heq
      · exact absurd hm (hone j i j.2 i.2 hlt).2
    have hsurj := ((Fintype.bijective_iff_injective_and_card f).2 ⟨hinj, by simpa using hlen⟩).2
    refine ⟨hlen.symm, fun y hy => ?_⟩
    obtain ⟨j, hj, rfl⟩ := getElem_of_mem hy
    obtain ⟨i, hi⟩ := hsurj ⟨j, hj⟩
    exact ⟨l[i], getElem_mem i.2, hsymm _ (getElem_mem i.2) _ (by simpa [hi] using hf i)⟩

end Covers

end OpenWbem
