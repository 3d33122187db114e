import Mathlib.Data.List.Nodup

/-!
# Doubly linked lists

The elements of a doubly linked list are addresses in `A`; a forward and a backward link are
stored for each of them, and one address `nil` stands for "no element". `DLinked nil nxt prv l`
says that the links `nxt` and `prv` describe the list `l`.

Programs change such a list by patching the links of the neighbours. The rules of this file take
the patched links as an `if` over the address, the way a program computes them.

## Main definitions

* `DLinked` — the links describe a given list.
* `DLinked.firstOf`, `DLinked.lastOf` — the address that a head or tail pointer holds.
* `DLinked.Anchored` — the links, the head pointer and the tail pointer describe a given list.

## Main results

* `DLinked.iff_split` — where the links of an element lead.
* `DLinked.replace`, `DLinked.insert` — the list after a patch of its links.
* `DLinked.Anchored.replace`, `DLinked.Anchored.append` — the same with the head and tail pointers.
-/

/-- The element before position `i`. -/
def List.before {A : Type} (l : List A) (i : ℕ) : Option A := if i = 0 then none else l[i - 1]?

/-- The forward links `nxt` and the backward links `prv` describe the list `l`. -/
structure DLinked {A : Type} (nil : A) (nxt prv : A → A) (l : List A) : Prop where
  next : ∀ {i o}, l[i]? = some o → nxt o = l[i + 1]?.getD nil
  prev : ∀ {i o}, l[i]? = some o → prv o = (l.before i).getD nil

namespace DLinked

open List

variable {A : Type} {nil : A} {nxt prv nxt' prv' : A → A} {l l' m m' x y : List A} {o z : A}

/-- The address in a head pointer. -/
def firstOf (nil : A) (l : List A) : A := l.head?.getD nil

/-- The address in a tail pointer. -/
def lastOf (nil : A) (l : List A) : A := l.getLast?.getD nil

/-- No first entry. -/
@[simp] lemma firstOf_nil : firstOf nil ([] : List A) = nil := rfl

/-- No last entry. -/
@[simp] lemma lastOf_nil : lastOf nil ([] : List A) = nil := rfl

/-- The first entry. -/
@[simp] lemma firstOf_cons : firstOf nil (o :: l) = o := rfl

/-- The last entry. -/
@[simp] lemma lastOf_append : lastOf nil (l ++ [o]) = o := by simp [lastOf]

/-- It is that of the rest. -/
lemma lastOf_append_cons : lastOf nil (x ++ o :: y) = lastOf nil (o :: y) := by
  simp [lastOf, getLast?_cons]

/-- A list with entries has a last one. -/
lemma lastOf_cons_mem : lastOf nil (o :: l) ∈ o :: l := by
  simp [lastOf, getLast?_eq_getLast_of_ne_nil]

/-- The first entry, if any. -/
lemma firstOf_cases (nil : A) (l : List A) : firstOf nil l = nil ∨ firstOf nil l ∈ l := by
  cases l <;> simp

/-- The last entry, if any. -/
lemma lastOf_cases (nil : A) (l : List A) : lastOf nil l = nil ∨ lastOf nil l ∈ l := by
  rcases eq_nil_or_concat l with rfl | ⟨l, o, rfl⟩ <;> simp

/-- Only an empty list has no first entry. -/
lemma firstOf_eq_nil (hnil : nil ∉ l) : firstOf nil l = nil ↔ l = [] := by
  cases l with
  | nil => simp
  | cons o l => exact iff_of_false (fun h => hnil (h ▸ mem_cons_self)) (cons_ne_nil o l)

/-- Only an empty list has no last entry. -/
lemma lastOf_eq_nil (hnil : nil ∉ l) : lastOf nil l = nil ↔ l = [] := by
  cases l with
  | nil => simp
  | cons o l => exact iff_of_false (fun h => hnil (h ▸ lastOf_cons_mem)) (cons_ne_nil o l)

/-- The empty list. -/
lemma nil_list : DLinked nil nxt prv [] := ⟨by simp, by simp⟩

/-- Only the pointers of its entries matter. -/
lemma congr (h : DLinked nil nxt prv l) (hn : ∀ x ∈ l, nxt' x = nxt x)
    (hp : ∀ x ∈ l, prv' x = prv x) : DLinked nil nxt' prv' l where
  next := fun hi => by rw [hn _ (mem_of_getElem? hi), h.next hi]
  prev := fun hi => by rw [hp _ (mem_of_getElem? hi), h.prev hi]

/-- The links of an element lead to the lists in front of it and behind it. -/
lemma iff_split : DLinked nil nxt prv l ↔
    ∀ x o y, l = x ++ o :: y → nxt o = firstOf nil y ∧ prv o = lastOf nil x := by
  constructor
  · rintro h x o y rfl
    have hi : (x ++ o :: y)[x.length]? = some o := by simp
    rw [h.next hi, h.prev hi, getElem?_append_right (Nat.le_succ _)]
    rcases eq_nil_or_concat x with rfl | ⟨x, z, rfl⟩ <;>
      simp [before, firstOf, head?_eq_getElem?]
  · intro h
    have hsplit {i : ℕ} {o : A} (hi : l[i]? = some o) :
        nxt o = firstOf nil (l.drop (i + 1)) ∧ prv o = lastOf nil (l.take i) := by
      obtain ⟨hlt, rfl⟩ := List.getElem?_eq_some_iff.1 hi
      exact h _ _ _ (by simp)
    constructor
    · intro i o hi
      rw [(hsplit hi).1, firstOf, head?_drop]
    · intro i o hi
      have hlt := (List.getElem?_eq_some_iff.1 hi).1
      rw [(hsplit hi).2, lastOf, getLast?_take, before]
      split_ifs with h0
      · rfl
      · rw [getElem?_eq_getElem (by omega)]
        rfl

/-- An element of a list in three parts, of which the middle one has at most one element. -/
lemma split_cases {u v : List A} (hlen : m.length ≤ 1) (h : x ++ m ++ y = u ++ z :: v) :
    (∃ w, x = u ++ z :: w ∧ v = w ++ m ++ y) ∨ (m = [z] ∧ u = x ∧ v = y) ∨
      ∃ w, y = w ++ z :: v ∧ u = x ++ m ++ w := by
  rcases append_eq_append_iff.1 h with ⟨w, rfl, rfl⟩ | ⟨w, hu, hv⟩
  · exact .inr (.inr ⟨w, rfl, rfl⟩)
  rcases w with _ | ⟨c, w⟩
  · exact .inr (.inr ⟨[], hv.symm, by simpa using hu.symm⟩)
  obtain ⟨rfl, rfl⟩ : z = c ∧ v = w ++ y := by simpa using hv
  rcases append_eq_append_iff.1 hu with ⟨w', rfl, rfl⟩ | ⟨w', rfl, hw⟩
  · obtain ⟨rfl, rfl⟩ : w' = [] ∧ w = [] := by
      simp only [length_append, length_cons] at hlen
      exact ⟨length_eq_zero_iff.1 (by omega), length_eq_zero_iff.1 (by omega)⟩
    exact .inr (.inl (by simp))
  · rcases w' with _ | ⟨c, w'⟩
    · obtain rfl : m = z :: w := by simpa using hw.symm
      obtain rfl : w = [] := length_eq_zero_iff.1 (by simpa using hlen)
      exact .inr (.inl (by simp))
    · obtain ⟨rfl, rfl⟩ : z = c ∧ w = w' ++ m := by simpa using hw
      exact .inl ⟨w', rfl, rfl⟩

/-! ### Patching the links -/

variable [DecidableEq A]

/-- **Replacing a part of the list.** The neighbours of the part are linked to the new one. -/
lemma splice (h : DLinked nil nxt prv (x ++ m ++ y)) (hnd : (x ++ m ++ y).Nodup)
    (hnil : nil ∉ x ++ m ++ y)
    (hlen : m'.length ≤ 1) (hm : ∀ z ∈ m', nxt' z = firstOf nil y ∧ prv' z = lastOf nil x)
    (hn : ∀ z ∈ x ++ y, nxt' z = if z = lastOf nil x then firstOf nil (m' ++ y) else nxt z)
    (hp : ∀ z ∈ x ++ y, prv' z = if z = firstOf nil y then lastOf nil (x ++ m') else prv z) :
    DLinked nil nxt' prv' (x ++ m' ++ y) := by
  rw [iff_split] at h ⊢
  intro u z v huv
  have hfirst : ∀ z ∈ x, z ≠ firstOf nil y := by
    rcases firstOf_cases nil y with hy | hy <;> grind
  have hlast : ∀ z ∈ y, z ≠ lastOf nil x := by
    rcases lastOf_cases nil x with hx | hx <;> grind
  rcases split_cases hlen huv with ⟨w, rfl, rfl⟩ | ⟨rfl, rfl, rfl⟩ | ⟨w, rfl, rfl⟩
  · obtain ⟨hnz, hpz⟩ := h u z (w ++ m ++ y) (by simp)
    rw [hn z (by simp), hp z (by simp), hnz, hpz, if_neg (hfirst z (by simp))]
    cases w with
    | nil => simp
    | cons c w =>
      have hlast : lastOf nil (u ++ z :: c :: w) = lastOf nil (c :: w) := by
        rw [lastOf_append_cons, ← singleton_append, lastOf_append_cons]
      have hz : z ∉ c :: w := by
        have := hnd.of_append_left.of_append_left.of_append_right
        exact (nodup_cons.1 this).1
      rw [hlast, if_neg fun heq => hz (by rw [heq]; exact lastOf_cons_mem)]
      exact ⟨rfl, rfl⟩
  · exact hm z (by simp)
  · obtain ⟨hnz, hpz⟩ := h (x ++ m ++ w) z v (by simp)
    rw [hn z (by simp), hp z (by simp), hnz, hpz, if_neg (hlast z (by simp))]
    cases w with
    | nil => simp
    | cons c w =>
      have hne : z ≠ c := by
        rintro rfl
        simp [nodup_append] at hnd
      rw [cons_append, firstOf_cons, if_neg hne, lastOf_append_cons, lastOf_append_cons]
      exact ⟨rfl, rfl⟩

section Replace

variable (h : DLinked nil nxt prv l) (hl : l = x ++ o :: y) (hnd : l.Nodup) (hnil : nil ∉ l)

include h hl

omit [DecidableEq A] in
/-- The next entry. -/
lemma next_eq : nxt o = firstOf nil y := (iff_split.1 h x o y hl).1

omit [DecidableEq A] in
/-- The previous entry. -/
lemma prev_eq : prv o = lastOf nil x := (iff_split.1 h x o y hl).2

include hnd hnil

/-- The links after an element has been replaced by another one, or taken out. -/
lemma replace (hl' : l' = x ++ m ++ y) (hlen : m.length ≤ 1)
    (hm : ∀ z ∈ m, nxt' z = nxt o ∧ prv' z = prv o)
    (hn : ∀ z ∈ l, z ≠ o → nxt' z = if z = prv o then firstOf (nxt o) m else nxt z)
    (hp : ∀ z ∈ l, z ≠ o → prv' z = if z = nxt o then lastOf (prv o) m else prv z) :
    DLinked nil nxt' prv' l' := by
  have hne : ∀ z ∈ x ++ y, z ∈ l ∧ z ≠ o := by
    intro z hz
    rw [hl] at hnd ⊢
    refine ⟨by grind, ?_⟩
    rintro rfl
    exact (nodup_middle.1 hnd).notMem hz
  have hfirst : firstOf (firstOf nil y) m = firstOf nil (m ++ y) := by cases m <;> simp
  have hlast : lastOf (lastOf nil x) m = lastOf nil (x ++ m) := by
    rcases eq_nil_or_concat m with rfl | ⟨m, c, rfl⟩ <;> simp [lastOf]
  simp only [h.next_eq hl, h.prev_eq hl, hfirst, hlast] at hm hn hp
  rw [← singleton_append, ← append_assoc] at hl
  rw [hl']
  exact splice (hl ▸ h) (hl ▸ hnd) (hl ▸ hnil) hlen hm
    (fun z hz => hn z (hne z hz).1 (hne z hz).2) fun z hz => hp z (hne z hz).1 (hne z hz).2

end Replace

/-- **Putting an element in.** -/
lemma insert (h : DLinked nil nxt prv (x ++ y)) (hnd : (x ++ y).Nodup) (hnil : nil ∉ x ++ y)
    (hno : nxt' o = firstOf nil y) (hpo : prv' o = lastOf nil x)
    (hn : ∀ z ∈ x ++ y, nxt' z = if z = prv' o then o else nxt z)
    (hp : ∀ z ∈ x ++ y, prv' z = if z = nxt' o then o else prv z) :
    DLinked nil nxt' prv' (x ++ o :: y) := by
  rw [← singleton_append, ← append_assoc]
  rw [← append_nil x] at h hnd hnil
  exact splice h hnd hnil (by simp) (by simpa using ⟨hno, hpo⟩) (by simpa [hpo] using hn)
    (by simpa [hno] using hp)

/-! ### Head and tail pointers -/

/-- The head after the part behind `x` has been replaced. -/
lemma firstOf_replace (hl : l = x ++ o :: y) (hnd : l.Nodup) (m : List A) :
    firstOf nil (x ++ m) = if firstOf nil l = o then firstOf nil m else firstOf nil l := by
  subst hl
  cases x with
  | nil => simp
  | cons c x =>
    have hne : c ≠ o := by
      rintro rfl
      simp at hnd
    simp [hne]

/-- The tail after the part before `y` has been replaced. -/
lemma lastOf_replace (hl : l = x ++ o :: y) (hnd : l.Nodup) (m : List A) :
    lastOf nil (m ++ y) = if lastOf nil l = o then lastOf nil m else lastOf nil l := by
  subst hl
  rcases eq_nil_or_concat y with rfl | ⟨y, c, rfl⟩
  · simp
  · have hne : c ≠ o := by
      rintro rfl
      simp [nodup_append] at hnd
    rw [concat_eq_append, ← cons_append, ← append_assoc, ← append_assoc,
      lastOf_append, lastOf_append, if_neg hne]

/-- The links, the head pointer and the tail pointer describe the list `l`. -/
structure Anchored (nil : A) (nxt prv : A → A) (hd tl : A) (l : List A) : Prop where
  links : DLinked nil nxt prv l
  head : hd = firstOf nil l
  tail : tl = lastOf nil l

namespace Anchored

variable {hd tl hd' tl' : A} (h : Anchored nil nxt prv hd tl l)

include h

omit [DecidableEq A] in
/-- Only these pointers matter. -/
lemma congr (hn : ∀ z ∈ l, nxt' z = nxt z) (hp : ∀ z ∈ l, prv' z = prv z) (hhd : hd' = hd)
    (htl : tl' = tl) : Anchored nil nxt' prv' hd' tl' l :=
  ⟨h.links.congr hn hp, hhd.trans h.head, htl.trans h.tail⟩

variable (hnd : l.Nodup) (hnil : nil ∉ l)

include hnd hnil

/-- **Replacing an element** by another one, or taking it out. -/
lemma replace (hl : l = x ++ o :: y) (hl' : l' = x ++ m ++ y) (hlen : m.length ≤ 1)
    (hm : ∀ z ∈ m, nxt' z = nxt o ∧ prv' z = prv o)
    (hn : ∀ z ∈ l, z ≠ o → nxt' z = if z = prv o then firstOf (nxt o) m else nxt z)
    (hp : ∀ z ∈ l, z ≠ o → prv' z = if z = nxt o then lastOf (prv o) m else prv z)
    (hhd : hd' = if hd = o then firstOf (nxt o) m else hd)
    (htl : tl' = if tl = o then lastOf (prv o) m else tl) : Anchored nil nxt' prv' hd' tl' l' := by
  refine ⟨h.links.replace hl hnd hnil hl' hlen hm hn hp, ?_, ?_⟩
  · rw [hhd, hl', append_assoc, firstOf_replace hl hnd, h.head, h.links.next_eq hl]
    cases m <;> simp
  · rw [htl, hl', lastOf_replace hl hnd, h.tail, h.links.prev_eq hl]
    rcases eq_nil_or_concat m with rfl | ⟨m, c, rfl⟩
    · simp
    · simp [lastOf]

/-- **Appending an element.** Only the last element gets a new link. -/
lemma append (hno : nxt' o = nil) (hpo : prv' o = tl)
    (hn : ∀ z ∈ l, nxt' z = if z = tl then o else nxt z)
    (hp : ∀ z ∈ l, prv' z = prv z) (hhd : hd' = if hd = nil then o else hd) (htl : tl' = o) :
    Anchored nil nxt' prv' hd' tl' (l ++ [o]) := by
  refine ⟨?_, ?_, by rw [htl, lastOf_append]⟩
  · have hlinks := h.links
    rw [← append_nil l] at hlinks hnd hnil hn hp
    refine hlinks.insert hnd hnil hno (hpo.trans h.tail) (by rwa [hpo]) fun z hz => ?_
    rw [hp z hz, hno, if_neg (ne_of_mem_of_not_mem hz hnil)]
  · rw [hhd, h.head]
    rcases l with _ | ⟨x, l⟩
    · simp
    · simp [show x ≠ nil from fun hx => hnil (by simp [hx])]

end Anchored

end DLinked
