import Mathlib.Data.List.Nodup

/-!
# The cache of the repository

The class `Cache`: a list of items, the least recently used one first, and an index from keys to
positions in the list. The list is bounded: an item that is added to a full cache pushes out the
first one.

An item that is added under a key that is in the index goes to the list, but the index keeps the old
position. Such an item is in the list and cannot be found. The model keeps the index in the entries:
an entry is *indexed* if the index has its position.

## Main definitions

* `Cache` — a cache, with at most one indexed entry for a key.
* `Cache.get?` — the item under a key.
* `Cache.addToCache` and its companions — the operations.

## Main results

* `Cache.get?_touch`, `Cache.get?_addToCache`, `Cache.get?_removeFromCache` — what can be found
  afterwards.
-/

namespace OpenWbem

open List

/-- An item with its key; `indexed` tells whether the index has its position. -/
structure CacheEntry (K T : Type) where
  item : T
  key : K
  indexed : Bool
  deriving DecidableEq

namespace CacheEntry

variable {K T : Type} [DecidableEq K]

/-- The entry that the index has for a key. -/
def hit (k : K) (e : CacheEntry K T) : Bool := e.indexed && decide (e.key = k)

/-- Take a key out of the index. -/
def eraseIndex (k : K) (l : List (CacheEntry K T)) : List (CacheEntry K T) :=
  l.map fun e => if e.key = k then { e with indexed := false } else e

/-- The keys of the index. -/
def indexKeys (l : List (CacheEntry K T)) : List K := (l.filter (·.indexed)).map key

variable {l : List (CacheEntry K T)} {e : CacheEntry K T} {k k' : K}

/-- The entry that a key finds. -/
@[simp] lemma hit_iff : hit k e ↔ e.indexed ∧ e.key = k := by simp [hit]

/-- The index without a key. -/
lemma indexKeys_eraseIndex : indexKeys (eraseIndex k l) = (indexKeys l).filter fun x => x ≠ k := by
  induction l with
  | nil => rfl
  | cons e l ih =>
    simp only [indexKeys, eraseIndex] at ih ⊢
    by_cases hk : e.key = k <;> by_cases hi : e.indexed <;> simp [hk, hi, ih]

/-- The keys of the index. -/
lemma mem_indexKeys : k ∈ indexKeys l ↔ ∃ e ∈ l, hit k e := by
  simp [indexKeys, and_assoc]

/-- Other keys find the same. -/
lemma find?_eraseIndex (hne : k' ≠ k) : (eraseIndex k l).find? (hit k') = l.find? (hit k') := by
  induction l with
  | nil => rfl
  | cons e l ih =>
    simp only [eraseIndex, map_cons, find?_cons] at ih ⊢
    by_cases hk : e.key = k
    · have hn : hit k' e = false := by simp [hit, hk, Ne.symm hne]
      have hn' : hit k' { e with indexed := false } = false := by simp [hit]
      simp only [if_pos hk, hn, hn', ih]
    · simp only [if_neg hk, ih]

/-- The key finds nothing. -/
lemma find?_eraseIndex_self : (eraseIndex k l).find? (hit k) = none := by
  rw [find?_eq_none]
  intro e he
  obtain ⟨e', -, rfl⟩ := mem_map.1 he
  by_cases hk : e'.key = k <;> simp [hk]

/-- Only one entry of a key is in the index, so that it is gone once it is erased. -/
lemma find?_eraseP_self (hl : (indexKeys l).Nodup) : (l.eraseP (hit k)).find? (hit k) = none := by
  induction l with
  | nil => rfl
  | cons e l ih =>
    by_cases he : hit k e
    · rw [eraseP_cons_of_pos he, find?_eq_none]
      intro e' he' hit'
      simp only [indexKeys, filter_cons, (hit_iff.1 he).1, if_true, map_cons, nodup_cons] at hl
      exact hl.1 ((hit_iff.1 he).2 ▸ mem_indexKeys.2 ⟨e', he', hit'⟩)
    · rw [eraseP_cons_of_neg he, find?_cons_of_neg he]
      refine ih ?_
      simp only [indexKeys, filter_cons] at hl ⊢
      split_ifs at hl with hi
      · exact (nodup_cons.1 hl).2
      · exact hl

/-- Other keys find the same. -/
lemma find?_eraseP (hne : k' ≠ k) : (l.eraseP (hit k)).find? (hit k') = l.find? (hit k') := by
  induction l with
  | nil => rfl
  | cons e l ih =>
    by_cases he : hit k e
    · have hn : ¬ hit k' e := fun h => hne ((hit_iff.1 h).2.symm.trans (hit_iff.1 he).2)
      rw [eraseP_cons_of_pos he, find?_cons_of_neg hn]
    · rw [eraseP_cons_of_neg he, find?_cons, find?_cons, ih]

omit [DecidableEq K] in
/-- Fewer entries, fewer keys. -/
lemma indexKeys_sublist {l' : List (CacheEntry K T)} (h : l'.Sublist l) :
    (indexKeys l').Sublist (indexKeys l) := (h.filter _).map _

end CacheEntry

open CacheEntry

/-- A cache. The index has at most one entry for a key. -/
structure Cache (K T : Type) [DecidableEq K] where
  theCache : List (CacheEntry K T)
  maxCacheSize : ℕ
  unique : (indexKeys theCache).Nodup

namespace Cache

variable {K T : Type} [DecidableEq K]

/-- An empty cache. -/
def empty (maxCacheSize : ℕ) : Cache K T := ⟨[], maxCacheSize, nodup_nil⟩

/-- The item that the index has for a key. -/
def get? (c : Cache K T) (k : K) : Option T := (c.theCache.find? (hit k)).map item

/-- The list after the room for another item has been made. -/
def makeRoom (max : ℕ) : List (CacheEntry K T) → List (CacheEntry K T)
  | [] => []
  | e :: l => if max ≤ (indexKeys (e :: l)).length then eraseIndex e.key l else e :: l

omit [DecidableEq K] in
/-- The keys of two lists. -/
private lemma indexKeys_append (l l' : List (CacheEntry K T)) :
    indexKeys (l ++ l') = indexKeys l ++ indexKeys l' := by
  rw [indexKeys, filter_append, map_append]
  rfl

omit [DecidableEq K] in
/-- The key of one entry. -/
private lemma indexKeys_singleton (e : CacheEntry K T) :
    indexKeys [e] = if e.indexed then [e.key] else [] := by
  cases hi : e.indexed <;> simp [indexKeys, hi]

/-- Making room repeats no key. -/
lemma nodup_makeRoom {l : List (CacheEntry K T)} (hl : (indexKeys l).Nodup) (max : ℕ) :
    (indexKeys (makeRoom max l)).Nodup := by
  rcases l with _ | ⟨e, l⟩
  · exact hl
  · rw [makeRoom]
    split_ifs
    · rw [indexKeys_eraseIndex]
      exact (hl.sublist (indexKeys_sublist (sublist_cons_self e l))).filter _
    · exact hl

/-- `Cache::addToCache` -/
def addToCache (c : Cache K T) (cc : T) (key : K) : Cache K T where
  theCache := makeRoom c.maxCacheSize c.theCache ++
    [⟨cc, key, decide (key ∉ indexKeys (makeRoom c.maxCacheSize c.theCache))⟩]
  maxCacheSize := c.maxCacheSize
  unique := by
    have hroom := nodup_makeRoom c.unique c.maxCacheSize
    rw [indexKeys_append, indexKeys_singleton]
    by_cases hk : key ∈ indexKeys (makeRoom c.maxCacheSize c.theCache)
    · simpa [hk] using hroom
    · simp only [hk, not_false_eq_true, decide_true, if_true]
      exact hroom.append (nodup_singleton _) (by simpa using hk)

/-- The list after the item under a key has been used. -/
def moveToEnd (key : K) (l : List (CacheEntry K T)) : List (CacheEntry K T) :=
  match l.find? (hit key) with
  | none => l
  | some e => l.eraseP (hit key) ++ [e]

/-- Nor does a use of an entry. -/
private lemma nodup_moveToEnd {l : List (CacheEntry K T)} (hl : (indexKeys l).Nodup) (key : K) :
    (indexKeys (moveToEnd key l)).Nodup := by
  rw [moveToEnd]
  rcases he : l.find? (hit key) with _ | e
  · exact hl
  · have hkey := hit_iff.1 (find?_some he)
    rw [indexKeys_append, indexKeys_singleton, if_pos hkey.1, hkey.2]
    refine (hl.sublist (indexKeys_sublist eraseP_sublist)).append (nodup_singleton _) ?_
    rw [disjoint_singleton]
    intro hmem
    obtain ⟨e', he', hit'⟩ := mem_indexKeys.1 hmem
    exact find?_eq_none.1 (find?_eraseP_self hl) e' he' hit'

/-- The item that has been found becomes the most recently used one. -/
def touch (c : Cache K T) (key : K) : Cache K T :=
  ⟨moveToEnd key c.theCache, c.maxCacheSize, nodup_moveToEnd c.unique key⟩

/-- `Cache::getFromCache` -/
def getFromCache (c : Cache K T) (key : K) : Option T × Cache K T := (c.get? key, c.touch key)

/-- `Cache::removeFromCache` -/
def removeFromCache (c : Cache K T) (key : K) : Cache K T where
  theCache := c.theCache.eraseP (hit key)
  maxCacheSize := c.maxCacheSize
  unique := c.unique.sublist (indexKeys_sublist eraseP_sublist)

/-- `Cache::clearCache` -/
def clearCache (c : Cache K T) : Cache K T := empty c.maxCacheSize

variable {c : Cache K T} {v w : T} {k k' : K}

/-! ### What can be found after an operation -/

/-- Nothing in the empty cache. -/
@[simp] lemma get?_empty (n : ℕ) : (empty n : Cache K T).get? k = none := rfl

/-- **A lookup** does not change what can be found. -/
@[simp] lemma get?_touch : (c.touch k).get? k' = c.get? k' := by
  simp only [get?, touch, moveToEnd]
  rcases he : c.theCache.find? (hit k) with _ | e
  · rfl
  · simp only [find?_append]
    by_cases hk : k' = k
    · subst hk
      rw [find?_eraseP_self c.unique, he, Option.none_or]
      simp [find?_some he]
    · have hn : hit k' e = false := by
        have := hit_iff.1 (find?_some he)
        simp [hit, this.2, Ne.symm hk]
      simp [find?_eraseP hk, hn]

/-- **A removal** takes away one item. -/
lemma get?_removeFromCache : (c.removeFromCache k).get? k' = if k' = k then none
    else c.get? k' := by
  rw [get?, removeFromCache]
  by_cases hk : k' = k
  · subst hk
    rw [if_pos rfl, find?_eraseP_self c.unique]
    rfl
  · rw [if_neg hk, find?_eraseP hk, get?]

/-- Making room loses at most one item. -/
lemma find?_makeRoom {e : CacheEntry K T} {max : ℕ} {l : List (CacheEntry K T)}
    (h : (makeRoom max l).find? (hit k) = some e) : l.find? (hit k) = some e := by
  rcases l with _ | ⟨e', l⟩
  · exact h
  · rw [makeRoom] at h
    split_ifs at h with hmax
    · by_cases hk : k = e'.key
      · rw [hk, find?_eraseIndex_self] at h
        cases h
      · have hn : ¬ hit k e' := fun hit' => hk (hit_iff.1 hit').2.symm
        rw [find?_eraseIndex hk] at h
        rw [find?_cons_of_neg hn, h]
    · exact h

/-- **An addition**: what can be found afterwards could be found before, or is the new item. -/
lemma get?_addToCache (h : (c.addToCache v k).get? k' = some w) :
    c.get? k' = some w ∨ (k' = k ∧ w = v) := by
  rw [get?, addToCache, find?_append] at h
  rcases hr : (makeRoom c.maxCacheSize c.theCache).find? (hit k') with _ | e
  · simp only [hr, find?_singleton] at h
    split_ifs at h with hit'
    · exact .inr ⟨(hit_iff.1 hit').2.symm, by simpa using h.symm⟩
    · cases h
  · rw [hr] at h
    rw [get?, find?_makeRoom hr]
    exact .inl h

end Cache

end OpenWbem
