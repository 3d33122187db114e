import OpenWbem.Hdb.Links

/-!
# Changes of the links

The four ways in which the operations of a database change its links: a new node is attached, a
node moves to another block, a node moves to another parent, and a subtree disappears. Each of
them is described by what it does to the links of the live blocks, in the terms in which the code
computes them, and is shown to keep the link invariant, for the hierarchy after the change.

The descriptions do not depend on the order in which a program makes its writes.

## Main definitions

* `LeafAdded`, `Relocated`, `MovedTo`, `TreeRemoved` — the changes.

## Main results

* `LeafAdded.liveInv`, `Relocated.liveInv`, `MovedTo.liveInv`, `TreeRemoved.liveInv` — each change
  keeps the link invariant.
-/

namespace OpenWbem.Hdb

open Extents Cells Hierarchy LiveInv List
open DLinked (Anchored)

variable {a a' : Cells} {s : HDB} {t : NodeTable} {o x : Int32} {k k' : List UInt8}
  {q q' : Option (List UInt8)} {v : NodeVal} {i : ℕ}

/-- The offsets after adding a key. -/
lemma loc_of_put (h : a'.index = a.index.put k o) (k' : List UInt8) :
    a'.loc k' = if k' = k then o else a.loc k' := by
  rw [loc, loc, h, OrderedIndex.find_put]
  by_cases hk : k' = k <;> simp [hk]

/-- Other places stay. -/
lemma locOf_of_put (h : a'.index = a.index.put k o) (hq : q ≠ some k) : a'.locOf q = a.locOf q := by
  rcases q with _ | p
  · rfl
  · exact (loc_of_put h p).trans (if_neg fun hp => hq (by rw [hp]))

/-- The links of the blocks, the head and the tail describe the children of a place. -/
abbrev IsList (a : Cells) (t : NodeTable) (q : Option (List UInt8)) : Prop :=
  Anchored (-1) a.next a.prev (a.headOf q) (a.tailOf q) (a.sibs t q)

/-- A key that is no place has no children, so the links of the places are all the links. -/
lemma links_of_isList (hF : IsForest t) (hlists : ∀ {q}, IsPlace t q → IsList a t q)
    (q : Option (List UInt8)) : DLinked (-1) a.next a.prev (a.sibs t q) := by
  rcases hl : kids t q with _ | ⟨y, l⟩
  · rw [sibs, hl]
    exact .nil_list
  · refine (hlists ?_).links
    rintro p rfl
    exact hF.closed (x := y) (by simp [hl])

namespace LiveInv

variable (h : LiveInv a t)

include h

/-- The children of a place are linked. -/
lemma isList (hq : IsPlace t q) : IsList a t q := ⟨h.links q, h.head hq, h.tail hq⟩

/-- A node whose block changes in its links only. -/
lemma cell_of_old {r : Row (List UInt8) NodeVal} (hr : r ∈ t)
    (hold : ∀ {c}, a.heap (a.loc r.key) = some c → ∃ c', a'.heap o = some c' ∧ SameNode c c') :
    ∃ c, a'.heap o = some c ∧ NodeCell r.key r.val c := by
  obtain ⟨d, hd, hnode⟩ := h.cell hr
  obtain ⟨d', hd', hsame⟩ := hold hd
  exact ⟨d', hd', hnode.of_same hsame⟩

/-- The links of the neighbours of `k` are not in the other lists. -/
lemma patch_of_ne (hs : a.On s) (hk : k ∈ kids t q) (hqq : q' ≠ q) {n p f g : Int32 → Int32}
    {u w : Int32}
    (hn : ∀ y ∈ a.sibs t q', y ≠ a.loc k → n y = if y = a.prev (a.loc k) then u else f y)
    (hp : ∀ y ∈ a.sibs t q', y ≠ a.loc k → p y = if y = a.next (a.loc k) then w else g y) :
    (∀ y ∈ a.sibs t q', n y = f y) ∧ ∀ y ∈ a.sibs t q', p y = g y := by
  have hne : ∀ y ∈ a.sibs t q', y ≠ a.loc k := by
    rintro y hy rfl
    exact hqq (h.sibs_unique hy (loc_mem_sibs hk))
  refine ⟨fun y hy => ?_, fun y hy => ?_⟩
  · rw [hn y hy (hne y hy), if_neg fun heq => hqq (h.eq_of_sibling hs hy (heq ▸ h.prev_cases hk))]
  · rw [hp y hy (hne y hy), if_neg fun heq => hqq (h.eq_of_sibling hs hy (heq ▸ h.next_cases hk))]

/-- The tail of a list is in no other list. -/
lemma ne_tail_of_ne (hs : a.On s) (hq : IsPlace t q) (hqq : q' ≠ q) (hx : x ∈ a.sibs t q') :
    x ≠ a.tailOf q := by
  intro heq
  have hx1 : x ≠ -1 := fun h1 => h.neg_one_not_mem_sibs hs (h1 ▸ hx)
  exact hqq (h.sibs_unique hx (h.mem_sibs_of_tail hq heq hx1))

end LiveInv

/-! ### A new node -/

/-- A node with the key `k` has been attached at the offset `o`, as the last child of `q`. -/
structure LeafAdded (a : Cells) (t : NodeTable) (k : List UInt8) (q : Option (List UInt8))
    (v : NodeVal) (a' : Cells) (o : Int32) : Prop where
  index : a'.index = a.index.put k o
  fresh : ∀ {k'}, k' ∈ keys t → a.loc k' ≠ o
  new : ∃ c, a'.heap o = some c ∧ NodeCell k v c ∧ c.hdr.nextSib = -1 ∧
    c.hdr.prevSib = a.tailOf q ∧ c.hdr.parent = a.locOf q ∧ c.hdr.firstChild = -1 ∧
    c.hdr.lastChild = -1
  old : ∀ {k' c}, k' ∈ keys t → a.heap (a.loc k') = some c →
    ∃ c', a'.heap (a.loc k') = some c' ∧ SameNode c c'
  next : ∀ {k'}, k' ∈ keys t →
    a'.next (a.loc k') = if a.loc k' = a.tailOf q then o else a.next (a.loc k')
  prev : ∀ {k'}, k' ∈ keys t → a'.prev (a.loc k') = a.prev (a.loc k')
  parent : ∀ {k'}, k' ∈ keys t → a'.parent (a.loc k') = a.parent (a.loc k')
  head : ∀ {q'}, IsPlace t q' →
    a'.headOf q' = if q' = q ∧ a.headOf q' = -1 then o else a.headOf q'
  tail : ∀ {q'}, IsPlace t q' → a'.tailOf q' = if q' = q then o else a.tailOf q'

/-- **A new node** keeps the link invariant. -/
theorem LeafAdded.liveInv (hc : LeafAdded a t k q v a' o) (h : LiveInv a t) (hs : a.On s)
    (hk : k ∉ keys t)
    (hkey : k ≠ [] ∧ (0 : UInt8) ∉ k) (hq : IsPlace t q) : LiveInv a' (add t k q v) := by
  have hloc : ∀ {k'}, k' ∈ keys t → a'.loc k' = a.loc k' := fun {k'} hk' =>
    (loc_of_put hc.index k').trans (if_neg (ne_of_mem_of_not_mem hk' hk))
  have hlock : a'.loc k = o := (loc_of_put hc.index k).trans (if_pos rfl)
  have hqk : q ≠ some k := fun heq => hk (hq k heq)
  have hsibs : ∀ q', a'.sibs (add t k q v) q' = a.sibs t q' ++ if q = q' then [o] else [] := by
    intro q'
    have hmap : (kids t q').map a'.loc = (kids t q').map a.loc :=
      map_congr_left fun y hy => hloc (mem_keys_of_kids hy)
    rw [sibs, kids_add, map_append, hmap]
    by_cases hqq : q = q' <;> simp [hqq, hlock, sibs]
  obtain ⟨c, hco, hcell, hcn, hcp, hcpar, hcf, hcl⟩ := hc.new
  have hlists : ∀ {q'}, IsPlace (add t k q v) q' → IsList a' (add t k q v) q' := by
    intro q' hq'
    rw [IsList, hsibs]
    by_cases hne : q' = some k
    · -- the new node has no children
      subst hne
      rw [if_neg hqk, sibs, h.kids_eq_nil hk]
      refine ⟨.nil_list, ?_, ?_⟩
      · change a'.first (a'.loc k) = -1
        rw [hlock, first, field_eq hco, hcf]
      · change a'.last (a'.loc k) = -1
        rw [hlock, last, field_eq hco, hcl]
    have hplace : IsPlace t q' := by
      intro p hp
      have := hq' p hp
      rw [keys_add, mem_append, mem_singleton] at this
      exact this.resolve_right fun heq => hne (by rw [hp, heq])
    have hnext : ∀ y ∈ a.sibs t q', a'.next y = if y = a.tailOf q then o else a.next y :=
      forall_mem_map.2 fun z hz => hc.next (mem_keys_of_kids hz)
    have hprev : ∀ y ∈ a.sibs t q', a'.prev y = a.prev y :=
      forall_mem_map.2 fun z hz => hc.prev (mem_keys_of_kids hz)
    by_cases hqq : q' = q
    · subst hqq
      rw [if_pos rfl]
      refine (h.isList hq).append h.nodup_sibs (h.neg_one_not_mem_sibs hs) ?_ ?_ hnext hprev
        (by simp [hc.head hq]) (by simp [hc.tail hq])
      · rw [Cells.next, field_eq hco, hcn]
      · rw [Cells.prev, field_eq hco, hcp]
    · rw [if_neg (Ne.symm hqq), append_nil]
      refine (h.isList hplace).congr (fun y hy => ?_) hprev (by simp [hc.head hplace, hqq])
        (by simp [hc.tail hplace, hqq])
      rw [hnext y hy, if_neg (h.ne_tail_of_ne hs hq hqq hy)]
  refine ⟨h.forest.add hk hq, fun {k'} hk' => ?_, fun {k'} => ?_, fun {r} hr => ?_,
    fun {k1 k2} hk1 hk2 heq => ?_, fun {q' k'} hk' => ?_,
    links_of_isList (h.forest.add hk hq) hlists, fun hq' => (hlists hq').head,
    fun hq' => (hlists hq').tail⟩
  · rw [keys_add, mem_append, mem_singleton] at hk'
    rcases hk' with hk' | rfl
    · exact h.key hk'
    · exact hkey
  · rw [hc.index, OrderedIndex.find_put, keys_add]
    by_cases hkk : k' = k
    · simp [hkk]
    · simp [hkk, h.index]
  · rcases mem_append.1 hr with hr | hr
    · have hk' : r.key ∈ keys t := mem_keys.2 ⟨r, hr, rfl⟩
      rw [hloc hk']
      exact h.cell_of_old hr (hc.old hk')
    · rw [mem_singleton.1 hr]
      exact ⟨c, by rw [hlock, hco], hcell⟩
  · rw [keys_add, mem_append, mem_singleton] at hk1 hk2
    rcases hk1 with hk1 | rfl <;> rcases hk2 with hk2 | rfl
    · exact h.inj hk1 hk2 (by rwa [hloc hk1, hloc hk2] at heq)
    · exact absurd (by rwa [hloc hk1, hlock] at heq) (hc.fresh hk1)
    · exact absurd (by rwa [hloc hk2, hlock, eq_comm] at heq) (hc.fresh hk2)
    · rfl
  · rw [kids_add, mem_append] at hk'
    rcases hk' with hk' | hk'
    · have hmem := mem_keys_of_kids hk'
      have hne : q' ≠ some k := fun heq => hk (h.forest.closed (heq ▸ hk'))
      rw [hloc hmem, hc.parent hmem, locOf_of_put hc.index hne, h.parent hk']
    · by_cases hqq : q = q'
      · rw [if_pos hqq, mem_singleton] at hk'
        rw [hk', hlock, ← hqq, locOf_of_put hc.index hqk, Cells.parent, field_eq hco, hcpar]
      · simp [hqq] at hk'

/-! ### A node in another block -/

/-- The node `k`, a child of `q` (or a root), has got another block, at the offset `o`, and new
contents. -/
structure Relocated (a : Cells) (t : NodeTable) (k : List UInt8) (q : Option (List UInt8))
    (v : NodeVal) (a' : Cells) (o : Int32) : Prop where
  index : a'.index = a.index.put k o
  fresh : ∀ {k'}, k' ∈ keys t → k' ≠ k → a.loc k' ≠ o
  ne : o ≠ -1
  new : ∃ c, a'.heap o = some c ∧ NodeCell k v c ∧ c.hdr.nextSib = a.next (a.loc k) ∧
    c.hdr.prevSib = a.prev (a.loc k) ∧ c.hdr.parent = a.parent (a.loc k) ∧
    c.hdr.firstChild = a.first (a.loc k) ∧ c.hdr.lastChild = a.last (a.loc k)
  old : ∀ {k' c}, k' ∈ keys t → k' ≠ k → a.heap (a.loc k') = some c →
    ∃ c', a'.heap (a.loc k') = some c' ∧ SameNode c c'
  next : ∀ {k'}, k' ∈ keys t → k' ≠ k →
    a'.next (a.loc k') = if a.loc k' = a.prev (a.loc k) then o else a.next (a.loc k')
  prev : ∀ {k'}, k' ∈ keys t → k' ≠ k →
    a'.prev (a.loc k') = if a.loc k' = a.next (a.loc k) then o else a.prev (a.loc k')
  parent : ∀ {k'}, k' ∈ keys t → k' ≠ k →
    a'.parent (a.loc k') = if k' ∈ kids t (some k) then o else a.parent (a.loc k')
  head : ∀ {q'}, IsPlace t q' → q' ≠ some k →
    a'.headOf q' = if q' = q ∧ a.headOf q' = a.loc k then o else a.headOf q'
  tail : ∀ {q'}, IsPlace t q' → q' ≠ some k →
    a'.tailOf q' = if q' = q ∧ a.tailOf q' = a.loc k then o else a.tailOf q'

/-- **A node in another block** keeps the link invariant. -/
theorem Relocated.liveInv (hc : Relocated a t k q v a' o) (h : LiveInv a t) (hs : a.On s)
    (hk : k ∈ kids t q) : LiveInv a' (modify t k fun _ => v) := by
  have hkk : k ∈ keys t := mem_keys_of_kids hk
  have hloc := loc_of_put hc.index
  have hlock : a'.loc k = o := (hloc k).trans (if_pos rfl)
  have hlocne : ∀ {k'}, k' ≠ k → a'.loc k' = a.loc k' := fun hne => (hloc _).trans (if_neg hne)
  obtain ⟨c, hco, hcell, hcn, hcp, hcpar, hcf, hcl⟩ := hc.new
  -- the node is not its own child
  have hqk : q ≠ some k := by
    rintro rfl
    exact not_below_of_kids h.forest hk .refl
  obtain ⟨l, l', hl, hout, hq⟩ := h.exists_split hk
  have hsame : ∀ y ∈ l ++ l', a'.loc y = a.loc y := fun y hy => hlocne fun heq => hout (heq ▸ hy)
  have hsibs : a'.sibs (modify t k fun _ => v) q = l.map a.loc ++ o :: l'.map a.loc := by
    rw [sibs, kids_modify, hl, map_append, map_cons, hlock,
      map_congr_left fun y hy => hsame y (mem_append_left _ hy),
      map_congr_left fun y hy => hsame y (mem_append_right _ hy)]
  have hsibsne : ∀ {q'}, q' ≠ q → a'.sibs (modify t k fun _ => v) q' = a.sibs t q' := by
    intro q' hne
    rw [sibs, kids_modify]
    refine map_congr_left fun y hy => hlocne ?_
    rintro rfl
    exact hne (kids_unique h.forest.nodup hy hk)
  have hplace : ∀ {q'}, IsPlace (modify t k fun _ => v) q' → IsPlace t q' :=
    fun hq' p hp => keys_modify (k := k) (fun _ => v) ▸ hq' p hp
  have hlists : ∀ {q'}, IsPlace (modify t k fun _ => v) q' →
      IsList a' (modify t k fun _ => v) q' := by
    intro q' hq'
    have hlist := h.isList (hplace hq')
    -- links of the nodes other than `k`, along a list of siblings
    have hnext : ∀ y ∈ a.sibs t q', y ≠ a.loc k →
        a'.next y = if y = a.prev (a.loc k) then o else a.next y :=
      forall_mem_map.2 fun z hz hne => hc.next (mem_keys_of_kids hz) fun heq => hne (by rw [heq])
    have hprev : ∀ y ∈ a.sibs t q', y ≠ a.loc k →
        a'.prev y = if y = a.next (a.loc k) then o else a.prev y :=
      forall_mem_map.2 fun z hz hne => hc.prev (mem_keys_of_kids hz) fun heq => hne (by rw [heq])
    by_cases hqq : q' = q
    · subst hqq
      refine hlist.replace (m := [o]) h.nodup_sibs (h.neg_one_not_mem_sibs hs) hq
        (by simpa using hsibs) (by simp) ?_ hnext hprev (by simp [hc.head (hplace hq') hqk])
        (by simp [hc.tail (hplace hq') hqk, DLinked.lastOf])
      rw [forall_mem_singleton, Cells.next, Cells.prev, field_eq hco, field_eq hco, hcn, hcp]
      exact ⟨rfl, rfl⟩
    · obtain ⟨hn, hp⟩ := h.patch_of_ne hs hk hqq hnext hprev
      rw [IsList, hsibsne hqq]
      by_cases hq'k : q' = some k
      · subst hq'k
        refine hlist.congr hn hp ?_ ?_
        · change a'.first (a'.loc k) = a.first (a.loc k)
          rw [hlock, first, field_eq hco, hcf]
        · change a'.last (a'.loc k) = a.last (a.loc k)
          rw [hlock, last, field_eq hco, hcl]
      · exact hlist.congr hn hp (by simp [hc.head (hplace hq') hq'k, hqq])
          (by simp [hc.tail (hplace hq') hq'k, hqq])
  refine ⟨h.forest.modify _, fun {k'} hk' => h.key (by rwa [keys_modify] at hk'), fun {k'} => ?_,
    fun {r} hr => ?_, fun {k1 k2} hk1 hk2 heq => ?_, fun {q' k'} hk' => ?_,
    links_of_isList (h.forest.modify _) hlists, fun hq' => (hlists hq').head,
    fun hq' => (hlists hq').tail⟩
  · rw [hc.index, OrderedIndex.find_put, keys_modify]
    by_cases heq : k' = k
    · simp [heq, hkk]
    · simp [heq, h.index]
  · obtain ⟨r0, hr0, rfl⟩ := mem_modify.1 hr
    split_ifs with heq
    · subst heq
      exact ⟨c, by rw [hlock, hco], hcell⟩
    · rw [hlocne heq]
      exact h.cell_of_old hr0 (hc.old (mem_keys.2 ⟨r0, hr0, rfl⟩) heq)
  · rw [keys_modify] at hk1 hk2
    by_cases h₁ : k1 = k <;> by_cases h2 : k2 = k
    · rw [h₁, h2]
    · rw [h₁, hlock, hlocne h2] at heq
      exact absurd heq.symm (hc.fresh hk2 h2)
    · rw [h2, hlock, hlocne h₁] at heq
      exact absurd heq (hc.fresh hk1 h₁)
    · exact h.inj hk1 hk2 (by rwa [hlocne h₁, hlocne h2] at heq)
  · rw [kids_modify] at hk'
    have hmem := mem_keys_of_kids hk'
    by_cases heq : k' = k
    · subst heq
      obtain rfl := kids_unique h.forest.nodup hk' hk
      rw [hlock, Cells.parent, field_eq hco, hcpar, h.parent hk, locOf_of_put hc.index hqk]
    · rw [hlocne heq, hc.parent hmem heq]
      by_cases hq' : q' = some k
      · subst hq'
        rw [if_pos hk']
        exact hlock.symm
      · rw [if_neg fun hx => hq' (kids_unique h.forest.nodup hk' hx), h.parent hk',
          locOf_of_put hc.index hq']

/-! ### A node taken out of its list -/

/-- Filtering out one element of a list. -/
lemma filter_ne_split {l l' : List (List UInt8)} (h : k ∉ l ++ l') :
    (l ++ k :: l').filter (fun z => z ≠ k) = l ++ l' := by
  have hself : (l ++ l').filter (fun z => z ≠ k) = l ++ l' :=
    filter_eq_self.2 fun z hz => by simpa using ne_of_mem_of_not_mem hz h
  rw [← hself]
  simp

/-- A subtree has disappeared: the node `k`, a child of `q` (or a root), and everything below. -/
structure TreeRemoved (a : Cells) (t : NodeTable) (k : List UInt8) (q : Option (List UInt8))
    (a' : Cells) : Prop where
  gone : ∀ {k'}, Below t k k' → a'.index.find k' = none
  kept : ∀ {k'}, ¬ Below t k k' → a'.index.find k' = a.index.find k'
  old : ∀ {k' c}, k' ∈ keys t → ¬ Below t k k' → a.heap (a.loc k') = some c →
    ∃ c', a'.heap (a.loc k') = some c' ∧ SameNode c c'
  next : ∀ {k'}, k' ∈ keys t → ¬ Below t k k' → a'.next (a.loc k') =
    if a.loc k' = a.prev (a.loc k) then a.next (a.loc k) else a.next (a.loc k')
  prev : ∀ {k'}, k' ∈ keys t → ¬ Below t k k' → a'.prev (a.loc k') =
    if a.loc k' = a.next (a.loc k) then a.prev (a.loc k) else a.prev (a.loc k')
  parent : ∀ {k'}, k' ∈ keys t → ¬ Below t k k' → a'.parent (a.loc k') = a.parent (a.loc k')
  head : ∀ {q'}, IsPlace t q' → (∀ p, q' = some p → ¬ Below t k p) → a'.headOf q' =
    if q' = q ∧ a.headOf q' = a.loc k then a.next (a.loc k) else a.headOf q'
  tail : ∀ {q'}, IsPlace t q' → (∀ p, q' = some p → ¬ Below t k p) → a'.tailOf q' =
    if q' = q ∧ a.tailOf q' = a.loc k then a.prev (a.loc k) else a.tailOf q'

/-- **A subtree that disappears** keeps the link invariant.

**Proof sketch.** The children of `q` lose exactly `k`. Any other node that stays keeps all its
children, and a node that is gone has none left. -/
theorem TreeRemoved.liveInv (hc : TreeRemoved a t k q a') (h : LiveInv a t) (hs : a.On s)
    (hk : k ∈ kids t q) : LiveInv a' (remove t k) := by
  have hkk : k ∈ keys t := mem_keys_of_kids hk
  have hin : ∀ {y}, y ∈ keys (remove t k) ↔ y ∈ keys t ∧ ¬ Below t k y :=
    mem_keys_remove h.forest hkk
  have hkin : ∀ {q' y}, y ∈ kids (remove t k) q' ↔ y ∈ kids t q' ∧ ¬ Below t k y :=
    mem_kids_remove h.forest hkk
  have hloc : ∀ {y}, ¬ Below t k y → a'.loc y = a.loc y := fun hy => by rw [loc, loc, hc.kept hy]
  have hup : ∀ {q' y}, y ∈ kids t q' → ¬ Below t k y → ∀ p, q' = some p → ¬ Below t k p := by
    rintro q' y hy hby p rfl hp
    exact hby (.step hp hy)
  have hsibs : ∀ {q'}, a'.sibs (remove t k) q' = (kids (remove t k) q').map a.loc := fun {q'} =>
    map_congr_left fun y hy => hloc (hkin.1 hy).2
  obtain ⟨l, l', hl, hlk, hq⟩ := h.exists_split hk
  have hsibsq : a'.sibs (remove t k) q = l.map a.loc ++ l'.map a.loc := by
    rw [hsibs, kids_remove_parent h.forest hk, hl, filter_ne_split hlk, map_append]
  have hsibsne : ∀ {q'}, q' ≠ q → (∀ p, q' = some p → ¬ Below t k p) →
      a'.sibs (remove t k) q' = a.sibs t q' := by
    intro q' hne hq'
    rw [hsibs, kids_remove_of_not_below h.forest hk hne hq']
    rfl
  have hplace : ∀ {q'}, IsPlace (remove t k) q' → IsPlace t q' ∧ ∀ p, q' = some p → ¬ Below t k p :=
    fun hq' => ⟨fun p hp => (hin.1 (hq' p hp)).1, fun p hp => (hin.1 (hq' p hp)).2⟩
  have hlists : ∀ {q'}, IsPlace (remove t k) q' → IsList a' (remove t k) q' := by
    intro q' hq'
    obtain ⟨hq1, hq2⟩ := hplace hq'
    -- the nodes other than `k` stay
    have hstay : ∀ z ∈ kids t q', a.loc z ≠ a.loc k → ¬ Below t k z := by
      intro z hz hne hb
      cases hb with
      | refl => exact hne rfl
      | step hp hz' => exact hq2 _ (kids_unique h.forest.nodup hz hz') hp
    have hnext : ∀ y ∈ a.sibs t q', y ≠ a.loc k → a'.next y =
        if y = a.prev (a.loc k) then a.next (a.loc k) else a.next y :=
      forall_mem_map.2 fun z hz hne => hc.next (mem_keys_of_kids hz) (hstay z hz hne)
    have hprev : ∀ y ∈ a.sibs t q', y ≠ a.loc k → a'.prev y =
        if y = a.next (a.loc k) then a.prev (a.loc k) else a.prev y :=
      forall_mem_map.2 fun z hz hne => hc.prev (mem_keys_of_kids hz) (hstay z hz hne)
    by_cases hqq : q' = q
    · subst hqq
      exact (h.isList hq1).replace (m := []) h.nodup_sibs (h.neg_one_not_mem_sibs hs) hq
        (by simpa using hsibsq) (by simp) (by simp) hnext hprev (by simp [hc.head hq1 hq2])
        (by simp [hc.tail hq1 hq2])
    · obtain ⟨hn, hp⟩ := h.patch_of_ne hs hk hqq hnext hprev
      rw [IsList, hsibsne hqq hq2]
      exact (h.isList hq1).congr hn hp (by simp [hc.head hq1 hq2, hqq])
        (by simp [hc.tail hq1 hq2, hqq])
  refine ⟨h.forest.remove hkk, fun hk' => h.key (hin.1 hk').1, fun {k'} => ?_, fun {r} hr => ?_,
    fun {k1 k2} hk1 hk2 heq => ?_, fun {q' k'} hk' => ?_,
    links_of_isList (h.forest.remove hkk) hlists, fun hq' => (hlists hq').head,
    fun hq' => (hlists hq').tail⟩
  · rw [hin]
    by_cases hb : Below t k k'
    · simp [hc.gone hb, hb]
    · simp [hc.kept hb, hb, h.index]
  · have hmem := hin.1 (mem_keys.2 ⟨r, hr, rfl⟩)
    rw [hloc hmem.2]
    exact h.cell_of_old (mem_of_mem_filter hr) (hc.old hmem.1 hmem.2)
  · rw [hin] at hk1 hk2
    exact h.inj hk1.1 hk2.1 (by rwa [hloc hk1.2, hloc hk2.2] at heq)
  · obtain ⟨hk', hb⟩ := hkin.1 hk'
    rw [hloc hb, hc.parent (mem_keys_of_kids hk') hb, h.parent hk']
    rcases q' with _ | p
    · rfl
    · exact (hloc (hup hk' hb p rfl)).symm

/-! ### A node with another parent -/

/-- The node `k`, a child of `q` (or a root), has become the last child of the node `p`. -/
structure MovedTo (a : Cells) (t : NodeTable) (k : List UInt8) (q : Option (List UInt8))
    (p : List UInt8) (a' : Cells) : Prop where
  index : a'.index = a.index
  old : ∀ {k' c}, k' ∈ keys t → a.heap (a.loc k') = some c →
    ∃ c', a'.heap (a.loc k') = some c' ∧ SameNode c c'
  next_self : a'.next (a.loc k) = -1
  prev_self : a'.prev (a.loc k) = a.tailOf (some p)
  parent_self : a'.parent (a.loc k) = a.loc p
  next : ∀ {k'}, k' ∈ keys t → k' ≠ k → a'.next (a.loc k') =
    if a.loc k' = a.prev (a.loc k) then a.next (a.loc k)
    else if a.loc k' = a.tailOf (some p) then a.loc k else a.next (a.loc k')
  prev : ∀ {k'}, k' ∈ keys t → k' ≠ k → a'.prev (a.loc k') =
    if a.loc k' = a.next (a.loc k) then a.prev (a.loc k) else a.prev (a.loc k')
  parent : ∀ {k'}, k' ∈ keys t → k' ≠ k → a'.parent (a.loc k') = a.parent (a.loc k')
  head : ∀ {q'}, IsPlace t q' → a'.headOf q' =
    if q' = some p then (if a.headOf q' = -1 then a.loc k else a.headOf q')
    else if q' = q ∧ a.headOf q' = a.loc k then a.next (a.loc k) else a.headOf q'
  tail : ∀ {q'}, IsPlace t q' → a'.tailOf q' =
    if q' = some p then a.loc k
    else if q' = q ∧ a.tailOf q' = a.loc k then a.prev (a.loc k) else a.tailOf q'

/-- **A node with another parent** keeps the link invariant. -/
theorem MovedTo.liveInv {p : List UInt8} (hc : MovedTo a t k q p a') (h : LiveInv a t)
    (hs : a.On s) (hk : k ∈ kids t q) (hp : p ∈ keys t) (hpk : ¬ Below t k p) (hqp : q ≠ some p) :
    LiveInv a' (move t k (some p)) := by
  have hkk : k ∈ keys t := mem_keys_of_kids hk
  have hnd := h.forest.nodup
  have hin : ∀ {y}, y ∈ keys (move t k (some p)) ↔ y ∈ keys t := by
    intro y
    rw [keys_move hnd hkk, mem_append, mem_filter]
    by_cases hy : y = k <;> simp [hy, hkk]
  have hloc : a'.loc = a.loc := by funext y; rw [loc, loc, hc.index]
  obtain ⟨l, l', hl, hlk, hq⟩ := h.exists_split hk
  have hsibsq : a'.sibs (move t k (some p)) q = l.map a.loc ++ l'.map a.loc := by
    rw [sibs, kids_move hnd hkk, if_neg (Ne.symm hqp), append_nil, hloc, hl,
      filter_ne_split hlk, map_append]
  have hself : ∀ {q'}, q' ≠ q → (kids t q').filter (fun z => z ≠ k) = kids t q' := by
    intro q' hne
    refine filter_eq_self.2 fun z hz => ?_
    rw [decide_eq_true_eq]
    rintro rfl
    exact hne (kids_unique hnd hz hk)
  have hsibsp : a'.sibs (move t k (some p)) (some p) = a.sibs t (some p) ++ [a.loc k] := by
    rw [sibs, kids_move hnd hkk, if_pos rfl, hloc, hself (Ne.symm hqp), map_append]
    rfl
  have hsibsne : ∀ {q'}, q' ≠ q → q' ≠ some p → a'.sibs (move t k (some p)) q' = a.sibs t q' := by
    intro q' hne hnp
    rw [sibs, kids_move hnd hkk, if_neg (Ne.symm hnp), append_nil, hloc, hself hne]
    rfl
  have hforest := h.forest.move hkk (q := some p) (by rintro _ ⟨⟩; exact ⟨hp, hpk⟩)
  have hlists : ∀ {q'}, IsPlace (move t k (some p)) q' → IsList a' (move t k (some p)) q' := by
    intro q' hq'
    replace hq' : IsPlace t q' := fun y hy => hin.1 (hq' y hy)
    have hnext : ∀ y ∈ a.sibs t q', y ≠ a.loc k → a'.next y =
        if y = a.prev (a.loc k) then a.next (a.loc k)
        else if y = a.tailOf (some p) then a.loc k else a.next y :=
      forall_mem_map.2 fun z hz hne => hc.next (mem_keys_of_kids hz) fun heq => hne (by rw [heq])
    have hprev : ∀ y ∈ a.sibs t q', y ≠ a.loc k → a'.prev y =
        if y = a.next (a.loc k) then a.prev (a.loc k) else a.prev y :=
      forall_mem_map.2 fun z hz hne => hc.prev (mem_keys_of_kids hz) fun heq => hne (by rw [heq])
    by_cases hqq : q' = q
    · subst hqq
      refine (h.isList hq').replace (m := []) h.nodup_sibs (h.neg_one_not_mem_sibs hs) hq
        (by simpa using hsibsq) (by simp) (by simp) (fun y hy hyk => ?_) hprev
        (by simp [hc.head hq', hqp]) (by simp [hc.tail hq', hqp])
      rw [hnext y hy hyk, if_neg (h.ne_tail_of_ne hs (.some hp) hqp hy)]
      rfl
    obtain ⟨hn, hv⟩ := h.patch_of_ne hs hk hqq hnext hprev
    by_cases hpq : q' = some p
    · subst hpq
      rw [IsList, hsibsp]
      exact (h.isList hq').append h.nodup_sibs (h.neg_one_not_mem_sibs hs) hc.next_self
        hc.prev_self hn hv (by simp [hc.head hq']) (by simp [hc.tail hq'])
    · rw [IsList, hsibsne hqq hpq]
      refine (h.isList hq').congr (fun y hy => ?_) hv (by simp [hc.head hq', hpq, hqq])
        (by simp [hc.tail hq', hpq, hqq])
      rw [hn y hy, if_neg (h.ne_tail_of_ne hs (.some hp) hpq hy)]
  refine ⟨hforest, fun hk' => h.key (hin.1 hk'), fun {k'} => by rw [hc.index, hin]; exact h.index,
    fun {r} hr => ?_,
    fun {k1 k2} hk1 hk2 heq => h.inj (hin.1 hk1) (hin.1 hk2) (by rwa [hloc] at heq),
    fun {q' k'} hk' => ?_, links_of_isList hforest hlists, fun hq' => (hlists hq').head,
    fun hq' => (hlists hq').tail⟩
  · obtain ⟨r0, hr0, hkey, hval⟩ := exists_of_mem_move hnd hkk hr
    rw [hloc, hkey, hval]
    exact h.cell_of_old hr0 (hc.old (mem_keys.2 ⟨r0, hr0, rfl⟩))
  · rw [kids_move hnd hkk, mem_append, mem_filter, decide_eq_true_eq] at hk'
    have hlocOf : a'.locOf q' = a.locOf q' := by
      rcases q' with _ | y
      · rfl
      · exact congrFun hloc y
    rw [hlocOf, hloc]
    rcases hk' with ⟨hk', hne'⟩ | hk'
    · rw [hc.parent (mem_keys_of_kids hk') hne', h.parent hk']
    · by_cases hpq : some p = q'
      · rw [if_pos hpq, mem_singleton] at hk'
        rw [hk', hc.parent_self, ← hpq]
        rfl
      · simp [hpq] at hk'

end OpenWbem.Hdb
