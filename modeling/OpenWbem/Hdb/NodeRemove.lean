import Mathlib.Data.List.Induction
import OpenWbem.Hdb.NodeUpdate

/-!
# Removing nodes

A node is removed together with everything below it. The recursion walks the children of each node
from the last to the first; a block is freed, and its key taken out of the index, when everything
below it is gone. Between these steps the blocks that are still to be removed are as they were, so
the walk finds all of them.

The recursion is bounded by a number of steps, and the bound that the database uses is shown to be
large enough: every step of the recursion visits another node of the subtree.

## Main definitions

* `Removed` — the state while a set of nodes has been removed.

## Main results

* `runs_removeSiblings`, `runs_removeKids` — the recursion.
* `runs_removeNodeData` — a subtree is removed.
-/

namespace OpenWbem.Hdb

open Bytes Extents Prog Cells Hierarchy LiveInv List HDBHandle OrderedIndex
open DLinked (firstOf lastOf)

variable {a a' a₁ : Cells} {s : HDB} {t : NodeTable} {L L' L₁ : List Int32} {o x : Int32}
  {c : Cell HDBBlock} {b : HDBBlock} {k p : List UInt8} {q : Option (List UInt8)} {v : NodeVal}
  {nd : HDBNodeData} {n : ℕ} {D D' : List UInt8 → Prop}

/-- From the state `a`, the nodes with keys in `D` have been removed; all other blocks are as they
were. -/
structure Removed (a : Cells) (t : NodeTable) (L : List Int32) (D : List UInt8 → Prop) (a' : Cells)
    (L' : List Int32) : Prop where
  free : FreeInv a' L'
  mem : ∀ {x}, x ∈ L' ↔ x ∈ L ∨ ∃ k, D k ∧ k ∈ keys t ∧ a.loc k = x
  live : ∀ {k}, k ∈ keys t → ¬ D k → a'.heap (a.loc k) = a.heap (a.loc k)
  gone : ∀ {k}, D k → a'.index.find k = none
  kept : ∀ {k}, ¬ D k → a'.index.find k = a.index.find k
  hdr : a'.hdr = { a.hdr with firstFree := a'.hdr.firstFree }
  len : a'.len = a.len
  size : a'.size = a.size

namespace Removed

/-- Before the loop. -/
lemma init (h : DbInv a t L) : Removed a t L (fun _ => False) a L :=
  ⟨h.free, by simp, fun _ _ => rfl, fun h => h.elim, fun _ => rfl, rfl, rfl, rfl⟩

/-- Only the set of the keys matters. -/
lemma congr (hD : ∀ k, D k ↔ D' k) (h : Removed a t L D a' L') : Removed a t L D' a' L' := by
  have : D = D' := funext fun k => propext (hD k)
  exact this ▸ h

/-- A node that is still there is not in the free list. -/
lemma loc_not_mem (h : Removed a t L D a' L') (hinv : DbInv a t L) (hk : k ∈ keys t)
    (hD : ¬ D k) : a.loc k ∉ L' := by
  intro hm
  rcases h.mem.1 hm with hm | ⟨k', hk', hkk', heq⟩
  · exact hinv.disjoint hk hm
  · exact hD (hinv.live.inj hkk' hk heq ▸ hk')

/-- One block more is freed. -/
lemma cons (h : Removed a t L D a' L') (hinv : DbInv a t L) (hk : k ∈ keys t)
    (hfr : Freed { a' with index := a'.index.remove k } L' a₁ L₁ (a.loc k)) :
    Removed a t L (fun y => y = k ∨ D y) a₁ L₁ := by
  refine ⟨hfr.free, fun {x} => ?_, fun {y} hy hD => ?_, fun {y} hy => ?_, fun {y} hy => ?_, ?_,
    hfr.rest.len.trans h.len, hfr.size.trans h.size⟩
  · rw [hfr.mem, h.mem]
    constructor
    · rintro (rfl | hx | ⟨y, hy, hr⟩)
      · exact .inr ⟨k, .inl rfl, hk, rfl⟩
      · exact .inl hx
      · exact .inr ⟨y, .inr hy, hr⟩
    · rintro (hx | ⟨y, rfl | hy, hr⟩)
      · exact .inr (.inl hx)
      · exact .inl hr.2.symm
      · exact .inr (.inr ⟨y, hy, hr⟩)
  · rw [not_or] at hD
    rw [hfr.frame (h.loc_not_mem hinv hy hD.2) fun heq => hD.1 (hinv.live.inj hy hk heq)]
    exact h.live hy hD.2
  · rw [hfr.rest.index, find_remove]
    rcases hy with rfl | hy
    · simp
    · simp [h.gone hy]
  · rw [not_or] at hy
    rw [hfr.rest.index, find_remove, if_neg hy.1, h.kept hy.2]
  · rw [hfr.rest.hdr, h.hdr]

end Removed

/-! ### The recursion -/

section recursion

variable (h : DbInv a t L)

/-- `removeBlock` with `n` steps removes the subtree of `k`, wherever the removal has got to. -/
def RemovesTree (a : Cells) (t : NodeTable) (L : List Int32) (n : ℕ) (k : List UInt8) : Prop :=
  ∀ {D a' L' s c v}, a.heap (a.loc k) = some c → NodeCell k v c → Removed a t L D a' L' →
    (∀ y, Below t k y → ¬ D y) → a'.On s →
    ∃ a₁ L₁, Runs a'.On (removeBlock n c.hdr (a.loc k)) (.ok ()) a₁.On ∧
      Removed a t L (fun y => Below t k y ∨ D y) a₁ L₁

include h in
/-- **The loop over the children**, from the last to the first, for the children `l` that are left.

**Proof sketch.** Induction on `l` from its end. The last block is still as it was, so its
backward link leads to the child before it. -/
lemma runs_removeSiblings {m : ℕ} :
    ∀ {l l' : List (List UInt8)} {n : ℕ} {D : List UInt8 → Prop} {a' : Cells} {L' : List Int32}
      {s : HDB}, kids t q = l ++ l' →
      (∀ y ∈ l, ∀ {n}, 2 * (below t m y).length ≤ n → RemovesTree a t L n y) →
      Removed a t L D a' L' → (∀ y ∈ l, ∀ z, Below t y z → ¬ D z) →
      1 + 2 * (l.flatMap (below t m)).length ≤ n → a'.On s →
      ∃ a₁ L₁, Runs a'.On (removeSiblings n (lastOf (-1) (l.map a.loc))) (.ok ()) a₁.On ∧
        Removed a t L (fun z => (∃ y ∈ l, Below t y z) ∨ D z) a₁ L₁ := by
  intro l
  induction l using reverseRecOn with
  | nil =>
    intro l' n D a' L' s _ _ hr _ hn _
    obtain ⟨n, rfl⟩ : ∃ n', n = n' + 1 := ⟨n - 1, by omega⟩
    have hneg : ¬ (-1 : Int32) > 0 := by decide
    exact ⟨a', L', .when_neg hneg, hr.congr fun _ => by simp⟩
  | append_singleton l k ih =>
    intro l' n D a' L' s hl hB hr hD hn hs'
    have hmem : k ∈ l ++ [k] := by simp
    have hkq : k ∈ kids t q := by rw [hl]; simp
    have hlq : ∀ {y}, y ∈ l → y ∈ kids t q := fun hy => by rw [hl]; simp [hy]
    have hkk := mem_keys_of_kids hkq
    obtain ⟨c, v, hc, hn'⟩ := h.live.heap_loc hkk
    have hDk : ¬ D k := hD k hmem k .refl
    have hc' : a'.heap (a.loc k) = some c := (hr.live hkk hDk).trans hc
    rw [flatMap_append, length_append, flatMap_singleton] at hn
    have hpos : 0 < (below t m k).length := by cases m <;> simp [below]
    obtain ⟨n, rfl⟩ : ∃ n', n = n' + 1 := ⟨n - 1, by omega⟩
    obtain ⟨a₁, L₁, hrun1, hr1⟩ := hB k hmem (n := n) (by omega) hc hn' hr (hD k hmem) hs'
    obtain ⟨s1, -, hs1⟩ := hrun1 s hs'
    -- the subtrees of the children that are left are not touched
    have hD1 : ∀ y ∈ l, ∀ z, Below t y z → ¬ (Below t k z ∨ D z) := by
      rintro y hy z hz (hb | hd)
      · have heq := eq_of_below_of_below h.live.forest (hlq hy) hkq hz hb
        have hnd := nodup_kids h.live.forest.nodup (q := q)
        rw [hl, append_assoc] at hnd
        exact (disjoint_of_nodup_append hnd) hy (by rw [heq]; simp)
      · exact hD y (mem_append_left _ hy) z hz hd
    obtain ⟨a2, L2, hrun2, hr2⟩ := @ih ([k] ++ l') n _ _ _ _ (by rw [hl, append_assoc])
      (fun y hy => hB y (mem_append_left _ hy)) hr1 hD1 (by omega) hs1
    have hsibs : a.sibs t q = l.map a.loc ++ a.loc k :: l'.map a.loc := by simp [sibs, hl]
    have hprev : c.hdr.prevSib = lastOf (-1) (l.map a.loc) :=
      (field_eq hc).symm.trans ((h.live.links q).prev_eq hsibs)
    refine ⟨a2, L2, ?_, hr2.congr fun z => ?_⟩
    · rw [map_append, map_singleton, DLinked.lastOf_append, removeSiblings]
      refine .when_pos (hs'.pos hc') ((runs_readBlock hc').bind (hrun1.bind ?_))
      rw [hprev]
      exact hrun2
    · constructor
      · rintro (⟨y, hy, hb⟩ | hb | hd)
        · exact .inl ⟨y, mem_append_left _ hy, hb⟩
        · exact .inl ⟨k, hmem, hb⟩
        · exact .inr hd
      · rintro (⟨y, hy, hb⟩ | hd)
        · rcases mem_append.1 hy with hy | hy
          · exact .inl ⟨y, hy, hb⟩
          · exact .inr (.inl (mem_singleton.1 hy ▸ hb))
        · exact .inr (.inr hd)

include h in
/-- All the children of a node, with enough steps for the subtrees. -/
lemma runs_removeKids {m : ℕ} (hk : k ∈ keys t) (hc : a.heap (a.loc k) = some c)
    (hB : ∀ y ∈ kids t (some k), ∀ {n}, 2 * (below t m y).length ≤ n → RemovesTree a t L n y)
    (hr : Removed a t L D a' L') (hD : ∀ y ∈ kids t (some k), ∀ z, Below t y z → ¬ D z)
    (hn : 1 + 2 * ((kids t (some k)).flatMap (below t m)).length ≤ n) (hs : a'.On s) :
    ∃ a₁ L₁, Runs a'.On (removeSiblings n c.hdr.lastChild) (.ok ()) a₁.On ∧
      Removed a t L (fun z => (∃ y ∈ kids t (some k), Below t y z) ∨ D z) a₁ L₁ := by
  have hplace := IsPlace.some hk
  have hlast : c.hdr.lastChild = lastOf (-1) ((kids t (some k)).map a.loc) := by
    have := h.live.tail hplace
    rwa [tailOf, last, field_eq hc] at this
  rw [hlast]
  exact runs_removeSiblings h (append_nil _).symm hB hr hD hn hs

include h in
/-- **The recursion down a subtree.**

**Proof sketch.** Induction on the number of levels below the node. When the children are gone, its
own block is still as it was, so its key can be read. -/
lemma removesTree : ∀ {m d n : ℕ} {k : List UInt8}, Depth t k d → t.length ≤ m + d →
    2 * (below t m k).length ≤ n → RemovesTree a t L n k := by
  intro m
  induction m with
  | zero =>
    intro d n k hd hlen
    have := hd.lt_length h.live.forest.nodup
    omega
  | succ m ih =>
    intro d n k hd hlen hn D a' L' s c v hc hnode hr hD hs
    have hkk := hd.mem_keys
    rw [below, length_cons] at hn
    obtain ⟨n, rfl⟩ : ∃ n', n = n' + 1 := ⟨n - 1, by omega⟩
    have hkids : ∀ {y z}, y ∈ kids t (some k) → Below t y z → Below t k z :=
      fun hy hb => (Below.step .refl hy).trans hb
    obtain ⟨a₁, L₁, hrun1, hr1⟩ := runs_removeKids (n := n) h hkk hc
      (fun y hy n hn => ih (.child hy hd) (by omega) hn) hr
      (fun y hy z hz => hD z (hkids hy hz)) (by omega) hs
    obtain ⟨s1, -, hs1⟩ := hrun1 s hs
    have hself : ¬ ((∃ y ∈ kids t (some k), Below t y k) ∨ D k) := by
      rintro (⟨y, hy, hb⟩ | hd)
      · exact not_below_of_kids h.live.forest hy hb
      · exact hD k .refl hd
    have hc1 : a₁.heap (a.loc k) = some c := (hr1.live hkk hself).trans hc
    have hfit := hs1.fits hc1
    have hlen' := hnode.length_body
    have hread := runs_fileReadAt_body (n := c.hdr.keyLength.toNat) hc1
      (by rw [hnode.toNat_keyLength hfit]; omega)
    have hkey : c.body.take c.hdr.keyLength.toNat = k ++ [0] := by
      rw [hnode.toNat_keyLength hfit, hnode.body, take_append_of_le_length (by simp),
        take_of_length_le (by simp)]
    rw [hkey] at hread
    have hidx := runs_removeIndexEntry (a := a₁) k
    obtain ⟨s2, -, hs2⟩ := hidx s1 hs1
    obtain ⟨a2, L2, hrun2, hfr⟩ := runs_addBlockToFreeList (b := c.hdr)
      (a := { a₁ with index := a₁.index.remove k }) (hr1.free.congr (fun _ => rfl) rfl) hs2
      (hr1.loc_not_mem h hkk hself) hc1 rfl
    refine ⟨a2, L2, ?_, (hr1.cons h hkk hfr).congr fun z => ?_⟩
    · rw [removeBlock]
      refine hrun1.bind (hread.bind ?_)
      refine (Runs.when_neg (by simp [hnode.toNat_keyLength hfit])).bind ?_
      rw [cString_append_zero (h.live.key hkk).2]
      exact hidx.bind hrun2
    · constructor
      · rintro (rfl | ⟨y, hy, hb⟩ | hd)
        · exact .inl .refl
        · exact .inl (hkids hy hb)
        · exact .inr hd
      · rintro (hb | hd)
        · exact hb.cases_head.imp_right .inl
        · exact .inr (.inr hd)

end recursion

/-! ### A subtree -/

/-- What follows from a change of the blocks for the links, after the subtree of `k` is gone. -/
lemma treeRemoved_of_heap (h : LiveInv a t) (hs : a.On s) (hk : k ∈ kids t q)
    (hl : HasLinks a k nd) (hgone : ∀ {k'}, Below t k k' → a'.index.find k' = none)
    (hkept : ∀ {k'}, ¬ Below t k k' → a'.index.find k' = a.index.find k')
    (hheap : ∀ {k' c}, k' ∈ keys t → ¬ Below t k k' → a.heap (a.loc k') = some c →
      a'.heap (a.loc k') = some ⟨hdrUnlinked nd (a.loc k') c.hdr, c.body⟩)
    (hhdr : a'.hdr = { (a.unlinked nd).hdr with firstFree := a'.hdr.firstFree }) :
    TreeRemoved a t k q a' := by
  have hq := h.isPlace_of_kids hk
  have hpar : nd.blk.parent = a.locOf q := hl.parent.trans (h.parent hk)
  have hloc : ∀ {y}, ¬ Below t k y → a'.loc y = a.loc y := fun hy => by rw [loc, loc, hkept hy]
  have hcell : ∀ {k'}, k' ∈ keys t → ¬ Below t k k' → ∃ c, a.heap (a.loc k') = some c ∧
      a'.heap (a.loc k') = some ⟨hdrUnlinked nd (a.loc k') c.hdr, c.body⟩ := by
    intro k' hk' hb
    obtain ⟨c, v, hc, -⟩ := h.heap_loc hk'
    exact ⟨c, hc, hheap hk' hb hc⟩
  refine ⟨hgone, hkept, fun hk' hb hc => ⟨_, hheap hk' hb hc, ⟨rfl, rfl, rfl, rfl, rfl, rfl⟩⟩,
    fun {k'} hk' hb => ?_, fun {k'} hk' hb => ?_, fun hk' hb => ?_, fun {q'} hq' hb => ?_,
    fun {q'} hq' hb => ?_⟩
  · obtain ⟨d, hd, hd'⟩ := hcell hk' hb
    have hold : a.next (a.loc k') = d.hdr.nextSib := field_eq hd
    rw [hold, ← hl.prev, ← hl.next]
    exact field_eq hd'
  · obtain ⟨d, hd, hd'⟩ := hcell hk' hb
    have hold : a.prev (a.loc k') = d.hdr.prevSib := field_eq hd
    rw [hold, ← hl.prev, ← hl.next]
    exact field_eq hd'
  · obtain ⟨d, hd, hd'⟩ := hcell hk' hb
    rw [Cells.parent, field_eq hd', Cells.parent, field_eq hd]
    rfl
  · rcases q' with _ | y
    · change a'.hdr.firstRoot = _
      rw [hhdr, hdr_unlinked, hpar, hl.offset, hl.next]
      simp only [h.locOf_pos hs hq]
      rcases q with _ | p <;> simp [headOf]
    · obtain ⟨d, hd, hd'⟩ := hcell (hq' y rfl) (hb y rfl)
      change a'.first (a'.loc y) = _
      have hnew : a'.first (a.loc y) = _ := field_eq hd'
      have hold : a.headOf (some y) = d.hdr.firstChild := field_eq hd
      rw [hloc (hb y rfl), hnew, hold]
      simp only [hdrUnlinked, hpar, hl.offset, hl.next, ← and_assoc,
        h.loc_eq_locOf hs hq (hq' y rfl)]
  · rcases q' with _ | y
    · change a'.hdr.lastRoot = _
      rw [hhdr, hdr_unlinked, hpar, hl.offset, hl.prev]
      simp only [h.locOf_pos hs hq]
      rcases q with _ | p <;> simp [tailOf]
    · obtain ⟨d, hd, hd'⟩ := hcell (hq' y rfl) (hb y rfl)
      change a'.last (a'.loc y) = _
      have hnew : a'.last (a.loc y) = _ := field_eq hd'
      have hold : a.tailOf (some y) = d.hdr.lastChild := field_eq hd
      rw [hloc (hb y rfl), hnew, hold]
      simp only [hdrUnlinked, hpar, hl.offset, hl.prev, ← and_assoc,
        h.loc_eq_locOf hs hq (hq' y rfl)]

/-- The neighbours of a node are not in its subtree. -/
lemma LiveInv.neighbour_not_below (h : LiveInv a t) (hk : k ∈ kids t q) (hx : x =
    a.next (a.loc k) ∨ x = a.prev (a.loc k) ∨ x = a.parent (a.loc k)) :
    x = -1 ∨ ∃ y ∈ keys t, ¬ Below t k y ∧ a.loc y = x := by
  have hsib : ∀ {y}, y ∈ kids t q → y ≠ k → ¬ Below t k y := fun hy hne hb =>
    hne (eq_of_below_of_below h.forest hk hy hb .refl).symm
  rcases hx with rfl | rfl | rfl
  · refine (h.next_cases hk).imp_right fun ⟨y, hy, hne, heq⟩ => ?_
    exact ⟨y, mem_keys_of_kids hy, hsib hy hne, heq⟩
  · refine (h.prev_cases hk).imp_right fun ⟨y, hy, hne, heq⟩ => ?_
    exact ⟨y, mem_keys_of_kids hy, hsib hy hne, heq⟩
  · refine (h.parent_cases hk).imp_right fun ⟨p, hp, _, hqp, heq⟩ => ?_
    exact ⟨p, hp, not_below_of_kids h.forest (hqp ▸ hk), heq⟩

/-- The nodes below a node, without the node itself. -/
def StrictlyBelow (t : NodeTable) (k y : List UInt8) : Prop := y ≠ k ∧ Below t k y

/-- The nodes strictly below a node are those below its children. -/
lemma exists_kids_below_iff (hF : IsForest t) (y : List UInt8) :
    (∃ z ∈ kids t (some k), Below t z y) ↔ StrictlyBelow t k y := by
  constructor
  · rintro ⟨z, hz, hb⟩
    refine ⟨?_, (Below.step .refl hz).trans hb⟩
    rintro rfl
    exact not_below_of_kids hF hz hb
  · exact fun h => h.2.cases_head.resolve_left h.1

/-- There are no more nodes than bytes in the file. -/
lemma DbInv.length_le (h : DbInv a t L) (hs : a.On s) : t.length ≤ a.len := by
  have hnodup := List.Nodup.map_on (fun x hx y hy => h.live.inj hx hy) h.live.forest.nodup
  have hle := hs.length_le hnodup fun x hx => by
    obtain ⟨y, hy, rfl⟩ := mem_map.1 hx
    obtain ⟨c, v, hc, -⟩ := h.live.heap_loc hy
    exact ⟨c, hc⟩
  simpa [Hierarchy.keys] using hle

/-- **Everything below a node is removed.** The bound of the recursion is large enough, since there
are no more nodes than bytes in the file. -/
lemma runs_removeBelow (h : DbInv a t L) (hs : a.On s) (hk : k ∈ keys t)
    (hc : a.heap (a.loc k) = some c) :
    ∃ a₁ L₁, Runs a.On (removeSiblings (2 * a.len + 1) c.hdr.lastChild) (.ok ()) a₁.On ∧
      Removed a t L (StrictlyBelow t k) a₁ L₁ := by
  have hF := h.live.forest
  obtain ⟨d, hd⟩ := hF.rooted hk
  have hlen := h.length_le hs
  have hsize := length_below_le hF hk (t.length + 1)
  rw [below, length_cons] at hsize
  obtain ⟨a₁, L₁, hrun, hr⟩ := runs_removeKids (m := t.length) (n := 2 * a.len + 1) h hk hc
    (fun y hy n hn => removesTree h (.child hy hd) (by omega) hn) (.init h)
    (fun _ _ _ _ hf => hf) (by omega) hs
  refine ⟨a₁, L₁, hrun, hr.congr fun y => ?_⟩
  rw [or_false, exists_kids_below_iff hF]

namespace Removed

variable (hr : Removed a t L (StrictlyBelow t k) a₁ L₁) (h : DbInv a t L)

include hr h

/-- The neighbours of the node are still there. -/
lemma neighbour (hs : a₁.On s) (hk : k ∈ kids t q) (hx : x = a.next (a.loc k) ∨
    x = a.prev (a.loc k) ∨ x = a.parent (a.loc k)) : IsLink a₁ x ∧ x ∉ L₁ := by
  rcases h.live.neighbour_not_below hk hx with rfl | ⟨y, hy, hb, rfl⟩
  · exact ⟨.inl rfl, hr.free.neg_one_not_mem hs⟩
  · obtain ⟨c, v, hc, -⟩ := h.live.heap_loc hy
    exact ⟨.inr ⟨c, (hr.live hy fun hD => hb hD.2).trans hc⟩,
      hr.loc_not_mem h hy fun hD => hb hD.2⟩

/-- The node leaves its list, which does not touch the free list. -/
lemma runs_unlink (hs : a₁.On s) (hk : k ∈ kids t q) (hl : HasLinks a k nd) :
    Runs a₁.On (unlink nd) (.ok ()) (a₁.unlinked nd).On ∧ FreeInv (a₁.unlinked nd) L₁ := by
  have hnext := hr.neighbour h hs hk (.inl hl.next)
  have hprev := hr.neighbour h hs hk (.inr (.inl hl.prev))
  have hparent := hr.neighbour h hs hk (.inr (.inr hl.parent))
  refine ⟨Hdb.runs_unlink hnext.1 hprev.1 hparent.1, hr.free.congr (fun {x} hx => ?_) ?_⟩
  · exact heap_unlinked_ne (ne_of_mem_of_not_mem hx hnext.2) (ne_of_mem_of_not_mem hx hprev.2)
      (ne_of_mem_of_not_mem hx hparent.2)
  · rw [hdr_unlinked]
    split <;> rfl

variable (hfr : Freed (a₁.unlinked nd) L₁ a' L' (a.loc k))

include hfr

/-- The block of the node becomes free, and its key leaves the index. -/
lemma treeRemoved (hs : a.On s) (hk : k ∈ kids t q) (hl : HasLinks a k nd) :
    TreeRemoved a t k q { a' with index := a'.index.remove k, version := a'.version + 1 } := by
  have hindex : a'.index = a₁.index := by rw [hfr.rest.index, index_unlinked]
  refine treeRemoved_of_heap h.live hs hk hl (fun {y} hb => ?_) (fun {y} hb => ?_)
    (fun {y c} hy hb hc => ?_) ?_
  · rw [find_remove, hindex]
    by_cases heq : y = k
    · simp [heq]
    · simp [hr.gone ⟨heq, hb⟩]
  · rw [find_remove, hindex, if_neg fun (heq : y = k) => hb (heq ▸ .refl),
      hr.kept fun hD => hb hD.2]
  · refine (hfr.frame (hr.loc_not_mem h hy fun hD => hb hD.2) fun heq => hb ?_).trans
      (heap_unlinked ((hr.live hy fun hD => hb hD.2).trans hc) nd)
    exact h.live.inj hy (mem_keys_of_kids hk) heq ▸ .refl
  · rw [hfr.rest.hdr, hdr_unlinked, hdr_unlinked, hr.hdr]
    split <;> rfl

omit h in
/-- What is removed is in the free list now. -/
lemma mem_freed_iff (hk : k ∈ keys t) :
    x ∈ L' ↔ x ∈ L ∨ ∃ y ∈ keys t, Below t k y ∧ a.loc y = x := by
  rw [hfr.mem, hr.mem]
  constructor
  · rintro (rfl | hx | ⟨y, hD, hy, rfl⟩)
    · exact .inr ⟨k, hk, .refl, rfl⟩
    · exact .inl hx
    · exact .inr ⟨y, hy, hD.2, rfl⟩
  · rintro (hx | ⟨y, hy, hb, rfl⟩)
    · exact .inr (.inl hx)
    · by_cases heq : y = k
      · exact .inl (heq ▸ rfl)
      · exact .inr (.inr ⟨y, ⟨heq, hb⟩, hy, rfl⟩)

end Removed

/-- **Removing a node** removes its subtree: first what is below the node (`runs_removeBelow`), then
the node itself. -/
theorem runs_removeNodeData (h : DbInv a t L) (hs : a.On s) (hk : k ∈ kids t q)
    (hc : a.heap (a.loc k) = some c) :
    ∃ a' L', Runs a.On (removeNodeData (a.nodeObj (a.loc k) c k v)) (.ok true) a'.On ∧
      DbInv a' (remove t k) L' ∧ SameBlocks a t L a' (remove t k) L' := by
  have hkk := mem_keys_of_kids hk
  have hF := h.live.forest
  have hl : HasLinks a k (a.nodeObj (a.loc k) c k v) := .of_heap hc rfl rfl
  set nd := a.nodeObj (a.loc k) c k v
  obtain ⟨a₁, L₁, hrun1, hr⟩ := runs_removeBelow h hs hkk hc
  obtain ⟨s1, -, hs1⟩ := hrun1 s hs
  have hself : ¬ StrictlyBelow t k k := fun hD => hD.1 rfl
  obtain ⟨hunlink, hfree⟩ := hr.runs_unlink h hs1 hk hl
  obtain ⟨s2, -, hs2⟩ := hunlink s1 hs1
  obtain ⟨a', L', hrun3, hfr⟩ := runs_addBlockToFreeList (b := nd.blk) hfree hs2
    (hr.loc_not_mem h hkk hself) (heap_unlinked ((hr.live hkk hself).trans hc) nd) rfl
  have htree := hr.treeRemoved h hfr hs hk hl
  have hmem := fun {x} => hr.mem_freed_iff hfr (x := x) hkk
  have hloc : ∀ {y}, ¬ Below t k y →
      loc { a' with index := a'.index.remove k, version := a'.version + 1 } y = a.loc y :=
    fun hb => by rw [loc, loc, htree.kept hb]
  refine ⟨_, L', ?_, ⟨htree.liveInv h.live hs hk, hfr.free.congr (fun _ => rfl) rfl, ?_⟩,
    fun {x} => ?_, fun {x} _ => ?_, ?_⟩
  · rw [removeNodeData, if_neg (by rw [hl.offset]; exact Int32.not_le.2 (h.live.loc_pos hs hkk))]
    have hkey : nd.key = k := rfl
    have hblk : nd.blk.lastChild = c.hdr.lastChild := rfl
    rw [hl.offset, hkey, cString_eq (h.live.key hkk).2, hblk]
    exact runs_stepBound.bind (hrun1.bind (hunlink.bind (hrun3.bind
      ((runs_removeIndexEntry k).bind (runs_registerWrite.bind (.pure _))))))
  · intro y hy
    obtain ⟨hy, hb⟩ := (mem_keys_remove hF hkk).1 hy
    rw [hloc hb, hmem, not_or]
    refine ⟨h.disjoint hy, ?_⟩
    rintro ⟨z, hz, hbz, heq⟩
    exact hb (h.live.inj hz hy heq ▸ hbz)
  · constructor
    · rintro (hx | ⟨y, hy, rfl⟩)
      · rcases hmem.1 hx with hx | ⟨y, hy, -, rfl⟩
        · exact .inl hx
        · exact .inr ⟨y, hy, rfl⟩
      · obtain ⟨hy, hb⟩ := (mem_keys_remove hF hkk).1 hy
        exact .inr ⟨y, hy, (hloc hb).symm⟩
    · rintro (hx | ⟨y, hy, rfl⟩)
      · exact .inl (hmem.2 (.inl hx))
      · by_cases hb : Below t k y
        · exact .inl (hmem.2 (.inr ⟨y, hy, hb, rfl⟩))
        · exact .inr ⟨y, (mem_keys_remove hF hkk).2 ⟨hy, hb⟩, hloc hb⟩
  · change a'.size x = _
    rw [hfr.size, size_unlinked, hr.size]
  · rw [hfr.rest.len, len_unlinked, hr.len]

/-! ### The operations of a handle -/

/-- **`removeNode`** with a node object. -/
theorem runs_removeNode {r : Row (List UInt8) NodeVal} (h : DbInv a t L) (hs : a.On s) (hr : r ∈ t)
    (hc : a.heap (a.loc r.key) = some c) :
    ∃ a' L', Runs a.On (removeNode (some (a.rowObj c r))) (.ok true) a'.On ∧
      DbInv a' (remove t r.key) L' ∧ SameBlocks a t L a' (remove t r.key) L' := by
  obtain ⟨a', L', hrun, hinv, hblocks⟩ := runs_removeNodeData h hs (kids_of_mem hr) hc
  refine ⟨a', L', ?_, hinv, hblocks⟩
  rw [removeNode, if_pos (by exact h.live.loc_pos hs (mem_keys.2 ⟨r, hr, rfl⟩))]
  exact (runs_reload (.inr rfl)).bind (hrun.bind (.pure _))

/-- The node of a key. -/
lemma runs_nodeOfKey (h : LiveInv a t) (hk : k ∈ keys t) (hc : a.heap (a.loc k) = some c)
    (hn : NodeCell k v c) : Runs a.On (nodeOfKey k) (.ok (some (a.nodeObj (a.loc k) c k v))) a.On :=
  (runs_findIndexEntry_some h hk).bind (runs_readNode hc hn)

/-- No key, no node. -/
lemma runs_nodeOfKey_none (h : LiveInv a t) (hk : k ∉ keys t) :
    Runs a.On (nodeOfKey k) (.ok none) a.On :=
  (runs_findIndexEntry_none h hk).bind (.pure _)

/-- **`removeNode`** with a key. -/
theorem runs_removeNodeByKey (h : DbInv a t L) (hs : a.On s) (hk : k ∈ keys t) :
    ∃ a' L', Runs a.On (removeNodeByKey k) (.ok true) a'.On ∧
      DbInv a' (remove t k) L' ∧ SameBlocks a t L a' (remove t k) L' := by
  obtain ⟨q, hq⟩ := exists_kids hk
  obtain ⟨c, v, hc, hn⟩ := h.live.heap_loc hk
  obtain ⟨a', L', hrun, hinv, hblocks⟩ := runs_removeNodeData h hs hq hc
  refine ⟨a', L', ?_, hinv, hblocks⟩
  rw [removeNodeByKey, if_neg (h.live.key hk).1]
  exact (runs_nodeOfKey h.live hk hc hn).bind (hrun.bind (.pure _))

end OpenWbem.Hdb
