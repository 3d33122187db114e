import OpenWbem.Hdb.LinkChanges

/-!
# Blocks that belong to the database

A block belongs to a node or to the free list. The operations of a database never give up a block:
what is freed goes to the free list, and what is taken from it goes to a node. A block changes its
size only when it is taken for a new record, and the new size is that of the record.

## Main definitions

* `Claimed` — a block that belongs to a node or to the free list.
* `SameBlocks`, `BlockTaken` — the blocks before and after a change.
* `Balance` — the blocks before and after an operation that takes at most one block.

## Main results

* `blockTaken_of_put`, `SameBlocks.of_index` — the blocks after a change of the links.
-/

namespace OpenWbem.Hdb

open Extents Cells Hierarchy

/-- A block that belongs to a node or to the free list. -/
def Claimed (a : Cells) (t : NodeTable) (L : List Int32) (x : Int32) : Prop :=
  x ∈ L ∨ ∃ k ∈ keys t, a.loc k = x

/-- The blocks are the same, and have the same sizes. -/
structure SameBlocks (a : Cells) (t : NodeTable) (L : List Int32) (a' : Cells) (t' : NodeTable)
    (L' : List Int32) : Prop where
  mem : ∀ {x}, Claimed a' t' L' x ↔ Claimed a t L x
  size : ∀ {x}, Claimed a t L x → a'.size x = a.size x
  len : a'.len = a.len

/-- A record of `n` bytes has been written to the place for it, at `o`. -/
structure BlockTaken (a : Cells) (t : NodeTable) (L : List Int32) (n : ℕ) (o : Int32) (a' : Cells)
    (t' : NodeTable) (L' : List Int32) : Prop where
  fit : BestFit a L n o
  mem : ∀ {x}, Claimed a' t' L' x ↔ x = o ∨ Claimed a t L x
  self : (a'.size o).toNat = n
  size : ∀ {x}, Claimed a t L x → x ≠ o → a'.size x = a.size x
  len : a'.len = max a.len (o.toInt.toNat + n)

/-- The blocks before and after an operation, which writes a record to another place or does not. -/
inductive Balance (a : Cells) (t : NodeTable) (L : List Int32) :
    Option ℕ → Cells → NodeTable → List Int32 → Prop
  | same {a' : Cells} {t' : NodeTable} {L' : List Int32} :
      SameBlocks a t L a' t' L' → Balance a t L none a' t' L'
  | taken {n : ℕ} {o : Int32} {a' : Cells} {t' : NodeTable} {L' : List Int32} :
      BlockTaken a t L n o a' t' L' → Balance a t L (some n) a' t' L'

variable {a a' a1 : Cells} {s : HDB} {t t' t1 : NodeTable} {L L' L1 : List Int32} {o x : Int32}
  {k p : List UInt8} {q : Option (List UInt8)} {v : NodeVal} {c : Cell HDBBlock} {n : ℕ}
  {m : Option ℕ}

/-- There is a block where one belongs to the database. -/
lemma Claimed.heap (hx : Claimed a t L x) (h : DbInv a t L) : ∃ c, a.heap x = some c := by
  rcases hx with hx | ⟨k, hk, rfl⟩
  · obtain ⟨c, hc, -⟩ := h.free.cell hx
    exact ⟨c, hc⟩
  · obtain ⟨c, v, hc, -⟩ := h.live.heap_loc hk
    exact ⟨c, hc⟩

namespace SameBlocks

/-- Nothing has changed. -/
lemma refl : SameBlocks a t L a t L := ⟨Iff.rfl, fun _ => rfl, rfl⟩

/-- One change after the other. -/
lemma trans (h : SameBlocks a t L a1 t1 L1) (h' : SameBlocks a1 t1 L1 a' t' L') :
    SameBlocks a t L a' t' L' :=
  ⟨h'.mem.trans h.mem, fun hx => (h'.size (h.mem.2 hx)).trans (h.size hx), h'.len.trans h.len⟩

end SameBlocks

/-- And then only other changes. -/
lemma BlockTaken.trans (h : BlockTaken a t L n o a1 t1 L1) (h' : SameBlocks a1 t1 L1 a' t' L') :
    BlockTaken a t L n o a' t' L' := by
  refine ⟨h.fit, h'.mem.trans h.mem, ?_, fun hx hne => ?_, h'.len.trans h.len⟩
  · rw [h'.size (h.mem.2 (.inl rfl)), h.self]
  · rw [h'.size (h.mem.2 (.inr hx)), h.size hx hne]

/-- After an operation, a change that keeps the blocks. -/
lemma Balance.trans (h : Balance a t L m a1 t1 L1) (h' : SameBlocks a1 t1 L1 a' t' L') :
    Balance a t L m a' t' L' := by
  cases h with
  | same h => exact .same (h.trans h')
  | taken h => exact .taken (h.trans h')

/-! ### Sizes -/

/-- The same cell, the same size. -/
lemma Cells.size_congr (h : a'.heap x = a.heap x) : a'.size x = a.size x := by
  rw [size, size, field, field, h]

/-- The same node, the same size. -/
lemma SameNode.size_eq {c' : Cell HDBBlock} (h : SameNode c c') (hc : a.heap x = some c)
    (hc' : a'.heap x = some c') : a'.size x = a.size x := by
  have hold : a.size x = c.hdr.size := field_eq hc
  have hnew : a'.size x = c'.hdr.size := field_eq hc'
  rw [hold, hnew, h.size]

/-- A block that is written within its extent does not make the file longer. -/
lemma Cells.On.len_put (hs : a.On s) (hc : a.heap o = some c) {d : Cell HDBBlock}
    (hfit : blockSize + d.body.length ≤ c.hdr.size.toNat) : (a.put o d).len = a.len := by
  have hhigh := hs.bytes.holds.high hc
  rw [hs.bytes.length] at hhigh
  simp only [blockLayout_pos, blockLayout_ext] at hhigh
  refine max_eq_left ?_
  rw [blockLayout_pos]
  omega

/-! ### The blocks after a change of the links -/

/-- **A node that goes to another block**, or is new, takes the one that is found for it. If it had
a block before, that goes to the free list. -/
lemma blockTaken_of_put (h : LiveInv a t) (hindex : a'.index = a.index.put k o)
    (hkeys : ∀ {k'}, k' ∈ keys t' ↔ k' = k ∨ k' ∈ keys t)
    (hold : ∀ {k' c}, k' ∈ keys t → k' ≠ k → a.heap (a.loc k') = some c →
      ∃ c', a'.heap (a.loc k') = some c' ∧ SameNode c c')
    (hfit : BestFit a L n o) (hsub : ∀ {x}, x ∈ L' → k ∈ keys t ∧ x = a.loc k ∨ x ∈ L)
    (hkeep : ∀ {x}, k ∈ keys t ∧ x = a.loc k ∨ x ∈ L → x = o ∨ x ∈ L')
    (hself : (a'.size o).toNat = n) (hfree : ∀ {x}, x ∈ L' → a'.size x = a.size x)
    (hlen : a'.len = max a.len (o.toInt.toNat + n)) : BlockTaken a t L n o a' t' L' := by
  have hloc : ∀ {k'}, k' ≠ k → a'.loc k' = a.loc k' := fun {k'} hne =>
    (loc_of_put hindex k').trans (if_neg hne)
  have hkloc : a'.loc k = o := (loc_of_put hindex k).trans (if_pos rfl)
  have hback : ∀ {x}, x = o ∨ x ∈ L' → Claimed a' t' L' x := by
    rintro x (rfl | hx)
    · exact .inr ⟨k, hkeys.2 (.inl rfl), hkloc⟩
    · exact .inl hx
  refine ⟨hfit, fun {x} => ⟨?_, ?_⟩, hself, ?_, hlen⟩
  · rintro (hx | ⟨k', hk', rfl⟩)
    · exact .inr ((hsub hx).elim (fun hx => .inr ⟨k, hx.1, hx.2.symm⟩) .inl)
    · by_cases hne : k' = k
      · exact .inl (hne ▸ hkloc)
      · exact .inr (.inr ⟨k', (hkeys.1 hk').resolve_left hne, (hloc hne).symm⟩)
  · rintro (hx | hx | ⟨k', hk', rfl⟩)
    · exact hback (.inl hx)
    · exact hback (hkeep (.inr hx))
    · by_cases hne : k' = k
      · exact hback (hkeep (.inl ⟨hne ▸ hk', by rw [hne]⟩))
      · exact .inr ⟨k', hkeys.2 (.inr hk'), hloc hne⟩
  · rintro x (hx | ⟨k', hk', rfl⟩) hne
    · exact hfree ((hkeep (.inr hx)).resolve_left hne)
    · by_cases hkk : k' = k
      · exact hfree ((hkeep (.inl ⟨hkk ▸ hk', by rw [hkk]⟩)).resolve_left hne)
      · obtain ⟨c, v', hcell, -⟩ := h.heap_loc hk'
        obtain ⟨c', hc', hsame⟩ := hold hk' hkk hcell
        exact hsame.size_eq hcell hc'

/-- **A new node** takes the block that is found for it. -/
lemma LeafAdded.blockTaken (hc : LeafAdded a t k q v a' o) (h : LiveInv a t) (hk : k ∉ keys t)
    (hfit : BestFit a L n o) (hsub : ∀ {x}, x ∈ L' → x ∈ L) (hkeep : ∀ {x}, x ∈ L → x = o ∨ x ∈ L')
    (hself : (a'.size o).toNat = n) (hfree : ∀ {x}, x ∈ L' → a'.size x = a.size x)
    (hlen : a'.len = max a.len (o.toInt.toNat + n)) : BlockTaken a t L n o a' (add t k q v) L' :=
  blockTaken_of_put h hc.index (by simp [keys_add, or_comm]) (fun hk' _ => hc.old hk') hfit
    (fun hx => .inr (hsub hx)) (fun hx => hkeep (hx.resolve_left fun hx => hk hx.1)) hself
      hfree hlen

/-- The blocks are the same if the nodes are where they were, and their blocks have their sizes. -/
lemma SameBlocks.of_index (h : LiveInv a t) (hkeys : ∀ {k'}, k' ∈ keys t' ↔ k' ∈ keys t)
    (hindex : a'.index = a.index) (hnode : ∀ {k' c}, k' ∈ keys t → a.heap (a.loc k') = some c →
      ∃ c', a'.heap (a.loc k') = some c' ∧ c'.hdr.size = c.hdr.size)
    (hfree : ∀ {x}, x ∈ L → a'.heap x = a.heap x) (hlen : a'.len = a.len) :
    SameBlocks a t L a' t' L := by
  have hloc : a'.loc = a.loc := by
    funext k'
    rw [loc, loc, hindex]
  refine ⟨fun {x} => ?_, ?_, hlen⟩
  · simp only [Claimed, hloc, hkeys]
  · rintro x (hx | ⟨k', hk', rfl⟩)
    · exact size_congr (hfree hx)
    · obtain ⟨c, v', hcell, -⟩ := h.heap_loc hk'
      obtain ⟨c', hc', hsize⟩ := hnode hk' hcell
      have hold : a.size (a.loc k') = c.hdr.size := field_eq hcell
      have hnew : a'.size (a.loc k') = c'.hdr.size := field_eq hc'
      rw [hold, hnew, hsize]

end OpenWbem.Hdb
