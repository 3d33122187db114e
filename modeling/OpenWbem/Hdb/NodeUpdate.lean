import OpenWbem.Hdb.LinkWrites
import OpenWbem.Hdb.NodeAdd

/-!
# Updating nodes

A node that is written again stays in its block if it fits there. Otherwise the block is put into
the free list, the node gets another block, and everything that points to the old one is made to
point to the new one.

## Main results

* `runs_writeNode_update` — a node that is on file gets other contents.
* `runs_updateParent` — a node gets another parent.
-/

namespace OpenWbem.Hdb

open Bytes Extents Prog Cells Hierarchy LiveInv HDBHandle HDBNodeData
open DLinked (firstOf lastOf)

variable {a a' a1 : Cells} {s : HDB} {t : NodeTable} {L L' L1 : List Int32} {o x : Int32}
  {c : Cell HDBBlock} {b : HDBBlock} {k p : List UInt8} {q : Option (List UInt8)} {v : NodeVal}
  {nd : HDBNodeData} {n : ℕ}

/-! ### A node that outgrows its block -/

/-- What follows from a change of the blocks for the links, after `k` has gone to the offset `o`. -/
lemma relocated_of_heap (h : LiveInv a t) (hs : a.On s) (hk : k ∈ kids t q)
    (hoff : nd.offset = a.loc k)
    (hpar : nd.blk.parent = a.parent (a.loc k)) (hprev : nd.blk.prevSib = a.prev (a.loc k))
    (hnext : nd.blk.nextSib = a.next (a.loc k)) (hindex : a'.index = a.index.put k o)
    (hfresh : ∀ {k'}, k' ∈ keys t → k' ≠ k → a.loc k' ≠ o) (ho : o ≠ -1)
    (hnew : ∃ c, a'.heap o = some c ∧ NodeCell k v c ∧ c.hdr.nextSib = a.next (a.loc k) ∧
      c.hdr.prevSib = a.prev (a.loc k) ∧ c.hdr.parent = a.parent (a.loc k) ∧
      c.hdr.firstChild = a.first (a.loc k) ∧ c.hdr.lastChild = a.last (a.loc k))
    (hheap : ∀ {k' c}, k' ∈ keys t → k' ≠ k → a.heap (a.loc k') = some c → a'.heap (a.loc k') =
      some ⟨hdrRelinked nd (a.sibs t (some k)) o (a.loc k') c.hdr, c.body⟩)
    (hhdr : a'.hdr = { (a.relinked nd (a.sibs t (some k)) o).hdr with
      firstFree := a'.hdr.firstFree }) :
    Relocated a t k q v a' o := by
  have hq := h.isPlace_of_kids hk
  have hcell : ∀ {k'}, k' ∈ keys t → k' ≠ k → ∃ c, a.heap (a.loc k') = some c ∧ a'.heap (a.loc k') =
        some ⟨hdrRelinked nd (a.sibs t (some k)) o (a.loc k') c.hdr, c.body⟩ := by
    intro k' hk' hne
    obtain ⟨c, v', hc, -⟩ := h.heap_loc hk'
    exact ⟨c, hc, hheap hk' hne hc⟩
  have hloc : ∀ {k'}, k' ≠ k → a'.loc k' = a.loc k' := fun {k'} hne =>
    (loc_of_put hindex k').trans (if_neg hne)
  rw [h.parent hk] at hpar
  refine ⟨hindex, hfresh, ho, hnew, fun hk' hne hc =>
    ⟨_, hheap hk' hne hc, ⟨rfl, rfl, rfl, rfl, rfl, rfl⟩⟩, fun hk' hne => ?_, fun hk' hne => ?_,
    fun {k'} hk' hne => ?_, fun {q'} hq' hne => ?_, fun {q'} hq' hne => ?_⟩
  · obtain ⟨c, hc, hc'⟩ := hcell hk' hne
    rw [Cells.next, field_eq hc', ← hprev, Cells.next, field_eq hc]
    rfl
  · obtain ⟨c, hc, hc'⟩ := hcell hk' hne
    rw [Cells.prev, field_eq hc', ← hnext, Cells.prev, field_eq hc]
    rfl
  · obtain ⟨c, hc, hc'⟩ := hcell hk' hne
    have hmem : a.loc k' ∈ a.sibs t (some k) ↔ k' ∈ kids t (some k) := by
      refine ⟨fun hm => ?_, loc_mem_sibs⟩
      obtain ⟨y, hy, heq⟩ := mem_sibs.1 hm
      exact h.inj (mem_keys_of_kids hy) hk' heq ▸ hy
    rw [Cells.parent, field_eq hc', Cells.parent, field_eq hc]
    simp only [hdrRelinked, hmem]
  · rcases q' with _ | p
    · change a'.hdr.firstRoot = if _ then o else a.hdr.firstRoot
      rw [hhdr, hdr_relinked, hpar, hoff]
      simp only [h.locOf_pos hs hq]
      rcases q with _ | p <;> simp [headOf]
    · have hpk : p ≠ k := fun heq => hne (by rw [heq])
      obtain ⟨c, hc, hc'⟩ := hcell (hq' p rfl) hpk
      change a'.first (a'.loc p) = if _ then o else a.first (a.loc p)
      rw [hloc hpk, Cells.first, field_eq hc', headOf, Cells.first, field_eq hc]
      simp only [hdrRelinked, hpar, ← and_assoc, h.loc_eq_locOf hs hq (hq' p rfl), hoff]
  · rcases q' with _ | p
    · change a'.hdr.lastRoot = if _ then o else a.hdr.lastRoot
      rw [hhdr, hdr_relinked, hpar, hoff]
      simp only [h.locOf_pos hs hq]
      rcases q with _ | p <;> simp [tailOf]
    · have hpk : p ≠ k := fun heq => hne (by rw [heq])
      obtain ⟨c, hc, hc'⟩ := hcell (hq' p rfl) hpk
      change a'.last (a'.loc p) = if _ then o else a.last (a.loc p)
      rw [hloc hpk, Cells.last, field_eq hc', tailOf, Cells.last, field_eq hc]
      simp only [hdrRelinked, hpar, ← and_assoc, h.loc_eq_locOf hs hq (hq' p rfl), hoff]

/-- The object of a node with other contents, as it is written back. -/
def Cells.revised (a : Cells) (o : Int32) (c : Cell HDBBlock) (k : List UInt8) (v : NodeVal) :
    HDBNodeData :=
  { a.nodeObj o c k v with blk := { c.hdr with flags := v.flags } }

/-- The size of the block that the node `k` needs besides its own one, if it has grown to `n`
bytes. -/
def Cells.demand (a : Cells) (k : List UInt8) (n : ℕ) : Option ℕ :=
  if n ≤ (a.size (a.loc k)).toNat then none else some n

/-- What writing a node that is on file leads to: the node has the contents `v`, and `r` is its
object. -/
structure Revised (a : Cells) (t : NodeTable) (L : List Int32) (k : List UInt8) (v : NodeVal)
    (r : HDBNodeData) (a' : Cells) (L' : List Int32) : Prop where
  inv : DbInv a' (modify t k fun _ => v) L'
  obj : a'.Current k v r
  version : a'.version = a.version + 1
  loc : ∀ {k'}, k' ≠ k → a'.loc k' = a.loc k'
  blocks : Balance a t L (a.demand k (blockSize + (k.length + 1 + v.data.length))) a'
    (modify t k fun _ => v) L'

/-- The block of the node `k` has become free, and one of `n` bytes has been allocated at `o`. The
other nodes are where they were. -/
structure Exchanged (a : Cells) (t : NodeTable) (L : List Int32) (k : List UInt8) (n : ℕ)
    (a' : Cells) (L' : List Int32) (o : Int32) : Prop where
  free : FreeInv a' L'
  room : a'.Room o n
  pos : 0 < o
  not_mem : o ∉ L'
  rest : SameRest a a'
  live : ∀ {k'}, k' ∈ keys t → k' ≠ k → a'.heap (a.loc k') = a.heap (a.loc k')
  fresh : ∀ {k'}, k' ∈ keys t → k' ≠ k → a.loc k' ≠ o
  disjoint : ∀ {k'}, k' ∈ keys t → k' ≠ k → a.loc k' ∉ L'
  sub : ∀ {x}, x ∈ L' → x = a.loc k ∨ x ∈ L
  keep : ∀ {x}, x = a.loc k ∨ x ∈ L → x = o ∨ x ∈ L'
  fit : BestFit a L n o
  size : a'.size = a.size

/-- The place for a record is the same after a block that is too small for it has been freed. -/
lemma Freed.bestFit (hfr : Freed a L a' L' o) (hsmall : (a.size o).toNat < n)
    (hfit : BestFit a' L' n x) : BestFit a L n x := by
  cases hfit with
  | block hx hle hleast =>
    rw [hfr.size] at hle hleast
    refine .block ((hfr.mem.1 hx).resolve_left ?_) hle fun y hy => hleast y (hfr.mem.2 (.inr hy))
    rintro rfl
    omega
  | fileEnd hx hend hall =>
    rw [hfr.size] at hall
    exact .fileEnd (fun hx' => hx (hfr.mem.2 (.inr hx'))) (hend.trans (by rw [hfr.rest.len]))
      fun y hy => hall y (hfr.mem.2 (.inr hy))

/-- A node gives up its block, which is too small, for another one. -/
lemma runs_exchange (nd : HDBNodeData) (h : DbInv a t L) (hs : a.On s) (hk : k ∈ keys t)
    (hc : a.heap (a.loc k) = some c) (hb : b.size = c.hdr.size) (hbig : c.hdr.size.toNat < nd.need)
    (hfit : Fits a L nd.need) : ∃ (a1 a' : Cells) (L' : List Int32) (o : Int32),
      Runs a.On (addBlockToFreeList b (a.loc k)) (.ok ()) a1.On ∧
      Runs a1.On (findBlock nd.totalSize) (.ok o) a'.On ∧ Exchanged a t L k nd.need a' L' o := by
  obtain ⟨a1, L1, hrun1, hfr⟩ := runs_addBlockToFreeList h.free hs (h.disjoint hk) hc hb
  obtain ⟨s1, -, hs1⟩ := hrun1 s hs
  have hfit1 : Fits a1 L1 nd.need := by
    refine ⟨hfit.size, ?_⟩
    rw [hfr.size, hfr.rest.len]
    exact hfit.place.imp_left fun ⟨x, hx, hle⟩ => ⟨x, hfr.mem.2 (.inr hx), hle⟩
  obtain ⟨o, a2, L2, hrun2, hal⟩ := runs_findBlock_need hfr.free hs1 hfit1
  have hnotin : ∀ {k'}, k' ∈ keys t → k' ≠ k → a.loc k' ∉ L1 := by
    intro k' hk' hne hm
    rcases hfr.mem.1 hm with heq | hm
    · exact hne (h.live.inj hk' hk heq)
    · exact h.disjoint hk' hm
  have hlive1 : ∀ {k'}, k' ∈ keys t → k' ≠ k → a1.heap (a.loc k') = a.heap (a.loc k') :=
    fun hk' hne => hfr.frame (h.disjoint hk') fun heq => hne (h.live.inj hk' hk heq)
  refine ⟨a1, a2, L2, o, hrun1, hrun2, hal.free, hal.room, hal.pos, hal.not_mem,
    ⟨?_, hal.rest.version.trans hfr.rest.version, hal.rest.index.trans hfr.rest.index,
      hal.rest.len.trans hfr.rest.len⟩,
    fun hk' hne => (hal.frame (hnotin hk' hne)).trans (hlive1 hk' hne), ?_,
    fun hk' hne hm => hnotin hk' hne (hal.sub hm), fun hx => hfr.mem.1 (hal.sub hx),
    fun hx => hal.keep (hfr.mem.2 hx), hfr.bestFit ?_ hal.fit, hal.size.trans hfr.size⟩
  · rw [hal.rest.hdr, hfr.rest.hdr]
  · rintro k' hk' hne rfl
    rcases hal.source with hm | hnone
    · exact hnotin hk' hne hm
    · obtain ⟨d, v', hd, -⟩ := h.live.heap_loc hk'
      rw [hlive1 hk' hne, hd] at hnone
      cases hnone
  · rwa [size, field_eq hc]

section relink

/-- The links of the node `k`, and its children. -/
def Cells.Adjoins (a : Cells) (t : NodeTable) (k : List UInt8) (x : Int32) : Prop :=
  x = a.next (a.loc k) ∨ x = a.prev (a.loc k) ∨ x = a.parent (a.loc k) ∨ x ∈ a.sibs t (some k)

variable (h : LiveInv a t) (hs : a.On s) (hk : k ∈ kids t q)

include h hk in
/-- What the links of a node and its children lead to. -/
lemma LiveInv.neighbour (hx : a.Adjoins t k x) : x = -1 ∨ ∃ y ∈ keys t, y ≠ k ∧ a.loc y = x := by
  rcases hx with rfl | rfl | rfl | hx
  · exact (h.next_cases hk).imp_right fun ⟨y, hy, hr⟩ => ⟨y, mem_keys_of_kids hy, hr⟩
  · exact (h.prev_cases hk).imp_right fun ⟨y, hy, hr⟩ => ⟨y, mem_keys_of_kids hy, hr⟩
  · exact (h.parent_cases hk).imp_right fun ⟨y, hy, hne, _, heq⟩ => ⟨y, hy, hne, heq⟩
  · obtain ⟨y, hy, rfl⟩ := mem_sibs.1 hx
    refine .inr ⟨y, mem_keys_of_kids hy, ?_, rfl⟩
    rintro rfl
    exact not_below_of_kids h.forest hy .refl

include h hk in
/-- What is beside a node is a pointer. -/
lemma LiveInv.isLink (hx : a.Adjoins t k x) : IsLink a x := by
  rcases h.neighbour hk hx with h1 | ⟨y, hy, -, rfl⟩
  · exact .inl h1
  · obtain ⟨c, v, hc, -⟩ := h.heap_loc hy
    exact .inr ⟨c, hc⟩

include h hk in
/-- No link leads to a block that is not live. -/
lemma LiveInv.ne_of_not_live (hx1 : x ≠ -1) (hx : ∀ {k'}, k' ∈ keys t → k' ≠ k → a.loc k' ≠ x) :
    x ≠ a.next (a.loc k) ∧ x ≠ a.prev (a.loc k) ∧ x ≠ a.parent (a.loc k) ∧
    x ∉ a.sibs t (some k) := by
  have hout : ¬ a.Adjoins t k x := by
    intro hlink
    obtain ⟨y, hy, hne, heq⟩ := (h.neighbour hk hlink).resolve_left hx1
    exact hx hy hne heq
  simpa only [Cells.Adjoins, not_or] using hout

/-- The links in a node object are those of the node `k`. -/
structure HasLinks (a : Cells) (k : List UInt8) (nd : HDBNodeData) : Prop where
  offset : nd.offset = a.loc k
  next : nd.blk.nextSib = a.next (a.loc k)
  prev : nd.blk.prevSib = a.prev (a.loc k)
  parent : nd.blk.parent = a.parent (a.loc k)
  first : nd.blk.firstChild = a.first (a.loc k)
  last : nd.blk.lastChild = a.last (a.loc k)

/-- The pointers as in the file. -/
lemma HasLinks.of_heap (hc : a.heap (a.loc k) = some c) (hoff : nd.offset = a.loc k)
    (hblk : nd.blk = { c.hdr with
      isFree := nd.blk.isFree, size := nd.blk.size, flags := nd.blk.flags
      keyLength := nd.blk.keyLength, dataLength := nd.blk.dataLength }) : HasLinks a k nd := by
  refine ⟨hoff, ?_, ?_, ?_, ?_, ?_⟩
  · rw [Cells.next, field_eq hc, hblk]
  · rw [Cells.prev, field_eq hc, hblk]
  · rw [Cells.parent, field_eq hc, hblk]
  · rw [Cells.first, field_eq hc, hblk]
  · rw [Cells.last, field_eq hc, hblk]

include h hk in
/-- Blocks that are not live keep their headers when a node is linked at another offset. -/
lemma LiveInv.heap_relinked_out (hl : HasLinks a k nd) (hx1 : x ≠ -1)
    (hx : ∀ {k'}, k' ∈ keys t → k' ≠ k → a.loc k' ≠ x) :
    (a1.relinked nd (a.sibs t (some k)) o).heap x = a1.heap x := by
  obtain ⟨hnext, hprev, hpar, hsibs⟩ := h.ne_of_not_live hk hx1 hx
  exact heap_relinked_ne (hl.prev ▸ hprev) (hl.next ▸ hnext) (hl.parent ▸ hpar) hsibs

/-- The state after the neighbours of the node `k`, whose links are in `nd`, have been made to point
to the block at `o`. -/
def Cells.repointed (a a1 : Cells) (t : NodeTable) (k : List UInt8) (nd : HDBNodeData) (o : Int32) :
    Cells :=
  { a1.relinked nd (a.sibs t (some k)) o with index := a.index.put k o }

include h hs hk in
/-- **`updateOffsets`**, for a node whose block has been exchanged. -/
lemma runs_updateOffsets_exchanged (hx : Exchanged a t L k n a1 L1 o) (hl : HasLinks a k nd)
    (hkey : nd.key = k) :
    Runs a1.On (updateOffsets nd o) (.ok { nd with offset := o })
      (a.repointed a1 t k nd o).On := by
  have hkk := mem_keys_of_kids hk
  have hheap : ∀ {y}, y ∈ keys t → y ≠ k → ∃ c, a1.heap (a.loc y) = some c := by
    intro y hy hne
    obtain ⟨d, v', hd, -⟩ := h.heap_loc hy
    exact ⟨d, (hx.live hy hne).trans hd⟩
  have hlink : ∀ {x}, a.Adjoins t k x → IsLink a1 x := by
    intro x hx'
    rcases h.neighbour hk hx' with h1 | ⟨y, hy, hne, rfl⟩
    · exact .inl h1
    · exact .inr (hheap hy hne)
  rw [repointed, ← hx.rest.index, ← hkey]
  refine runs_updateOffsets (a.loc k) hx.pos (hlink (.inl hl.next))
    (hlink (.inr (.inl hl.prev))) (hlink (.inr (.inr (.inl hl.parent)))) ?_ (fun x hx' => ?_)
    (fun {i x} hx' => ?_) ?_ ?_ ?_
  · rw [hkey, ← h.head (.some hkk), hl.first]
    rfl
  · rw [hkey] at hx'
    refine (hlink (.inr (.inr (.inr hx')))).resolve_left ?_
    rintro rfl
    exact h.neg_one_not_mem_sibs hs hx'
  · rw [hkey] at hx' ⊢
    have hmem := List.mem_of_getElem? hx'
    obtain ⟨y, hy, hne, rfl⟩ := (h.neighbour hk (.inr (.inr (.inr hmem)))).resolve_left
      fun h1 => h.neg_one_not_mem_sibs hs (h1 ▸ hmem)
    rw [(SameLinks.of_heap (hx.live hy hne)).next]
    exact (h.links (some k)).next hx'
  · rw [hl.prev, hkey]
    intro hm
    have hqk := h.eq_of_sibling hs hm (h.prev_cases hk)
    exact not_below_of_kids h.forest (hqk ▸ hk) .refl
  · rw [hx.rest.len]
    exact hs.length_le h.nodup_sibs fun x hx => h.heap_of_mem_sibs hx
  · rw [hx.rest.index, hkey, h.find_eq hkk]

end relink

variable {v0 : NodeVal} {pnd : HDBNodeData} {cp : Cell HDBBlock}

/-- The state after `nd` has been written to the block at `o`. -/
def Cells.rewritten (a a1 : Cells) (t : NodeTable) (k : List UInt8) (nd : HDBNodeData) (o : Int32) :
    Cells :=
  { (a.repointed a1 t k nd o).put o nd.cell with version := (a.repointed a1 t k nd o).version + 1 }

/-- The block of the node itself. -/
lemma heap_rewritten_self : (a.rewritten a1 t k nd o).heap o = some nd.cell :=
  Function.update_self o _ _

/-- The other blocks. -/
lemma heap_rewritten_ne (hx : x ≠ o) :
    (a.rewritten a1 t k nd o).heap x = (a1.relinked nd (a.sibs t (some k)) o).heap x :=
  Function.update_of_ne hx _ _

/-- The header block. -/
lemma hdr_rewritten :
    (a.rewritten a1 t k nd o).hdr = (a1.relinked nd (a.sibs t (some k)) o).hdr := rfl

/-- The index has the new offset. -/
lemma index_rewritten : (a.rewritten a1 t k nd o).index = a.index.put k o := rfl

/-- The offset of the node itself. -/
lemma loc_rewritten_self : (a.rewritten a1 t k nd o).loc k = o :=
  (loc_of_put index_rewritten k).trans (if_pos rfl)

/-- The offsets of the other nodes. -/
lemma loc_rewritten_ne {y : List UInt8} (hy : y ≠ k) : (a.rewritten a1 t k nd o).loc y = a.loc y :=
  (loc_of_put index_rewritten y).trans (if_neg hy)

namespace Exchanged

variable (hx : Exchanged a t L k n a1 L1 o) (h : DbInv a t L) (hk : k ∈ kids t q)
  (hl : HasLinks a k nd)

include hx h hk hl

/-- The blocks that are still free are not touched. -/
lemma heap_rewritten_free (hs : a1.On s) (hxm : x ∈ L1) :
    (a.rewritten a1 t k nd o).heap x = a1.heap x := by
  rw [heap_rewritten_ne (ne_of_mem_of_not_mem hxm hx.not_mem)]
  refine h.live.heap_relinked_out hk hl ?_ fun hk' hne heq => hx.disjoint hk' hne (heq ▸ hxm)
  rintro rfl
  exact hx.free.neg_one_not_mem hs hxm

/-- The node has gone to its new block. -/
lemma relocated (hs : a.On s) (hcell : NodeCell k v nd.cell) :
    Relocated a t k q v (a.rewritten a1 t k nd o) o := by
  have ho : o ≠ -1 := fun h1 => absurd (h1 ▸ hx.pos : (0 : Int32) < -1) (by decide)
  refine relocated_of_heap h.live hs hk hl.offset hl.parent hl.prev hl.next index_rewritten
    hx.fresh ho
    ⟨_, heap_rewritten_self, hcell, hl.next, hl.prev, hl.parent, hl.first, hl.last⟩
    (fun hk' hne hd => ?_) ?_
  · rw [heap_rewritten_ne (hx.fresh hk' hne)]
    exact heap_relinked ((hx.live hk' hne).trans hd) _ _ _
  · rw [hdr_rewritten, hdr_relinked, hdr_relinked]
    split
    · exact hx.rest.hdr
    · rw [hx.rest.hdr]

/-- **The invariant** after the node has gone to its new block. -/
lemma dbInv_rewritten (hs : a.On s) {s1 : HDB} (hs1 : a1.On s1) (hcell : NodeCell k v nd.cell) :
    DbInv (a.rewritten a1 t k nd o) (modify t k fun _ => v) L1 := by
  refine ⟨(hx.relocated h hk hl hs hcell).liveInv h.live hs hk,
    hx.free.congr (hx.heap_rewritten_free h hk hl hs1) ?_, fun {k'} hk' => ?_⟩
  · rw [hdr_rewritten, hdr_relinked]
    split <;> rfl
  · rw [keys_modify] at hk'
    by_cases hne : k' = k
    · rw [hne, loc_rewritten_self]
      exact hx.not_mem
    · rw [loc_rewritten_ne hne]
      exact hx.disjoint hk' hne

/-- The new block has been taken for the record. -/
lemma blockTaken_rewritten (hs : a.On s) {s1 : HDB} (hs1 : a1.On s1)
    (hcell : NodeCell k v nd.cell) (hsize : nd.blk.size.toNat = n) (hneed : nd.need = n) :
    BlockTaken a t L n o (a.rewritten a1 t k nd o) (modify t k fun _ => v) L1 := by
  have hkk := mem_keys_of_kids hk
  have hindex : (a.rewritten a1 t k nd o).index = a.index.put k o := rfl
  refine blockTaken_of_put h.live hindex (fun {k'} => ?_) (hx.relocated h hk hl hs hcell).old hx.fit
    (fun hxm => (hx.sub hxm).imp_left fun heq => ⟨hkk, heq⟩)
    (fun hxm => hx.keep (hxm.imp_left And.right)) ?_ (fun {x} hxm => ?_) ?_
  · rw [keys_modify]
    exact ⟨.inr, fun hor => hor.elim (fun heq => heq ▸ hkk) id⟩
  · rw [Cells.size, field_eq heap_rewritten_self]
    exact hsize
  · exact (size_congr (hx.heap_rewritten_free h hk hl hs1 hxm)).trans (congrFun hx.size x)
  · rw [← hneed]
    exact len_put_cell (relinked_rest.2.2.trans hx.rest.len)

end Exchanged

/-- **A node that outgrows its block** is written to another one.

**Proof sketch.** The old block goes into the free list, where it is too small to be found again.
Other live blocks see only the patches of their links. -/
lemma runs_writeNode_relocate (h : DbInv a t L) (hs : a.On s) (hk : k ∈ kids t q)
    (hc : a.heap (a.loc k) = some c) (hn : NodeCell k v0 c)
    (hbig : c.hdr.size.toNat < (a.revised (a.loc k) c k v).need)
    (hfit : Fits a L (a.revised (a.loc k) c k v).need) :
    ∃ r a' L', Runs a.On (writeNode (a.revised (a.loc k) c k v)) (.ok r) a'.On ∧
      Revised a t L k v r a' L' := by
  have hkk := mem_keys_of_kids hk
  set nd := a.revised (a.loc k) c k v with hnd
  have hblk : nd.prepare.blk.size = c.hdr.size := rfl
  obtain ⟨a1, a2, L2, o, hrun1, hrun2, hx⟩ := runs_exchange nd (b := nd.prepare.blk) h hs
    hkk hc hblk hbig hfit
  obtain ⟨s1, -, hs1⟩ := hrun1 s hs
  obtain ⟨s2, -, hs2⟩ := hrun2 s1 hs1
  set nd1 : HDBNodeData := { nd.prepare with
    blk := { nd.prepare.blk with size := nd.totalSize.toUInt32 } } with hnd1
  have hl : HasLinks a k nd1 := .of_heap hc rfl rfl
  have hsize : (nd.at o).blk.size.toNat = nd.need := size_at hfit
  have hcell : NodeCell k v nd1.cell := by
    have hsmall : (nd.at o).blk.size.toNat < 2 ^ 31 := by
      rw [hsize]
      exact hfit.size
    exact nodeCell hsmall
  have hroom : (a.repointed a2 t k nd1 o).Room o (nd.at o).blk.size.toNat := by
    have ho : o ≠ -1 := fun h1 => absurd (h1 ▸ hx.pos : (0 : Int32) < -1) (by decide)
    have hheap : (a.repointed a2 t k nd1 o).heap o = a2.heap o :=
      h.live.heap_relinked_out hk hl ho hx.fresh
    have hlen : (a.repointed a2 t k nd1 o).len = a2.len := relinked_rest.2.2
    rw [hsize, Cells.Room, hheap, hlen]
    exact hx.room
  have hwrite : Runs a.On (writeNode nd)
      (.ok { (nd.at o).prepare with version := (a.repointed a2 t k nd1 o).version + 1 })
      (a.rewritten a2 t k nd1 o).On := by
    have hpos : ¬ nd.offset ≤ 0 := Int32.not_le.2 (h.live.loc_pos hs hkk)
    have hgt : nd.totalSize > nd.prepare.blk.size.toInt32 := by
      rw [totalSize_gt_iff hfit.size (by rw [hblk]; exact hn.small), hblk]
      exact hbig
    rw [writeNode, if_neg hpos, writeExisting, if_pos hgt]
    refine Runs.bind ?_ (runs_writeBody hroom hsize.ge fun _ => hsize.le)
    exact hrun1.bind (hrun2.bind ((runs_updateOffsets_exchanged h.live hs hk hx hl rfl).bind
      ((runs_writeBlock_pending hroom).bind (.pure _))))
  refine ⟨_, _, L2, hwrite, hx.dbInv_rewritten h hk hl hs hs2 hcell, ⟨nd1.cell, ?_, hcell, ?_⟩, ?_,
    loc_rewritten_ne, ?_⟩
  · rw [loc_rewritten_self, heap_rewritten_self]
  · rw [loc_rewritten_self]
    rfl
  · exact congrArg (· + 1) (relinked_rest.1.trans hx.rest.version)
  · have hneed : nd.need = blockSize + (k.length + 1 + v.data.length) := rfl
    have hold : a.size (a.loc k) = c.hdr.size := field_eq hc
    rw [demand, hold, ← hneed, if_neg (by omega)]
    exact .taken (hx.blockTaken_rewritten h hk hl hs hs2 hcell hsize rfl)

/-- **A node that still fits into its block** is written there. -/
lemma runs_writeNode_stay (h : DbInv a t L) (hs : a.On s) (hk : k ∈ keys t)
    (hc : a.heap (a.loc k) = some c)
    (hn : NodeCell k v0 c) (hfit : (a.revised (a.loc k) c k v).need ≤ c.hdr.size.toNat) :
    ∃ r a' L', Runs a.On (writeNode (a.revised (a.loc k) c k v)) (.ok r) a'.On ∧
      Revised a t L k v r a' L' := by
  have hrun := runs_writeNode_inPlace (o := a.loc k) (a.revised (a.loc k) c k v) rfl hc rfl
    hn.small hfit
  have hcell : NodeCell k v (a.revised (a.loc k) c k v).cell := ⟨rfl, rfl, rfl, rfl, rfl, hn.small⟩
  set a' := { a.put (a.loc k) (a.revised (a.loc k) c k v).cell with
    version := a.version + 1 } with ha'
  have hself : a'.heap (a.loc k) = some (a.revised (a.loc k) c k v).cell := by
    exact Function.update_self _ _ _
  have hother : ∀ {x}, x ≠ a.loc k → a'.heap x = a.heap x := by
    intro x hx
    exact Function.update_of_ne hx _ _
  have hindex : a'.index = a.index := rfl
  have hhdr : a'.hdr = a.hdr := rfl
  have hloc : a'.loc = a.loc := by funext y; rw [loc, loc, hindex]
  refine ⟨_, a', L, hrun, ⟨h.live.update (fun hk' hne => ?_) (fun hr hrk => ?_) ?_ (by rw [hhdr])
    (by rw [hhdr]) hindex, h.free.congr (fun hx => ?_) (by rw [hhdr]), fun {k'} hk' => ?_⟩,
    ⟨_, by rw [hloc]; exact hself, hcell, ?_⟩, by rw [ha'], fun _ => by rw [hloc], ?_⟩
  · exact hother fun heq => hne (h.live.inj hk' hk heq)
  · exact ⟨_, hself, hcell⟩
  · refine ⟨?_, ?_, ?_, ?_, ?_⟩
    · rw [Cells.next, Cells.next, field_eq hself, field_eq hc]; rfl
    · rw [Cells.prev, Cells.prev, field_eq hself, field_eq hc]; rfl
    · rw [Cells.parent, Cells.parent, field_eq hself, field_eq hc]; rfl
    · rw [Cells.first, Cells.first, field_eq hself, field_eq hc]; rfl
    · rw [Cells.last, Cells.last, field_eq hself, field_eq hc]; rfl
  · exact hother (ne_of_mem_of_not_mem hx (h.disjoint hk))
  · rw [keys_modify] at hk'
    rw [hloc]
    exact h.disjoint hk'
  · rfl
  · have hold : a.size (a.loc k) = c.hdr.size := field_eq hc
    rw [demand, hold, if_pos (by exact hfit)]
    refine .same (.of_index h.live (by rw [keys_modify]) hindex (fun {k' d} hk' hd => ?_)
      (fun hx => hother (ne_of_mem_of_not_mem hx (h.disjoint hk))) ?_)
    · by_cases hne : k' = k
      · subst hne
        rw [hc] at hd
        cases hd
        exact ⟨_, hself, rfl⟩
      · exact ⟨d, (hother fun heq => hne (h.live.inj hk' hk heq)).trans hd, rfl⟩
    · refine hs.len_put hc ?_
      rw [length_cell_body]
      exact hfit

/-- **Writing a node that is on file.** -/
theorem runs_writeNode_update (h : DbInv a t L) (hs : a.On s) (hk : k ∈ keys t)
    (hc : a.heap (a.loc k) = some c) (hn : NodeCell k v0 c)
    (hfit : (a.revised (a.loc k) c k v).need ≤ c.hdr.size.toNat ∨
      Fits a L (a.revised (a.loc k) c k v).need) :
    ∃ r a' L', Runs a.On (writeNode (a.revised (a.loc k) c k v)) (.ok r) a'.On ∧
      Revised a t L k v r a' L' := by
  by_cases hle : (a.revised (a.loc k) c k v).need ≤ c.hdr.size.toNat
  · exact runs_writeNode_stay h hs hk hc hn hle
  · obtain ⟨q, hq⟩ := exists_kids hk
    exact runs_writeNode_relocate h hs hq hc hn (by omega) (hfit.resolve_left hle)

/-! ### Another parent -/

/-- The header of a live block after the node with the object `nd`, at `o`, has become the last
child of the node at `op`, behind the child at `tl`. -/
def hdrMoved (nd : HDBNodeData) (o op tl x : Int32) (b : HDBBlock) : HDBBlock :=
  { hdrUnlinked nd x b with
    nextSib := if x = tl then o else (hdrUnlinked nd x b).nextSib
    firstChild := if x = op ∧ b.firstChild = -1 then o else (hdrUnlinked nd x b).firstChild
    lastChild := if x = op then o else (hdrUnlinked nd x b).lastChild }

/-- What follows from a change of the blocks for the links, after `k` has got the parent `p`. -/
lemma movedTo_of_heap (h : LiveInv a t) (hs : a.On s) (hk : k ∈ kids t q) (hp : p ∈ keys t)
    (hpk : p ≠ k) (hqp : q ≠ some p) (hl : HasLinks a k nd) (hindex : a'.index = a.index)
    (hself : ∀ {c}, a.heap (a.loc k) = some c → a'.heap (a.loc k) = some ⟨{ c.hdr with
      nextSib := -1, prevSib := a.tailOf (some p), parent := a.loc p }, c.body⟩)
    (hheap : ∀ {k' c}, k' ∈ keys t → k' ≠ k → a.heap (a.loc k') = some c → a'.heap (a.loc k') =
      some ⟨hdrMoved nd (a.loc k) (a.loc p) (a.tailOf (some p)) (a.loc k') c.hdr, c.body⟩)
    (hhdr : a'.hdr = (a.unlinked nd).hdr) : MovedTo a t k q p a' := by
  have hq := h.isPlace_of_kids hk
  have hkk := mem_keys_of_kids hk
  obtain ⟨c, v, hc, -⟩ := h.heap_loc hkk
  have hc' := hself hc
  have hloc : a'.loc = a.loc := by funext y; rw [loc, loc, hindex]
  have hcell : ∀ {k'}, k' ∈ keys t → k' ≠ k → ∃ c, a.heap (a.loc k') = some c ∧ a'.heap (a.loc k') =
      some ⟨hdrMoved nd (a.loc k) (a.loc p) (a.tailOf (some p)) (a.loc k') c.hdr, c.body⟩ := by
    intro k' hk' hne
    obtain ⟨d, v', hd, -⟩ := h.heap_loc hk'
    exact ⟨d, hd, hheap hk' hne hd⟩
  have hpar : nd.blk.parent = a.locOf q := hl.parent.trans (h.parent hk)
  -- the new previous sibling is not the old one
  have hsep : ∀ {x}, x = a.tailOf (some p) → x = a.prev (a.loc k) → x = -1 := by
    intro x htl hpv
    by_contra h1
    exact hqp (h.eq_of_sibling hs (h.mem_sibs_of_tail (.some hp) htl h1)
      (hpv ▸ h.prev_cases hk)).symm
  have hqk : ∀ {r : Prop}, ¬ (some k = q ∧ r) := by
    rintro r ⟨rfl, -⟩
    exact not_below_of_kids h.forest hk .refl
  have hlocp : ∀ {y}, y ∈ keys t → (a.loc y = a.loc p ↔ some y = some p) := by
    intro y hy
    rw [Option.some.injEq]
    exact ⟨fun heq => h.inj hy hp heq, fun heq => heq ▸ rfl⟩
  refine ⟨hindex, fun {k' d} hk' hd => ?_, ?_, ?_, ?_, fun {k'} hk' hne => ?_, fun hk' hne => ?_,
    fun hk' hne => ?_, fun {q'} hq' => ?_, fun {q'} hq' => ?_⟩
  · by_cases hne : k' = k
    · subst hne
      exact ⟨_, hself hd, ⟨rfl, rfl, rfl, rfl, rfl, rfl⟩⟩
    · exact ⟨_, hheap hk' hne hd, ⟨rfl, rfl, rfl, rfl, rfl, rfl⟩⟩
  · rw [Cells.next, field_eq hc']
  · rw [Cells.prev, field_eq hc']
  · rw [Cells.parent, field_eq hc']
  · obtain ⟨d, hd, hd'⟩ := hcell hk' hne
    have hnew : a'.next (a.loc k') = _ := field_eq hd'
    have hold : a.next (a.loc k') = d.hdr.nextSib := field_eq hd
    rw [hnew, hold]
    simp only [hdrMoved, hdrUnlinked, hl.prev, hl.next]
    by_cases htl : a.loc k' = a.tailOf (some p)
    · rw [if_pos htl, if_neg fun hpv => h.loc_ne_neg_one hs hk' (hsep htl hpv), if_pos htl]
    · rw [if_neg htl, if_neg htl]
  · obtain ⟨d, hd, hd'⟩ := hcell hk' hne
    rw [Cells.prev, field_eq hd', ← hl.next, ← hl.prev, Cells.prev, field_eq hd]
    rfl
  · obtain ⟨d, hd, hd'⟩ := hcell hk' hne
    rw [Cells.parent, field_eq hd', Cells.parent, field_eq hd]
    rfl
  · rcases q' with _ | y
    · change a'.hdr.firstRoot = _
      rw [hhdr, hdr_unlinked, hpar, hl.offset, hl.next]
      simp only [h.locOf_pos hs hq]
      rcases q with _ | p <;> simp [headOf]
    · change a'.first (a'.loc y) = _
      rw [hloc]
      by_cases hyk : y = k
      · subst hyk
        rw [if_neg (by simpa using Ne.symm hpk), if_neg hqk, headOf, Cells.first,
          field_eq hc', Cells.first, field_eq hc]
      · obtain ⟨d, hd, hd'⟩ := hcell (hq' y rfl) hyk
        have hnew : a'.first (a.loc y) = _ := field_eq hd'
        have hold : a.headOf (some y) = d.hdr.firstChild := field_eq hd
        rw [hnew, hold]
        simp only [hdrMoved, hdrUnlinked, hpar, hl.offset, hl.next, ← and_assoc,
          h.loc_eq_locOf hs hq (hq' y rfl), hlocp (hq' y rfl)]
        by_cases hyp : some y = some p
        · simp [hyp, Ne.symm hqp]
        · simp [hyp]
  · rcases q' with _ | y
    · change a'.hdr.lastRoot = _
      rw [hhdr, hdr_unlinked, hpar, hl.offset, hl.prev]
      simp only [h.locOf_pos hs hq]
      rcases q with _ | p <;> simp [tailOf]
    · change a'.last (a'.loc y) = _
      rw [hloc]
      by_cases hyk : y = k
      · subst hyk
        rw [if_neg (by simpa using Ne.symm hpk), if_neg hqk, tailOf, Cells.last,
          field_eq hc', Cells.last, field_eq hc]
      · obtain ⟨d, hd, hd'⟩ := hcell (hq' y rfl) hyk
        have hnew : a'.last (a.loc y) = _ := field_eq hd'
        have hold : a.tailOf (some y) = d.hdr.lastChild := field_eq hd
        rw [hnew, hold]
        simp only [hdrMoved, hdrUnlinked, hpar, hl.offset, hl.prev, ← and_assoc,
          h.loc_eq_locOf hs hq (hq' y rfl), hlocp (hq' y rfl)]

/-- The object of a node, read from a block that only got other links. -/
lemma NodeCell.of_hdr (hn : NodeCell k v c) (hb : b = { c.hdr with
      nextSib := b.nextSib, prevSib := b.prevSib, parent := b.parent, firstChild := b.firstChild
      lastChild := b.lastChild }) : NodeCell k v ⟨b, c.body⟩ :=
  hn.of_same ⟨by rw [hb], by rw [hb], by rw [hb], by rw [hb], by rw [hb], rfl⟩

/-- The state after `addToNewParent`. -/
def Cells.adopted (a : Cells) (nd pnd : HDBNodeData) : Cells :=
  ((a.setNext pnd.blk.lastChild nd.offset).modify nd.offset fun _ =>
    { nd.blk with
      prevSib := pnd.blk.lastChild, nextSib := -1, parent :=
        pnd.offset }).modify pnd.offset fun _ =>
    { pnd.blk with
      lastChild := nd.offset
      firstChild := if pnd.blk.firstChild ≤ 0 then nd.offset else pnd.blk.firstChild }

/-- The cells after adopting a node. -/
lemma Cells.heap_adopted (hc : a.heap x = some c) :
    (a.adopted nd pnd).heap x = some ⟨if x = pnd.offset then { pnd.blk with
        lastChild := nd.offset
        firstChild := if pnd.blk.firstChild ≤ 0 then nd.offset else pnd.blk.firstChild }
      else if x = nd.offset then { nd.blk with
        prevSib := pnd.blk.lastChild, nextSib := -1, parent := pnd.offset }
      else { c.hdr with nextSib := if x = pnd.blk.lastChild then nd.offset else c.hdr.nextSib },
      c.body⟩ :=
  heap_modify_of_heap (heap_modify_of_heap (heap_setNext hc _ _) _ _) _ _

/-- Other cells stay. -/
lemma Cells.heap_adopted_ne (h1 : x ≠ pnd.offset) (h2 : x ≠ nd.offset)
    (h3 : x ≠ pnd.blk.lastChild) : (a.adopted nd pnd).heap x = a.heap x := by
  rw [adopted, heap_modify_ne h1, heap_modify_ne h2, setNext, heap_modify_ne h3]

/-- The objects of a node and of its new parent after `addToNewParent`. -/
def adoptedObjs (nd pnd : HDBNodeData) : HDBNodeData × HDBNodeData :=
  ({ nd with blk := { nd.blk with
      prevSib := pnd.blk.lastChild, nextSib := -1, parent := pnd.offset } },
    { pnd with blk := { pnd.blk with
      lastChild := nd.offset
      firstChild := if pnd.blk.firstChild ≤ 0 then nd.offset else pnd.blk.firstChild } })

/-- Adopting a node. -/
lemma runs_addToNewParent (nd pnd : HDBNodeData) (hc : a.heap nd.offset = some c)
    (hsize : nd.blk.size = c.hdr.size) (hcp : a.heap pnd.offset = some cp)
    (hpsize : pnd.blk.size = cp.hdr.size) (htail : IsLink a pnd.blk.lastChild) :
    Runs a.On (addToNewParent nd pnd) (.ok (adoptedObjs nd pnd)) (a.adopted nd pnd).On := by
  have hc1 := heap_setNext hc pnd.blk.lastChild nd.offset
  have hcp1 := heap_setNext hcp pnd.blk.lastChild nd.offset
  refine Runs.bind (.assume fun s hs => runs_when_setNext htail.heap (htail.heap_none hs))
    ((runs_writeBlock hc1 (by exact hsize)).bind
      ((runs_writeBlock (heap_modify_of_heap hcp1 _ _) ?_).bind (.pure _)))
  by_cases heq : pnd.offset = nd.offset
  · rw [heq, hc, Option.some.injEq] at hcp
    simp only [if_pos heq]
    rw [hpsize, hsize, hcp]
  · simp only [if_neg heq]
    exact hpsize

/-- The object of a node that has left its list. -/
def detached (nd : HDBNodeData) : HDBNodeData :=
  { nd with blk := { nd.blk with parent := -1, nextSib := -1, prevSib := -1 } }

/-- **A node leaves its list**, before it gets another parent. -/
lemma runs_detachFromParent (h : LiveInv a t) (hk : k ∈ kids t q) (hl : HasLinks a k nd) :
    Runs a.On (detachFromParent nd) (.ok (detached nd)) (a.unlinked nd).On :=
  (runs_unlink (h.isLink hk (.inl hl.next)) (h.isLink hk (.inr (.inl hl.prev)))
    (h.isLink hk (.inr (.inr (.inl hl.parent))))).bind (.pure _)

/-- The object of the new parent, as it is read after the node has left its list. -/
def Cells.parentObj (a : Cells) (nd : HDBNodeData) (p : List UInt8) (cp : Cell HDBBlock)
    (vp : NodeVal) : HDBNodeData :=
  (a.unlinked nd).nodeObj (a.loc p) ⟨hdrUnlinked nd (a.loc p) cp.hdr, cp.body⟩ p vp

/-- The state after the node with the object `nd` has become the last child of `p`. -/
def Cells.reparented (a : Cells) (nd : HDBNodeData) (p : List UInt8) (cp : Cell HDBBlock)
    (vp : NodeVal) : Cells :=
  (a.unlinked nd).adopted (detached nd) (a.parentObj nd p cp vp)

section adopt

variable {vp : NodeVal} (h : DbInv a t L) (hs : a.On s) (hk : k ∈ kids t q) (hl : HasLinks a k nd)
  (hp : p ∈ keys t) (hcp : a.heap (a.loc p) = some cp) (hqp : q ≠ some p)

include h hs hk hl hp hcp hqp

/-- The list of the new parent is not the one that the node has left. -/
lemma hdrUnlinked_parent :
    (hdrUnlinked nd (a.loc p) cp.hdr).firstChild = a.headOf (some p) ∧
      (hdrUnlinked nd (a.loc p) cp.hdr).lastChild = a.tailOf (some p) := by
  have hnot : ¬ (0 < nd.blk.parent ∧ a.loc p = nd.blk.parent) := by
    rw [hl.parent, h.live.parent hk, h.live.loc_eq_locOf hs (h.live.isPlace_of_kids hk) hp]
    exact Ne.symm hqp
  have hhead : a.headOf (some p) = cp.hdr.firstChild := field_eq hcp
  have htail : a.tailOf (some p) = cp.hdr.lastChild := field_eq hcp
  rw [hhead, htail]
  exact ⟨if_neg fun hx => hnot ⟨hx.1, hx.2.1⟩, if_neg fun hx => hnot ⟨hx.1, hx.2.1⟩⟩

/-- **The links** after the node has got its new parent. -/
lemma movedTo_reparented (hc : a.heap (a.loc k) = some c) (hblk : nd.blk = c.hdr) (hpk : p ≠ k) :
    MovedTo a t k q p (a.reparented nd p cp vp) := by
  obtain ⟨hfirst, hlast⟩ := hdrUnlinked_parent h hs hk hl hp hcp hqp
  have hkk := mem_keys_of_kids hk
  have hoff : (detached nd).offset = a.loc k := hl.offset
  have hpoff : (a.parentObj nd p cp vp).offset = a.loc p := rfl
  have hpblk : (a.parentObj nd p cp vp).blk = hdrUnlinked nd (a.loc p) cp.hdr := rfl
  have hlocne : a.loc p ≠ a.loc k := fun heq => hpk (h.live.inj hp hkk heq)
  refine movedTo_of_heap h.live hs hk hp hpk hqp hl index_unlinked (fun {d} hd => ?_)
    (fun {k' d} hk' hne hd => ?_) rfl
  · rw [hc] at hd
    cases hd
    rw [reparented, heap_adopted (heap_unlinked hc nd), hpoff, hoff, if_neg (Ne.symm hlocne),
      if_pos rfl, hpblk, hlast, detached, hblk]
  · have hk'ne : a.loc k' ≠ a.loc k := fun heq => hne (h.live.inj hk' hkk heq)
    rw [reparented, heap_adopted (heap_unlinked hd nd), hpoff, hoff, hpblk, hlast, if_neg hk'ne]
    by_cases hkp : k' = p
    · subst hkp
      rw [hcp] at hd
      cases hd
      have hhead : cp.hdr.firstChild = a.headOf (some k') := (field_eq hcp).symm
      rw [hdrMoved, if_neg (h.live.loc_ne_tail hs hp), hfirst, hhead]
      simp only [h.live.head_le_zero hs (.some hp), true_and, if_true]
    · have hk'p : a.loc k' ≠ a.loc p := fun heq => hkp (h.live.inj hk' hp heq)
      simp [hdrMoved, hk'p]

/-- The free blocks are not touched. -/
lemma heap_reparented_free (hx : x ∈ L) : (a.reparented nd p cp vp).heap x = a.heap x := by
  have hlast : (a.parentObj nd p cp vp).blk.lastChild = a.tailOf (some p) :=
    (hdrUnlinked_parent h hs hk hl hp hcp hqp).2
  have hx1 : x ≠ -1 := fun h1 => h.free.neg_one_not_mem hs (h1 ▸ hx)
  have hlive : ∀ {y}, y ∈ keys t → x ≠ a.loc y := fun hy heq => h.disjoint hy (heq ▸ hx)
  have hoff : x ≠ (detached nd).offset := hl.offset ▸ hlive (mem_keys_of_kids hk)
  obtain ⟨hnext, hprev, hparent, -⟩ := h.live.ne_of_not_live hk hx1 fun hy _ => (hlive hy).symm
  rw [reparented, heap_adopted_ne (hlive hp) hoff,
    heap_unlinked_ne (hl.next ▸ hnext) (hl.prev ▸ hprev) (hl.parent ▸ hparent)]
  exact hlast ▸ h.live.ne_tail (.some hp) hx1 fun hy => (hlive hy).symm

/-- **The invariant** after the node has got its new parent. -/
lemma dbInv_reparented (hout : ¬ Below t k p)
    (hmoved : MovedTo a t k q p (a.reparented nd p cp vp)) :
    DbInv (a.reparented nd p cp vp) (move t k (some p)) L ∧
      SameBlocks a t L (a.reparented nd p cp vp) (move t k (some p)) L := by
  have hkk := mem_keys_of_kids hk
  have hfree : ∀ {x}, x ∈ L → (a.reparented nd p cp vp).heap x = a.heap x :=
    heap_reparented_free h hs hk hl hp hcp hqp
  have hkeys : ∀ {k'}, k' ∈ keys (move t k (some p)) ↔ k' ∈ keys t := by
    intro k'
    rw [keys_move h.live.forest.nodup hkk, List.mem_append]
    by_cases hk' : k' = k <;> simp [hk', hkk]
  refine ⟨⟨hmoved.liveInv h.live hs hk hp hout hqp, h.free.congr hfree ?_, fun hk' => ?_⟩,
    .of_index h.live hkeys hmoved.index (fun hk' hd => ?_) hfree len_unlinked⟩
  · change (a.unlinked nd).hdr.firstFree = _
    rw [hdr_unlinked]
    split <;> rfl
  · rw [loc, hmoved.index]
    exact h.disjoint (hkeys.1 hk')
  · obtain ⟨c', hc', hsame⟩ := hmoved.old hk' hd
    exact ⟨c', hc', hsame.size⟩

end adopt

/-- **A node becomes the last child** of another node, which is not its parent yet: it leaves its
list, the object of the new parent, which has been read before the last write, is read again, and
both are written. -/
lemma runs_adopt (pnd : HDBNodeData) (h : DbInv a t L) (hs : a.On s) (hk : k ∈ kids t q)
    (hc : a.heap (a.loc k) = some c) (hp : p ∈ keys t) (hout : ¬ Below t k p)
    (hoff : pnd.offset = a.loc p)
    (hkey : pnd.key = p) (hver : pnd.version ≠ a.version) (hqp : q ≠ some p) :
    ∃ (a1 : Cells) (pnd1 : HDBNodeData) (r : HDBNodeData × HDBNodeData) (a' : Cells),
      Runs a.On (detachFromParent (a.nodeObj (a.loc k) c k v))
        (.ok (detached (a.nodeObj (a.loc k) c k v))) a1.On ∧
      Runs a1.On (reload pnd) (.ok (some pnd1)) a1.On ∧
      Runs a1.On (addToNewParent (detached (a.nodeObj (a.loc k) c k v)) pnd1) (.ok r) a'.On ∧
      DbInv a' (move t k (some p)) L ∧ SameBlocks a t L a' (move t k (some p)) L := by
  have hl : HasLinks a k (a.nodeObj (a.loc k) c k v) := .of_heap hc rfl rfl
  set nd := a.nodeObj (a.loc k) c k v with hnd
  obtain ⟨cp, vp, hcp, hnp⟩ := h.live.heap_loc hp
  have hcp1 := heap_unlinked hcp nd
  have hreload : Runs (a.unlinked nd).On (reload pnd) (.ok (some (a.parentObj nd p cp vp)))
      (a.unlinked nd).On := by
    have hnp1 : NodeCell p vp ⟨hdrUnlinked nd (a.loc p) cp.hdr, cp.body⟩ := hnp.of_hdr rfl
    have hnul : (0 : UInt8) ∉ pnd.key := by rw [hkey]; exact (h.live.key hp).2
    have hrel :=
      runs_reload_stale hoff hcp1 (by rw [hkey]; exact hnp1) hnul (by rwa [version_unlinked])
    rwa [hkey] at hrel
  have htail : IsLink (a.unlinked nd) (a.parentObj nd p cp vp).blk.lastChild := by
    have hlast : (a.parentObj nd p cp vp).blk.lastChild = a.tailOf (some p) :=
      (hdrUnlinked_parent h hs hk hl hp hcp hqp).2
    rw [hlast]
    exact h.live.isLink_tail (.some hp) fun _ hd => ⟨_, heap_unlinked hd nd⟩
  have hadopt := runs_addToNewParent (detached nd) (a.parentObj nd p cp vp)
    (heap_unlinked hc nd) rfl hcp1 rfl htail
  have hmoved : MovedTo a t k q p (a.reparented nd p cp vp) :=
    movedTo_reparented h hs hk hl hp hcp hqp hc rfl fun heq => hout (heq ▸ .refl)
  exact ⟨a.unlinked nd, _, _, _, runs_detachFromParent h.live hk hl, hreload, hadopt,
    dbInv_reparented h hs hk hl hp hcp hqp hout hmoved⟩

/-- **`updateParent`**: a node becomes the last child of another node, unless it is a child of that
node already. -/
theorem runs_updateParent (pnd : HDBNodeData) (h : DbInv a t L) (hs : a.On s) (hk : k ∈ kids t q)
    (hc : a.heap (a.loc k) = some c) (hp : p ∈ keys t) (hout : ¬ Below t k p)
    (hoff : pnd.offset = a.loc p) (hkey : pnd.key = p) (hver : pnd.version ≠ a.version) :
    ∃ r a', Runs a.On (updateParent (a.nodeObj (a.loc k) c k v) pnd) (.ok r) a'.On ∧
      DbInv a' (if q = some p then t else move t k (some p)) L ∧
      SameBlocks a t L a' (if q = some p then t else move t k (some p)) L := by
  have hq := h.live.isPlace_of_kids hk
  have hl : HasLinks a k (a.nodeObj (a.loc k) c k v) := .of_heap hc rfl rfl
  have hpar : c.hdr.parent = a.locOf q := hl.parent.trans (h.live.parent hk)
  rw [updateParent]
  by_cases hqp : q = some p
  · rw [if_pos hqp, if_pos (by rw [hoff]; exact hpar.trans (by rw [hqp]; rfl))]
    exact ⟨_, a, .pure _, h, .refl⟩
  · have hne : ¬ c.hdr.parent = pnd.offset := by
      rw [hpar, hoff]
      intro heq
      exact hqp ((h.live.loc_eq_locOf hs hq hp).1 ⟨heq ▸ h.live.loc_pos hs hp, heq.symm⟩).symm
    rw [if_neg (by exact hne), if_neg hqp]
    obtain ⟨a1, pnd1, r, a', hdetach, hreload, hadopt, hinv, hblocks⟩ :=
      runs_adopt pnd h hs hk hc hp hout hoff hkey hver hqp
    exact ⟨_, a', hdetach.bind (hreload.bind (hadopt.bind (.pure _))), hinv, hblocks⟩

/-! ### The operations of a handle -/

section handle

variable {r : Row (List UInt8) NodeVal} {f : UInt32} {dataLen : Int32} {data : Option (List UInt8)}
  (h : DbInv a t L) (hs : a.On s) (hr : r ∈ t) (hc : a.heap (a.loc r.key) = some c)
  (hn : NodeCell r.key r.val c)

/-- The object of a row that has just been read. -/
def Cells.rowObj (a : Cells) (c : Cell HDBBlock) (r : Row (List UInt8) NodeVal) : HDBNodeData :=
  a.nodeObj (a.loc r.key) c r.key r.val

include h hr in
/-- There is one row for a key, so its value does not have to be looked up. -/
lemma DbInv.modify_const (g : NodeVal → NodeVal) :
    (modify t r.key fun _ => g r.val) = modify t r.key g :=
  modify_congr fun r' hr' hk => by rw [row_unique h.live.forest.nodup hr' hr hk]

include h hs hr hc hn in
/-- **Flags are turned on or off**: the size of the node stays the same, so it stays in its
block. -/
theorem runs_turnFlags (g : UInt32 → UInt32) : ∃ a' L',
    Runs a.On (onReloaded (some (a.rowObj c r)) () fun nd => do
      let _ ← setFlags nd (g nd.blk.flags)) (.ok ()) a'.On ∧
    DbInv a' (modify t r.key fun v => { v with flags := g v.flags }) L' ∧
    SameBlocks a t L a' (modify t r.key fun v => { v with flags := g v.flags }) L' := by
  have hk : r.key ∈ keys t := mem_keys.2 ⟨r, hr, rfl⟩
  have hold : (a.rowObj c r).blk.flags = r.val.flags := hn.flags
  rw [← h.modify_const hr fun v => { v with flags := g v.flags }]
  suffices hset : ∃ nd a' L', Runs a.On (setFlags (a.rowObj c r) (g r.val.flags)) (.ok nd) a'.On ∧
      DbInv a' (modify t r.key fun _ => { r.val with flags := g r.val.flags }) L' ∧
      SameBlocks a t L a' (modify t r.key fun _ => { r.val with flags := g r.val.flags }) L' by
    obtain ⟨nd, a', L', hrun, hinv⟩ := hset
    rw [← hold] at hrun
    exact ⟨a', L', (runs_reload (.inr rfl)).bind (hrun.bind (.pure _)), hinv⟩
  generalize g r.val.flags = f
  rw [setFlags]
  by_cases hf : f = r.val.flags
  · have hid : (modify t r.key fun _ => { r.val with flags := f }) = t := by
      rw [hf, modify_id fun r' hr' hk => by rw [row_unique h.live.forest.nodup hr' hr hk]]
    rw [hid, hold, if_neg (not_not.2 hf)]
    exact ⟨a.rowObj c r, a, L, .pure _, h, .refl⟩
  · have hfit := hs.fits hc
    rw [hn.length_body] at hfit
    obtain ⟨nd, a', L', hrun, hrev⟩ :=
      runs_writeNode_update (v := { r.val with flags := f }) h hs hk
      hc hn (.inl hfit)
    have hblocks := hrev.blocks
    have hsize : a.size (a.loc r.key) = c.hdr.size := field_eq hc
    rw [demand, hsize, if_pos hfit] at hblocks
    refine ⟨nd, a', L', ?_, hrev.inv, by cases hblocks; assumption⟩
    rw [hold, if_pos hf, if_pos (by exact h.live.loc_pos hs hk)]
    exact hrun

/-- The number of bytes that a node needs after its data have been replaced. -/
def needAfter (r : Row (List UInt8) NodeVal) (dataLen : Int32) (data : Option (List UInt8)) : ℕ :=
  blockSize + (r.key.length + 1 + (updatedBuffer r.val.data dataLen data).length)

include h hs hr hc hn in
/-- **Other data**, for a node that fits into its block or gets another one. -/
lemma runs_writeNode_data
    (hfit : needAfter r dataLen data ≤ c.hdr.size.toNat ∨ Fits a L (needAfter r dataLen data)) :
    ∃ nd a' L', Runs a.On (writeNode { a.rowObj c r with
        bfr := updatedBuffer r.val.data dataLen data }) (.ok nd) a'.On ∧
      Revised a t L r.key { r.val with data := updatedBuffer r.val.data dataLen data }
        nd a' L' := by
  have hblk : { c.hdr with flags := r.val.flags } = c.hdr := by rw [← hn.flags]
  obtain ⟨nd, a', L', hrun, hrev⟩ := runs_writeNode_update
    (v := { r.val with data := updatedBuffer r.val.data dataLen data }) h hs
    (mem_keys.2 ⟨r, hr, rfl⟩) hc hn hfit
  refine ⟨nd, a', L', ?_, hrev⟩
  rw [revised] at hrun
  simp only [hblk] at hrun
  exact hrun

include h hs hr hc hn in
/-- **`updateNode`** without a new parent. -/
theorem runs_updateNode
    (hfit : needAfter r dataLen data ≤ c.hdr.size.toNat ∨ Fits a L (needAfter r dataLen data)) :
    ∃ a' L', Runs a.On (updateNode (some (a.rowObj c r)) none dataLen data) (.ok true) a'.On ∧
      DbInv a' (modify t r.key fun v => { v with data := updatedBuffer v.data dataLen data }) L' ∧
      Balance a t L (a.demand r.key (needAfter r dataLen data)) a'
        (modify t r.key fun v => { v with data := updatedBuffer v.data dataLen data }) L' := by
  obtain ⟨nd, a', L', hrun, hrev⟩ := runs_writeNode_data h hs hr hc hn hfit
  have hpos := h.live.loc_pos hs (mem_keys.2 ⟨r, hr, rfl⟩)
  rw [← h.modify_const hr fun v => { v with data := updatedBuffer v.data dataLen data }]
  refine ⟨a', L', ?_, hrev.inv, hrev.blocks⟩
  rw [updateNode, if_pos (by exact hpos)]
  refine (runs_reload (.inr rfl)).bind (Runs.map _ (v := some nd) ?_)
  refine (runs_reload (.inr rfl)).bind ?_
  dsimp only
  rw [if_pos (by exact hpos)]
  exact hrun.bind (.pure _)

include h hs hr hc hn in
/-- **`updateNode`** with a new parent outside of the node's own subtree. -/
theorem runs_updateNode_parent {rp : Row (List UInt8) NodeVal} (hrp : rp ∈ t)
    (hout : ¬ Below t r.key rp.key)
    (hfit : needAfter r dataLen data ≤ c.hdr.size.toNat ∨ Fits a L (needAfter r dataLen data)) :
    ∃ a' L', Runs a.On (updateNode (some (a.rowObj c r)) (some (a.rowObj cp rp)) dataLen
        data) (.ok true) a'.On ∧
      DbInv a' (adopt (modify t r.key fun v => { v with data := updatedBuffer v.data dataLen data })
        r.key rp.key) L' ∧
      Balance a t L (a.demand r.key (needAfter r dataLen data)) a'
        (adopt (modify t r.key fun v => { v with data := updatedBuffer v.data dataLen data })
          r.key rp.key) L' := by
  have hpos := h.live.loc_pos hs (mem_keys.2 ⟨r, hr, rfl⟩)
  have hpk : rp.key ≠ r.key := fun heq => hout (heq ▸ .refl)
  obtain ⟨nd, a1, L1, hrun, hrev⟩ := runs_writeNode_data h hs hr hc hn hfit
  obtain ⟨s1, -, hs1⟩ := hrun s hs
  obtain ⟨c1, hc1, -, hnd⟩ := hrev.obj
  rw [← h.modify_const hr fun v => { v with data := updatedBuffer v.data dataLen data }]
  set t1 := modify t r.key fun _ =>
    { r.val with data := updatedBuffer r.val.data dataLen data } with ht1
  have hkids : ∀ q, kids t1 q = kids t q := fun q => by rw [ht1, kids_modify]
  have hinv : DbInv a1 t1 L1 := ht1 ▸ hrev.inv
  have hk1 : r.key ∈ kids t1 r.parent := by rw [hkids]; exact kids_of_mem hr
  have hp1 : rp.key ∈ keys t1 := by rw [ht1, keys_modify]; exact mem_keys.2 ⟨rp, hrp, rfl⟩
  have hver : a.version ≠ a1.version := by
    rw [hrev.version]
    simp
  obtain ⟨nd', a', hrun', hinv', hblocks⟩ := runs_updateParent (a.rowObj cp rp) hinv hs1 hk1 hc1
    hp1 (fun hb => hout (hb.congr fun q => (hkids q).symm)) (hrev.loc hpk).symm rfl hver
  rw [← adopt_eq hinv.live.forest.nodup hk1] at hinv' hblocks
  refine ⟨a', L1, ?_, ht1 ▸ hinv', hrev.blocks.trans (ht1 ▸ hblocks)⟩
  rw [updateNode, if_pos (by exact hpos)]
  refine (runs_reload (.inr rfl)).bind (Runs.map _ (v := some nd') ?_)
  refine (runs_reload (.inr rfl)).bind ?_
  dsimp only
  rw [if_pos (by exact hpos)]
  refine hrun.bind (Runs.map _ ?_)
  rw [hnd]
  exact hrun'

end handle

end OpenWbem.Hdb
