import OpenWbem.Hdb.Balance
import OpenWbem.Hdb.NodeFile

/-!
# Adding nodes

A new node gets a block from the free list or at the end of the file. Its links are written with
its header; then the last of its siblings, and its parent or the header block, are made to point to
it.

## Main definitions

* `Fits` — a block of a given size can be allocated.

## Main results

* `runs_addRootNode`, `runs_addChild` — a new node keeps the invariant of the database.
-/

namespace OpenWbem.Hdb

open Bytes Extents Prog Cells Hierarchy LiveInv HDBHandle HDBNodeData Runs Function
open DLinked (firstOf lastOf)

variable {a a' a1 : Cells} {s : HDB} {t : NodeTable} {L L' L1 : List Int32} {o x : Int32}
  {c : Cell HDBBlock} {b : HDBBlock} {k p : List UInt8} {q : Option (List UInt8)} {v : NodeVal}
  {nd : HDBNodeData} {n : ℕ}

/-! ### Allocation -/

/-- A block of `n` bytes can be allocated. Sizes are signed 32-bit numbers, and so are offsets: if
no free block is large enough, the end of the file must be within reach. -/
structure Fits (a : Cells) (L : List Int32) (n : ℕ) : Prop where
  size : n < 2 ^ 31
  place : (∃ x ∈ L, n ≤ (a.size x).toNat) ∨ a.len < 2 ^ 31

/-- Finding a block for a node. -/
lemma runs_findBlock_need (hL : FreeInv a L) (hs : a.On s) (hfit : Fits a L nd.need) :
    ∃ o a' L', Runs a.On (findBlock nd.totalSize) (.ok o) a'.On ∧
    Allocated a L nd.need a' L' o := by
  have hlt := hfit.size
  have hneed : nd.totalSize.toUInt32.toNat = nd.need := by
    rw [nd.toUInt32_totalSize, UInt32.toNat_ofNat_of_lt' (by simp only [UInt32.size]; omega)]
  have hplace : (∃ x ∈ L, nd.totalSize.toUInt32 ≤ a.size x) ∨ a.len < 2 ^ 31 := by
    simp only [UInt32.le_iff_toNat_le, hneed]
    exact hfit.place
  obtain ⟨o, a', L', hrun, hal⟩ := runs_findBlock hL hs hplace
  exact ⟨o, a', L', hrun, hneed ▸ hal⟩

/-- A block that has been allocated does not belong to a node. -/
lemma DbInv.loc_ne (h : DbInv a t L) (hsource : o ∈ L ∨ a.heap o = none) (hk : k ∈ keys t) :
    a.loc k ≠ o := by
  rintro rfl
  rcases hsource with hL | hnone
  · exact h.disjoint hk hL
  · obtain ⟨c, v, hc, -⟩ := h.live.heap_loc hk
    rw [hc] at hnone
    cases hnone

/-- The node object that a new block has been found for. -/
def HDBNodeData.at (nd : HDBNodeData) (o : Int32) : HDBNodeData :=
  { nd with blk := { nd.blk with size := nd.totalSize.toUInt32 }, offset := o }

/-- The size of its block. -/
lemma HDBNodeData.size_at (hfit : Fits a L nd.need) : (nd.at o).blk.size.toNat = nd.need := by
  have hlt := hfit.size
  change nd.totalSize.toUInt32.toNat = _
  rw [nd.toUInt32_totalSize, UInt32.toNat_ofNat_of_lt' (by simp only [UInt32.size]; omega)]

/-- The length of the file after a record has been written. -/
lemma len_put_cell (hlen : a1.len = a.len) :
    (a1.put o nd.cell).len = max a.len (o.toInt.toNat + nd.need) := by
  rw [put, hlen, ← nd.length_cell_body, blockLayout_pos, Nat.add_assoc]

/-- The object `nd` of a new node has been written, to a block at its offset that was allocated for
it. -/
structure Placed (a : Cells) (L : List Int32) (nd : HDBNodeData) (a' : Cells) (L' : List Int32) :
    Prop where
  self : a'.heap nd.offset = some nd.cell
  frame : ∀ {x}, x ∉ L → x ≠ nd.offset → a'.heap x = a.heap x
  free : FreeInv a' L'
  pos : 0 < nd.offset
  not_mem : nd.offset ∉ L'
  sub : ∀ {x}, x ∈ L' → x ∈ L
  keep : ∀ {x}, x ∈ L → x = nd.offset ∨ x ∈ L'
  source : nd.offset ∈ L ∨ a.heap nd.offset = none
  fit : BestFit a L nd.need nd.offset
  size : ∀ {x}, x ≠ nd.offset → a'.size x = a.size x
  len : a'.len = max a.len (nd.offset.toInt.toNat + nd.need)
  index : a'.index = a.index.put nd.key nd.offset
  hdr : a'.hdr = { a.hdr with firstFree := a'.hdr.firstFree }

/-- **Writing a new node that has a parent.** -/
lemma runs_writeNode_new (nd : HDBNodeData) (hL : FreeInv a L) (hs : a.On s)
    (hfit : Fits a L nd.need) (ho : nd.offset ≤ 0) (hp : 0 < nd.blk.parent) :
    ∃ o a' L', Runs a.On (writeNode nd) (.ok { (nd.at o).prepare with version := a.version + 1 })
      a'.On ∧ Placed a L (nd.at o) a' L' := by
  obtain ⟨o, a1, L1, hrun, hal⟩ := runs_findBlock_need hL hs hfit
  have hsize := size_at (o := o) hfit
  have hroom : a1.Room o (nd.at o).blk.size.toNat := by rw [hsize]; exact hal.room
  refine ⟨o, { { a1 with index := a1.index.put nd.key o }.put o (nd.at o).cell with
    version := a1.version + 1 }, L1, ?_, update_self o _ _, fun hx hne => ?_, ?_, hal.pos,
    hal.not_mem, hal.sub, hal.keep, hal.source, hal.fit, fun {x} hne => ?_, ?_, ?_, hal.rest.hdr⟩
  · rw [writeNode, if_pos ho, ← hal.rest.version]
    refine bind (hrun.bind ?_) (runs_writeBody
      (a := { a1 with index := a1.index.put nd.key o }) hroom hsize.ge fun _ => hsize.le)
    rw [if_neg (by exact Int32.not_le.2 hp)]
    exact (runs_writeBlock_pending hroom).bind ((runs_addIndexEntry_pending _ _).bind (.pure _))
  · exact (update_of_ne hne _ _).trans (hal.frame hx)
  · refine hal.free.congr (fun hx => update_of_ne ?_ _ _) rfl
    exact ne_of_mem_of_not_mem hx hal.not_mem
  · exact (size_congr (update_of_ne hne _ _)).trans (congrFun hal.size x)
  · exact len_put_cell hal.rest.len
  · rw [hal.rest.index]
    rfl

/-! ### A node as the last child -/

/-- The object of a node, written again with other links, leaves the rest of its block alone. -/
lemma cell_nodeObj (hn : NodeCell k v c) (hb : b = { c.hdr with
      nextSib := b.nextSib, prevSib := b.prevSib, parent := b.parent, firstChild := b.firstChild
      lastChild := b.lastChild }) :
    ({ a.nodeObj o c k v with blk := b } : HDBNodeData).cell = ⟨b, c.body⟩ := by
  have h1 : b.keyLength = c.hdr.keyLength := by rw [hb]
  have h2 : b.dataLength = c.hdr.dataLength := by rw [hb]
  have h3 : b.isFree = c.hdr.isFree := by rw [hb]
  rw [HDBNodeData.cell, hn.body]
  congr 1
  change ({ b with
    keyLength := UInt32.ofNat (k.length + 1), dataLength :=
      UInt32.ofNat (v.data.length + k.length + 1)
    isFree := false } : HDBBlock) = b
  rw [← hn.keyLength, ← hn.dataLength, ← hn.live, ← h1, ← h2, ← h3]

/-- The header of a live block after a node at `o` has been attached as the last child of `q`. -/
def hdrLinked (a : Cells) (q : Option (List UInt8)) (o x : Int32) (b : HDBBlock) : HDBBlock :=
  { b with
    nextSib := if x = a.tailOf q then o else b.nextSib
    firstChild := if q ≠ none ∧ x = a.locOf q ∧ b.firstChild = -1 then o else b.firstChild
    lastChild := if q ≠ none ∧ x = a.locOf q then o else b.lastChild }

/-- **Attaching a node**, in terms of the blocks. -/
lemma leafAdded_of_heap (h : LiveInv a t) (hk : k ∉ keys t) (hq : IsPlace t q)
    (hindex : a'.index = a.index.put k o) (hfresh : ∀ {k'}, k' ∈ keys t → a.loc k' ≠ o)
    (hnew : ∃ c, a'.heap o = some c ∧ NodeCell k v c ∧ c.hdr.nextSib = -1 ∧
      c.hdr.prevSib = a.tailOf q ∧ c.hdr.parent = a.locOf q ∧ c.hdr.firstChild = -1 ∧
      c.hdr.lastChild = -1)
    (hheap : ∀ {k' c}, k' ∈ keys t → a.heap (a.loc k') = some c →
      a'.heap (a.loc k') = some ⟨hdrLinked a q o (a.loc k') c.hdr, c.body⟩)
    (hfirst : a'.hdr.firstRoot =
      if q = none ∧ a.hdr.firstRoot = -1 then o else a.hdr.firstRoot)
    (hlast : a'.hdr.lastRoot = if q = none then o else a.hdr.lastRoot) :
    LeafAdded a t k q v a' o := by
  have hcell : ∀ {k'}, k' ∈ keys t → ∃ c, a.heap (a.loc k') = some c ∧
      a'.heap (a.loc k') = some ⟨hdrLinked a q o (a.loc k') c.hdr, c.body⟩ := by
    intro k' hk'
    obtain ⟨c, v', hc, -⟩ := h.heap_loc hk'
    exact ⟨c, hc, hheap hk' hc⟩
  have hloc : ∀ {k'}, k' ∈ keys t → a'.loc k' = a.loc k' := fun {k'} hk' =>
    (loc_of_put hindex k').trans (if_neg (ne_of_mem_of_not_mem hk' hk))
  refine ⟨hindex, hfresh, hnew, fun hk' hc => ⟨_, hheap hk' hc, ⟨rfl, rfl, rfl, rfl, rfl, rfl⟩⟩,
    fun hk' => ?_, fun hk' => ?_, fun hk' => ?_, fun {q'} hq' => ?_, fun {q'} hq' => ?_⟩
  · obtain ⟨c, hc, hc'⟩ := hcell hk'
    rw [next, field_eq hc', next, field_eq hc]
    rfl
  · obtain ⟨c, hc, hc'⟩ := hcell hk'
    rw [prev, field_eq hc', prev, field_eq hc]
    rfl
  · obtain ⟨c, hc, hc'⟩ := hcell hk'
    rw [Cells.parent, field_eq hc', Cells.parent, field_eq hc]
    rfl
  · rcases q' with _ | p
    · exact hfirst.trans (by simp only [eq_comm (a := q)]; rfl)
    · have hp := hq' p rfl
      obtain ⟨c, hc, hc'⟩ := hcell hp
      change a'.first (a'.loc p) = if _ then o else a.first (a.loc p)
      rw [hloc hp, first, field_eq hc', headOf, first, field_eq hc]
      simp only [hdrLinked, ← and_assoc, h.ne_none_and_loc hq hp]
  · rcases q' with _ | p
    · exact hlast.trans (by simp only [eq_comm]; rfl)
    · have hp := hq' p rfl
      obtain ⟨c, hc, hc'⟩ := hcell hp
      change a'.last (a'.loc p) = if _ then o else a.last (a.loc p)
      rw [hloc hp, last, field_eq hc', last, field_eq hc]
      simp only [hdrLinked, h.ne_none_and_loc hq hp]

/-- The invariant after a node has been attached in an allocated block. -/
lemma LeafAdded.dbInv (hc : LeafAdded a t k q v a' o) (h : DbInv a t L) (hs : a.On s)
    (hk : k ∉ keys t) (hkey : k ≠ [] ∧ (0 : UInt8) ∉ k) (hq : IsPlace t q) (hfree : FreeInv a' L')
    (ho : o ∉ L') (hsub : ∀ {x}, x ∈ L' → x ∈ L) : DbInv a' (add t k q v) L' := by
  refine ⟨hc.liveInv h.live hs hk hkey hq, hfree, fun {k'} hk' => ?_⟩
  rw [loc_of_put hc.index]
  rw [keys_add, List.mem_append, List.mem_singleton] at hk'
  split
  · exact ho
  · next hne => exact fun hx => h.disjoint (hk'.resolve_right hne) (hsub hx)

variable {flags : UInt32} {cp : Cell HDBBlock} {vp : NodeVal}

/-- The state after a block at `o` has been linked as the last child of the node at `x`, whose block
is `cp`. -/
def Cells.linkChild (a : Cells) (x : Int32) (cp : Cell HDBBlock) (o : Int32) : Cells :=
  { (a.setNext cp.hdr.lastChild o).put x ⟨{ cp.hdr with
      lastChild := o, firstChild := if cp.hdr.firstChild ≤ 0 then o else cp.hdr.firstChild },
      cp.body⟩ with
    version := a.version + 1 }

/-- Other blocks than that of the parent. -/
lemma heap_linkChild_ne {y : Int32} (hy : y ≠ x) :
    (a.linkChild x cp o).heap y = (a.setNext cp.hdr.lastChild o).heap y :=
  update_of_ne hy _ _

/-- The blocks that belong to no node are not touched when a node is linked. -/
lemma DbInv.heap_linkChild (h : DbInv a t L) (hp : p ∈ keys t) (hcp : a.heap (a.loc p) = some cp)
    (hx : x ≠ -1) (hlive : ∀ {k'}, k' ∈ keys t → a.loc k' ≠ x) :
    (a1.linkChild (a.loc p) cp o).heap x = a1.heap x := by
  have hlast : cp.hdr.lastChild = a.tailOf (some p) := by rw [tailOf, last, field_eq hcp]
  rw [heap_linkChild_ne (hlive hp).symm]
  exact heap_modify_ne (hlast ▸ h.live.ne_tail (.some hp) hx hlive)

namespace Placed

variable (hpl : Placed a L nd a1 L1) (h : DbInv a t L) (hp : p ∈ keys t)
  (hcp : a.heap (a.loc p) = some cp)

include hpl h

/-- The blocks of the other nodes are as they were. -/
lemma heap_loc (hk : k ∈ keys t) : a1.heap (a.loc k) = a.heap (a.loc k) :=
  hpl.frame (h.disjoint hk) (h.loc_ne hpl.source hk)

include hp hcp

/-- The parent is not its own last child. -/
lemma heap_setNext_parent (hs : a.On s) :
    (a1.setNext cp.hdr.lastChild o).heap (a.loc p) = some cp := by
  have hlast : cp.hdr.lastChild = a.tailOf (some p) := by rw [tailOf, last, field_eq hcp]
  rw [heap_setNext ((hpl.heap_loc h hp).trans hcp), if_neg (hlast ▸ h.live.loc_ne_tail hs hp)]

/-- The block of the new node is not touched when it is linked. -/
lemma heap_linkChild_self :
    (a1.linkChild (a.loc p) cp nd.offset).heap nd.offset = some nd.cell := by
  have ho : nd.offset ≠ -1 := fun h1 => absurd (h1 ▸ hpl.pos : (0 : Int32) < -1) (by decide)
  exact (h.heap_linkChild hp hcp ho (h.loc_ne hpl.source)).trans hpl.self

/-- The last of the other children, and then the parent, are made to point to the new node. -/
lemma runs_linkChild (hs : a.On s) (hnp : NodeCell p vp cp) :
    Runs a1.On (when (cp.hdr.lastChild > 0) <|
      updateBlock cp.hdr.lastChild fun node => { node with nextSib := o }) (.ok ())
      (a1.setNext cp.hdr.lastChild o).On ∧
    ∃ r, Runs (a1.setNext cp.hdr.lastChild o).On (writeNode { a.nodeObj (a.loc p) cp p vp with
      blk := { cp.hdr with
        lastChild := o
        firstChild := if cp.hdr.firstChild ≤ 0 then o else cp.hdr.firstChild } })
      (.ok r) (a1.linkChild (a.loc p) cp o).On := by
  have hlast : cp.hdr.lastChild = a.tailOf (some p) := by rw [tailOf, last, field_eq hcp]
  have htail : IsLink a1 cp.hdr.lastChild :=
    hlast ▸ h.live.isLink_tail (.some hp) fun hk hc => ⟨_, (hpl.heap_loc h hk).trans hc⟩
  have hneed : (a.nodeObj (a.loc p) cp p vp).need ≤ cp.hdr.size.toNat := by
    have hfits := hs.fits hcp
    rwa [hnp.length_body] at hfits
  have hwrite := runs_writeNode_inPlace { a.nodeObj (a.loc p) cp p vp with
    blk := { cp.hdr with
      lastChild := o
      firstChild := if cp.hdr.firstChild ≤ 0 then o else cp.hdr.firstChild } } rfl
    (hpl.heap_setNext_parent (o := o) h hp hcp hs) rfl hnp.small hneed
  rw [cell_nodeObj hnp rfl] at hwrite
  exact ⟨.assume fun s hs => runs_when_setNext htail.heap (htail.heap_none hs), _, hwrite⟩

/-- The new node is the last child of the parent. -/
lemma leafAdded_linkChild (hs : a.On s) (hk : k ∉ keys t) (hkey : nd.key = k)
    (hcell : NodeCell k v nd.cell) (hnext : nd.blk.nextSib = -1)
    (hprev : nd.blk.prevSib = cp.hdr.lastChild) (hparent : nd.blk.parent = a.loc p)
    (hfirst : nd.blk.firstChild = -1) (hlast : nd.blk.lastChild = -1) :
    LeafAdded a t k (some p) v (a1.linkChild (a.loc p) cp nd.offset) nd.offset := by
  have htail : cp.hdr.lastChild = a.tailOf (some p) := by rw [tailOf, last, field_eq hcp]
  have hhead : cp.hdr.firstChild = a.headOf (some p) := by rw [headOf, first, field_eq hcp]
  have hne : a.loc p ≠ a.tailOf (some p) := h.live.loc_ne_tail hs hp
  refine leafAdded_of_heap h.live hk (.some hp) (hkey ▸ hpl.index) (h.loc_ne hpl.source)
    ⟨_, hpl.heap_linkChild_self h hp hcp, hcell, hnext, hprev.trans htail, hparent, hfirst, hlast⟩
    ?_ ?_ ?_
  · intro k' c hk' hc
    by_cases hkp : k' = p
    · subst hkp
      obtain rfl : c = cp := Option.some.inj (hc.symm.trans hcp)
      have hzero : (if c.hdr.firstChild ≤ 0 then nd.offset else c.hdr.firstChild) =
          if c.hdr.firstChild = -1 then nd.offset else c.hdr.firstChild := by
        rw [hhead]
        simp only [h.live.head_le_zero hs (.some hp)]
      refine (update_self _ _ _).trans ?_
      rw [hzero, hdrLinked, if_neg hne]
      simp [locOf]
    · have hlocne : a.loc k' ≠ a.loc p := fun heq => hkp (h.live.inj hk' hp heq)
      rw [heap_linkChild_ne hlocne, heap_setNext ((hpl.heap_loc h hk').trans hc), htail]
      simp only [hdrLinked, locOf, hlocne, false_and, and_false, if_false]
  · change a1.hdr.firstRoot = _
    rw [hpl.hdr]
    rfl
  · change a1.hdr.lastRoot = _
    rw [hpl.hdr]
    rfl

end Placed

/-- **A new child.** -/
theorem runs_addChildNode {data : List UInt8} (h : DbInv a t L) (hs : a.On s) (hp : p ∈ keys t)
    (hcp : a.heap (a.loc p) = some cp) (hnp : NodeCell p vp cp) (hk : k ∉ keys t)
    (hkey : k ≠ [] ∧ (0 : UInt8) ∉ k) (hfit : Fits a L (freshNode k data flags).need) :
    ∃ pnd nd a' L' o, Runs a.On
        (addChildNode (a.nodeObj (a.loc p) cp p vp) (freshNode k data flags))
          (.ok (pnd, nd)) a'.On ∧
      DbInv a' (add t k (some p) ⟨flags, data⟩) L' ∧
      BlockTaken a t L (freshNode k data flags).need o a' (add t k (some p) ⟨flags, data⟩) L' := by
  set nd : HDBNodeData := { freshNode k data flags with
    blk := { (freshNode k data flags).blk with
      prevSib := cp.hdr.lastChild, nextSib := -1, parent := a.loc p } } with hnd
  have hfit' : Fits a L nd.need := hfit
  obtain ⟨o, a1, L1, hrun, hpl⟩ := runs_writeNode_new nd h.free hs hfit'
    (by decide : (-1 : Int32) ≤ 0) (by rw [hnd]; exact h.live.loc_pos hs hp)
  obtain ⟨hsib, pnd, hparent⟩ := hpl.runs_linkChild (o := o) h hp hcp hs hnp
  have hsmall : (nd.at o).blk.size.toNat < 2 ^ 31 := by
    rw [size_at hfit']
    exact hfit'.size
  have hleaf : LeafAdded a t k (some p) ⟨flags, data⟩ (a1.linkChild (a.loc p) cp o) o :=
    hpl.leafAdded_linkChild h hp hcp hs hk rfl (nodeCell hsmall) rfl rfl rfl rfl rfl
  have hfree : ∀ {x}, x ∈ L1 → (a1.linkChild (a.loc p) cp o).heap x = a1.heap x := by
    intro x hx
    refine h.heap_linkChild hp hcp ?_ fun hk' heq => h.disjoint hk' (heq ▸ hpl.sub hx)
    rintro rfl
    exact h.free.neg_one_not_mem hs (hpl.sub hx)
  obtain ⟨s1, -, hs1⟩ := hrun s hs
  obtain ⟨s2, -, hs2⟩ := hsib s1 hs1
  refine ⟨pnd, _, _, L1, o, hrun.bind (hsib.bind (hparent.bind (.pure _))),
    hleaf.dbInv h hs hk hkey (.some hp) (hpl.free.congr hfree rfl) hpl.not_mem hpl.sub,
    hleaf.blockTaken h.live hk hpl.fit hpl.sub hpl.keep ?_ (fun {x} hx => ?_) ?_⟩
  · have hself : (a1.linkChild (a.loc p) cp o).heap o = some (nd.at o).cell :=
      hpl.heap_linkChild_self h hp hcp
    rw [size, field_eq hself]
    exact size_at (o := o) hfit'
  · refine (size_congr (hfree hx)).trans (hpl.size ?_)
    exact ne_of_mem_of_not_mem hx hpl.not_mem
  · exact (hs2.len_put (hpl.heap_setNext_parent h hp hcp hs) (hs.fits hcp)).trans hpl.len

/-! ### A node as the last root -/

/-- The state after a block at `o` has been linked as the last root. -/
def Cells.linkRoot (a : Cells) (o : Int32) : Cells :=
  { a.setNext a.hdr.lastRoot o with
    hdr := { a.hdr with
      firstRoot := if a.hdr.firstRoot = -1 then o else a.hdr.firstRoot, lastRoot := o } }

/-- The cells after linking a root. -/
lemma heap_linkRoot : (a.linkRoot o).heap = (a.setNext a.hdr.lastRoot o).heap := rfl

/-- Linking a root. -/
lemma runs_addRootBlock (hempty : a.hdr.firstRoot = -1 → a.hdr.lastRoot = -1)
    (hlast : a.hdr.firstRoot ≠ -1 → ∃ c, a.heap a.hdr.lastRoot = some c)
    (hroom : (a.linkRoot o).Room o n) :
    Runs a.On (addRootBlock b o)
      (.ok { b with parent := -1, nextSib := -1, prevSib := a.hdr.lastRoot })
      ((a.linkRoot o).Pending o
        (encodeBlock { b with parent := -1, nextSib := -1, prevSib := a.hdr.lastRoot })) := by
  refine .assume fun s hs => ?_
  rw [addRootBlock]
  refine runs_getHdrBlock.bind ?_
  by_cases h1 : a.hdr.firstRoot = -1
  · have hlink : a.linkRoot o = { a with hdr := { a.hdr with firstRoot := o, lastRoot := o } } := by
      rw [linkRoot, setNext, hempty h1, modify_of_none hs.heap_neg_one, if_pos h1]
    rw [if_pos h1, hempty h1, hlink]
    refine (runs_setOffsets _ _ _).bind ?_
    exact (runs_writeBlock_pending (hlink ▸ hroom)).bind (.pure _)
  · obtain ⟨c, hc⟩ := hlast h1
    have hlink : a.linkRoot o = { a.setNext a.hdr.lastRoot o with
        hdr := { (a.setNext a.hdr.lastRoot o).hdr with lastRoot := o } } := by
      rw [linkRoot, if_neg h1]
      rfl
    rw [if_neg h1, hlink]
    refine (runs_updateBlock hc rfl).bind ?_
    refine (runs_setLastRootOffset o).bind ?_
    exact (runs_writeBlock_pending (hlink ▸ hroom)).bind (.pure _)

/-- **A new root.** -/
theorem runs_writeNode_root {data : List UInt8} (h : DbInv a t L) (hs : a.On s) (hk : k ∉ keys t)
    (hkey : k ≠ [] ∧ (0 : UInt8) ∉ k) (hfit : Fits a L (freshNode k data flags).need) :
    ∃ r a' L' o, Runs a.On (writeNode (freshNode k data flags)) (.ok r) a'.On ∧
      DbInv a' (add t k none ⟨flags, data⟩) L' ∧
      BlockTaken a t L (freshNode k data flags).need o a' (add t k none ⟨flags, data⟩) L' := by
  have hplace : IsPlace t none := by rintro _ ⟨⟩
  obtain ⟨o, a1, L1, hrun, hal⟩ := runs_findBlock_need h.free hs hfit
  set nd : HDBNodeData := { freshNode k data flags with
    blk := { (freshNode k data flags).blk with prevSib := a.hdr.lastRoot } } with hnd
  have hneed : nd.need = (freshNode k data flags).need := rfl
  have hsize := size_at (o := o) (show Fits a L nd.need from hfit)
  have hone : ∀ {k'}, k' ∈ keys t → a.loc k' ≠ o := fun hk' => h.loc_ne hal.source hk'
  have hfirst1 : a1.hdr.firstRoot = a.hdr.firstRoot := by rw [hal.rest.hdr]
  have hlast1 : a1.hdr.lastRoot = a.hdr.lastRoot := by rw [hal.rest.hdr]
  -- the last of the other roots
  have hlast : ∀ {x}, x ≠ -1 → (∀ {k'}, k' ∈ keys t → a.loc k' ≠ x) → x ≠ a.hdr.lastRoot :=
    fun h1 hx => h.live.ne_tail hplace h1 hx
  have ho1 : o ≠ -1 := fun h1 => absurd (h1 ▸ hal.pos : (0 : Int32) < -1) (by decide)
  have hself1 : (a1.linkRoot o).heap o = a1.heap o := by
    rw [heap_linkRoot, hlast1]
    exact heap_modify_ne (hlast ho1 hone)
  have hroom : (a1.linkRoot o).Room o (nd.at o).blk.size.toNat := by
    have := hal.room
    rw [Cells.Room, ← hself1] at this
    rw [hsize, hneed]
    exact this
  have hlive : ∀ {k'}, k' ∈ keys t → a1.heap (a.loc k') = a.heap (a.loc k') :=
    fun hk' => hal.frame (h.disjoint hk')
  have hadd := runs_addRootBlock (b := ((freshNode k data flags).at o).prepare.blk)
    (fun h1 => ?_) (fun h1 => ?_) hroom
  · have hwrite : Runs a.On (writeNode (freshNode k data flags))
        (.ok { (nd.at o).prepare with version := a1.version + 1 })
        { { a1.linkRoot o with index := a1.index.put k o }.put o (nd.at o).cell with
          version := a1.version + 1 }.On := by
      rw [hlast1] at hadd
      refine bind (hrun.bind ?_) (runs_writeBody
        (a := { a1.linkRoot o with index := a1.index.put k o }) hroom hsize.ge fun _ => hsize.le)
      exact hadd.bind ((runs_addIndexEntry_pending _ _).bind (.pure _))
    have hsmall : (nd.at o).blk.size.toNat < 2 ^ 31 := by
      rw [hsize, hneed]
      exact hfit.size
    have hcell := nodeCell hsmall
    set a' := { { a1.linkRoot o with
      index := a1.index.put k o }.put o (nd.at o).cell with version := a1.version + 1 } with ha'
    have hself : a'.heap o = some (nd.at o).cell := update_self o _ _
    have hother : ∀ {x}, x ≠ o → a'.heap x = (a1.linkRoot o).heap x := by
      intro x hne
      exact update_of_ne hne _ _
    have hleaf : LeafAdded a t k none ⟨flags, data⟩ a' o := by
      refine leafAdded_of_heap h.live hk hplace ?_ hone ?_ ?_ ?_ ?_
      · exact congrArg (OrderedIndex.put · k o) hal.rest.index
      · refine ⟨_, hself, ?_⟩
        exact ⟨hcell, rfl, rfl, rfl, rfl, rfl⟩
      · intro k' c hk' hc
        rw [hother (hone hk'), heap_linkRoot, hlast1, heap_setNext ((hlive hk').trans hc)]
        rfl
      · change (if a1.hdr.firstRoot = -1 then o else a1.hdr.firstRoot) = _
        rw [hfirst1]
        simp
      · exact (if_pos rfl).symm
    -- the blocks that are still free
    have hfree : ∀ {x}, x ∈ L1 → a'.heap x = a1.heap x := by
      intro x hx
      have hout : ∀ {k'}, k' ∈ keys t → a.loc k' ≠ x :=
        fun hk' heq => h.disjoint hk' (heq ▸ hal.sub hx)
      rw [hother (ne_of_mem_of_not_mem hx hal.not_mem), heap_linkRoot, hlast1]
      refine heap_modify_ne (hlast ?_ hout)
      rintro rfl
      exact h.free.neg_one_not_mem hs (hal.sub hx)
    refine ⟨_, a', L1, o, hwrite, hleaf.dbInv h hs hk hkey hplace
      (hal.free.congr hfree (rfl)) hal.not_mem hal.sub,
      hleaf.blockTaken h.live hk hal.fit hal.sub hal.keep ?_
        (fun {x} hx => (size_congr (hfree hx)).trans (congrFun hal.size x)) ?_⟩
    · rw [size, field_eq hself, ← hneed]
      exact hsize
    · rw [ha', ← hneed]
      exact len_put_cell hal.rest.len
  · rw [hlast1]
    exact (h.live.head_eq_neg_one hs hplace).1 (hfirst1.symm.trans h1)
  · rw [hlast1]
    rw [hfirst1] at h1
    refine (h.live.isLink_tail hplace fun hk' hc => ⟨_, (hlive hk').trans hc⟩).resolve_left ?_
    exact fun h2 => h1 ((h.live.head_eq_neg_one hs hplace).2 h2)

/-! ### The operations of a handle -/

section handle

variable {data : List UInt8} {f : UInt32}

/-- **`addRootNode`** with a new key. -/
theorem runs_addRootNode (h : DbInv a t L) (hs : a.On s) (hk : k ∉ keys t)
    (hkey : k ≠ [] ∧ (0 : UInt8) ∉ k) (hfit : Fits a L (freshNode k data f).need) :
    ∃ a' L' o, Runs a.On (addRootNode (newNode k data f)) (.ok true) a'.On ∧
      DbInv a' (add t k none ⟨f, data⟩) L' ∧
      BlockTaken a t L (freshNode k data f).need o a' (add t k none ⟨f, data⟩) L' := by
  obtain ⟨r, a', L', o, hrun, hinv, hblocks⟩ := runs_writeNode_root h hs hk hkey hfit
  refine ⟨a', L', o, ?_, hinv, hblocks⟩
  rw [newNode, if_neg hkey.1]
  refine (when_neg (by exact (by decide : ¬ (-1 : Int32) > 0))).bind ?_
  refine (runs_findIndexEntry_none h.live hk).bind ?_
  exact (when_neg (by simp)).bind (hrun.bind (.pure _))

/-- **`addRootNode`** with a key that exists changes nothing. -/
theorem runs_addRootNode_dup (h : DbInv a t L) (hk : k ∈ keys t) :
    Runs a.On (addRootNode (newNode k data f))
      (.error (.hdb "key for node is already in index")) a.On := by
  rw [newNode, if_neg (h.live.key hk).1]
  refine (when_neg (by exact (by decide : ¬ (-1 : Int32) > 0))).bind ?_
  refine (runs_findIndexEntry_some h.live hk).bind ?_
  exact (when_pos (by simp) (.throw _)).bind_error

/-- **`addChild`** with a new key. -/
theorem runs_addChild (h : DbInv a t L) (hs : a.On s)
    (hp : p ∈ keys t) (hcp : a.heap (a.loc p) = some cp) (hnp : NodeCell p vp cp) (hk : k ∉ keys t)
    (hkey : k ≠ [] ∧ (0 : UInt8) ∉ k) (hfit : Fits a L (freshNode k data f).need) :
    ∃ a' L' o, Runs a.On (addChild (some (a.nodeObj (a.loc p) cp p vp))
        (newNode k data f)) (.ok true) a'.On ∧
      DbInv a' (add t k (some p) ⟨f, data⟩) L' ∧
      BlockTaken a t L (freshNode k data f).need o a' (add t k (some p) ⟨f, data⟩) L' := by
  obtain ⟨pnd, nd, a', L', o, hrun, hinv, hblocks⟩ := runs_addChildNode h hs hp hcp hnp hk hkey hfit
  refine ⟨a', L', o, ?_, hinv, hblocks⟩
  rw [newNode, if_neg hkey.1]
  refine (when_neg (by exact (by decide : ¬ (-1 : Int32) > 0))).bind ?_
  refine (when_neg (Int32.not_le.2 (h.live.loc_pos hs hp))).bind ?_
  refine (runs_findIndexEntry_none h.live hk).bind ?_
  refine (when_neg (by simp)).bind ?_
  exact (runs_reload (.inr rfl)).bind (hrun.bind (.pure _))

/-- **`addChild`** with a key that exists changes nothing. -/
theorem runs_addChild_dup (h : DbInv a t L) (hs : a.On s) (hp : p ∈ keys t) (hk : k ∈ keys t) :
    Runs a.On (addChild (some (a.nodeObj (a.loc p) cp p vp)) (newNode k data f))
      (.error (.hdb "key for node is already in index")) a.On := by
  rw [newNode, if_neg (h.live.key hk).1]
  refine (when_neg (by exact (by decide : ¬ (-1 : Int32) > 0))).bind ?_
  refine (when_neg (Int32.not_le.2 (h.live.loc_pos hs hp))).bind ?_
  refine (runs_findIndexEntry_some h.live hk).bind ?_
  exact (when_pos (by simp) (.throw _)).bind_error

end handle

end OpenWbem.Hdb
