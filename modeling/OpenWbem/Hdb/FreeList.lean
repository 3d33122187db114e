import OpenWbem.Base.DLinked
import OpenWbem.Hdb.Cells
import Mathlib.Data.List.Perm.Subperm

/-!
# The free list

Free blocks are kept in a doubly linked list in the order of their sizes. `FreeInv a L` says that
the free list of the collection `a` consists of the blocks `L`. Freeing a block and finding one
keep this invariant, and change no block outside the list (apart from the one that is freed).

## Main definitions

* `FreeInv` — the invariant of the free list.
* `BestFit` — the place that `findBlock` chooses.
* `Allocated` — what `findBlock` leaves behind.

## Main results

* `runs_addBlockToFreeList` — freeing a block.
* `runs_findBlock` — finding a block, in the free list or at the end of the file.
-/

namespace OpenWbem.Hdb

open Bytes Extents Prog Cells List DLinked
open DLinked (firstOf lastOf)

/-- The free list consists of the blocks `L`. -/
structure FreeInv (a : Cells) (L : List Int32) : Prop where
  nodup : L.Nodup
  head : a.hdr.firstFree = firstOf (-1) L
  links : DLinked (-1) a.next a.prev L
  cell : ∀ {o}, o ∈ L → ∃ c, a.heap o = some c ∧ c.hdr.isFree
  sorted : L.Pairwise fun x y => a.size x ≤ a.size y

/-- Two states that agree outside their blocks and the head of the free list. -/
structure SameRest (a a' : Cells) : Prop where
  hdr : a'.hdr = { a.hdr with firstFree := a'.hdr.firstFree }
  version : a'.version = a.version
  index : a'.index = a.index
  len : a'.len = a.len

/-- The place for a block of `n` bytes: the smallest free block that is large enough, or the end of
the file if there is none. -/
inductive BestFit (a : Cells) (L : List Int32) (n : ℕ) : Int32 → Prop
  | block {o : Int32} : o ∈ L → n ≤ (a.size o).toNat →
      (∀ x ∈ L, n ≤ (a.size x).toNat → a.size o ≤ a.size x) → BestFit a L n o
  | fileEnd {o : Int32} : o ∉ L → o.toInt = a.len → (∀ x ∈ L, (a.size x).toNat < n) →
      BestFit a L n o

/-- A block of `n` bytes can be written at `o`, which is not in the free list `L'` any more. -/
structure Allocated (a : Cells) (L : List Int32) (n : ℕ) (a' : Cells) (L' : List Int32)
    (o : Int32) : Prop where
  free : FreeInv a' L'
  room : a'.Room o n
  not_mem : o ∉ L'
  sub : ∀ {x}, x ∈ L' → x ∈ L
  keep : ∀ {x}, x ∈ L → x = o ∨ x ∈ L'
  source : o ∈ L ∨ a.heap o = none
  fit : BestFit a L n o
  pos : 0 < o
  frame : ∀ {x}, x ∉ L → a'.heap x = a.heap x
  size : a'.size = a.size
  rest : SameRest a a'

variable {a a' : Cells} {s : HDB} {L x y : List Int32} {o p : Int32} {c : Cell HDBBlock}
  {b : HDBBlock} {n : ℕ}

/-- There is no block at the offset that stands for "none". -/
lemma Cells.On.heap_neg_one (hs : a.On s) : a.heap (-1) = none := by
  rcases h : a.heap (-1) with _ | c
  · rfl
  · exact absurd (hs.pos h) (by decide)

namespace FreeInv

/-- No free block is at -1. -/
lemma neg_one_not_mem (hL : FreeInv a L) (hs : a.On s) : (-1 : Int32) ∉ L := by
  intro h
  obtain ⟨c, hc, -⟩ := hL.cell h
  rw [hs.heap_neg_one] at hc
  cases hc

/-- Only the blocks of the list and its head matter. -/
lemma congr (hL : FreeInv a L) (hheap : ∀ {o}, o ∈ L → a'.heap o = a.heap o)
    (hhead : a'.hdr.firstFree = a.hdr.firstFree) : FreeInv a' L := by
  have hfield : ∀ {β : Type} (g : HDBBlock → β) (d : β), ∀ o ∈ L, a'.field g d o = a.field g d o :=
    fun g d o ho => by rw [field, field, hheap ho]
  refine ⟨hL.nodup, by rw [hhead, hL.head], hL.links.congr (hfield _ _) (hfield _ _), ?_, ?_⟩
  · intro o ho
    rw [hheap ho]
    exact hL.cell ho
  · refine hL.sorted.imp_of_mem fun hx hy hle => ?_
    simp only [size, hfield _ _ _ hx, hfield _ _ _ hy]
    exact hle

end FreeInv

/-! ### Bounds for the loops -/

/-- Different blocks are at different offsets of the file, so there are not more blocks than
bytes. -/
lemma Cells.On.length_le (hs : a.On s) (hnd : L.Nodup) (hL : ∀ o ∈ L, ∃ c, a.heap o = some c) :
    L.length ≤ a.len := by
  have hlt : ∀ {o c}, a.heap o = some c → o.toInt.toNat + blockSize ≤ a.len ∧
      blockSize ≤ c.hdr.size.toNat := by
    intro o c hc
    have hhigh := hs.bytes.holds.high hc
    have hfits := hs.bytes.holds.fits hc
    rw [hs.bytes.length] at hhigh
    simp only [blockLayout_pos, blockLayout_ext, blockLayout_hsz] at hhigh hfits
    omega
  have hinj : (L.map blockLayout.pos).Nodup := by
    refine List.Nodup.map_on (fun x hx y hy hxy => ?_) hnd
    obtain ⟨c, hc⟩ := hL x hx
    obtain ⟨d, hd⟩ := hL y hy
    by_contra hne
    have := hs.bytes.holds.apart hc hd hne
    have h1 := (hlt hc).2
    have h2 := (hlt hd).2
    simp only [blockLayout_ext, blockSize] at *
    omega
  have hsub : L.map blockLayout.pos ⊆ range a.len := by
    intro p hp
    obtain ⟨x, hx, rfl⟩ := mem_map.1 hp
    obtain ⟨c, hc⟩ := hL x hx
    have := (hlt hc).1
    simp only [blockSize] at this
    rw [mem_range, blockLayout_pos]
    omega
  simpa using (hinj.subperm hsub).length_le

/-- Fewer free blocks than bytes. -/
lemma FreeInv.length_le (hL : FreeInv a L) (hs : a.On s) : L.length ≤ a.len :=
  hs.length_le hL.nodup fun _ ho => (hL.cell ho).imp fun _ h => h.1

/-- The pointers of a free block. -/
lemma FreeInv.links_eq (hL : FreeInv a (x ++ o :: y)) (hc : a.heap o = some c) :
    c.hdr.nextSib = firstOf (-1) y ∧ c.hdr.prevSib = lastOf (-1) x := by
  rw [← hL.links.next_eq rfl, ← hL.links.prev_eq rfl, Cells.next, Cells.prev, field_eq hc,
    field_eq hc]
  exact ⟨rfl, rfl⟩

/-- The list is empty just if its head says so. -/
lemma FreeInv.head_eq_neg_one (hL : FreeInv a L) (hs : a.On s) : a.hdr.firstFree = -1 ↔ L = [] := by
  rw [hL.head, firstOf_eq_nil (hL.neg_one_not_mem hs)]

/-! ### Finding a block -/

/-- **The search in `addBlockToFreeList`** from a block of the list: it ends at the first block that
is not smaller, or at the last block. -/
lemma runs_findInsertionPoint (hs : a.On s) (size : UInt32) (hL : FreeInv a (x ++ o :: y))
    (hn : y.length < n) (hx : ∀ z ∈ x, a.size z < size) :
    ∃ (x' y' : List Int32) (p : Int32) (c : Cell HDBBlock) (found : Bool),
      x ++ o :: y = x' ++ p :: y' ∧
      a.heap p = some c ∧ Runs a.On (findInsertionPoint size n o) (.ok (found, p, c.hdr)) a.On ∧
      (∀ z ∈ x', a.size z < size) ∧ if found then size ≤ a.size p
        else a.size p < size ∧ y' = [] := by
  induction n generalizing x o y with
  | zero => omega
  | succ n ih =>
    obtain ⟨c, hc, -⟩ := hL.cell (o := o) (by simp)
    have hsize : a.size o = c.hdr.size := field_eq hc
    rw [findInsertionPoint]
    by_cases hsz : size ≤ c.hdr.size
    · refine ⟨x, y, o, c, true, rfl, hc, (runs_readBlock hc).bind ?_, hx, hsize ▸ hsz⟩
      rw [if_pos hsz]
      exact .pure _
    have hlt : a.size o < size := hsize ▸ UInt32.not_le.1 hsz
    have hnext := (hL.links_eq hc).1
    rcases y with _ | ⟨p, y⟩
    · refine ⟨x, [], o, c, false, rfl, hc, (runs_readBlock hc).bind ?_, hx, hlt, rfl⟩
      rw [if_neg hsz, if_pos (hnext.trans firstOf_nil)]
      exact .pure _
    -- the search goes on at the next block
    · have hp : p ≠ -1 := by
        rintro rfl
        exact hL.neg_one_not_mem hs (by simp)
      obtain ⟨x', y', p', d, found, hsplit, hd, hrun, hsmall⟩ :=
        ih (x := x ++ [o]) (by simpa using hL)
        (by simpa using hn) (by simpa [or_imp, forall_and] using ⟨hx, hlt⟩)
      refine ⟨x', y', p', d, found, by simpa using hsplit, hd, (runs_readBlock hc).bind ?_, hsmall⟩
      rw [if_neg hsz, hnext, firstOf_cons, if_neg hp]
      exact hrun

/-- The search in `findBlock` is the same one. -/
lemma findBlockLoop_eq (size : UInt32) (n : ℕ) (o : Int32) : findBlockLoop size n o = (do
      let r ← findInsertionPoint size n o
      pure (if r.1 then some r.2 else none)) := by
  induction n generalizing o with
  | zero => rfl
  | succ n ih =>
    rw [findBlockLoop, findInsertionPoint, bind_assoc]
    congr 1
    funext b
    split_ifs
    · rfl
    · rfl
    · exact ih _

/-- The state after the block with the header `b` has been taken out of the free list. -/
def Cells.unlinkFree (a : Cells) (b : HDBBlock) : Cells :=
  { (a.setPrev b.nextSib b.prevSib).setNext b.prevSib b.nextSib with
    hdr :=
      { a.hdr with firstFree := if b.prevSib = -1 then b.nextSib else a.hdr.firstFree } }

/-- A neighbour in the list is a block, or there is none. -/
lemma FreeInv.heap_link (hL : FreeInv a L) (hs : a.On s) (hp : p = -1 ∨ p ∈ L) :
    (p ≠ -1 → ∃ c, a.heap p = some c) ∧ (¬ p ≠ -1 → a.heap p = none) := by
  refine ⟨fun h => ?_, fun h => ?_⟩
  · exact (hL.cell (hp.resolve_left h)).imp fun _ h => h.1
  · rw [not_not.1 h]
    exact hs.heap_neg_one

section unlinkFree

variable (hL : FreeInv a (x ++ o :: y)) (hs : a.On s) (hc : a.heap o = some c)

include hL hc

/-- They lead to free blocks. -/
lemma FreeInv.neighbours : (c.hdr.nextSib = -1 ∨ c.hdr.nextSib ∈ x ++ o :: y) ∧
    (c.hdr.prevSib = -1 ∨ c.hdr.prevSib ∈ x ++ o :: y) := by
  obtain ⟨hnext, hprev⟩ := hL.links_eq hc
  rw [hnext, hprev]
  exact ⟨(firstOf_cases _ y).imp_right fun h => by simp [h],
    (lastOf_cases _ x).imp_right fun h => by simp [h]⟩

include hs

/-- Taking a block out of the list. -/
lemma runs_removeBlockFromFreeList :
    Runs a.On (removeBlockFromFreeList c.hdr) (.ok ()) (a.unlinkFree c.hdr).On := by
  have hn := hL.heap_link hs (hL.neighbours hc).1
  have hp := hL.heap_link hs (hL.neighbours hc).2
  rw [removeBlockFromFreeList]
  refine (runs_when_setPrev hn.1 hn.2).bind ?_
  by_cases h : c.hdr.prevSib ≠ -1
  · obtain ⟨d, hd⟩ := hp.1 h
    rw [if_pos h, unlinkFree, if_neg h]
    exact runs_updateBlock (heap_setPrev hd _ _) rfl
  · rw [if_neg h]
    refine runs_getHdrBlock.bind ?_
    have hhead : a.hdr.firstFree ≠ -1 := fun h => by simp [hL.head_eq_neg_one hs] at h
    have hnone : (a.setPrev c.hdr.nextSib c.hdr.prevSib).heap c.hdr.prevSib = none := by
      simp [setPrev, Cells.modify, hp.2 h]
    rw [unlinkFree, if_pos (not_not.1 h), setNext, modify_of_none hnone]
    exact .when_pos hhead (runs_setFirstFreeOffSet _)

/-- **Taking a block out of the free list.** -/
lemma FreeInv.unlinkFree : FreeInv (a.unlinkFree c.hdr) (x ++ y) := by
  have hnil := hL.neg_one_not_mem hs
  have hnexto : a.next o = c.hdr.nextSib := field_eq hc
  have hprevo : a.prev o = c.hdr.prevSib := field_eq hc
  have hsize : (a.unlinkFree c.hdr).size = a.size := size_setNext.trans size_setPrev
  have hsub : (x ++ y).Sublist (x ++ o :: y) := by simp
  refine ⟨hL.nodup.sublist hsub, ?_, ?_, fun {z} hz => ?_, ?_⟩
  · change (if c.hdr.prevSib = -1 then c.hdr.nextSib else a.hdr.firstFree) = _
    have hx := lastOf_eq_nil fun h => hnil (mem_append_left _ h)
    rw [hL.head, (hL.links_eq hc).1, (hL.links_eq hc).2]
    cases x <;> simp [hx]
  · refine hL.links.replace (m := []) rfl hL.nodup hnil (by simp) (by simp) (by simp)
      (fun z hz _ => ?_)
      fun z hz _ => ?_
    · obtain ⟨d, hd, -⟩ := hL.cell hz
      rw [hnexto, hprevo]
      have := next_setNext (a := a.setPrev c.hdr.nextSib c.hdr.prevSib) (o := c.hdr.prevSib)
        (v := c.hdr.nextSib) (heap_setPrev hd _ _)
      rwa [next_setPrev] at this
    · obtain ⟨d, hd, -⟩ := hL.cell hz
      rw [hnexto, hprevo]
      exact (congrFun prev_setNext z).trans (prev_setPrev hd)
  · obtain ⟨d, hd, hfree⟩ := hL.cell (hsub.subset hz)
    exact ⟨_, heap_setNext (heap_setPrev hd _ _) _ _, hfree⟩
  · rw [hsize]
    exact hL.sorted.sublist hsub

/-- Blocks outside the list are not touched. -/
lemma FreeInv.heap_unlinkFree (hp : p ∉ x ++ o :: y) : (a.unlinkFree c.hdr).heap p = a.heap p := by
  have hout : ∀ {a' : Cells} {r : Int32} {f : HDBBlock → HDBBlock}, r = -1 ∨ r ∈ x ++ o :: y →
      a'.heap (-1) = none → (a'.modify r f).heap p = a'.heap p := by
    rintro a' r f (rfl | hr) hnone
    · rw [modify_of_none hnone]
    · exact heap_modify_ne fun h => hp (h ▸ hr)
  have h1 := hs.heap_neg_one
  have h2 : (a.setPrev c.hdr.nextSib c.hdr.prevSib).heap (-1) = none := by
    simp [setPrev, Cells.modify, h1]
  change ((a.setPrev c.hdr.nextSib c.hdr.prevSib).setNext c.hdr.prevSib c.hdr.nextSib).heap p = _
  rw [setNext, hout (hL.neighbours hc).2 h2, setPrev, hout (hL.neighbours hc).1 h1]

end unlinkFree

/-- Nothing has changed. -/
lemma SameRest.refl (a : Cells) : SameRest a a := ⟨rfl, rfl, rfl, rfl⟩

/-- The end of the file is a place for a new block. -/
lemma FreeInv.allocated_end (hL : FreeInv a L) (hs : a.On s) (hlen : a.len < 2 ^ 31)
    (hsmall : ∀ x ∈ L, (a.size x).toNat < n) : Allocated a L n a L (Int32.ofNat a.len) := by
  have hto : (Int32.ofNat a.len).toInt = a.len := Int32.toInt_ofNat_of_lt hlen
  have hnone : a.heap (Int32.ofNat a.len) = none := by
    rcases h : a.heap (Int32.ofNat a.len) with _ | c
    · rfl
    · have hhigh := hs.bytes.holds.high h
      have hfits := hs.bytes.holds.fits h
      rw [hs.bytes.length] at hhigh
      simp only [blockLayout_pos, blockLayout_hsz, blockSize] at hhigh hfits
      omega
  have hout : Int32.ofNat a.len ∉ L := by
    intro h
    obtain ⟨c, hc, -⟩ := hL.cell h
    rw [hnone] at hc
    cases hc
  refine ⟨hL, .inr ⟨hnone, hto⟩, hout, fun h => h, .inr, .inr hnone, .fileEnd hout hto hsmall, ?_,
    fun _ => rfl, rfl, .refl a⟩
  · have := hs.bytes.low
    rw [Int32.lt_iff_toInt_lt, hto]
    simp only [headerSize] at this
    simpa using by omega

/-- The block at which the search ends is the smallest one that is large enough, as the list is in
the order of the sizes. -/
lemma FreeInv.bestFit (hL : FreeInv a (x ++ o :: y)) (hle : n ≤ (a.size o).toNat)
    (hx : ∀ z ∈ x, (a.size z).toNat < n) : BestFit a (x ++ o :: y) n o := by
  refine .block (by simp) hle fun z hz hnz => ?_
  rcases mem_append.1 hz with hz | hz
  · exact absurd hnz (Nat.not_le.2 (hx z hz))
  · rcases mem_cons.1 hz with rfl | hz
    · exact UInt32.le_refl _
    · exact rel_of_pairwise_cons (pairwise_append.1 hL.sorted).2.1 hz

/-- **Finding a block.** There is one in the free list, or there is room at the end of a file whose
length is a 32-bit number.

**Proof sketch.** If all blocks of the list are too small, the block is at the end of the file. -/
theorem runs_findBlock (hL : FreeInv a L) (hs : a.On s) {size : Int32}
    (hfit : (∃ x ∈ L, size.toUInt32 ≤ a.size x) ∨ a.len < 2 ^ 31) :
    ∃ o a' L', Runs a.On (findBlock size) (.ok o) a'.On ∧
    Allocated a L size.toUInt32.toNat a' L' o := by
  have hlen := hL.length_le hs
  -- the list has no block of the size
  have hend (hsmall : ∀ z ∈ L, a.size z < size.toUInt32) : a.len < 2 ^ 31 ∧
      Allocated a L size.toUInt32.toNat a L (Int32.ofNat a.len) := by
    have hlt : a.len < 2 ^ 31 :=
      hfit.resolve_left fun ⟨z, hz, hle⟩ => UInt32.not_le.2 (hsmall z hz) hle
    exact ⟨hlt, hL.allocated_end hs hlt fun z hz => UInt32.lt_iff_toNat_lt.1 (hsmall z hz)⟩
  rw [findBlock]
  rcases L with _ | ⟨o, L⟩
  · obtain ⟨hlt, halloc⟩ := hend (by simp)
    refine ⟨_, a, [], runs_getHdrBlock.bind ?_, halloc⟩
    rw [if_neg (not_not.2 ((hL.head_eq_neg_one hs).2 rfl))]
    exact runs_seekToEnd hlt
  have hhead : a.hdr.firstFree = o := hL.head
  have hempty : a.hdr.firstFree ≠ -1 := fun h => by simp [hL.head_eq_neg_one hs] at h
  obtain ⟨x, y, p, c, found, hsplit, hc, hrun, hx, hfound⟩ :=
    runs_findInsertionPoint (x := []) hs size.toUInt32 hL hlen (by simp)
  have hloop := hrun.bind (f := fun r => pure (if r.1 then some r.2 else none)) (.pure _)
  rw [← findBlockLoop_eq] at hloop
  rw [nil_append] at hsplit
  rcases found with _ | _
  · obtain ⟨hlt, halloc⟩ := hend fun z hz => by
      obtain ⟨hp, rfl⟩ : a.size p < size.toUInt32 ∧ y = [] := by simpa using hfound
      rw [hsplit, mem_append, mem_singleton] at hz
      rcases hz with hz | rfl
      · exact hx z hz
      · exact hp
    refine ⟨_, a, o :: L, runs_getHdrBlock.bind ?_, halloc⟩
    rw [if_pos hempty, hhead]
    exact runs_stepBound.bind (hloop.bind (runs_seekToEnd hlt))
  · have hle : size.toUInt32 ≤ a.size p := by simpa using hfound
    rw [hsplit] at hL ⊢
    refine ⟨p, a.unlinkFree c.hdr, x ++ y, runs_getHdrBlock.bind ?_, ?_⟩
    · rw [if_pos hempty, hhead]
      exact runs_stepBound.bind
        (hloop.bind ((runs_removeBlockFromFreeList hL hs hc).bind (.pure _)))
    · refine ⟨hL.unlinkFree hs hc, .inl ⟨_, heap_setNext (heap_setPrev hc _ _) _ _, ?_⟩,
        (nodup_middle.1 hL.nodup).notMem, fun h => ?_, fun {z} hz => ?_, .inl (by simp), ?_,
        hs.pos hc, hL.heap_unlinkFree hs hc, size_setNext.trans size_setPrev, ⟨rfl, rfl, rfl, rfl⟩⟩
      · rw [Cells.size, field_eq hc] at hle
        exact UInt32.le_iff_toNat_le.1 hle
      · exact perm_middle.mem_iff.2 (mem_cons_of_mem _ h)
      · exact mem_cons.1 (perm_middle.mem_iff.1 hz)
      · exact hL.bestFit (UInt32.le_iff_toNat_le.1 hle) fun z hz =>
          UInt32.lt_iff_toNat_lt.1 (hx z hz)

/-! ### Freeing a block -/

/-- The state after the block at `o` has been freed with the header `b`, between the blocks `pv`
and `nx` of the list. -/
def Cells.linkFree (a : Cells) (o : Int32) (b : HDBBlock) (nx pv : Int32) : Cells :=
  { ((a.setNext pv o).modify o fun _ =>
      { b with isFree := true, nextSib := nx, prevSib := pv }).setPrev nx o with
    hdr := { a.hdr with firstFree := if pv = -1 then o else a.hdr.firstFree } }

/-- What freeing the block at `o` leaves behind. -/
structure Freed (a : Cells) (L : List Int32) (a' : Cells) (L' : List Int32) (o : Int32) : Prop where
  free : FreeInv a' L'
  mem : ∀ {x}, x ∈ L' ↔ x = o ∨ x ∈ L
  frame : ∀ {x}, x ∉ L → x ≠ o → a'.heap x = a.heap x
  heap : ∀ {x}, (∃ c, a.heap x = some c) → ∃ c, a'.heap x = some c
  size : a'.size = a.size
  rest : SameRest a a'

section linkFree

variable {nx pv : Int32} {d : Cell HDBBlock}

/-- The block that is freed. -/
lemma heap_linkFree_self (hc : a.heap o = some c) (hnx : o ≠ nx) : (a.linkFree o b nx pv).heap o =
      some ⟨{ b with isFree := true, nextSib := nx, prevSib := pv }, c.body⟩ := by
  have h1 := heap_setNext hc pv o
  have h2 :=
    heap_modify_of_heap h1 o fun _ => { b with isFree := true, nextSib := nx, prevSib := pv }
  refine (heap_setPrev h2 nx o).trans ?_
  simp [hnx]

/-- The blocks beside it. -/
lemma heap_linkFree_of_ne (hd : a.heap p = some d) (hp : p ≠ o) : (a.linkFree o b nx pv).heap p =
      some ⟨{ d.hdr with
        nextSib := if p = pv then o else d.hdr.nextSib
        prevSib := if p = nx then o else d.hdr.prevSib }, d.body⟩ := by
  have h1 := heap_setNext hd pv o
  have h2 : ((a.setNext pv o).modify o fun _ =>
      { b with isFree := true, nextSib := nx, prevSib := pv }).heap p = _ :=
    (heap_modify_ne hp).trans h1
  exact heap_setPrev h2 nx o

/-- All other blocks. -/
lemma heap_linkFree_of_out (hp : p ≠ o) (hnx : p ≠ nx) (hpv : p ≠ pv) :
    (a.linkFree o b nx pv).heap p = a.heap p := by
  simp [Cells.linkFree, setPrev, setNext, Cells.modify, hp, hnx, hpv]

/-- **Putting a block into the free list**, at a position that fits its size. -/
lemma FreeInv.linkFree (hL : FreeInv a (x ++ y)) (hs : a.On s) (ho : o ∉ x ++ y)
    (hc : a.heap o = some c)
    (hb : b.size = c.hdr.size) (hbefore : ∀ z ∈ x, a.size z ≤ b.size)
    (hafter : ∀ z ∈ y, b.size ≤ a.size z) :
    Freed a (x ++ y) (a.linkFree o b (firstOf (-1) y) (lastOf (-1) x)) (x ++ o :: y) o := by
  have hnil := hL.neg_one_not_mem hs
  have hone : o ≠ -1 := fun h => by
    rw [h, hs.heap_neg_one] at hc
    cases hc
  set nx := firstOf (-1) y with hnx
  set pv := lastOf (-1) x with hpv
  -- a link is "none" or leads to a block of the list
  have hnx' : nx = -1 ∨ nx ∈ x ++ y := hnx ▸ (firstOf_cases _ y).imp_right (mem_append_right x)
  have hpv' : pv = -1 ∨ pv ∈ x ++ y := hpv ▸ (lastOf_cases _ x).imp_right (mem_append_left y)
  have honx : o ≠ nx := by rintro rfl; exact hnx'.elim hone ho
  have hself := @heap_linkFree_self a o c b nx pv hc honx
  have hne : ∀ {z}, z ∈ x ++ y → z ≠ o := fun hz h => ho (h ▸ hz)
  have hout : ∀ {z}, z ∉ x ++ y → z ≠ o → (a.linkFree o b nx pv).heap z = a.heap z := by
    intro z hz hzo
    by_cases hz1 : z = -1
    · have h1 := hs.heap_neg_one
      rw [hz1]
      simp only [Cells.linkFree, setPrev, setNext, Cells.modify, h1]
      simp
    · exact heap_linkFree_of_out hzo (fun h => hnx'.elim (fun h' => hz1 (h.trans h'))
        fun h' => hz (h ▸ h')) fun h => hpv'.elim (fun h' => hz1 (h.trans h')) fun h' => hz (h ▸ h')
  have hsize : (a.linkFree o b nx pv).size = a.size := by
    funext z
    by_cases hzo : z = o
    · subst hzo
      rw [Cells.size, Cells.size, field_eq hself, field_eq hc, hb]
    · rcases hd : a.heap z with _ | d
      · have hz : z ∉ x ++ y := fun h => by
          obtain ⟨d, hd', -⟩ := hL.cell h
          rw [hd] at hd'
          cases hd'
        rw [Cells.size, Cells.size, field, field, hout hz hzo]
      · rw [Cells.size, Cells.size, field_eq (heap_linkFree_of_ne hd hzo), field_eq hd]
  have hlinks : ∀ z ∈ x ++ y, (a.linkFree o b nx pv).next z = (if z = pv then o else a.next z) ∧
      (a.linkFree o b nx pv).prev z = if z = nx then o else a.prev z := by
    intro z hz
    obtain ⟨d, hd, -⟩ := hL.cell hz
    have hz' := @heap_linkFree_of_ne a o z b nx pv d hd (hne hz)
    rw [Cells.next, Cells.prev, field_eq hz', field_eq hz', Cells.next, Cells.prev, field_eq hd,
      field_eq hd]
    exact ⟨rfl, rfl⟩
  have hob : a.size o = b.size := by rw [Cells.size, field_eq hc, hb]
  have hmem : ∀ {z}, z ∈ x ++ o :: y ↔ z = o ∨ z ∈ x ++ y := fun {z} => by
    rw [perm_middle.mem_iff, mem_cons]
  refine ⟨⟨nodup_middle.2 (nodup_cons.2 ⟨ho, hL.nodup⟩), ?_, ?_, fun hz => ?_, ?_⟩, hmem,
    hout, fun {z} hz => ?_, hsize, ⟨rfl, rfl, rfl, rfl⟩⟩
  · change (if pv = -1 then o else a.hdr.firstFree) = _
    have hx := lastOf_eq_nil fun h => hnil (mem_append_left _ h)
    rw [hL.head, hpv]
    cases x <;> simp [hx]
  · refine hL.links.insert hL.nodup hnil ?_ ?_ (fun z hz => ?_) fun z hz => ?_
    · rw [← hnx, Cells.next, field_eq hself]
    · rw [← hpv, Cells.prev, field_eq hself]
    · rw [(hlinks z hz).1, Cells.prev, field_eq hself]
    · rw [(hlinks z hz).2, Cells.next, field_eq hself]
  · rcases hmem.1 hz with rfl | hz
    · exact ⟨_, hself, rfl⟩
    · obtain ⟨d, hd, hfree⟩ := hL.cell hz
      exact ⟨_, heap_linkFree_of_ne hd (hne hz), hfree⟩
  · have hsorted := pairwise_append.1 hL.sorted
    rw [hsize, pairwise_append, pairwise_cons, hob]
    exact ⟨hsorted.1, ⟨hafter, hsorted.2.1⟩, fun z hz => forall_mem_cons.2
      ⟨hob ▸ hbefore z hz, hsorted.2.2 z hz⟩⟩
  · obtain ⟨d, hd⟩ := hz
    by_cases hzo : z = o
    · exact ⟨_, by rw [hzo]; exact hself⟩
    · exact ⟨_, heap_linkFree_of_ne hd hzo⟩

end linkFree

/-- **Freeing a block.** The block may be given a new header, but it keeps its size. It is linked in
before the first block that is not smaller, or behind the last one. -/
theorem runs_addBlockToFreeList (hL : FreeInv a L) (hs : a.On s) (ho : o ∉ L)
    (hc : a.heap o = some c) (hb : b.size = c.hdr.size) :
    ∃ a' L', Runs a.On (addBlockToFreeList b o) (.ok ()) a'.On ∧ Freed a L a' L' o := by
  have hnil := hL.neg_one_not_mem hs
  have hlen := hL.length_le hs
  have hone : o ≠ -1 := fun h => by
    rw [h, hs.heap_neg_one] at hc
    cases hc
  rw [addBlockToFreeList]
  rcases L with _ | ⟨z, L⟩
  · have hfreed := hL.linkFree (x := []) hs ho hc hb (by simp) (by simp)
    refine ⟨_, _, runs_getHdrBlock.bind ?_, hfreed⟩
    rw [if_pos ((hL.head_eq_neg_one hs).2 rfl)]
    have hstate : a.linkFree o b (firstOf (-1) []) (lastOf (-1) []) =
        { (a.modify o fun _ => { b with isFree := true, nextSib := -1, prevSib := -1 }) with
          hdr := { a.hdr with firstFree := o } } := by
      have h1 := hs.heap_neg_one
      have h2 : (a.modify o fun _ =>
          { b with isFree := true, nextSib := -1, prevSib := -1 }).heap (-1) = none := by
        simp [Cells.modify, h1]
      simp only [Cells.linkFree, firstOf_nil, lastOf_nil, setNext,
        setPrev, modify_of_none h1, modify_of_none h2, if_true]
    rw [hstate]
    exact (runs_writeBlock hc (by exact hb)).bind (runs_setFirstFreeOffSet o)
  have hhead : a.hdr.firstFree = z := hL.head
  have hempty : a.hdr.firstFree ≠ -1 := fun h => by simp [hL.head_eq_neg_one hs] at h
  obtain ⟨x, y, p, d, found, hsplit, hd, hrun, hsmall, hfound⟩ :=
    runs_findInsertionPoint (x := []) hs b.size hL hlen (by simp)
  rw [nil_append] at hsplit
  rw [hsplit] at hL ho hnil ⊢
  obtain ⟨hnext, hprev⟩ := hL.links_eq hd
  have hpo : p ≠ o := fun h => ho (by simp [h])
  have hsmall' : ∀ z ∈ x, a.size z ≤ b.size := fun z hz => UInt32.le_of_lt (hsmall z hz)
  rcases found with _ | _
  · -- append behind the last block
    obtain ⟨hlt, rfl⟩ : a.size p < b.size ∧ y = [] := by simpa using hfound
    have hfreed := FreeInv.linkFree (y := []) (by simpa using hL) hs (by simpa using ho) hc
      hb (by simpa [or_imp, forall_and] using ⟨hsmall', UInt32.le_of_lt hlt⟩) (by simp)
    rw [append_nil] at hfreed
    refine ⟨_, _, runs_getHdrBlock.bind ?_, hfreed⟩
    rw [if_neg hempty, hhead]
    refine runs_stepBound.bind (hrun.bind ?_)
    have hp1 : p ≠ -1 := fun h => hnil (by simp [h])
    have ho' : (a.setNext p o).heap o = some ⟨c.hdr, c.body⟩ := by
      rw [heap_setNext hc, if_neg (Ne.symm hpo)]
    have hnone : ((a.setNext p o).modify o fun _ =>
        { b with isFree := true, nextSib := -1, prevSib := p }).heap (-1) = none := by
      simp [setNext, Cells.modify, hs.heap_neg_one]
    rw [firstOf_nil, lastOf_append, Cells.linkFree, if_neg hp1, setPrev,
      modify_of_none hnone, setNext, ← modify_const hd]
    rw [setNext, ← modify_const hd] at ho'
    exact (runs_writeBlock hd (by rfl)).bind (runs_writeBlock ho' (by exact hb))
  · -- insert before the block
    have hle : b.size ≤ a.size p := by simpa using hfound
    have hsorted := pairwise_cons.1 (pairwise_append.1 hL.sorted).2.1
    have hfreed := hL.linkFree hs ho hc hb hsmall' (forall_mem_cons.2
      ⟨hle, fun z hz => UInt32.le_trans hle (hsorted.1 z hz)⟩)
    refine ⟨_, _, runs_getHdrBlock.bind ?_, hfreed⟩
    rw [if_neg hempty, hhead]
    refine runs_stepBound.bind (hrun.bind ?_)
    have hlink := hL.heap_link hs (hL.neighbours hd).2
    have hpv : ∀ q ∉ x, q ≠ -1 → q ≠ d.hdr.prevSib := by
      rintro q hq h1 rfl
      exact (hprev ▸ lastOf_cases (-1) x).elim h1 hq
    have ho' : (a.setNext d.hdr.prevSib o).heap o = some ⟨c.hdr, c.body⟩ := by
      rw [heap_setNext hc, if_neg (hpv o (fun h => ho (by simp [h])) hone)]
    have hp' : ((a.setNext d.hdr.prevSib o).modify o fun _ =>
        { b with isFree := true, nextSib := p, prevSib := d.hdr.prevSib }).heap p =
        some ⟨d.hdr, d.body⟩ := by
      have hx : p ∉ x := fun h => (nodup_middle.1 hL.nodup).notMem (mem_append_left _ h)
      rw [heap_modify_ne hpo, heap_setNext hd, if_neg (hpv p hx fun h => hnil (by simp [h]))]
    rw [firstOf_cons, ← hprev, Cells.linkFree, setPrev, ← modify_const hp']
    by_cases hp1 : d.hdr.prevSib = -1
    · have hstay : a.setNext d.hdr.prevSib o = a := modify_of_none (hlink.2 (not_not.2 hp1))
      rw [if_pos hp1, hstay]
      rw [hstay] at ho' hp'
      refine (Runs.when_pos hp1 (runs_setFirstFreeOffSet o)).bind
        ((Runs.when_neg (not_not.2 hp1)).bind ?_)
      exact (runs_writeBlock (a := { a with hdr := { a.hdr with firstFree := o } }) ho'
        (by exact hb)).bind (runs_writeBlock (by exact hp') (by rfl))
    · obtain ⟨e, he⟩ := hlink.1 hp1
      rw [if_neg hp1]
      exact (Runs.when_neg hp1).bind ((Runs.when_pos hp1 (runs_updateBlock he rfl)).bind
        ((runs_writeBlock ho' (by exact hb)).bind (runs_writeBlock hp' (by rfl))))

end OpenWbem.Hdb
