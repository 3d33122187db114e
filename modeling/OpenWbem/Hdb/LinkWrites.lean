import OpenWbem.Hdb.NodeFile

/-!
# Writing links

The functions of the database that patch the links around a node: the head and the tail of a list
of children, the neighbours of a node that leaves its list, and the parents of its children. Each
is shown to make one change of the collection of blocks.

## Main definitions

* `Cells.replaceEnds` — the ends of a list of children.
* `Cells.unlinked` — a node is out of its list.
* `Cells.setParents` — the parent of several nodes.

## Main results

* `runs_updateEnds`, `runs_unlink`, `runs_updateChildren` — what the functions do.
-/

namespace OpenWbem.Hdb

open Bytes Extents Prog Cells Hierarchy LiveInv
open DLinked (firstOf lastOf)

variable {a a' : Cells} {s : HDB} {t : NodeTable} {o x par old fst lst : Int32}
  {c : Cell HDBBlock} {b : HDBBlock} {nd : HDBNodeData} {l : List Int32}

/-! ### The ends of a list of children -/

/-- Replace the head and the tail of a list of children where they are equal to `old`. -/
def HDBBlock.replaceEnds (b : HDBBlock) (old fst lst : Int32) : HDBBlock :=
  { b with
    firstChild := if b.firstChild = old then fst else b.firstChild
    lastChild := if b.lastChild = old then lst else b.lastChild }

namespace Cells

/-- The state after `updateEnds`. -/
def replaceEnds (a : Cells) (par old fst lst : Int32) : Cells :=
  if 0 < par then a.modify par fun b => b.replaceEnds old fst lst
  else
    { a with hdr := { a.hdr with
      firstRoot := if a.hdr.firstRoot = old then fst else a.hdr.firstRoot
      lastRoot := if a.hdr.lastRoot = old then lst else a.hdr.lastRoot } }

/-- The cells after replacing ends. -/
lemma heap_replaceEnds (hc : a.heap x = some c) (par old fst lst : Int32) :
    (a.replaceEnds par old fst lst).heap x =
      some ⟨if 0 < par ∧ x = par then c.hdr.replaceEnds old fst lst else c.hdr, c.body⟩ := by
  rw [replaceEnds]
  split
  · next h =>
    rw [heap_modify_of_heap hc]
    simp [h]
  · next h => simp [h, hc]

/-- Other cells stay. -/
lemma heap_replaceEnds_ne (h : x ≠ par) : (a.replaceEnds par old fst lst).heap x = a.heap x := by
  rw [replaceEnds]
  split
  · exact heap_modify_ne h
  · rfl

/-- The index, the version and the length stay. -/
lemma replaceEnds_rest (a : Cells) (par old fst lst : Int32) :
    (a.replaceEnds par old fst lst).index = a.index ∧
      (a.replaceEnds par old fst lst).version = a.version ∧
      (a.replaceEnds par old fst lst).len = a.len := by
  rw [replaceEnds]
  split <;> exact ⟨rfl, rfl, rfl⟩

/-- The sizes stay. -/
lemma size_replaceEnds : (a.replaceEnds par old fst lst).size = a.size := by
  rw [replaceEnds]
  split
  · exact field_modify_of_eq fun _ => rfl
  · rfl

/-- The ends of the roots. -/
lemma hdr_replaceEnds : (a.replaceEnds par old fst lst).hdr =
    if 0 < par then a.hdr
    else { a.hdr with
      firstRoot := if a.hdr.firstRoot = old then fst else a.hdr.firstRoot
      lastRoot := if a.hdr.lastRoot = old then lst else a.hdr.lastRoot } := by
  rw [replaceEnds]
  split <;> rfl

/-- The same header again. -/
lemma modify_self (hc : a.heap o = some c) : a.modify o (fun _ => c.hdr) = a := by
  have : (a.modify o fun _ => c.hdr).heap = a.heap := by
    rw [heap_modify hc]
    exact Function.update_eq_self_iff.2 hc.symm
  calc a.modify o (fun _ => c.hdr) = { a with heap := (a.modify o fun _ => c.hdr).heap } := rfl
    _ = a := by rw [this]

end Cells

/-- **The ends of a list of children** are replaced. -/
lemma runs_updateEnds (h : 0 < par → ∃ c, a.heap par = some c) :
    Runs a.On (updateEnds par old fst lst) (.ok ()) (a.replaceEnds par old fst lst).On := by
  rw [updateEnds, replaceEnds]
  by_cases hpar : 0 < par
  · obtain ⟨c, hc⟩ := h hpar
    rw [if_pos hpar, if_pos hpar]
    refine (runs_readBlock hc).bind ?_
    rw [← modify_const hc]
    by_cases hold : c.hdr.firstChild = old ∨ c.hdr.lastChild = old
    · exact .when_pos hold (runs_writeBlock hc rfl)
    · have hsame : c.hdr.replaceEnds old fst lst = c.hdr := by
        rw [not_or] at hold
        rw [HDBBlock.replaceEnds, if_neg hold.1, if_neg hold.2]
      rw [hsame, modify_self hc]
      exact .when_neg hold
  · rw [if_neg hpar, if_neg hpar]
    refine runs_getHdrBlock.bind ?_
    have hfirst : Runs a.On (when (a.hdr.firstRoot = old) (setFirstRootOffSet fst)) (.ok ())
        { a with hdr := { a.hdr with
          firstRoot := if a.hdr.firstRoot = old then fst else a.hdr.firstRoot } }.On := by
      split_ifs with hold
      · exact .when_pos hold (runs_setFirstRootOffSet fst)
      · exact .when_neg hold
    refine hfirst.bind (runs_getHdrBlock.bind ?_)
    by_cases hold : a.hdr.lastRoot = old
    · rw [if_pos hold]
      exact .when_pos hold (runs_setLastRootOffset lst)
    · rw [if_neg hold]
      exact .when_neg hold

/-! ### A node that leaves its list -/

/-- The header of a block after a node with the links of `nd` has left its list. -/
def hdrUnlinked (nd : HDBNodeData) (x : Int32) (b : HDBBlock) : HDBBlock :=
  { b with
    nextSib := if x = nd.blk.prevSib then nd.blk.nextSib else b.nextSib
    prevSib := if x = nd.blk.nextSib then nd.blk.prevSib else b.prevSib
    firstChild := if 0 < nd.blk.parent ∧ x = nd.blk.parent ∧ b.firstChild = nd.offset
      then nd.blk.nextSib else b.firstChild
    lastChild := if 0 < nd.blk.parent ∧ x = nd.blk.parent ∧ b.lastChild = nd.offset
      then nd.blk.prevSib else b.lastChild }

namespace Cells

/-- The state after `unlink`. -/
def unlinked (a : Cells) (nd : HDBNodeData) : Cells :=
  ((a.setPrev nd.blk.nextSib nd.blk.prevSib).setNext nd.blk.prevSib nd.blk.nextSib).replaceEnds
    nd.blk.parent nd.offset nd.blk.nextSib nd.blk.prevSib

/-- The cells after unlinking a node. -/
lemma heap_unlinked (hc : a.heap x = some c) (nd : HDBNodeData) :
    (a.unlinked nd).heap x = some ⟨hdrUnlinked nd x c.hdr, c.body⟩ := by
  rw [unlinked, heap_replaceEnds (heap_setNext (heap_setPrev hc _ _) _ _)]
  congr 2
  simp only [hdrUnlinked, HDBBlock.replaceEnds]
  by_cases h : 0 < nd.blk.parent ∧ x = nd.blk.parent <;> simp [h, ← and_assoc]

/-- Other cells stay. -/
lemma heap_unlinked_ne (h1 : x ≠ nd.blk.nextSib) (h2 : x ≠ nd.blk.prevSib)
    (h3 : x ≠ nd.blk.parent) : (a.unlinked nd).heap x = a.heap x := by
  rw [unlinked, heap_replaceEnds_ne h3, setNext, heap_modify_ne h2, setPrev, heap_modify_ne h1]

/-- The index stays. -/
@[simp] lemma index_unlinked : (a.unlinked nd).index = a.index := by
  rw [unlinked, (replaceEnds_rest ..).1]
  rfl

/-- The version stays. -/
@[simp] lemma version_unlinked : (a.unlinked nd).version = a.version := by
  rw [unlinked, (replaceEnds_rest ..).2.1]
  rfl

/-- The length stays. -/
@[simp] lemma len_unlinked : (a.unlinked nd).len = a.len := by
  rw [unlinked, (replaceEnds_rest ..).2.2]
  rfl

/-- The sizes stay. -/
@[simp] lemma size_unlinked : (a.unlinked nd).size = a.size := by
  rw [unlinked, size_replaceEnds, size_setNext, size_setPrev]

/-- The ends of the roots. -/
lemma hdr_unlinked : (a.unlinked nd).hdr =
    if 0 < nd.blk.parent then a.hdr
    else { a.hdr with
      firstRoot := if a.hdr.firstRoot = nd.offset then nd.blk.nextSib else a.hdr.firstRoot
      lastRoot := if a.hdr.lastRoot = nd.offset then nd.blk.prevSib else a.hdr.lastRoot } :=
  hdr_replaceEnds

end Cells

/-- **A node leaves its list.** -/
lemma runs_unlink (hn : IsLink a nd.blk.nextSib) (hp : IsLink a nd.blk.prevSib)
    (hpar : IsLink a nd.blk.parent) : Runs a.On (unlink nd) (.ok ()) (a.unlinked nd).On := by
  rw [unlink]
  refine Runs.bind (.assume fun s hs => runs_when_setPrev hn.heap (hn.heap_none hs)) ?_
  have hp' : IsLink (a.setPrev nd.blk.nextSib nd.blk.prevSib) nd.blk.prevSib :=
    hp.mono fun hc => ⟨_, heap_setPrev hc _ _⟩
  refine Runs.bind (.assume fun s hs => runs_when_setNext hp'.heap (hp'.heap_none hs)) ?_
  have hpar' : IsLink ((a.setPrev nd.blk.nextSib nd.blk.prevSib).setNext nd.blk.prevSib
      nd.blk.nextSib) nd.blk.parent :=
    hpar.mono fun hc => ⟨_, heap_setNext (heap_setPrev hc _ _) _ _⟩
  exact runs_updateEnds hpar'.heap

/-! ### The parent of all children -/

/-- Set the parent of several blocks. -/
def Cells.setParents (a : Cells) : List Int32 → Int32 → Cells
  | [], _ => a
  | x :: l, v => (a.modify x fun b => { b with parent := v }).setParents l v

/-- The cells after setting parents. -/
lemma Cells.heap_setParents (l : List Int32) (v : Int32) (hc : a.heap x = some c) :
    (a.setParents l v).heap x =
      some ⟨{ c.hdr with parent := if x ∈ l then v else c.hdr.parent }, c.body⟩ := by
  induction l generalizing a c with
  | nil => simpa [setParents] using hc
  | cons y l ih =>
    rw [setParents, ih (heap_modify_of_heap hc y _)]
    by_cases hxy : x = y <;> by_cases hxl : x ∈ l <;> simp [hxy]

/-- **The loop over all children.** -/
lemma runs_updateChildren {v : Int32} : ∀ {l : List Int32} {n : ℕ} {a : Cells},
    (∀ x ∈ l, ∃ c, a.heap x = some c) →
    (∀ {i x}, l[i]? = some x → a.next x = l[i + 1]?.getD (-1)) → l.length < n →
    Runs a.On (updateChildren v n (firstOf (-1) l)) (.ok ()) (a.setParents l v).On
  | [], n + 1, a, _, _, _ => .when_neg (by decide)
  | x :: l, n + 1, a, hheap, hnext, hn => by
    obtain ⟨c, hc⟩ := hheap x List.mem_cons_self
    refine .assume fun s hs => ?_
    change Runs a.On (updateChildren v (n + 1) x) _ _
    rw [updateChildren]
    refine .when_pos (hs.pos hc) ?_
    refine (runs_readBlock hc).bind ?_
    have hnx : c.hdr.nextSib = firstOf (-1) l := by
      have := hnext (i := 0) rfl
      rw [next, field_eq hc] at this
      rw [this]
      cases l <;> rfl
    refine (runs_writeBlock hc (by rfl)).bind ?_
    rw [modify_const hc fun b => { b with parent := v }, hnx]
    refine runs_updateChildren (fun y hy => ?_) (fun {i y} hy => ?_) (Nat.lt_of_succ_lt_succ hn)
    · obtain ⟨d, hd⟩ := hheap y (List.mem_cons_of_mem _ hy)
      exact ⟨_, heap_modify_of_heap hd _ _⟩
    · have hsame : (a.modify x fun b => { b with parent := v }).next = a.next :=
        field_modify_of_eq fun _ => rfl
      rw [hsame]
      exact hnext hy

/-! ### A node that goes to another block -/

/-- The header of a block after a node with the links of `nd` and the children `l` has gone to the
offset `o`. -/
def hdrRelinked (nd : HDBNodeData) (l : List Int32) (o x : Int32) (b : HDBBlock) : HDBBlock :=
  { b with
    nextSib := if x = nd.blk.prevSib then o else b.nextSib
    prevSib := if x = nd.blk.nextSib then o else b.prevSib
    parent := if x ∈ l then o else b.parent
    firstChild := if 0 < nd.blk.parent ∧ x = nd.blk.parent ∧ b.firstChild = nd.offset
      then o else b.firstChild
    lastChild := if 0 < nd.blk.parent ∧ x = nd.blk.parent ∧ b.lastChild = nd.offset
      then o else b.lastChild }

namespace Cells

/-- The state after `updateOffsets`, but for the index. -/
def relinked (a : Cells) (nd : HDBNodeData) (l : List Int32) (o : Int32) : Cells :=
  (((a.setNext nd.blk.prevSib o).setPrev nd.blk.nextSib o).replaceEnds nd.blk.parent nd.offset o
    o).setParents l o

/-- The cells after relinking a node. -/
lemma heap_relinked (hc : a.heap x = some c) (nd : HDBNodeData) (l : List Int32) (o : Int32) :
    (a.relinked nd l o).heap x = some ⟨hdrRelinked nd l o x c.hdr, c.body⟩ := by
  rw [relinked, heap_setParents _ _ (heap_replaceEnds (heap_setPrev (heap_setNext hc _ _) _ _) ..)]
  congr 2
  simp only [hdrRelinked, HDBBlock.replaceEnds]
  by_cases h : 0 < nd.blk.parent ∧ x = nd.blk.parent <;> simp [h, ← and_assoc]

/-- All the rest stays. -/
lemma setParents_rest (a : Cells) (l : List Int32) (v : Int32) :
    (a.setParents l v).hdr = a.hdr ∧ (a.setParents l v).version = a.version ∧
      (a.setParents l v).index = a.index ∧ (a.setParents l v).len = a.len := by
  induction l generalizing a with
  | nil => exact ⟨rfl, rfl, rfl, rfl⟩
  | cons x l ih => exact ih _

/-- Other cells stay. -/
lemma heap_setParents_ne {v : Int32} (h : x ∉ l) : (a.setParents l v).heap x = a.heap x := by
  induction l generalizing a with
  | nil => rfl
  | cons y l ih =>
    rw [List.mem_cons, not_or] at h
    rw [setParents, ih h.2, heap_modify_ne h.1]

/-- Other cells stay. -/
lemma heap_relinked_ne (h1 : x ≠ nd.blk.prevSib) (h2 : x ≠ nd.blk.nextSib)
    (h3 : x ≠ nd.blk.parent) (h4 : x ∉ l) : (a.relinked nd l o).heap x = a.heap x := by
  rw [relinked, heap_setParents_ne h4, heap_replaceEnds_ne h3, setPrev, heap_modify_ne h2, setNext,
    heap_modify_ne h1]

/-- The ends of the roots. -/
lemma hdr_relinked : (a.relinked nd l o).hdr =
    if 0 < nd.blk.parent then a.hdr
    else { a.hdr with
      firstRoot := if a.hdr.firstRoot = nd.offset then o else a.hdr.firstRoot
      lastRoot := if a.hdr.lastRoot = nd.offset then o else a.hdr.lastRoot } := by
  rw [relinked, (setParents_rest _ l o).1]
  exact hdr_replaceEnds

/-- The version, the index and the length stay. -/
lemma relinked_rest : (a.relinked nd l o).version = a.version ∧
    (a.relinked nd l o).index = a.index ∧ (a.relinked nd l o).len = a.len := by
  obtain ⟨-, hversion, hindex, hlen⟩ := setParents_rest _ l o
  rw [relinked, hversion, hindex, hlen]
  obtain ⟨hindex, hversion, hlen⟩ := replaceEnds_rest _ _ _ _ _
  exact ⟨hversion, hindex, hlen⟩

end Cells

/-- **Everything that points to a node** points to its new offset. -/
lemma runs_updateOffsets (old : Int32) (hpos : 0 < o) (hn : IsLink a nd.blk.nextSib)
    (hp : IsLink a nd.blk.prevSib) (hpar : IsLink a nd.blk.parent)
    (hfirst : nd.blk.firstChild = firstOf (-1) l) (hheap : ∀ x ∈ l, ∃ c, a.heap x = some c)
    (hnext : ∀ {i x}, l[i]? = some x → a.next x = l[i + 1]?.getD (-1)) (hsep : nd.blk.prevSib ∉ l)
    (hlen : l.length ≤ a.len) (hidx : a.index.find nd.key = some old) :
    Runs a.On (updateOffsets nd o) (.ok { nd with offset := o })
      { a.relinked nd l o with index := a.index.put nd.key o }.On := by
  rw [updateOffsets, if_neg (Int32.not_le.2 hpos)]
  refine Runs.bind (.assume fun s hs => runs_when_setNext hp.heap (hp.heap_none hs)) ?_
  have hn' : IsLink (a.setNext nd.blk.prevSib o) nd.blk.nextSib :=
    hn.mono fun hc => ⟨_, heap_setNext hc _ _⟩
  refine Runs.bind (.assume fun s hs => runs_when_setPrev hn'.heap (hn'.heap_none hs)) ?_
  have hpar' : IsLink ((a.setNext nd.blk.prevSib o).setPrev nd.blk.nextSib o) nd.blk.parent :=
    hpar.mono fun hc => ⟨_, heap_setPrev (heap_setNext hc _ _) _ _⟩
  refine (runs_updateEnds hpar'.heap).bind ?_
  refine runs_stepBound.bind ?_
  have hlen' : l.length < (((a.setNext nd.blk.prevSib o).setPrev nd.blk.nextSib o).replaceEnds
      nd.blk.parent nd.offset o o).len + 1 := by
    rw [(replaceEnds_rest ..).2.2]
    exact Nat.lt_succ_of_le hlen
  rw [hfirst]
  refine (runs_updateChildren (fun x hx => ?_) (fun {i x} hx => ?_) hlen').bind ?_
  · obtain ⟨c, hc⟩ := hheap x hx
    exact ⟨_, heap_replaceEnds (heap_setPrev (heap_setNext hc _ _) _ _) ..⟩
  · have hmem := List.mem_of_getElem? hx
    obtain ⟨c, hc⟩ := hheap x hmem
    rw [← hnext hx, next, next, field_eq hc,
      field_eq (heap_replaceEnds (heap_setPrev (heap_setNext hc _ _) _ _) ..)]
    have hne : x ≠ nd.blk.prevSib := ne_of_mem_of_not_mem hmem hsep
    split <;> rfl
  · have hidx' : (a.relinked nd l o).index.find nd.key = some old := by rw [relinked_rest.2.1, hidx]
    have hupd := runs_updateIndexEntry o hidx'
    rw [relinked_rest.2.1] at hupd
    exact hupd.bind (.pure _)

end OpenWbem.Hdb
