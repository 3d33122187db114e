import Mathlib.Data.List.TakeWhile
import OpenWbem.Hdb.Links

/-!
# Reading and writing node objects

What a node object has to do with the block of its node. A node object that has just been read is
determined by the block, the key and the data; one that was read earlier is brought up to date by
`reload`. Writing a node object puts a header, a key and data into the block at its offset.

## Main definitions

* `Cells.nodeObj` — the object of a node that has just been read.
* `HDBNodeData.need` — the number of bytes that a node object needs.

## Main results

* `runs_readNode`, `runs_reload` — reading.
* `runs_writeNode_inPlace` — writing, into a block that is large enough.
-/

namespace OpenWbem.Hdb

open Bytes Extents Prog Cells Hierarchy List Runs Int32

variable {a : Cells} {s : HDB} {t : NodeTable} {o : Int32} {c : Cell HDBBlock} {b : HDBBlock}
  {k : List UInt8} {v : NodeVal} {nd : HDBNodeData}

/-! ### Lengths -/

/-- The content fits the block. -/
lemma Cells.On.fits (hs : a.On s) (hc : a.heap o = some c) :
    blockSize + c.body.length ≤ c.hdr.size.toNat :=
  hs.bytes.holds.fits hc

/-- Small numbers survive the way through the unsigned and the signed type. -/
lemma toInt_toInt32_ofNat {n : ℕ} (h : n < 2 ^ 31) : (UInt32.ofNat n).toInt32.toInt = n := by
  rw [UInt32.toInt32_ofNat', toInt_ofNat_of_lt h]

/-- Small numbers stay the same. -/
lemma toInt_toInt32 {u : UInt32} (h : u.toNat < 2 ^ 31) : u.toInt32.toInt = u.toNat := by
  have := toInt_toInt32_ofNat h
  rwa [UInt32.ofNat_toNat] at this

namespace NodeCell

/-- The length of the content. -/
lemma length_body (h : NodeCell k v c) : c.body.length = k.length + 1 + v.data.length := by
  simp only [h.body, length_append, length_singleton]

/-- The length of the key. -/
lemma toNat_keyLength (h : NodeCell k v c) (hfit : blockSize + c.body.length ≤ c.hdr.size.toNat) :
    c.hdr.keyLength.toNat = k.length + 1 := by
  have hsmall := h.small
  rw [h.length_body] at hfit
  rw [h.keyLength, UInt32.toNat_ofNat_of_lt' (by simp only [UInt32.size]; omega)]

/-- The length of the data. -/
lemma dataLen_eq (h : NodeCell k v c) (hfit : blockSize + c.body.length ≤ c.hdr.size.toNat) :
    c.hdr.dataLen = v.data.length := by
  have hsmall := h.small
  rw [h.length_body] at hfit
  have hsub : c.hdr.dataLength - c.hdr.keyLength = UInt32.ofNat v.data.length := by
    rw [h.dataLength, h.keyLength, Nat.add_assoc, UInt32.ofNat_add, UInt32.add_sub_cancel]
  rw [HDBBlock.dataLen, hsub, toInt_toInt32_ofNat (by omega), Int.toNat_natCast]

end NodeCell

/-- A C string without zero bytes is all of its bytes. -/
lemma cString_append_zero (h : (0 : UInt8) ∉ k) (w : List UInt8) : cString (k ++ 0 :: w) = k := by
  rw [cString, takeWhile_append_of_pos fun x hx => by simpa using ne_of_mem_of_not_mem hx h]
  simp

/-- A key without a zero byte. -/
lemma cString_eq (h : (0 : UInt8) ∉ k) : cString k = k :=
  takeWhile_eq_self_iff.2 fun x hx => by simpa using ne_of_mem_of_not_mem hx h

/-! ### Reading -/

/-- Looking for a missing key. -/
lemma runs_findIndexEntry_none (h : LiveInv a t) (hk : k ∉ keys t) :
    Runs a.On (findIndexEntry k) (.ok none) a.On := by
  rw [← h.find_eq_none hk]
  exact runs_findIndexEntry k

/-- Looking for a key. -/
lemma runs_findIndexEntry_some (h : LiveInv a t) (hk : k ∈ keys t) :
    Runs a.On (findIndexEntry k) (.ok (some (a.loc k))) a.On := by
  rw [← h.find_eq hk]
  exact runs_findIndexEntry k

/-- The object of the node with key `k` and contents `v` that has just been read from the block `c`
at `o`. -/
def Cells.nodeObj (a : Cells) (o : Int32) (c : Cell HDBBlock) (k : List UInt8) (v : NodeVal) :
    HDBNodeData :=
  { blk := c.hdr, key := k, bfr := v.data, offset := o, version := a.version }

/-- The object is that of the node `k` with the contents `v`, as it is on file. -/
def Cells.Current (a : Cells) (k : List UInt8) (v : NodeVal) (nd : HDBNodeData) : Prop :=
  ∃ c, a.heap (a.loc k) = some c ∧ NodeCell k v c ∧ nd = a.nodeObj (a.loc k) c k v

/-- Reading the key of a node. -/
lemma runs_fileRead_key (hc : a.heap o = some c) (hn : NodeCell k v c)
    (hfit : blockSize + c.body.length ≤ c.hdr.size.toNat) :
    Runs (a.OnAt (blockLayout.pos o + blockSize)) (fileRead c.hdr.keyLength.toNat) (.ok (k ++ [0]))
      (a.OnAt (blockLayout.pos o + blockSize + (k ++ [0]).length)) := by
  refine runs_fileRead fun bs hbs => ?_
  have hbody := (hbs.holds.slices hc).2
  have hlen := hn.length_body
  rw [hn.toNat_keyLength hfit, ← take_slice (n := c.body.length) (by omega)]
  rw [blockLayout_hsz] at hbody
  rw [hbody, hn.body, take_append_of_le_length (by simp), take_of_length_le (by simp)]

/-- Reading its data. -/
lemma runs_fileRead_data (hc : a.heap o = some c) (hn : NodeCell k v c)
    (hfit : blockSize + c.body.length ≤ c.hdr.size.toNat) :
    Runs (a.OnAt (blockLayout.pos o + blockSize + (k ++ [0]).length)) (fileRead c.hdr.dataLen)
      (.ok v.data) a.On := by
  refine (runs_fileRead fun bs hbs => ?_).weaken (fun _ h => h) fun _ h => h.1
  have hbody := (hbs.holds.slices hc).2
  have hhigh := hbs.holds.high hc
  have hlen : (k ++ [0]).length + v.data.length = c.body.length := by
    rw [hn.body, ← length_append]
  rw [blockLayout_ext] at hhigh
  rw [blockLayout_hsz, hn.body, length_append, slice_append (by omega)] at hbody
  rw [hn.dataLen_eq hfit]
  exact (append_inj hbody (length_slice_of_le (by omega))).2

/-- **Reading a node.** -/
lemma runs_readNode (hc : a.heap o = some c) (hn : NodeCell k v c) :
    Runs a.On (readNode o) (.ok (some (a.nodeObj o c k v))) a.On := by
  refine .assume fun s hs => ?_
  have hfit := hs.fits hc
  have hpos : ¬ o ≤ 0 := Int32.not_le.2 (hs.pos hc)
  rw [readNode]
  refine (when_neg hpos).bind ?_
  refine (runs_readBlock_at hc).bind ?_
  rw [if_neg (by simp [hn.live])]
  refine (runs_fileRead_key hc hn hfit).bind ?_
  refine (when_neg (by simp [hn.toNat_keyLength hfit])).bind ?_
  refine (runs_fileRead_data hc hn hfit).bind ?_
  refine (when_neg (by simp [hn.dataLen_eq hfit])).bind ?_
  refine .gets fun s' hs' => ?_
  simp [hs'.memory.version, hn.toNat_keyLength hfit, nodeObj]

/-- Reading a free block. -/
lemma runs_readNode_free (hc : a.heap o = some c) (hfree : c.hdr.isFree) :
    Runs a.On (readNode o) (.ok none) a.On := by
  refine .assume fun s hs => ?_
  rw [readNode]
  refine (when_neg (Int32.not_le.2 (hs.pos hc))).bind ((runs_readBlock hc).bind ?_)
  rw [if_pos hfree]
  exact .pure _

/-- A node object that is up to date, or has never been written. -/
lemma runs_reload (h : nd.offset ≤ 0 ∨ nd.version = a.version) :
    Runs a.On (reload nd) (.ok (some nd)) a.On := by
  intro s hs
  refine ⟨s, ?_, hs⟩
  rw [reload, exec_get_bind, hs.memory.version]
  rcases h with h | h
  · rw [if_pos h, exec_pure]
  · rw [if_pos h.symm, ite_self, exec_pure]

/-- A node object that was read before the last write is read again. -/
lemma runs_reload_stale (ho : nd.offset = o) (hc : a.heap o = some c) (hn : NodeCell nd.key v c)
    (hkey : (0 : UInt8) ∉ nd.key) (hver : nd.version ≠ a.version) :
    Runs a.On (reload nd) (.ok (some (a.nodeObj o c nd.key v))) a.On := by
  have hfile : Runs a.On (reloadFromFile nd) (.ok (some (a.nodeObj o c nd.key v))) a.On := by
    refine .assume fun s hs => ?_
    have hfit := hs.fits hc
    rw [reloadFromFile, ho]
    refine (tryCatch_ok ((runs_readBlock_at hc).map some)).bind ?_
    dsimp only
    rw [if_neg (by simp [hn.live])]
    refine (runs_fileRead_key hc hn hfit).bind ?_
    rw [if_neg (by simp [hn.toNat_keyLength hfit]), cString_eq hkey, cString_append_zero hkey [],
      if_neg (by simp)]
    refine (runs_fileRead_data hc hn hfit).bind ?_
    rw [if_neg (by simp [hn.dataLen_eq hfit])]
    refine .gets fun s' hs' => ?_
    rw [hs'.memory.version, nodeObj]
  intro s hs
  obtain ⟨s', hexec, hs'⟩ := hfile s hs
  refine ⟨s', ?_, hs'⟩
  have hpos : ¬ nd.offset ≤ 0 := by rw [ho]; exact Int32.not_le.2 (hs.pos hc)
  rw [reload, exec_get_bind, hs.memory.version, if_neg hpos, if_neg (Ne.symm hver), hexec]

/-- A node object is null after it was read again, if its block is free or belongs to another
node. -/
lemma runs_reload_gone (hc : a.heap nd.offset = some c) (hkey : (0 : UInt8) ∉ nd.key)
    (hver : nd.version ≠ a.version)
    (hgone : c.hdr.isFree ∨ ∃ k v, k ≠ nd.key ∧ (0 : UInt8) ∉ k ∧ NodeCell k v c) :
    Runs a.On (reload nd) (.ok none) a.On := by
  have hfile : Runs a.On (reloadFromFile nd) (.ok none) a.On := by
    refine .assume fun s hs => ?_
    have hfit := hs.fits hc
    rw [reloadFromFile]
    refine (tryCatch_ok ((runs_readBlock_at hc).map some)).bind ?_
    dsimp only
    rcases hgone with hfree | ⟨k, v, hk, h0, hn⟩
    · rw [if_pos hfree]
      exact (pure _).weaken (fun _ h => h.1) fun _ h => h
    · rw [if_neg (by simp [hn.live])]
      refine (runs_fileRead_key hc hn hfit).bind ?_
      rw [if_neg (by simp [hn.toNat_keyLength hfit]), cString_eq hkey, cString_append_zero h0 [],
        if_pos (Ne.symm hk)]
      exact (pure _).weaken (fun _ h => h.1) fun _ h => h
  intro s hs
  obtain ⟨s', hexec, hs'⟩ := hfile s hs
  refine ⟨s', ?_, hs'⟩
  rw [reload, exec_get_bind, hs.memory.version,
    if_neg (Int32.not_le.2 (hs.pos hc)), if_neg (Ne.symm hver), hexec]

/-! ### Writing -/

/-- The number of bytes that a node object needs on file. -/
def HDBNodeData.need (nd : HDBNodeData) : ℕ := blockSize + (nd.key.length + 1 + nd.bfr.length)

namespace HDBNodeData

/-- The size of a node. -/
lemma totalSize_eq (nd : HDBNodeData) : nd.totalSize = ofNat nd.need := by
  rw [totalSize, ← UInt32.ofNat_add, UInt32.toInt32_ofNat', need]
  congr 1
  omega

/-- The size as stored. -/
lemma toUInt32_totalSize (nd : HDBNodeData) : nd.totalSize.toUInt32 = UInt32.ofNat nd.need := by
  rw [totalSize_eq, toUInt32_ofNat']

/-- The signed comparison of a size with the one of a block. -/
lemma totalSize_gt_iff (h : nd.need < 2 ^ 31) (hb : b.size.toNat < 2 ^ 31) :
    nd.totalSize > b.size.toInt32 ↔ b.size.toNat < nd.need := by
  rw [gt_iff_lt, lt_iff_toInt_lt, toInt_toInt32 hb, totalSize_eq, toInt_ofNat_of_lt h]
  omega

end HDBNodeData

/-- The block that `HDBNode::write` leaves behind. -/
def HDBNodeData.cell (nd : HDBNodeData) : Cell HDBBlock := ⟨nd.prepare.blk, nd.key ++ [0] ++ nd.bfr⟩

/-- What is written is a block of the node. -/
lemma HDBNodeData.nodeCell (hsmall : nd.blk.size.toNat < 2 ^ 31) :
    NodeCell nd.key ⟨nd.blk.flags, nd.bfr⟩ nd.cell :=
  ⟨rfl, rfl, rfl, rfl, rfl, hsmall⟩

/-- The size and the content. -/
lemma HDBNodeData.length_cell_body (nd : HDBNodeData) :
    blockSize + nd.cell.body.length = nd.need := by
  simp [cell, need]
  omega

/-- **Key and data behind a header** that has just been written complete the block. -/
lemma runs_writeBody (hr : a.Room o nd.blk.size.toNat) (hfit : nd.need ≤ nd.blk.size.toNat)
    (hend : a.heap o = none → nd.blk.size.toNat ≤ nd.need) :
    Runs (a.Pending o (encodeBlock nd.prepare.blk)) (writeBody nd.prepare)
      (.ok { nd.prepare with version := a.version + 1 })
      { a.put o nd.cell with version := a.version + 1 }.On := by
  rw [writeBody]
  refine runs_fileWrite.bind ?_
  refine runs_fileWrite.bind ?_
  refine bind ?_ (.pure _)
  refine (runs_registerWrite (a := a.put o nd.cell)).weaken (fun s hs => ?_) fun _ h => h
  rw [append_assoc] at hs
  have hlen := nd.length_cell_body
  exact hs.commit hr (by rw [hlen]; exact hfit) fun h => by rw [hlen]; exact hend h

/-- **Writing a node into its own block**, which is large enough. -/
lemma runs_writeNode_inPlace (nd : HDBNodeData) (ho : nd.offset = o) (hc : a.heap o = some c)
    (hsize : nd.blk.size = c.hdr.size) (hsmall : c.hdr.size.toNat < 2 ^ 31)
    (hfit : nd.need ≤ c.hdr.size.toNat) :
    Runs a.On (writeNode nd) (.ok { nd.prepare with version := a.version + 1 })
      { a.put o nd.cell with version := a.version + 1 }.On := by
  subst ho
  refine .assume fun s hs => ?_
  have hpos : ¬ nd.offset ≤ 0 := Int32.not_le.2 (hs.pos hc)
  have hroom : a.Room nd.offset nd.blk.size.toNat := .inl ⟨c, hc, by rw [hsize]⟩
  have hgt : ¬ nd.totalSize > nd.prepare.blk.size.toInt32 := by
    rw [HDBNodeData.totalSize_gt_iff (by omega)]
    · change ¬ nd.blk.size.toNat < _
      rw [hsize]
      omega
    · change nd.blk.size.toNat < _
      rwa [hsize]
  rw [writeNode, if_neg hpos, writeExisting, if_neg hgt]
  refine bind (bind (runs_writeBlock_pending (o := nd.offset) hroom) (.pure _)) ?_
  exact runs_writeBody hroom (by rw [hsize]; exact hfit) fun h => by rw [hc] at h; cases h

end OpenWbem.Hdb
