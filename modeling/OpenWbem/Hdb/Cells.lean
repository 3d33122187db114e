import OpenWbem.Hdb.Node

/-!
# The database as a collection of blocks

Between the bytes of the data file and the hierarchy of nodes lies the collection of blocks that
the file holds. `Cells` is that collection, together with the header, the version and the index,
and `Cells.On` says that a database is in the state it describes: every block reads back from the
file and no two extents overlap.

This file proves, once for each primitive operation, what it does to the collection. All later
proofs about the database work with collections and never with bytes.

While a block is being written, header first and then key and data, the file is not in the state
of any collection; `Cells.Pending` describes it until `Cells.Pending.commit`.

## Main definitions

* `Cells`, `Cells.On` — a collection of blocks, and a database in that state.
* `Cells.modify`, `Cells.put` — changing the header of a block; writing a block.
* `Cells.Room` — an offset at which a block of a given size can be written.

## Main results

* `runs_readBlock`, `runs_writeBlock`, `runs_updateBlock` — blocks.
* `Cells.Pending.commit` — a block has been written completely.
-/

namespace OpenWbem.Hdb

open Bytes Extents Prog

/-! ### Collections of blocks -/

/-- The blocks of a database, its header, version and index, and the length of its file. -/
structure Cells where
  heap : Int32 → Option (Cell HDBBlock)
  hdr : HDBHeaderBlock
  version : Int32
  index : OrderedIndex (List UInt8) Int32
  len : ℕ

namespace Cells

/-- The bytes of a file hold the collection. -/
structure OnBytes (a : Cells) (bs : List UInt8) : Prop where
  holds : Holds blockLayout headerSize bs a.heap
  header : slice bs 0 headerSize = encodeHeader a.hdr
  length : bs.length = a.len
  low : headerSize ≤ a.len

/-- What is kept in memory agrees with the collection. -/
structure InMemory (a : Cells) (s : HDB) : Prop where
  hdr : s.hdrBlock = a.hdr
  version : s.version = a.version
  index : s.index = a.index

/-- The database `s` is in the state described by `a`. -/
structure On (a : Cells) (s : HDB) : Prop where
  bytes : a.OnBytes s.file.bytes
  memory : a.InMemory s

/-- The database is in the state `a`, and its file at the position `p`. -/
def OnAt (a : Cells) (p : ℕ) (s : HDB) : Prop := a.On s ∧ s.file.pos = p

/-- The bytes `w` have been written at `o` in the state `a`, and the file is behind them. -/
def Pending (a : Cells) (o : Int32) (w : List UInt8) (s : HDB) : Prop :=
  ∃ bs, a.OnBytes bs ∧ s.file.bytes = patch bs (blockLayout.pos o) w ∧
    s.file.pos = blockLayout.pos o + w.length ∧ a.InMemory s

/-- Change the header of the block at `o`, if there is one. -/
def modify (a : Cells) (o : Int32) (f : HDBBlock → HDBBlock) : Cells :=
  { a with
    heap := fun x => if x = o then (a.heap x).map fun c => ⟨f c.hdr, c.body⟩ else a.heap x }

/-- Write a block. -/
def put (a : Cells) (o : Int32) (c : Cell HDBBlock) : Cells :=
  { a with
    heap := Function.update a.heap o (some c)
    len := max a.len (blockLayout.pos o + blockSize + c.body.length) }

/-- A block of `n` bytes can be written at `o`: there is a block of that size, or the file ends
there. -/
def Room (a : Cells) (o : Int32) (n : ℕ) : Prop :=
  (∃ c, a.heap o = some c ∧ n ≤ c.hdr.size.toNat) ∨ (a.heap o = none ∧ o.toInt = a.len)

variable {a : Cells} {s : HDB} {o : Int32} {c : Cell HDBBlock} {b : HDBBlock} {w : List UInt8}

/-- Where a block begins. -/
@[simp] lemma blockLayout_pos (o : Int32) : blockLayout.pos o = o.toInt.toNat := rfl

/-- The size of its header. -/
@[simp] lemma blockLayout_hsz : blockLayout.hsz = blockSize := rfl

/-- The bytes of its header. -/
@[simp] lemma blockLayout_enc (b : HDBBlock) : blockLayout.enc b = encodeBlock b := rfl

/-- The size of the block. -/
@[simp] lemma blockLayout_ext (b : HDBBlock) : blockLayout.ext b = b.size.toNat := rfl

/-- Blocks are behind the file header. -/
lemma OnBytes.header_le (h : a.OnBytes w) (hc : a.heap o = some c) :
    (headerSize : Int) ≤ o.toInt := by
  have := h.holds.low hc
  simp only [blockLayout_pos, headerSize] at this ⊢
  omega

/-- Offsets of blocks are positive. -/
lemma OnBytes.pos (h : a.OnBytes w) (hc : a.heap o = some c) : 0 < o := by
  have := h.header_le hc
  rw [Int32.lt_iff_toInt_lt]
  simp only [headerSize] at this
  simpa using by omega

/-- Offsets of blocks are positive. -/
lemma On.pos (h : a.On s) (hc : a.heap o = some c) : 0 < o := h.bytes.pos hc

/-- The position in the file does not matter. -/
lemma On.at (h : a.On s) (p : ℕ) : a.On { s with file := { s.file with pos := p } } :=
  ⟨h.bytes, ⟨h.memory.hdr, h.memory.version, h.memory.index⟩⟩

end Cells

open Cells

variable {a : Cells} {o : Int32} {c : Cell HDBBlock} {b : HDBBlock} {w : List UInt8}

/-! ### Reading -/

variable {i : Int} {n : ℕ} {p : Prop}

/-- Seeking to an offset. -/
private lemma seek_of_nonneg {f : ByteFile} (h : 0 ≤ i) :
    f.seek i = some { f with pos := i.toNat } := by
  rw [ByteFile.seek, if_neg (by omega), if_neg (by omega)]

/-- Reading at an offset. -/
lemma exec_fileReadAt {s : HDB} (h : 0 ≤ i) :
    exec (fileReadAt n i) s = (.ok (slice s.file.bytes i.toNat n),
      { s with
        file := { s.file with pos := i.toNat + (slice s.file.bytes i.toNat n).length } }) := by
  rw [fileReadAt, exec_get_bind, seek_of_nonneg h]
  rfl

/-- Writing at an offset. -/
private lemma exec_fileWriteAt {s : HDB} (h : 0 ≤ i) :
    exec (fileWriteAt w i) s = (.ok w.length, { s with
        file := { bytes := patch s.file.bytes i.toNat w, pos := i.toNat + w.length } }) := by
  rw [fileWriteAt, exec_get_bind, seek_of_nonneg h]
  rfl

/-- **Reading a block**, which leaves the file behind the block's header. -/
lemma runs_readBlock_at (hc : a.heap o = some c) :
    Runs a.On (readBlock o) (.ok c.hdr) (a.OnAt (blockLayout.pos o + blockSize)) := by
  intro s hs
  have hlow := hs.bytes.header_le hc
  have hhdr : slice s.file.bytes o.toInt.toNat blockSize = encodeBlock c.hdr :=
    (hs.bytes.holds.slices hc).1
  have hread := exec_fileReadAt (s := s) (i := o.toInt) (n := blockSize)
    (by simp only [headerSize] at hlow; omega)
  rw [hhdr] at hread
  refine ⟨_, ?_, hs.at _, rfl⟩
  rw [readBlock, exec_bind_of_ok hread, length_encodeBlock, decodeBlock_encodeBlock]
  rfl

/-- **Reading a block.** -/
lemma runs_readBlock (hc : a.heap o = some c) : Runs a.On (readBlock o) (.ok c.hdr) a.On :=
  (runs_readBlock_at hc).weaken (fun _ h => h) fun _ h => h.1

/-- Reading known bytes. -/
lemma runs_fileRead {p : ℕ} (h : ∀ bs, a.OnBytes bs → slice bs p n = w) :
    Runs (a.OnAt p) (fileRead n) (.ok w) (a.OnAt (p + w.length)) := by
  rintro s ⟨hs, rfl⟩
  have hw := h _ hs.bytes
  refine ⟨{ s with file := { s.file with pos := s.file.pos + w.length } }, ?_, hs.at _, rfl⟩
  subst hw
  rfl

/-- Reading the body of a block, or a part of it, from its offset. -/
lemma runs_fileReadAt_body (hc : a.heap o = some c) (hn : n ≤ c.body.length) :
    Runs a.On (fileReadAt n (o.toInt + blockSize)) (.ok (c.body.take n)) a.On := by
  intro s hs
  have hlow := hs.bytes.header_le hc
  have hbody : slice s.file.bytes (o.toInt.toNat + blockSize) c.body.length = c.body :=
    (hs.bytes.holds.slices hc).2
  simp only [headerSize] at hlow
  have hread := exec_fileReadAt (s := s) (i := o.toInt + blockSize) (n := n) (by omega)
  have hpos : (o.toInt + blockSize).toNat = o.toInt.toNat + blockSize := by omega
  have htake : slice s.file.bytes (o.toInt.toNat + blockSize) n = c.body.take n := by
    rw [← take_slice hn, hbody]
  rw [hpos, htake] at hread
  exact ⟨_, hread, hs.at _⟩

/-! ### Writing blocks -/

/-- The cells after a change of one. -/
lemma heap_modify (hc : a.heap o = some c) (f : HDBBlock → HDBBlock) :
    (a.modify o f).heap = Function.update a.heap o (some ⟨f c.hdr, c.body⟩) := by
  funext x
  by_cases hx : x = o
  · subst hx
    simp [Cells.modify, hc]
  · simp [Cells.modify, hx]

/-- Writing the header of a block. -/
lemma exec_writeBlock {s : HDB} (h : 0 ≤ o.toInt) : exec (writeBlock b o) s = (.ok (), { s with
        file :=
          { bytes := patch s.file.bytes o.toInt.toNat (encodeBlock b)
            pos := o.toInt.toNat + blockSize } }) := by
  rw [writeBlock, exec_bind_of_ok (exec_fileWriteAt h), length_encodeBlock]
  rfl

/-- **Writing the header of a block** without changing its size. -/
lemma runs_writeBlock (hc : a.heap o = some c) (hsize : b.size = c.hdr.size) :
    Runs a.On (writeBlock b o) (.ok ()) (a.modify o fun _ => b).On := by
  intro s hs
  have hlow := hs.bytes.header_le hc
  have hhigh := hs.bytes.holds.high hc
  have hfits := hs.bytes.holds.fits hc
  have hlen := hs.bytes.low
  simp only [headerSize, blockLayout_pos, blockLayout_hsz] at hlow hhigh hfits hlen
  refine ⟨_, exec_writeBlock (by omega), ⟨⟨?_, ?_, ?_, hs.bytes.low⟩,
    ⟨hs.memory.hdr, hs.memory.version, hs.memory.index⟩⟩⟩
  · rw [heap_modify hc]
    exact hs.bytes.holds.writeHdr hc (by simp [hsize])
  · refine Eq.trans ?_ hs.bytes.header
    exact slice_patch_of_disjoint (.inl (by simp only [headerSize]; omega)) (by
      rw [hs.bytes.length]; simpa using hs.bytes.low)
  · refine Eq.trans ?_ hs.bytes.length
    rw [length_patch, length_encodeBlock]
    omega

/-- Writing a header computed from the old one changes the old one. -/
lemma modify_const (hc : a.heap o = some c) (f : HDBBlock → HDBBlock) :
    a.modify o (fun _ => f c.hdr) = a.modify o f := by
  simp only [Cells.modify, mk.injEq, and_true]
  funext x
  by_cases hx : x = o
  · subst hx; simp [hc]
  · simp [hx]

/-- **Changing the header of a block** without changing its size. -/
lemma runs_updateBlock {f : HDBBlock → HDBBlock} (hc : a.heap o = some c)
    (hsize : (f c.hdr).size = c.hdr.size) :
    Runs a.On (updateBlock o f) (.ok ()) (a.modify o f).On := by
  rw [← modify_const hc]
  exact (runs_readBlock hc).bind (runs_writeBlock hc hsize)

/-- The offset of a block that can be written. -/
private lemma room_low {bs : List UInt8} (h : a.OnBytes bs) (hr : a.Room o n) :
    (headerSize : Int) ≤ o.toInt ∧ o.toInt.toNat ≤ a.len := by
  have hlow := h.low
  rcases hr with ⟨c, hc, -⟩ | ⟨-, hend⟩
  · refine ⟨h.header_le hc, ?_⟩
    have := h.holds.high hc
    rw [h.length] at this
    simp only [blockLayout_pos] at this
    omega
  · rw [hend]
    omega

/-- **Writing the header of a new block**, or of one that will get a new body. -/
lemma runs_writeBlock_pending (hr : a.Room o n) :
    Runs a.On (writeBlock b o) (.ok ()) (a.Pending o (encodeBlock b)) := by
  intro s hs
  obtain ⟨hlow, -⟩ := room_low hs.bytes hr
  simp only [headerSize] at hlow
  exact ⟨_, exec_writeBlock (by omega), s.file.bytes, hs.bytes, rfl, by
    rw [length_encodeBlock]; rfl,
    ⟨hs.memory.hdr, hs.memory.version, hs.memory.index⟩⟩

/-- Writing more bytes of a block. -/
lemma runs_fileWrite {v : List UInt8} :
    Runs (a.Pending o v) (fileWrite w) (.ok ()) (a.Pending o (v ++ w)) := by
  rintro s ⟨bs, hbs, hfile, hpos, hmem⟩
  refine ⟨{ s with file := s.file.write w }, rfl, bs, hbs, ?_, ?_,
    ⟨hmem.hdr, hmem.version, hmem.index⟩⟩
  · change patch s.file.bytes s.file.pos w = _
    rw [hfile, hpos, patch_append]
  · change s.file.pos + w.length = _
    rw [hpos, List.length_append, Nat.add_assoc]

/-- **A block has been written completely.** A block at the end of the file must fill its extent:
what is not written does not exist. -/
lemma Cells.Pending.commit {s : HDB} (h : a.Pending o (encodeBlock c.hdr ++ c.body) s)
    (hr : a.Room o c.hdr.size.toNat) (hfit : blockSize + c.body.length ≤ c.hdr.size.toNat)
    (hend : a.heap o = none → c.hdr.size.toNat ≤ blockSize + c.body.length) : (a.put o c).On s := by
  obtain ⟨bs, hbs, hfile, -, hmem⟩ := h
  obtain ⟨hlow, hle⟩ := room_low hbs hr
  have hlen : (encodeBlock c.hdr ++ c.body).length = blockSize + c.body.length := by simp
  have hmax : (patch bs o.toInt.toNat (encodeBlock c.hdr ++ c.body)).length =
      max a.len (o.toInt.toNat + blockSize + c.body.length) := by
    rw [length_patch, hlen, hbs.length, Nat.add_assoc]
  refine ⟨⟨?_, ?_, ?_, le_trans hbs.low (le_max_left _ _)⟩, ⟨hmem.hdr, hmem.version, hmem.index⟩⟩
  · rw [hfile]
    rcases hr with ⟨d, hd, hsz⟩ | ⟨hnone, hpos⟩
    · exact hbs.holds.write hd hsz hfit
    · have hpos' : o.toInt.toNat = bs.length := by rw [hbs.length]; omega
      refine hbs.holds.append (by rw [hbs.length]; exact hbs.low) hpos' ?_ hfit ?_
      · rw [hlen]; exact le_antisymm hfit (hend hnone)
      · simp only [blockLayout_hsz, blockLayout_enc]
        rw [← hlen, slice, List.drop_zero, List.take_length]
  · rw [hfile]
    refine Eq.trans ?_ hbs.header
    have hl := hbs.low
    simp only [headerSize] at hl
    exact slice_patch_of_disjoint (.inl (by simp only [blockLayout_pos]; omega)) (by
      rw [hbs.length]; omega)
  · rw [hfile, blockLayout_pos, hmax]
    rfl

/-! ### Header, version and index -/

/-- Setting the offsets in the file header. -/
lemma runs_setOffsets (firstRoot lastRoot firstFree : Int32) :
    Runs a.On (setOffsets firstRoot lastRoot firstFree) (.ok ())
      { a with hdr := { a.hdr with firstRoot, lastRoot, firstFree } }.On := by
  intro s hs
  have hlow := hs.bytes.low
  obtain ⟨hdr, hhdr⟩ : ∃ hdr : HDBHeaderBlock,
      hdr = { a.hdr with firstRoot, lastRoot, firstFree } := ⟨_, rfl⟩
  have hlen : (encodeHeader hdr).length = headerSize := length_encodeHeader hdr
  have hwrite := exec_fileWriteAt (s := { s with hdrBlock := hdr }) (i := 0)
    (w := encodeHeader hdr) (by omega)
  have hexec : exec (setOffsets firstRoot lastRoot firstFree) s = (.ok (), { s with
        hdrBlock := hdr
        file := { bytes := patch s.file.bytes 0 (encodeHeader hdr), pos := 0 + headerSize } }) := by
    rw [setOffsets, exec_get_bind, hs.memory.hdr, ← hhdr]
    rw [exec_set_bind, exec_bind_of_ok hwrite, hlen]
    rfl
  rw [← hhdr]
  refine ⟨_, hexec, ⟨⟨?_, ?_, ?_, hlow⟩, ⟨rfl, hs.memory.version, hs.memory.index⟩⟩⟩
  · exact hs.bytes.holds.writeLow (by rw [hlen]; simp) (by rw [hs.bytes.length]; exact hlow)
  · rw [← hlen]; exact slice_patch_self _ _ _
  · refine Eq.trans ?_ hs.bytes.length
    rw [length_patch, hs.bytes.length]
    omega

/-- Reading the file header. -/
lemma runs_getHdrBlock : Runs a.On getHdrBlock (.ok a.hdr) a.On := .gets fun _ hs => hs.memory.hdr

/-- The bound for loops. -/
lemma runs_stepBound : Runs a.On stepBound (.ok a.len) a.On := .gets fun _ hs => hs.bytes.length

variable (offset : Int32) (key : List UInt8)

/-- Setting the first root. -/
lemma runs_setFirstRootOffSet : Runs a.On (setFirstRootOffSet offset) (.ok ())
      { a with hdr := { a.hdr with firstRoot := offset } }.On :=
  runs_getHdrBlock.bind (runs_setOffsets _ _ _)

/-- Setting the last root. -/
lemma runs_setLastRootOffset : Runs a.On (setLastRootOffset offset) (.ok ())
      { a with hdr := { a.hdr with lastRoot := offset } }.On :=
  runs_getHdrBlock.bind (runs_setOffsets _ _ _)

/-- Setting the first free block. -/
lemma runs_setFirstFreeOffSet : Runs a.On (setFirstFreeOffSet offset) (.ok ())
      { a with hdr := { a.hdr with firstFree := offset } }.On :=
  runs_getHdrBlock.bind (runs_setOffsets _ _ _)

/-- Counting a change. -/
lemma runs_registerWrite :
    Runs a.On registerWrite (.ok (a.version + 1)) { a with version := a.version + 1 }.On := by
  intro s hs
  refine ⟨{ s with version := s.version + 1 }, ?_, ⟨⟨hs.bytes.holds, hs.bytes.header,
    hs.bytes.length, hs.bytes.low⟩, ⟨hs.memory.hdr, ?_, hs.memory.index⟩⟩⟩
  · rw [← hs.memory.version]; rfl
  · rw [← hs.memory.version]

/-- Looking into the index. -/
lemma runs_findIndexEntry : Runs a.On (findIndexEntry key) (.ok (a.index.find key)) a.On :=
  .gets fun _ hs => by rw [hs.memory.index]

/-- Another index. -/
private lemma On.withIndex {s : HDB} (hs : a.On s) (i : OrderedIndex (List UInt8) Int32) :
    { a with index := i }.On { s with index := i } :=
  ⟨⟨hs.bytes.holds, hs.bytes.header, hs.bytes.length, hs.bytes.low⟩,
    ⟨hs.memory.hdr, hs.memory.version, rfl⟩⟩

/-- Removing a key from the index. -/
lemma runs_removeIndexEntry :
    Runs a.On (removeIndexEntry key) (.ok ()) { a with index := a.index.remove key }.On :=
  .modify fun _ hs => by rw [hs.memory.index]; exact On.withIndex hs _

/-- Changing the offset of a key. -/
lemma runs_updateIndexEntry {key : List UInt8} {old : Int32} (new : Int32)
    (h : a.index.find key = some old) :
    Runs a.On (updateIndexEntry key new) (.ok ()) { a with index := a.index.put key new }.On :=
  .modify fun _ hs => by
    rw [hs.memory.index, h]
    exact On.withIndex hs _

/-- The key of a block whose body is still to be written. -/
lemma runs_addIndexEntry_pending (offset : Int32) :
    Runs (a.Pending o w) (addIndexEntry key offset) (.ok ())
      ({ a with index := a.index.put key offset }.Pending o w) :=
  .modify fun s ⟨bs, hbs, hfile, hpos, hmem⟩ =>
    ⟨bs, ⟨hbs.holds, hbs.header, hbs.length, hbs.low⟩, hfile, hpos,
      ⟨hmem.hdr, hmem.version, by rw [hmem.index]⟩⟩

/-- The end of the file, while it is a 32-bit number. -/
lemma runs_seekToEnd (h : a.len < 2 ^ 31) : Runs a.On seekToEnd (.ok (Int32.ofNat a.len)) a.On := by
  intro s hs
  have hne : Int32.ofNat s.file.bytes.length ≠ -1 := by
    rw [hs.bytes.length]
    intro heq
    have := congrArg Int32.toInt heq
    rw [Int32.toInt_ofNat_of_lt h] at this
    simp at this
  refine ⟨{ s with file := s.file.seekEnd }, ?_, hs.at _⟩
  rw [seekToEnd, exec_get_bind, if_neg hne, hs.bytes.length]
  rfl

/-! ### Links -/

namespace Cells

variable {x v : Int32} {f : HDBBlock → HDBBlock}

/-- A field of the block at `o`. -/
def field {β : Type} (a : Cells) (g : HDBBlock → β) (dflt : β) (o : Int32) : β :=
  match a.heap o with
  | none => dflt
  | some c => g c.hdr

/-- The forward links between siblings, and in the free list. -/
def next (a : Cells) : Int32 → Int32 := a.field HDBBlock.nextSib (-1)

/-- The backward links between siblings, and in the free list. -/
def prev (a : Cells) : Int32 → Int32 := a.field HDBBlock.prevSib (-1)

/-- The links to the parent. -/
def parent (a : Cells) : Int32 → Int32 := a.field HDBBlock.parent (-1)

/-- The links to the first child. -/
def first (a : Cells) : Int32 → Int32 := a.field HDBBlock.firstChild (-1)

/-- The links to the last child. -/
def last (a : Cells) : Int32 → Int32 := a.field HDBBlock.lastChild (-1)

/-- The sizes of the blocks. -/
def size (a : Cells) : Int32 → UInt32 := a.field HDBBlock.size 0

variable {β : Type}

/-- A field of a block. -/
lemma field_eq {g : HDBBlock → β} {dflt : β} (hc : a.heap o = some c) :
    a.field g dflt o = g c.hdr := by
  rw [field, hc]

/-- A change of other fields. -/
lemma field_modify_of_eq {g : HDBBlock → β} {dflt : β} (h : ∀ b, g (f b) = g b) :
    (a.modify o f).field g dflt = a.field g dflt := by
  funext x
  simp only [field, modify]
  split_ifs
  · rcases a.heap x with _ | c
    · rfl
    · exact h c.hdr
  · rfl

/-- The block at `x` after a change at `o`. -/
lemma heap_modify_of_heap (hc : a.heap x = some c) (o : Int32) (f : HDBBlock → HDBBlock) :
    (a.modify o f).heap x = some ⟨if x = o then f c.hdr else c.hdr, c.body⟩ := by
  simp only [modify, hc]
  by_cases hx : x = o <;> simp [hx]

/-- Other blocks stay. -/
lemma heap_modify_ne (hx : x ≠ o) : (a.modify o f).heap x = a.heap x := by simp [modify, hx]

/-- No block, no change. -/
lemma modify_of_none (h : a.heap o = none) : a.modify o f = a := by
  have : (a.modify o f).heap = a.heap := by
    funext x
    by_cases hx : x = o
    · subst hx; simp [modify, h]
    · simp [modify, hx]
  calc a.modify o f = { a with heap := (a.modify o f).heap } := rfl
    _ = a := by rw [this]

/-- Set the link to the next block. -/
def setNext (a : Cells) (o v : Int32) : Cells := a.modify o fun b => { b with nextSib := v }

/-- Set the link to the previous block. -/
def setPrev (a : Cells) (o v : Int32) : Cells := a.modify o fun b => { b with prevSib := v }

/-- Back pointers stay. -/
@[simp] lemma prev_setNext : (a.setNext o v).prev = a.prev := field_modify_of_eq fun _ => rfl
/-- Sizes stay. -/
@[simp] lemma size_setNext : (a.setNext o v).size = a.size := field_modify_of_eq fun _ => rfl
/-- Pointers stay. -/
@[simp] lemma next_setPrev : (a.setPrev o v).next = a.next := field_modify_of_eq fun _ => rfl
/-- Sizes stay. -/
@[simp] lemma size_setPrev : (a.setPrev o v).size = a.size := field_modify_of_eq fun _ => rfl

/-- The cells after setting a pointer. -/
lemma heap_setNext (hc : a.heap x = some c) (o v : Int32) : (a.setNext o v).heap x =
    some ⟨{ c.hdr with nextSib := if x = o then v else c.hdr.nextSib }, c.body⟩ := by
  rw [setNext, heap_modify_of_heap hc]
  split <;> rfl

/-- The cells after setting a back pointer. -/
lemma heap_setPrev (hc : a.heap x = some c) (o v : Int32) : (a.setPrev o v).heap x =
    some ⟨{ c.hdr with prevSib := if x = o then v else c.hdr.prevSib }, c.body⟩ := by
  rw [setPrev, heap_modify_of_heap hc]
  split <;> rfl

/-- The pointers after setting one. -/
lemma next_setNext (hc : a.heap x = some c) : (a.setNext o v).next x = if x = o then v
    else a.next x := by
  rw [next, field_eq (heap_setNext hc _ _), next, field_eq hc]

/-- The back pointers after setting one. -/
lemma prev_setPrev (hc : a.heap x = some c) : (a.setPrev o v).prev x = if x = o then v
    else a.prev x := by
  rw [prev, field_eq (heap_setPrev hc _ _), prev, field_eq hc]

end Cells

/-- Setting a link of a neighbour, if there is one. -/
lemma runs_when_update [Decidable p] {f : HDBBlock → HDBBlock} (hf : ∀ b, (f b).size = b.size)
    (hp : p → ∃ c, a.heap o = some c) (hn : ¬ p → a.heap o = none) :
    Runs a.On (when p (updateBlock o f)) (.ok ()) (a.modify o f).On := by
  by_cases h : p
  · obtain ⟨c, hc⟩ := hp h
    exact .when_pos h (runs_updateBlock hc (hf _))
  · rw [modify_of_none (hn h)]
    exact .when_neg h

/-- Setting a pointer, if there is a block. -/
lemma runs_when_setNext {v : Int32} [Decidable p] (hp : p → ∃ c, a.heap o = some c)
    (hn : ¬ p → a.heap o = none) :
    Runs a.On (when p (updateBlock o fun b => { b with nextSib := v })) (.ok ())
      (a.setNext o v).On :=
  runs_when_update (fun _ => rfl) hp hn

/-- Setting a back pointer, if there is a block. -/
lemma runs_when_setPrev {v : Int32} [Decidable p] (hp : p → ∃ c, a.heap o = some c)
    (hn : ¬ p → a.heap o = none) :
    Runs a.On (when p (updateBlock o fun b => { b with prevSib := v })) (.ok ())
      (a.setPrev o v).On :=
  runs_when_update (fun _ => rfl) hp hn

end OpenWbem.Hdb
