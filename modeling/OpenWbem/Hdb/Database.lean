import OpenWbem.Base.Prog
import OpenWbem.Base.OrderedIndex
import OpenWbem.Hdb.Format

/-!
# The database: blocks, header and free list

The class `HDB`: reading and writing blocks, the header with its offsets, the free list, and the
list of root nodes. A database is its data file, the copy of the header block that is kept in
memory, the version counter that every write increments, and the key index.

The model has one handle, so the handle's open file is a part of the database. Locks are left out.
A loop along links in the file carries a bound on the number of its steps, which is the length of
the file; running out of it is the exception `diverge`, which stands for a loop that does not end.

## Main definitions

* `HDB` — the state of an open database.
* `readBlock`, `writeBlock`, `setOffsets` — access to the file.
* `findBlock`, `removeBlockFromFreeList`, `addBlockToFreeList` — the free list.
-/

namespace OpenWbem.Hdb

/-- What a database operation throws. -/
inductive HDBException where
  /-- An exception of the code, with its message. -/
  | hdb (msg : String)
  /-- A loop along the links of the file that does not end. -/
  | diverge
  deriving DecidableEq

/-- The state of an open database. -/
structure HDB where
  file : ByteFile
  /-- The header block, as it is kept in memory. -/
  hdrBlock : HDBHeaderBlock
  /-- Incremented by every write. -/
  version : Int32
  /-- The key index: an ordered map from keys to offsets. -/
  index : OrderedIndex (List UInt8) Int32

/-- Operations on a database. -/
abbrev HDBM := Prog HDB HDBException

/-- Throw an exception with a message. -/
def throwHDB {α : Type} (msg : String) : HDBM α := throw (.hdb msg)

/-- The header block of the open database. -/
def getHdrBlock : HDBM HDBHeaderBlock := do
  let s ← get
  pure s.hdrBlock

/-- The bound for loops along links in the file. -/
def stepBound : HDBM ℕ := do
  let s ← get
  pure s.file.bytes.length

/-! ### File access -/

/-- Read at most `n` bytes at the current position. -/
def fileRead (n : ℕ) : HDBM (List UInt8) := do
  let s ← get
  let (w, f) := s.file.read n
  set { s with file := f }
  pure w

/-- Read at most `n` bytes at an offset; nothing is read if the offset does not exist. -/
def fileReadAt (n : ℕ) (offset : Int) : HDBM (List UInt8) := do
  let s ← get
  match s.file.seek offset with
  | none => pure []
  | some f =>
    let (w, f') := f.read n
    set { s with file := f' }
    pure w

/-- Write at the current position. -/
def fileWrite (w : List UInt8) : HDBM Unit := modify fun s => { s with file := s.file.write w }

/-- Write at an offset; the result is the number of bytes written. -/
def fileWriteAt (w : List UInt8) (offset : Int) : HDBM ℕ := do
  let s ← get
  match s.file.seek offset with
  | none => pure 0
  | some f =>
    set { s with file := f.write w }
    pure w.length

/-- `HDB::readBlock` -/
def readBlock (offset : Int32) : HDBM HDBBlock := do
  let bs ← fileReadAt blockSize offset.toInt
  if bs.length ≠ blockSize then
    throwHDB "Failed to read block"
  else
    match decodeBlock bs with
    | none => throwHDB "CORRUPT DATA? Invalid check sum in node"
    | some fblk => pure fblk

/-- `HDB::writeBlock` -/
def writeBlock (fblk : HDBBlock) (offset : Int32) : HDBM Unit := do
  let cc ← fileWriteAt (encodeBlock fblk) offset.toInt
  Prog.when (cc ≠ blockSize) <| throwHDB "Failed to write block"

/-- Read a block, change it and write it back: the way links of other blocks are updated. -/
def updateBlock (offset : Int32) (f : HDBBlock → HDBBlock) : HDBM Unit := do
  let fblk ← readBlock offset
  writeBlock (f fblk) offset

/-! ### The header block -/

/-- `HDB::setOffsets` -/
def setOffsets (firstRoot lastRoot firstFree : Int32) : HDBM Unit := do
  let s ← get
  let hdr := { s.hdrBlock with firstRoot, lastRoot, firstFree }
  set { s with hdrBlock := hdr }
  let cc ← fileWriteAt (encodeHeader hdr) 0
  Prog.when (cc ≠ headerSize) <| throwHDB "Failed to update offset on HDB"

/-- `HDB::setFirstRootOffSet` -/
def setFirstRootOffSet (offset : Int32) : HDBM Unit := do
  let h ← getHdrBlock
  setOffsets offset h.lastRoot h.firstFree

/-- `HDB::setLastRootOffset` -/
def setLastRootOffset (offset : Int32) : HDBM Unit := do
  let h ← getHdrBlock
  setOffsets h.firstRoot offset h.firstFree

/-- `HDB::setFirstFreeOffSet` -/
def setFirstFreeOffSet (offset : Int32) : HDBM Unit := do
  let h ← getHdrBlock
  setOffsets h.firstRoot h.lastRoot offset

/-- `HDB::incVersion`, through `HDBHandle::registerWrite` -/
def registerWrite : HDBM Int32 := do
  let s ← get
  set { s with version := s.version + 1 }
  pure (s.version + 1)

/-! ### The index -/

/-- `HDB::findIndexEntry` -/
def findIndexEntry (key : List UInt8) : HDBM (Option Int32) := do
  let s ← get
  pure (s.index.find key)

/-- `HDB::addIndexEntry`; an entry that exists is overwritten. -/
def addIndexEntry (key : List UInt8) (offset : Int32) : HDBM Unit :=
  modify fun s => { s with index := s.index.put key offset }

/-- `HDB::removeIndexEntry` -/
def removeIndexEntry (key : List UInt8) : HDBM Unit :=
  modify fun s => { s with index := s.index.remove key }

/-- `HDB::updateIndexEntry`, which changes nothing if there is no entry. -/
def updateIndexEntry (key : List UInt8) (newOffset : Int32) : HDBM Unit :=
  modify fun s =>
    match s.index.find key with
    | none => s
    | some _ => { s with index := s.index.put key newOffset }

/-! ### The free list -/

/-- The search loop of `findBlock`: the first block of at least the given size. -/
def findBlockLoop (size : UInt32) : ℕ → Int32 → HDBM (Option (Int32 × HDBBlock))
  | 0, _ => throw .diverge
  | n + 1, coffset => do
    let fblk ← readBlock coffset
    if fblk.size ≥ size then
      pure (some (coffset, fblk))
    else if fblk.nextSib = -1 then
      pure none
    else
      findBlockLoop size n fblk.nextSib

/-- `HDB::removeBlockFromFreeList` -/
def removeBlockFromFreeList (fblk : HDBBlock) : HDBM Unit := do
  Prog.when (fblk.nextSib ≠ -1) <|
    updateBlock fblk.nextSib fun cblk => { cblk with prevSib := fblk.prevSib }
  if fblk.prevSib ≠ -1 then
    updateBlock fblk.prevSib fun cblk => { cblk with nextSib := fblk.nextSib }
  else
    let h ← getHdrBlock
    Prog.when (h.firstFree ≠ -1) <| setFirstFreeOffSet fblk.nextSib

/-- The offset of the end of the file, as the 32-bit number in which it is kept. -/
def seekToEnd : HDBM Int32 := do
  let s ← get
  set { s with file := s.file.seekEnd }
  let offset := Int32.ofNat s.file.bytes.length
  if offset = -1 then
    throwHDB "Failed to get offset in file"
  else
    pure offset

/-- `HDB::findBlock`: a block of the free list that is large enough, or the end of the file. -/
def findBlock (size : Int32) : HDBM Int32 := do
  let h ← getHdrBlock
  if h.firstFree ≠ -1 then
    let n ← stepBound
    match ← findBlockLoop size.toUInt32 n h.firstFree with
    | some (offset, fblk) =>
      removeBlockFromFreeList fblk
      pure offset
    | none => seekToEnd
  else
    seekToEnd

/-- The search loop of `addBlockToFreeList`: the first block that is not smaller, or else the
last block of the list. -/
def findInsertionPoint (size : UInt32) : ℕ → Int32 → HDBM (Bool × Int32 × HDBBlock)
  | 0, _ => throw .diverge
  | n + 1, coffset => do
    let cblk ← readBlock coffset
    if size ≤ cblk.size then
      pure (true, coffset, cblk)
    else if cblk.nextSib = -1 then
      pure (false, coffset, cblk)
    else
      findInsertionPoint size n cblk.nextSib

/-- `HDB::addBlockToFreeList`: the list is kept in the order of the block sizes. -/
def addBlockToFreeList (parmblk : HDBBlock) (offset : Int32) : HDBM Unit := do
  let fblk := { parmblk with isFree := true }
  let h ← getHdrBlock
  if h.firstFree = -1 then
    writeBlock { fblk with nextSib := -1, prevSib := -1 } offset
    setFirstFreeOffSet offset
  else
    let n ← stepBound
    let (found, coffset, cblk) ← findInsertionPoint fblk.size n h.firstFree
    if found then
      -- insert before the last node read
      Prog.when (cblk.prevSib = -1) <| setFirstFreeOffSet offset
      Prog.when (cblk.prevSib ≠ -1) <|
        updateBlock cblk.prevSib fun tblk => { tblk with nextSib := offset }
      writeBlock { fblk with nextSib := coffset, prevSib := cblk.prevSib } offset
      writeBlock { cblk with prevSib := offset } coffset
    else
      -- append to the end of the free list
      writeBlock { cblk with nextSib := offset } coffset
      writeBlock { fblk with prevSib := coffset, nextSib := -1 } offset

/-- `HDB::addRootNode`: link a block at the end of the list of root nodes and write it. The
result is the block with its links. -/
def addRootBlock (fblk : HDBBlock) (offset : Int32) : HDBM HDBBlock := do
  let h ← getHdrBlock
  if h.firstRoot = -1 then
    let fblk := { fblk with parent := -1, nextSib := -1, prevSib := -1 }
    setOffsets offset offset h.firstFree
    writeBlock fblk offset
    pure fblk
  else
    let fblk := { fblk with parent := -1, nextSib := -1, prevSib := h.lastRoot }
    updateBlock h.lastRoot fun cblk => { cblk with nextSib := offset }
    setLastRootOffset offset
    writeBlock fblk offset
    pure fblk

/-- `HDB::createFile`: a new database has a header and an empty index. -/
def createFile : HDB :=
  let hdr := { version := hdbVersion, firstRoot := -1, lastRoot := -1, firstFree := -1 }
  { file := { bytes := encodeHeader hdr, pos := 0 }, hdrBlock := hdr, version := 0
    index := OrderedIndex.empty }

end OpenWbem.Hdb
