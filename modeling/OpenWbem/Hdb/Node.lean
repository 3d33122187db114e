import OpenWbem.Hdb.Database

/-!
# Nodes and handles

The class `HDBNode`, an in-memory copy of one node of the database, and the operations of
`HDBHandle` on nodes. A node object remembers the version of the database at which it was read,
and is read again when a handle works on it after another write.

A null node is `none`. Methods that change a node object return the changed object.

## Main definitions

* `HDBNodeData` — a node object.
* `readNode`, `reload` — reading a node from the file.
* `writeNode`, `updateOffsets` — writing it, and moving it to a larger block.
* `HDBHandle.addRootNode` and its companions — the operations of a handle.
-/

namespace OpenWbem.Hdb

open Prog UInt32

/-- A node object: the block and the data read from the file, where they were read, and when. -/
structure HDBNodeData where
  blk : HDBBlock
  key : List UInt8
  bfr : List UInt8
  offset : Int32
  version : Int32
  deriving DecidableEq

/-- A node object, or the null node. -/
abbrev HDBNode := Option HDBNodeData

/-- The length of the data behind the key, a signed difference; nothing is read if it is not
positive. -/
def HDBBlock.dataLen (fblk : HDBBlock) : ℕ := (fblk.dataLength - fblk.keyLength).toInt32.toInt.toNat

/-- The part of a byte sequence before its first zero byte, as a C string. -/
def cString (bs : List UInt8) : List UInt8 := bs.takeWhile (· ≠ 0)

/-- A node that is not yet on file. -/
def freshNode (key data : List UInt8) (flags : UInt32) : HDBNodeData :=
  { blk :=
      { isFree := false, size := 0, flags, nextSib := -1, prevSib := -1, parent := -1
        firstChild := -1, lastChild := -1, keyLength := ofNat (key.length + 1)
        dataLength := ofNat (key.length + 1 + data.length) }
    key, bfr := data, offset := -1, version := 0 }

/-- `HDBNode::HDBNode(key, dataLen, data)`: a new node, null for an empty key. The flags are those
that have been turned on before the node is added. -/
def newNode (key data : List UInt8) (flags : UInt32) : HDBNode :=
  if key = [] then none else some (freshNode key data flags)

/-! ### Reading -/

/-- `HDBNode::read`: the node at an offset; null for a block that is free. -/
def readNode (offset : Int32) : HDBM HDBNode := do
  when (offset ≤ 0) <|
    throwHDB "Invalid offset to read node from, db is most likely corrupt."
  let fblk ← readBlock offset
  if fblk.isFree then
    pure none
  else
    let kbfr ← fileRead fblk.keyLength.toNat
    when (kbfr.length ≠ fblk.keyLength.toNat) <| throwHDB "Failed to read key for node"
    let bfr ← fileRead fblk.dataLen
    when (bfr.length ≠ fblk.dataLen) <| throwHDB "Failed to data for node"
    let s ← get
    pure (some
      { blk := fblk, key := kbfr.take (fblk.keyLength.toNat - 1), bfr, offset
        version := s.version })

/-- `HDBNode::HDBNode(key, hdl)`: the node with a key. -/
def nodeOfKey (key : List UInt8) : HDBM HDBNode := do
  match ← findIndexEntry key with
  | none => pure none
  | some offset => readNode offset

/-- `HDBNode::HDBNode(offset, hdl)`: the node at an offset. -/
def nodeAt (offset : Int32) : HDBM HDBNode := do
  if offset ≤ 0 then pure none else readNode offset

/-- The part of `HDBNode::reload` behind the version check. The node is null afterwards if its
block is free, or belongs to another key. -/
def reloadFromFile (nd : HDBNodeData) : HDBM HDBNode := do
  let r ← tryCatch (some <$> readBlock nd.offset) fun _ => pure none
  match r with
  | none => pure none
  | some fblk =>
    if fblk.isFree then
      pure none
    else
      let kbfr ← fileRead fblk.keyLength.toNat
      if kbfr.length ≠ fblk.keyLength.toNat then
        -- the source keeps the node object, but reports that it is not on file
        pure none
      else if cString nd.key ≠ cString kbfr then
        pure none
      else
        let bfr ← fileRead fblk.dataLen
        if bfr.length ≠ fblk.dataLen then
          pure none
        else
          let s ← get
          pure (some { nd with blk := fblk, bfr, version := s.version })

/-- `HDBNode::reload`: bring a node object up to date. -/
def reload (nd : HDBNodeData) : HDBM HDBNode := do
  let s ← get
  if nd.offset ≤ 0 then
    pure (some nd)
  else if s.version = nd.version then
    pure (some nd)
  else
    reloadFromFile nd

/-! ### Writing -/

/-- The loop of `updateOffsets` that sets the parent of all children. -/
def updateChildren (offset : Int32) : ℕ → Int32 → HDBM Unit
  | 0, _ => throw .diverge
  | n + 1, coffset =>
    when (coffset > 0) do
      let fblk ← readBlock coffset
      writeBlock { fblk with parent := offset } coffset
      updateChildren offset n fblk.nextSib

/-- Replace the head and the tail of a list of children (or of the list of root nodes) where they
are equal to the offset `old`. -/
def updateEnds (parent old first last : Int32) : HDBM Unit := do
  if parent > 0 then
    let fblk ← readBlock parent
    when (fblk.firstChild = old ∨ fblk.lastChild = old) <|
      writeBlock
        { fblk with
          firstChild := if fblk.firstChild = old then first else fblk.firstChild
          lastChild := if fblk.lastChild = old then last else fblk.lastChild } parent
  else
    -- no parent: must be a root node
    let h ← getHdrBlock
    when (h.firstRoot = old) <| setFirstRootOffSet first
    let h ← getHdrBlock
    when (h.lastRoot = old) <| setLastRootOffset last

/-- `HDBNode::updateOffsets`: everything that points to the node points to a new offset. -/
def updateOffsets (nd : HDBNodeData) (offset : Int32) : HDBM HDBNodeData := do
  if offset ≤ 0 then
    pure nd
  else
    when (nd.blk.prevSib > 0) <|
      updateBlock nd.blk.prevSib fun fblk => { fblk with nextSib := offset }
    when (nd.blk.nextSib > 0) <|
      updateBlock nd.blk.nextSib fun fblk => { fblk with prevSib := offset }
    updateEnds nd.blk.parent nd.offset offset offset
    let n ← stepBound
    updateChildren offset (n + 1) nd.blk.firstChild
    updateIndexEntry nd.key offset
    pure { nd with offset }

/-- The new-record branch of `HDBNode::write`: find a block, link it if it is a root node, write
its header and add its key to the index. -/
def writeNew (nd : HDBNodeData) (totalSize : Int32) : HDBM HDBNodeData := do
  let blk := { nd.blk with size := totalSize.toUInt32 }
  let offset ← findBlock totalSize
  if blk.parent ≤ 0 then
    let blk ← addRootBlock blk offset
    addIndexEntry nd.key offset
    pure { nd with blk, offset }
  else
    writeBlock blk offset
    addIndexEntry nd.key offset
    pure { nd with blk, offset }

/-- The branch of `HDBNode::write` for a node that is on file: if it has outgrown its block, the
block is freed and the node gets another one. -/
def writeExisting (nd : HDBNodeData) (totalSize : Int32) : HDBM HDBNodeData := do
  if totalSize > nd.blk.size.toInt32 then
    addBlockToFreeList nd.blk nd.offset
    let nd := { nd with blk := { nd.blk with size := totalSize.toUInt32 } }
    let offset ← findBlock totalSize
    let nd ← updateOffsets nd offset
    writeBlock nd.blk nd.offset
    pure nd
  else
    writeBlock nd.blk nd.offset
    pure nd

/-- The size of header, key and data, as `HDBNode::write` computes it in a signed 32-bit number. -/
def HDBNodeData.totalSize (nd : HDBNodeData) : Int32 :=
  (ofNat (nd.bfr.length + nd.key.length + 1) + ofNat blockSize).toInt32

/-- The fields of the block that `HDBNode::write` sets before it writes. -/
def HDBNodeData.prepare (nd : HDBNodeData) : HDBNodeData :=
  { nd with
    blk :=
      { nd.blk with
        keyLength := ofNat (nd.key.length + 1)
        dataLength := ofNat (nd.bfr.length + nd.key.length + 1)
        isFree := false } }

/-- The end of `HDBNode::write`: key and data follow the header. -/
def writeBody (nd : HDBNodeData) : HDBM HDBNodeData := do
  fileWrite (nd.key ++ [0])
  fileWrite nd.bfr
  let version ← registerWrite
  pure { nd with version }

/-- `HDBNode::write`: header, key and data, one after the other. -/
def writeNode (nd : HDBNodeData) : HDBM HDBNodeData := do
  let nd ← (if nd.offset ≤ 0 then writeNew nd.prepare nd.totalSize
    else writeExisting nd.prepare nd.totalSize)
  writeBody nd

/-- The common part of `turnFlagsOn` and `turnFlagsOff`: set the flags of a node, and write it if
they have changed and it is on file. -/
def setFlags (nd : HDBNodeData) (flags : UInt32) : HDBM HDBNodeData := do
  if flags ≠ nd.blk.flags then
    let nd := { nd with blk := { nd.blk with flags } }
    if nd.offset > 0 then writeNode nd else pure nd
  else
    pure nd

/-- `HDBNode::turnFlagsOn` -/
def turnFlagsOnNode (nd : HDBNodeData) (flags : UInt32) : HDBM HDBNodeData :=
  setFlags nd (flags ||| nd.blk.flags)

/-- `HDBNode::turnFlagsOff` -/
def turnFlagsOffNode (nd : HDBNodeData) (flags : UInt32) : HDBM HDBNodeData :=
  setFlags nd (nd.blk.flags &&& ~~~flags)

/-! ### Links -/

/-- Link the neighbours of a node to each other, and its parent to them. -/
def unlink (nd : HDBNodeData) : HDBM Unit := do
  when (nd.blk.nextSib > 0) <|
    updateBlock nd.blk.nextSib fun fblk => { fblk with prevSib := nd.blk.prevSib }
  when (nd.blk.prevSib > 0) <|
    updateBlock nd.blk.prevSib fun fblk => { fblk with nextSib := nd.blk.nextSib }
  updateEnds nd.blk.parent nd.offset nd.blk.nextSib nd.blk.prevSib

/-- `HDBNode::detachFromParent` -/
def detachFromParent (nd : HDBNodeData) : HDBM HDBNodeData := do
  unlink nd
  pure { nd with blk := { nd.blk with parent := -1, nextSib := -1, prevSib := -1 } }

/-- `HDBNode::addToNewParent`; the results are the node and its parent. -/
def addToNewParent (nd parentNode : HDBNodeData) : HDBM (HDBNodeData × HDBNodeData) := do
  let blk :=
    { nd.blk with
      prevSib := parentNode.blk.lastChild, nextSib := -1, parent := parentNode.offset }
  when (parentNode.blk.lastChild > 0) <|
    updateBlock parentNode.blk.lastChild fun node => { node with nextSib := nd.offset }
  let pblk :=
    { parentNode.blk with
      lastChild := nd.offset
      firstChild :=
        if parentNode.blk.firstChild ≤ 0 then nd.offset else parentNode.blk.firstChild }
  writeBlock blk nd.offset
  writeBlock pblk parentNode.offset
  pure ({ nd with blk }, { parentNode with blk := pblk })

/-- `HDBNode::updateParent`. The source dereferences the new parent after it was read again; a
new parent that has left the file is an error there. -/
def updateParent (nd parentNode : HDBNodeData) : HDBM HDBNodeData := do
  if nd.blk.parent = parentNode.offset then
    pure nd
  else
    let nd ← detachFromParent nd
    match ← reload parentNode with
    | none => throwHDB "null node"
    | some parentNode =>
      let (nd, _) ← addToNewParent nd parentNode
      pure nd

/-- The new content of a node's buffer: a buffer of another length is dropped, and the data
replace it if there are any. -/
def updatedBuffer (bfr : List UInt8) (dataLen : Int32) (data : Option (List UInt8)) : List UInt8 :=
  let bfr := if dataLen.toInt ≠ bfr.length then [] else bfr
  match data with
  | none => bfr
  | some data => if dataLen > 0 then data.take dataLen.toInt.toNat else bfr

/-- `HDBNode::updateData` -/
def updateData (nd : HDBNodeData) (parentNode : HDBNode) (dataLen : Int32)
    (data : Option (List UInt8)) : HDBM HDBNode := do
  match ← reload nd with
  | none => pure none
  | some nd =>
    let nd := { nd with bfr := updatedBuffer nd.bfr dataLen data }
    if nd.offset > 0 then
      let nd ← writeNode nd
      match parentNode with
      | none => pure (some nd)
      | some parentNode => some <$> updateParent nd parentNode
    else
      pure (some nd)

/-- `HDBNode::addChild`, for a parent that is on file and a child that is not. -/
def addChildNode (nd child : HDBNodeData) : HDBM (HDBNodeData × HDBNodeData) := do
  let child ← writeNode
    { child with
      blk :=
        { child.blk with prevSib := nd.blk.lastChild, nextSib := -1, parent := nd.offset } }
  when (nd.blk.lastChild > 0) <|
    updateBlock nd.blk.lastChild fun node => { node with nextSib := child.offset }
  let nd ← writeNode
    { nd with
      blk :=
        { nd.blk with
          lastChild := child.offset
          firstChild := if nd.blk.firstChild ≤ 0 then child.offset else nd.blk.firstChild } }
  pure (nd, child)

mutual

/-- The loop of `HDBNode::remove` and `HDBNode::removeBlock`: remove a block and its previous
siblings. -/
def removeSiblings : ℕ → Int32 → HDBM Unit
  | 0, _ => throw .diverge
  | n + 1, coffset =>
    when (coffset > 0) do
      let fblk ← readBlock coffset
      removeBlock n fblk coffset
      removeSiblings n fblk.prevSib

/-- `HDBNode::removeBlock`: free a block and everything below it. -/
def removeBlock : ℕ → HDBBlock → Int32 → HDBM Unit
  | 0, _, _ => throw .diverge
  | n + 1, fblk, offset => do
    removeSiblings n fblk.lastChild
    let kbfr ← fileReadAt fblk.keyLength.toNat (offset.toInt + blockSize)
    when (kbfr.length ≠ fblk.keyLength.toNat) <|
      throwHDB "Failed to read node's key for removal"
    removeIndexEntry (cString kbfr)
    addBlockToFreeList fblk offset

end

/-- `HDBNode::remove`: free a node and everything below it. -/
def removeNodeData (nd : HDBNodeData) : HDBM Bool := do
  if nd.offset ≤ 0 then
    pure false
  else
    let n ← stepBound
    removeSiblings (2 * n + 1) nd.blk.lastChild
    unlink nd
    addBlockToFreeList nd.blk nd.offset
    removeIndexEntry (cString nd.key)
    let _ ← registerWrite
    pure true

/-! ### Handles -/

namespace HDBHandle

/-- `HDBHandle::getFirstRoot` -/
def getFirstRoot : HDBM HDBNode := do
  let h ← getHdrBlock
  nodeAt h.firstRoot

/-- `HDBHandle::getNode` -/
def getNode (key : List UInt8) : HDBM HDBNode :=
  if key = [] then pure none else nodeOfKey key

/-- Bring a node up to date and go on with it, unless it is null or has left the file. -/
def onReloaded {α : Type} (node : HDBNode) (dflt : α) (f : HDBNodeData → HDBM α) : HDBM α :=
  match node with
  | none => pure dflt
  | some nd => do
    match ← reload nd with
    | none => pure dflt
    | some nd => f nd

/-- `HDBHandle::getParent` -/
def getParent (node : HDBNode) : HDBM HDBNode := onReloaded node none fun nd => nodeAt nd.blk.parent

/-- `HDBHandle::getFirstChild` -/
def getFirstChild (node : HDBNode) : HDBM HDBNode :=
  onReloaded node none fun nd => nodeAt nd.blk.firstChild

/-- `HDBHandle::getNextSibling` -/
def getNextSibling (node : HDBNode) : HDBM HDBNode :=
  onReloaded node none fun nd => nodeAt nd.blk.nextSib

/-- `HDBHandle::addRootNode` -/
def addRootNode (node : HDBNode) : HDBM Bool :=
  match node with
  | none => pure false
  | some nd => do
    when (nd.offset > 0) <| throwHDB "node is already on file"
    let ientry ← findIndexEntry nd.key
    when ientry.isSome <| throwHDB "key for node is already in index"
    let _ ← writeNode nd
    pure true

/-- `HDBHandle::addChild(parentNode, childNode)` -/
def addChild (parentNode childNode : HDBNode) : HDBM Bool :=
  match parentNode, childNode with
  | some pnd, some nd => do
    when (nd.offset > 0) <| throwHDB "child node already has a parent"
    when (pnd.offset ≤ 0) <| throwHDB "parent node is not on file"
    let ientry ← findIndexEntry nd.key
    when ientry.isSome <| throwHDB "key for node is already in index"
    match ← reload pnd with
    | none => pure false
    | some pnd =>
      let _ ← addChildNode pnd nd
      pure true
  | _, _ => pure false

/-- `HDBHandle::removeNode(node)` -/
def removeNode (node : HDBNode) : HDBM Bool :=
  match node with
  | none => pure false
  | some nd => do
    if nd.offset > 0 then
      match ← reload nd with
      | none => pure false
      | some nd =>
        let _ ← removeNodeData nd
        pure true
    else
      pure false

/-- `HDBHandle::removeNode(key)` -/
def removeNodeByKey (key : List UInt8) : HDBM Bool :=
  if key = [] then pure false
  else do
    match ← nodeOfKey key with
    | none => pure true
    | some nd =>
      let _ ← removeNodeData nd
      pure true

/-- `HDBHandle::updateNode` -/
def updateNode (node parentNode : HDBNode) (dataLen : Int32) (data : Option (List UInt8)) :
    HDBM Bool :=
  match node with
  | none => pure false
  | some nd => do
    if nd.offset > 0 then
      match ← reload nd with
      | none => pure false
      | some nd => Option.isSome <$> updateData nd parentNode dataLen data
    else
      Option.isSome <$> updateData nd parentNode dataLen data

/-- `HDBHandle::turnFlagsOn` -/
def turnFlagsOn (node : HDBNode) (flags : UInt32) : HDBM Unit :=
  onReloaded node () fun nd => do
    let _ ← turnFlagsOnNode nd flags

/-- `HDBHandle::turnFlagsOff` -/
def turnFlagsOff (node : HDBNode) (flags : UInt32) : HDBM Unit :=
  onReloaded node () fun nd => do
    let _ ← turnFlagsOffNode nd flags

end HDBHandle

end OpenWbem.Hdb
