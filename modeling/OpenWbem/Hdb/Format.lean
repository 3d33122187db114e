import Mathlib.Algebra.Group.Nat.Defs
import OpenWbem.Base.Extents

/-!
# The HDB file format

The on-disk structures of the hierarchical database: the header block at the start of the file
and the node blocks behind it. Fields are 32-bit little-endian; the structures have the layout
that the compiler gives them, with three padding bytes behind `isFree`.

The field `chkSum` of a block is set on every write and checked on every read, and nothing else
looks at it. So it is a part of the codec here and not of `HDBBlock`.

## Main definitions

* `HDBHeaderBlock`, `HDBBlock` — the structures.
* `encodeBlock`, `decodeBlock` — their bytes, with the check sum.
* `blockLayout` — node blocks as blocks with an extent, addressed by their offset.

## Main results

* `decodeBlock_encodeBlock` — a block reads back as it was written.
-/

namespace OpenWbem.Hdb

open Bytes

/-! ### The structures -/

/-- The header of a database: its version and the offsets of the root nodes and of the first free
block. The signature is a constant of the format. -/
structure HDBHeaderBlock where
  version : UInt32
  firstRoot : Int32
  lastRoot : Int32
  firstFree : Int32
  deriving DecidableEq

/-- A node of the database, live or free. -/
structure HDBBlock where
  /-- Node is a free block. -/
  isFree : Bool
  /-- The size of this block (used in the free list). -/
  size : UInt32
  /-- User defined flags. -/
  flags : UInt32
  nextSib : Int32
  prevSib : Int32
  parent : Int32
  firstChild : Int32
  lastChild : Int32
  /-- Length of the key component of the data, with its terminating zero byte. -/
  keyLength : UInt32
  /-- Length of key and data. -/
  dataLength : UInt32
  deriving DecidableEq

/-- `OW_HDBSIGNATURE`, "OWHIERARCHICADB" with its terminating zero byte. -/
def hdbSignature : List UInt8 :=
  [79, 87, 72, 73, 69, 82, 65, 82, 67, 72, 73, 67, 65, 68, 66, 0]

/-- The version of the databases that the current code creates. -/
def hdbVersion : UInt32 := 4000003

/-- `sizeof(HDBHeaderBlock)`. -/
def headerSize : ℕ := 32

/-- `sizeof(HDBBlock)`. -/
def blockSize : ℕ := 44

/-! ### The codec -/

/-- The bytes of a signed field. -/
def leI32 (i : Int32) : List UInt8 := le32 i.toUInt32.toNat

/-- The bytes of the header block. -/
def encodeHeader (h : HDBHeaderBlock) : List UInt8 :=
  hdbSignature ++ le32 h.version.toNat ++ leI32 h.firstRoot ++ leI32 h.lastRoot ++
    leI32 h.firstFree

/-- The sum of all bytes. -/
def calcCheckSum (src : List UInt8) : UInt32 := src.foldl (fun cksum b => cksum + b.toUInt32) 0

/-- The bytes of a block behind the check sum. -/
def blockFields (b : HDBBlock) : List UInt8 :=
  [if b.isFree then 1 else 0, 0, 0, 0] ++ (le32 b.size.toNat ++ (le32 b.flags.toNat ++
    (leI32 b.nextSib ++ (leI32 b.prevSib ++ (leI32 b.parent ++ (leI32 b.firstChild ++
      (leI32 b.lastChild ++ (le32 b.keyLength.toNat ++ (le32 b.dataLength.toNat ++ [])))))))))

/-- The bytes of a block: the check sum is taken over the block with a zero in its place. -/
def encodeBlock (b : HDBBlock) : List UInt8 :=
  le32 (calcCheckSum (le32 0 ++ blockFields b)).toNat ++ blockFields b

/-- Read a block from its bytes, unless the check sum is wrong. -/
def decodeBlock (bs : List UInt8) : Option HDBBlock :=
  if getU32 bs 0 = calcCheckSum (le32 0 ++ bs.drop 4) then
    some
      { isFree := bs.getD 4 0 ≠ 0, size := getU32 bs 8, flags := getU32 bs 12
        nextSib := getI32 bs 16, prevSib := getI32 bs 20, parent := getI32 bs 24
        firstChild := getI32 bs 28, lastChild := getI32 bs 32, keyLength := getU32 bs 36
        dataLength := getU32 bs 40 }
  else none

/-- The length of a file header. -/
@[simp] lemma length_encodeHeader (h : HDBHeaderBlock) : (encodeHeader h).length = headerSize := rfl

/-- The length of a block header. -/
@[simp] lemma length_encodeBlock (b : HDBBlock) : (encodeBlock b).length = blockSize := rfl

/-- **A block reads back as it was written**, with the check sum that was written. -/
theorem decodeBlock_encodeBlock (b : HDBBlock) : decodeBlock (encodeBlock b) = some b := by
  have hsum : getU32 (encodeBlock b) 0 = calcCheckSum (le32 0 ++ (encodeBlock b).drop 4) :=
    getU32_le32 (calcCheckSum (le32 0 ++ blockFields b))
  have hfree : decide ((encodeBlock b).getD 4 0 ≠ 0) = b.isFree := by
    change decide ((if b.isFree then (1 : UInt8) else 0) ≠ 0) = b.isFree
    cases b.isFree <;> rfl
  have hsize : getU32 (encodeBlock b) 8 = b.size := getU32_le32 b.size
  have hflags : getU32 (encodeBlock b) 12 = b.flags := getU32_le32 b.flags
  have hnext : getI32 (encodeBlock b) 16 = b.nextSib := getI32_le32 b.nextSib
  have hprev : getI32 (encodeBlock b) 20 = b.prevSib := getI32_le32 b.prevSib
  have hpar : getI32 (encodeBlock b) 24 = b.parent := getI32_le32 b.parent
  have hfirst : getI32 (encodeBlock b) 28 = b.firstChild := getI32_le32 b.firstChild
  have hlast : getI32 (encodeBlock b) 32 = b.lastChild := getI32_le32 b.lastChild
  have hkey : getU32 (encodeBlock b) 36 = b.keyLength := getU32_le32 b.keyLength
  have hdata : getU32 (encodeBlock b) 40 = b.dataLength := getU32_le32 b.dataLength
  rw [decodeBlock, if_pos hsum]
  simp only [hfree, hsize, hflags, hnext, hprev, hpar, hfirst, hlast, hkey, hdata]

-- from here on only the lengths and the round trip are used
attribute [irreducible] encodeHeader encodeBlock decodeBlock

/-! ### Blocks and their extents -/

/-- Node blocks own `size` bytes from their offset on. -/
def blockLayout : Extents.Layout Int32 HDBBlock where
  pos := fun o => o.toInt.toNat
  enc := encodeBlock
  hsz := blockSize
  ext := fun b => b.size.toNat
  length_enc := length_encodeBlock
  hsz_pos := by decide

end OpenWbem.Hdb
