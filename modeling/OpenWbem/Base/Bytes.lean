import Mathlib.Data.List.Lex
import Mathlib.Order.Lattice

/-!
# Byte files

A file is a list of bytes with a position. Reading takes the bytes from the position on, as far
as there are any; writing replaces bytes from the position on, extends the file where it has to,
and fills a gap behind the old end with zero bytes.

## Main definitions

* `Bytes.slice`, `Bytes.patch` — the bytes of a range, and the bytes after a write.
* `Bytes.le32`, `Bytes.getU32`, `Bytes.getI32` — little-endian 32-bit fields.
* `ByteFile` — a byte list with a position, and its reads and writes.

## Main results

* `Bytes.getElem?_patch` — the bytes of a file after a write.
* `Bytes.slice_patch_self`, `Bytes.slice_patch_of_disjoint` — reading back.
* `Bytes.getU32_le32` — a field reads back as it was written.
-/

namespace Bytes

open List

/-- Bytes are ordered as unsigned numbers. -/
instance byteOrder : LinearOrder UInt8 where
  le_refl := UInt8.le_refl
  le_trans := fun _ _ _ => UInt8.le_trans
  lt_iff_le_not_ge := fun a b => by
    rw [UInt8.lt_iff_toNat_lt, UInt8.le_iff_toNat_le, UInt8.le_iff_toNat_le]; omega
  le_antisymm := fun _ _ => UInt8.le_antisymm
  le_total := UInt8.le_total
  toDecidableLE := inferInstance
  toDecidableEq := inferInstance
  toDecidableLT := inferInstance
  min_def := fun _ _ => rfl
  max_def := fun _ _ => rfl

/-- The equality of bytes is lawful. It can be found in several ways, among them by the order; the
instances have names, so that all definitions refer to the same one. -/
instance lawfulBEqByte : LawfulBEq UInt8 := inferInstance

/-- The equality of byte strings is lawful. -/
instance lawfulBEqBytes : LawfulBEq (List UInt8) := inferInstance

/-! ### Ranges and writes -/

/-- The (at most) `n` bytes from the offset `off` on. -/
def slice (bs : List UInt8) (off n : ℕ) : List UInt8 := (bs.drop off).take n

/-- The bytes after `w` has been written at the offset `off`. -/
def patch (bs : List UInt8) (off : ℕ) (w : List UInt8) : List UInt8 :=
  bs.take off ++ replicate (off - bs.length) 0 ++ w ++ bs.drop (off + w.length)

/-- The bytes of a range. -/
lemma getElem?_slice (bs : List UInt8) (off n i : ℕ) :
    (slice bs off n)[i]? = if i < n then bs[off + i]? else none := by
  simp [slice, getElem?_take]

variable {bs w : List UInt8} {off n m o : ℕ}

/-- A range inside the bytes. -/
lemma length_slice_of_le (h : off + n ≤ bs.length) : (slice bs off n).length = n := by
  simp [slice]; omega

/-- The beginning of a range. -/
lemma take_slice (h : m ≤ n) : (slice bs off n).take m = slice bs off m := by
  rw [slice, slice, take_take, Nat.min_eq_left h]

/-- Two files agree on a range as soon as they agree byte by byte. -/
lemma slice_congr {cs : List UInt8}
    (h : ∀ i, off ≤ i → i < off + n → bs[i]? = cs[i]?) : slice bs off n = slice cs off n := by
  apply ext_getElem?
  intro i
  rw [getElem?_slice, getElem?_slice]
  split
  · exact h _ (by omega) (by omega)
  · rfl

/-- **A write, byte by byte.** Bytes of the written range are new, the others are the old ones;
a gap between the old end and the written range holds zeros. -/
lemma getElem?_patch (bs : List UInt8) (off : ℕ) (w : List UInt8) (i : ℕ) : (patch bs off w)[i]? =
      if i < off then (if i < bs.length then bs[i]? else some 0)
      else if i < off + w.length then w[i - off]? else bs[i]? := by
  have hlen : (bs.take off ++ replicate (off - bs.length) (0 : UInt8)).length = off := by
    simp only [length_append, length_take, length_replicate]; omega
  rw [patch, append_assoc, getElem?_append, hlen]
  by_cases h1 : i < off
  · rw [if_pos h1, if_pos h1, getElem?_append, length_take]
    by_cases h2 : i < bs.length
    · rw [if_pos (by omega), if_pos h2, getElem?_take, if_pos h1]
    · rw [if_neg (by omega), if_neg h2, getElem?_replicate, if_pos (by omega)]
  · rw [if_neg h1, if_neg h1, getElem?_append]
    by_cases h2 : i < off + w.length
    · rw [if_pos (by omega), if_pos h2]
    · rw [if_neg (by omega), if_neg h2, getElem?_drop]
      congr 1; omega

/-- A write may lengthen the bytes. -/
lemma length_patch (bs : List UInt8) (off : ℕ) (w : List UInt8) :
    (patch bs off w).length = max bs.length (off + w.length) := by
  simp only [patch, length_append, length_take, length_replicate, length_drop]
  omega

/-- Reading what was written. -/
lemma slice_patch_self (bs : List UInt8) (off : ℕ) (w : List UInt8) :
    slice (patch bs off w) off w.length = w := by
  apply ext_getElem?
  intro i
  rw [getElem?_slice, getElem?_patch]
  by_cases h : i < w.length
  · rw [if_pos h, if_neg (by omega), if_pos (by omega), Nat.add_sub_cancel_left]
  · rw [if_neg h, getElem?_eq_none (by omega)]

/-- Reading a part of it. -/
lemma slice_patch_of_sub (h : o + n ≤ w.length) :
    slice (patch bs off w) (off + o) n = slice w o n := by
  apply ext_getElem?
  intro i
  rw [getElem?_slice, getElem?_slice, getElem?_patch]
  by_cases hi : i < n
  · rw [if_pos hi, if_pos hi, if_neg (by omega), if_pos (by omega)]
    congr 1; omega
  · rw [if_neg hi, if_neg hi]

/-- A range that a write does not touch, and that lies within the file, reads as before. -/
lemma slice_patch_of_disjoint (h : o + n ≤ off ∨ off + w.length ≤ o) (hlen : o + n ≤ bs.length) :
    slice (patch bs off w) o n = slice bs o n := by
  refine slice_congr fun i hi hi' => ?_
  rw [getElem?_patch]
  rcases h with h | h
  · rw [if_pos (by omega), if_pos (by omega)]
  · rw [if_neg (by omega), if_neg (by omega)]

/-- A range in two parts. -/
lemma slice_append (h : off + m ≤ bs.length) :
    slice bs off (m + n) = slice bs off m ++ slice bs (off + m) n := by
  apply ext_getElem?
  intro i
  rw [getElem?_slice, getElem?_append, length_slice_of_le h, getElem?_slice, getElem?_slice]
  by_cases h1 : i < m
  · rw [if_pos (by omega), if_pos h1, if_pos h1]
  · rw [if_neg h1]
    by_cases h2 : i < m + n
    · rw [if_pos h2, if_pos (by omega)]
      congr 1; omega
    · rw [if_neg h2, if_neg (by omega)]

/-- Writing two pieces one after the other is one write. -/
lemma patch_append (bs : List UInt8) (off : ℕ) (v w : List UInt8) :
    patch (patch bs off v) (off + v.length) w = patch bs off (v ++ w) := by
  apply ext_getElem?
  intro i
  simp only [getElem?_patch, length_patch, length_append]
  by_cases h1 : i < off
  · simp only [h1, if_true, show i < off + v.length by omega]
    by_cases h2 : i < bs.length
    · rw [if_pos (by omega)]
    · by_cases h3 : i < max bs.length (off + v.length)
      · rw [if_pos h3]
      · rw [if_neg h3, if_neg h2]
  · by_cases h2 : i < off + v.length
    · rw [if_pos h2, if_pos (by omega), if_neg h1, if_pos h2, if_neg h1, if_pos (by omega),
        getElem?_append, if_pos (by omega)]
    · rw [if_neg h2, if_neg h1, if_neg h2]
      by_cases h3 : i < off + v.length + w.length
      · rw [if_pos h3, if_neg h1, if_pos (by omega), getElem?_append, if_neg (by omega)]
        congr 1; omega
      · rw [if_neg h3, if_neg h1, if_neg (by omega)]

/-! ### Little-endian fields -/

/-- The four bytes of a 32-bit field. -/
def le32 (n : ℕ) : List UInt8 :=
  [UInt8.ofNat n, UInt8.ofNat (n / 256), UInt8.ofNat (n / 65536), UInt8.ofNat (n / 16777216)]

/-- The unsigned 32-bit field at the offset `i`. -/
def getU32 (bs : List UInt8) (i : ℕ) : UInt32 :=
  UInt32.ofNat ((bs.getD i 0).toNat + 256 * (bs.getD (i + 1) 0).toNat +
    65536 * (bs.getD (i + 2) 0).toNat + 16777216 * (bs.getD (i + 3) 0).toNat)

/-- The signed 32-bit field at the offset `i`. -/
def getI32 (bs : List UInt8) (i : ℕ) : Int32 := (getU32 bs i).toInt32

/-- A field reads back as it was written. -/
lemma getU32_le32 (u : UInt32) : getU32 (le32 u.toNat) 0 = u := by
  have hval : ∀ n, (UInt8.ofNat n).toNat = n % 256 := fun n => by simp
  have hu : u.toNat < 4294967296 := u.toNat_lt
  rw [← UInt32.toNat_inj, getU32]
  simp only [le32, getD_cons_zero, getD_cons_succ, hval]
  rw [UInt32.toNat_ofNat']
  omega

/-- Reading back an `Int32`. -/
lemma getI32_le32 (i : Int32) : getI32 (le32 i.toUInt32.toNat) 0 = i := by
  rw [getI32, getU32_le32]
  exact Int32.toInt32_toUInt32 i

end Bytes

/-! ### Files -/

/-- An open file: its bytes and the position of the next read or write. -/
structure ByteFile where
  bytes : List UInt8
  pos : ℕ
  deriving DecidableEq

namespace ByteFile

open Bytes

/-- Read at most `n` bytes from the current position on. -/
def read (f : ByteFile) (n : ℕ) : List UInt8 × ByteFile :=
  let w := slice f.bytes f.pos n
  (w, { f with pos := f.pos + w.length })

/-- Write `w` at the current position. -/
def write (f : ByteFile) (w : List UInt8) : ByteFile :=
  { bytes := patch f.bytes f.pos w, pos := f.pos + w.length }

/-- Move to an absolute position. The offset `-1` stands for the current position; another
negative position does not exist. -/
def seek (f : ByteFile) (off : Int) : Option ByteFile :=
  if off = -1 then some f
  else if off < 0 then none
  else some { f with pos := off.toNat }

/-- Move to the end of the file. -/
def seekEnd (f : ByteFile) : ByteFile := { f with pos := f.bytes.length }

end ByteFile
