import OpenWbem.Base.Stream
import Mathlib.Data.Nat.Bitwise

/-!
# Numbers in network byte order

A number of a fixed width is written with its most significant byte first. A length is written with
as many bytes as it needs, behind a byte that says how many these are; a length of less than 128 is
that byte itself.

## Main definitions

* `BigEndian.encode`, `BigEndian.decode` — the bytes of a number, and the number.
* `BigEndian.writeLen`, `BigEndian.readLen` — lengths.

## Main results

* `BigEndian.decode_encode` — a number is read back, if it fits.
* `BigEndian.reads_len` — a length is read back.
-/

open Prog Reader

namespace BigEndian

open List

variable {ε α : Type}

/-- The `k` bytes of a number, the most significant one first. -/
def encode : ℕ → ℕ → List UInt8
  | 0, _ => []
  | k + 1, n => encode k (n / 256) ++ [UInt8.ofNat n]

/-- The number with the given bytes. -/
def decode (l : List UInt8) : ℕ := l.foldl (fun n b => n * 256 + b.toNat) 0

/-- The length of an encoding. -/
@[simp] lemma length_encode (k n : ℕ) : (encode k n).length = k := by
  induction k generalizing n with
  | zero => rfl
  | succ k ih => rw [encode, length_append, ih, length_singleton]

/-- Decoding undoes encoding. -/
lemma decode_encode (k n : ℕ) (h : n < 256 ^ k) : decode (encode k n) = n := by
  induction k generalizing n with
  | zero =>
    obtain rfl : n = 0 := by omega
    rfl
  | succ k ih =>
    have hdiv : n / 256 < 256 ^ k := by
      rw [Nat.div_lt_iff_lt_mul (by decide)]
      rwa [Nat.pow_succ] at h
    have hdec := ih _ hdiv
    rw [decode] at hdec
    rw [encode, decode, foldl_append, foldl_cons, foldl_nil]
    have hbyte : (UInt8.ofNat n).toNat = n % 256 := by simp
    rw [hbyte]
    omega

/-! ### Numbers of a fixed width -/

/-- A number of `k` bytes, as a value of a machine type. -/
def readNum (e : ε) (k : ℕ) (f : ℕ → α) : Reader ε α := do
  let l ← take e k
  pure (f (decode l))

variable {e e' : ε} {k n m : ℕ} {f : ℕ → α}

/-- Reading back a number. -/
lemma reads_num (h : n < 256 ^ k) : Reads (readNum e k f) (encode k n) (f n) := by
  have htake := Reads.take e (encode k n)
  rw [length_encode] at htake
  have hread := htake.bind_pure (g := fun l => f (decode l))
  rwa [decode_encode k n h] at hread

/-- Numbers of fixed length. -/
lemma plain_num (h : e' ≠ e) : Plain e m (readNum e' k f) := (Plain.take h k).bind fun _ => .pure _

/-- A number has bytes. -/
lemma consumes_num (hk : 0 < k) : Consumes (readNum e k f) :=
  (Consumes.take e hk).bind fun _ _ => Nat.le_refl _

/-! ### Lengths -/

/-- The number of bytes of a length. -/
def lenLen (n : ℕ) : ℕ :=
  if n < 2 ^ 8 then 1 else if n < 2 ^ 16 then 2 else if n < 2 ^ 24 then 3 else 4

/-- A length, in the encoding of ASN.1. -/
def writeLen (len : UInt32) : List UInt8 :=
  if len < 128 then [len.toUInt8]
  else (UInt8.ofNat (lenLen len.toNat) ||| 0x80) :: encode (lenLen len.toNat) len.toNat

/-- Read a length; `e` is thrown if the stream ends, or if the length has more than four bytes. -/
def readLen (e : ε) : Reader ε UInt32 := do
  let lc ← readNum e 1 UInt8.ofNat
  if lc &&& 0x80 ≠ 0 then
    let noctets := (lc &&& 0x7f).toNat
    if 4 < noctets then throw e
    else readNum e noctets UInt32.ofNat
  else pure lc.toUInt32

/-- The length is enough. -/
lemma lt_pow_lenLen (h : n < 2 ^ 32) : n < 256 ^ lenLen n := by
  rw [lenLen]
  split_ifs <;> omega

/-- The four lengths. -/
lemma lenLen_cases (n : ℕ) : lenLen n = 1 ∨ lenLen n = 2 ∨ lenLen n = 3 ∨ lenLen n = 4 := by
  rw [lenLen]
  split_ifs <;> simp

/-- **A length is read back.** -/
lemma reads_len (e : ε) (len : UInt32) : Reads (readLen e) (writeLen len) len := by
  have hbyte : ∀ c : UInt8, Reads (readNum e 1 UInt8.ofNat) [c] c := by
    intro c
    have h := reads_num (e := e) (k := 1) (f := UInt8.ofNat) c.toNat_lt
    rwa [UInt8.ofNat_toNat, show encode 1 c.toNat = [c] by simp [encode]] at h
  rw [writeLen]
  split_ifs with hlen
  · have hlt : len.toNat < 128 := UInt32.lt_iff_toNat_lt.1 hlen
    have hnat : len.toUInt8.toNat = len.toNat := by
      rw [UInt32.toNat_toUInt8]
      omega
    have hshort : len.toUInt8 &&& 0x80 = 0 := by
      apply UInt8.toNat_inj.1
      rw [UInt8.toNat_and, hnat, show (0x80 : UInt8).toNat = 2 ^ 7 from rfl, Nat.and_two_pow,
        Nat.testBit_lt_two_pow hlt]
      rfl
    have hback : len.toUInt8.toUInt32 = len := by
      apply UInt32.toNat_inj.1
      rw [UInt8.toNat_toUInt32, hnat]
    intro t
    rw [readLen, exec_bind_of_ok (hbyte _ t), if_neg (by rw [hshort]; simp), exec_pure, hback]
  · have hread := reads_num (e := e) (f := UInt32.ofNat) (lt_pow_lenLen len.toNat_lt)
    rw [UInt32.ofNat_toNat] at hread
    have hbits : ((UInt8.ofNat (lenLen len.toNat) ||| 0x80) &&& 0x80 ≠ 0) ∧
        ((UInt8.ofNat (lenLen len.toNat) ||| 0x80) &&& 0x7f).toNat = lenLen len.toNat ∧
        lenLen len.toNat ≤ 4 := by
      rcases lenLen_cases len.toNat with h | h | h | h <;> rw [h] <;> decide
    intro t
    rw [readLen, cons_append, ← singleton_append, exec_bind_of_ok (hbyte _ _),
      if_pos hbits.1, if_neg (by rw [hbits.2.1]; omega), hbits.2.1]
    exact hread t

/-- Numbers that tell their length. -/
lemma plain_len (h : e' ≠ e) : Plain e m (readLen e') := by
  refine (plain_num h).bind fun lc => ?_
  dsimp only
  split_ifs
  · exact .throw h
  · exact plain_num h
  · exact .pure _

end BigEndian
