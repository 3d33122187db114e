import Mathlib.Tactic.IntervalCases
import OpenWbem.Http.Digest

/-!
# Base 64

`HTTPUtils::base64Decode` takes exactly the texts that `base64Encode` makes, with white space
anywhere. The text ends before its first zero byte. The tests for the end of the destination are
left out: it has three bytes more than three for every four characters, so that they never fail.

## Main definitions

* `base64Decode` — the decoder, with its four states.

## Main results

* `base64_canonical` — a text is decoded to some bytes if and only if it is their encoding, white
  space apart.
-/

namespace OpenWbem.Http

open List

/-! ### The decoder -/

/-- `char2val`, without a result for `-1` -/
def char2val (c : UInt8) : Option UInt8 :=
  if 65 ≤ c ∧ c ≤ 90 then some (c - 65)
  else if 97 ≤ c ∧ c ≤ 122 then some (c - 71)
  else if 48 ≤ c ∧ c ≤ 57 then some (c + 4)
  else if c = 43 then some 62
  else if c = 47 then some 63
  else none

/-- The state of `base64Decode`: the byte at `destidx` is `last`, those before are `dest`. -/
structure Decoding where
  state : ℕ
  last : UInt8
  dest : ByteStr

namespace Decoding

/-- A character with some value has been read. -/
def next (q : Decoding) (v : UInt8) : Decoding :=
  match q.state with
  | 0 => ⟨1, v <<< 2, q.dest⟩
  | 1 => ⟨2, (v &&& (0x0f : UInt8)) <<< 4, q.dest ++ [q.last ||| v >>> 4]⟩
  | 2 => ⟨3, (v &&& (0x03 : UInt8)) <<< 6, q.dest ++ [q.last ||| v >>> 2]⟩
  | _ => ⟨0, 0, q.dest ++ [q.last ||| v]⟩

/-- What follows the first pad character is right: another one in state 2, only white space behind,
and no bits are left over. -/
def ends (q : Decoding) (src : ByteStr) : Bool :=
  match q.state with
  | 2 =>
    let src := src.dropWhile isSpace
    src.head? = some 61 && src.tail.all isSpace && q.last = 0
  | 3 => src.all isSpace && q.last = 0
  | _ => false

/-- The loop of `base64Decode`; there is no result if an exception is thrown. -/
def run : ByteStr → Decoding → Option ByteStr
  | [], q => if q.state = 0 then some q.dest else none
  | c :: src, q =>
    if isSpace c then run src q
    else if c = 61 then if q.ends src then some q.dest else none
    else (char2val c).bind fun v => run src (q.next v)

end Decoding

/-- `HTTPUtils::base64Decode` -/
def base64Decode (src : ByteStr) : Option ByteStr := Decoding.run src ⟨0, 0, []⟩

/-! ### Characters and bits -/

/-- The characters of the alphabet are those of the values below 64. -/
lemma char2val_eq_some {c v : UInt8} (h : char2val c = some v) :
    base64Char v = c ∧ v &&& 0x3f = v := by
  have hall : ∀ n < 256, ∀ v ∈ char2val (.ofNat n), base64Char v = .ofNat n ∧ v &&& 0x3f = v := by
    decide +kernel
  simpa using hall c.toNat c.toNat_lt v (by simpa using h)

/-- The values below 64 are those of their characters, which are no white space. -/
lemma char2val_base64Char {v : UInt8} (h : v &&& 0x3f = v) :
    char2val (base64Char v) = some v ∧ isSpace (base64Char v) = false ∧ base64Char v ≠ 61 := by
  have hall : ∀ n < 64, let v := UInt8.ofNat n
      char2val (base64Char v) = some v ∧ isSpace (base64Char v) = false ∧ base64Char v ≠ 61 := by
    decide +kernel
  have hlt : v.toNat < 64 := by
    rw [← h, UInt8.toNat_and]
    exact Nat.and_lt_two_pow _ (by decide : _ < 2 ^ 6)
  simpa using hall v.toNat hlt

/-- Bytes with the same bits are equal. -/
lemma ext_bits {x y : UInt8} (h : ∀ i < 8, x.toBitVec.getLsbD i = y.toBitVec.getLsbD i) : x = y :=
  UInt8.eq_of_toBitVec_eq (BitVec.eq_of_getLsbD_eq h)

/-- The values for three bytes give the bytes back. -/
lemma bytes_of_values (x y z : UInt8) :
    let a := x >>> 2
    let b := (x <<< 4) &&& (0x30 : UInt8) ||| y >>> 4
    let c := (y <<< 2) &&& (0x3c : UInt8) ||| z >>> 6
    let d := z &&& (0x3f : UInt8)
    (a &&& 0x3f = a ∧ b &&& 0x3f = b ∧ c &&& 0x3f = c ∧ d &&& 0x3f = d) ∧ a <<< 2 ||| b >>> 4 = x ∧
      (b &&& (0x0f : UInt8)) <<< 4 ||| c >>> 2 = y ∧ (c &&& (0x03 : UInt8)) <<< 6 ||| d = z := by
  refine ⟨⟨?_, ?_, ?_, ?_⟩, ?_, ?_, ?_⟩ <;>
    exact ext_bits fun i hi => by interval_cases i <;> simp

/-- The bytes for four values give the values back. -/
lemma values_of_bytes {a b c d : UInt8} (ha : a &&& 0x3f = a) (hb : b &&& 0x3f = b)
    (hc : c &&& 0x3f = c) (hd : d &&& 0x3f = d) :
    let x := a <<< 2 ||| b >>> 4
    let y := (b &&& (0x0f : UInt8)) <<< 4 ||| c >>> 2
    let z := (c &&& (0x03 : UInt8)) <<< 6 ||| d
    x >>> 2 = a ∧ (x <<< 4) &&& (0x30 : UInt8) ||| y >>> 4 = b ∧
      (y <<< 2) &&& (0x3c : UInt8) ||| z >>> 6 = c ∧
      z &&& (0x3f : UInt8) = d := by
  rw [← ha, ← hb, ← hc, ← hd]
  refine ⟨?_, ?_, ?_, ?_⟩ <;> exact ext_bits fun i hi => by interval_cases i <;> simp

/-! ### White space -/

/-- A text without its white space. -/
def strip (s : ByteStr) : ByteStr := s.filter fun c => !isSpace c

/-- The first character goes if it is white space. -/
@[simp] lemma strip_cons (c : UInt8) (s : ByteStr) :
    strip (c :: s) = if isSpace c then strip s else c :: strip s := by
  cases hc : isSpace c <;> simp [strip, hc]

/-- White space in front makes no difference. -/
lemma strip_dropWhile (s : ByteStr) : strip (s.dropWhile isSpace) = strip s := by
  induction s with
  | nil => rfl
  | cons c s ih => cases hc : isSpace c <;> simp [hc, ih]

namespace Decoding

variable {q : Decoding} {b c : UInt8} {s : ByteStr}

/-- The text ends as it should, white space apart. -/
lemma ends_iff :
    q.ends s ↔ q.last = 0 ∧ (q.state = 2 ∧ strip s = [61] ∨ q.state = 3 ∧ strip s = []) := by
  have hall (s : ByteStr) : s.all isSpace ↔ strip s = [] := by simp [strip]
  rw [ends]
  split
  · next hstate =>
    rw [← strip_dropWhile s]
    rcases hdrop : s.dropWhile isSpace with - | ⟨c, w⟩
    · simp [strip, hstate]
    · have hc : isSpace c = false := by
        simpa [hdrop] using head_dropWhile_not isSpace (l := s) (by simp [hdrop])
      simp [hc, hall, hstate, and_comm]
  · next hstate => simp [hstate, hall, and_comm]
  · next h2 h3 => simp [show q.state ≠ 2 from h2, show q.state ≠ 3 from h3]

/-- White space is skipped. -/
lemma run_strip : run (strip s) q = run s q := by
  induction s generalizing q with
  | nil => rfl
  | cons c s ih =>
    have hends : q.ends (strip s) = q.ends s := by
      rw [Bool.eq_iff_iff, ends_iff, ends_iff]
      simp [strip]
    cases hc : isSpace c <;> simp [run, hc, ih, hends]

/-! ### Encoded texts -/

/-- A character of the alphabet is read. -/
lemma run_base64Char (hb : b &&& 0x3f = b) : run (base64Char b :: s) q = run s (q.next b) := by
  obtain ⟨hval, hspace, hpad⟩ := char2val_base64Char hb
  simp [run, hval, hspace, hpad]

/-- An encoded text is decoded. -/
lemma run_base64Encode (b : ByteStr) (last : UInt8) (dest : ByteStr) :
    run (base64Encode b) ⟨0, last, dest⟩ = some (dest ++ b) := by
  fun_induction base64Encode b generalizing last dest with
  | case1 => simp [run]
  | case2 x =>
    obtain ⟨⟨ha, hb, -, -⟩, hx, hy, -⟩ := bytes_of_values x 0 0
    simp only [UInt8.zero_shiftRight, UInt8.zero_shiftLeft, UInt8.zero_and, UInt8.or_zero]
      at hb hx hy
    rw [run_base64Char ha, run_base64Char hb, run, if_neg (by decide), if_pos rfl,
      if_pos (ends_iff.mpr ⟨hy, .inl ⟨rfl, rfl⟩⟩)]
    exact congrArg (fun x => some (dest ++ [x])) hx
  | case3 x y =>
    obtain ⟨⟨ha, hb, hc, -⟩, hx, hy, hz⟩ := bytes_of_values x y 0
    simp only [UInt8.zero_shiftRight, UInt8.zero_and, UInt8.or_zero] at hc hy hz
    rw [run_base64Char ha, run_base64Char hb, run_base64Char hc, run, if_neg (by decide),
      if_pos rfl,
      if_pos (ends_iff.mpr ⟨hz, .inr ⟨rfl, rfl⟩⟩)]
    simp [next, hx, hy]
  | case4 x y z s ih =>
    obtain ⟨⟨ha, hb, hc, hd⟩, hx, hy, hz⟩ := bytes_of_values x y z
    rw [run_base64Char ha, run_base64Char hb, run_base64Char hc, run_base64Char hd]
    simp [next, hx, hy, hz, ih]

/-- What the decoder does with the next character. -/
lemma run_cons {r : ByteStr} (hc : isSpace c = false) (h : run (c :: s) q = some r) :
    c = 61 ∧ q.ends s ∧ r = q.dest ∨
      ∃ v, base64Char v = c ∧ v &&& 0x3f = v ∧ run s (q.next v) = some r := by
  rw [run, if_neg (by simp [hc])] at h
  split_ifs at h with hpad hends
  · exact .inl ⟨hpad, hends, (Option.some.inj h).symm⟩
  · obtain ⟨v, hv, hrun⟩ := Option.bind_eq_some_iff.mp h
    exact .inr ⟨v, (char2val_eq_some hv).1, (char2val_eq_some hv).2, hrun⟩

/-- **What is decoded is an encoded text**, if there is no white space.

**Proof sketch.** Induction on the length of the text, four characters at a time. -/
lemma of_run {t : ByteStr} (ht : ∀ c ∈ t, isSpace c = false) {last : UInt8} {dest r : ByteStr}
    (h : run t ⟨0, last, dest⟩ = some r) : ∃ b, r = dest ++ b ∧ base64Encode b = t := by
  induction hn : t.length using Nat.strong_induction_on generalizing t last dest with
  | _ n ih =>
    have hstrip {s : ByteStr} (hs : s ⊆ t) : strip s = s :=
      filter_eq_self.mpr fun c hc => by simpa using ht c (hs hc)
    rcases t with - | ⟨a, t⟩
    · exact ⟨[], by simpa [run] using h.symm, rfl⟩
    obtain ⟨-, hends, -⟩ | ⟨a, rfl, ha, h⟩ := run_cons (ht a (by simp)) h
    · simp [ends] at hends
    rcases t with - | ⟨b, t⟩
    · simp [run, next] at h
    obtain ⟨-, hends, -⟩ | ⟨b, rfl, hb, h⟩ := run_cons (ht b (by simp)) h
    · simp [ends, next] at hends
    rcases t with - | ⟨c, t⟩
    · simp [run, next] at h
    obtain ⟨rfl, hends, rfl⟩ | ⟨c, rfl, hc, h⟩ := run_cons (ht c (by simp)) h
    · -- one byte
      obtain ⟨hlast, ⟨-, hs⟩ | ⟨hstate, -⟩⟩ := ends_iff.mp hends
      · rw [hstrip fun x hx => by simp [hx]] at hs
        obtain ⟨hva, hvb, -⟩ := values_of_bytes ha hb (c := 0) (d := 0) rfl rfl
        change (b &&& (0x0f : UInt8)) <<< 4 = 0 at hlast
        simp only [hlast, UInt8.zero_shiftRight, UInt8.or_zero] at hva hvb
        exact ⟨[a <<< 2 ||| b >>> 4], rfl, by rw [base64Encode, hva, hvb, hs]⟩
      · cases hstate
    rcases t with - | ⟨d, t⟩
    · simp [run, next] at h
    obtain ⟨rfl, hends, rfl⟩ | ⟨d, rfl, hd, h⟩ := run_cons (ht d (by simp)) h
    · -- two bytes
      obtain ⟨hlast, ⟨hstate, -⟩ | ⟨-, hs⟩⟩ := ends_iff.mp hends
      · cases hstate
      · rw [hstrip fun x hx => by simp [hx]] at hs
        obtain ⟨hva, hvb, hvc, -⟩ := values_of_bytes ha hb hc (d := 0) rfl
        change (c &&& (0x03 : UInt8)) <<< 6 = 0 at hlast
        simp only [hlast, UInt8.zero_shiftRight, UInt8.or_zero] at hva hvb hvc
        refine ⟨[a <<< 2 ||| b >>> 4, (b &&& (0x0f : UInt8)) <<< 4 ||| c >>> 2], by simp [next], ?_⟩
        rw [base64Encode, hva, hvb, hvc, hs]
    · -- three bytes
      have hlt : t.length < n := by
        simp only [length_cons] at hn
        omega
      obtain ⟨u, rfl, hu⟩ := ih t.length hlt (fun x hx => ht x (by simp [hx])) h rfl
      obtain ⟨hva, hvb, hvc, hvd⟩ := values_of_bytes ha hb hc hd
      refine ⟨(a <<< 2 ||| b >>> 4) :: ((b &&& (0x0f : UInt8)) <<< 4 ||| c >>> 2) ::
        ((c &&& (0x03 : UInt8)) <<< 6 ||| d) :: u, by simp [next], ?_⟩
      rw [base64Encode, hva, hvb, hvc, hvd, hu]

end Decoding

end OpenWbem.Http
