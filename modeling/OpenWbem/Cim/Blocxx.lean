import Mathlib.Tactic.IntervalCases
import OpenWbem.Base.BigEndian
import OpenWbem.Base.Bytes

/-!
# The library below

The program rests on a library for strings, characters and numbers, which is not a part of it. What
the program uses of that library is a parameter here.

## Main definitions

* `ByteStr` — strings, which are sequences of bytes.
* `ReadError` — what readers of streams throw.
* `Blocxx` — the functions of the library.
* `Blocxx.Faithful`, `Blocxx.Decimal` — what is assumed about them.

## Main results

* `faithful_unit`, `decimal_unit` — the assumptions hold of an implementation.
-/

namespace OpenWbem

open Reader BigEndian List Nat UInt8

/-- `String`: a sequence of bytes. -/
abbrev ByteStr := List UInt8

/-- The bytes of a text of ASCII characters. -/
def ascii (l : List Char) : ByteStr := l.map fun c => ofNat c.toNat

/-- The bytes of a text. -/
def text (s : String) : ByteStr := s.toUTF8.data.toList

/-- The text of a number. -/
def number (n : Int) : ByteStr := text (toString n)

/-- The bytes of a longer text. -/
lemma text_append (s t : String) : text (s ++ t) = text s ++ text t := by
  simp [text]

/-- The bytes of a list. -/
lemma text_ofList (l : List Char) : text (String.ofList l) = l.flatMap String.utf8EncodeChar := by
  rw [text, String.toUTF8, String.toByteArray_ofList, utf8Encode]
  simp

/-- A digit is one byte. -/
lemma utf8EncodeChar_digit {c : Char} (h : c.isDigit) :
    ∃ b, String.utf8EncodeChar c = [b] ∧ 48 ≤ b ∧ b ≤ 57 := by
  rw [Char.isDigit] at h
  simp only [Bool.and_eq_true, decide_eq_true_eq] at h
  obtain ⟨hlow, hhigh⟩ := h
  change 48 ≤ c.val.toNat at hlow
  change c.val.toNat ≤ 57 at hhigh
  refine ⟨ofNat c.val.toNat, ?_, ?_, ?_⟩
  · rw [String.utf8EncodeChar, if_pos (by omega)]
  · rw [le_iff_toNat_le, toNat_ofNat']
    change 48 ≤ _
    omega
  · rw [le_iff_toNat_le, toNat_ofNat']
    change _ ≤ 57
    omega

/-- The text of a number has digits only, and a sign. -/
lemma of_mem_number {n : Int} {b : UInt8} (h : b ∈ number n) : b = 45 ∨ 48 ≤ b ∧ b ≤ 57 := by
  have hdigits (k : ℕ) (hb : b ∈ text (Nat.repr k)) : 48 ≤ b ∧ b ≤ 57 := by
    rw [Nat.repr, text_ofList, mem_flatMap] at hb
    obtain ⟨c, hc, hb⟩ := hb
    obtain ⟨b', hb', hrange⟩ :=
      utf8EncodeChar_digit (isDigit_of_mem_toDigits (by decide) (by decide) hc)
    rw [hb', mem_singleton] at hb
    subst hb
    exact hrange
  cases n with
  | ofNat k => exact .inr (hdigits k h)
  | negSucc k =>
    change b ∈ text ("-" ++ Nat.repr (k + 1)) at h
    rw [text_append, mem_append] at h
    rcases h with h | h
    · exact .inl (mem_singleton.1 h)
    · exact .inr (hdigits _ h)

/-- What readers of streams throw. -/
inductive ReadError where
  /-- `IOException`: the stream has ended, or a length is out of range. -/
  | io
  /-- `BadCIMSignatureException` -/
  | badSignature
  /-- `StringConversionException` -/
  | conversion
  /-- `AssertionException` -/
  | assertion
  /-- Another exception, which a handler of results throws. -/
  | other (code : ℕ)
  /-- Objects are nested more deeply than the levels that the reader has been given. -/
  | tooDeep
  deriving DecidableEq

/-- The functions of the library. The type `R` is that of floating point numbers. -/
class Blocxx (R : Type) where
  /-- `String::writeObject` -/
  writeString : ByteStr → List UInt8
  /-- `String::readObject` -/
  readString : Reader ReadError ByteStr
  /-- `Bool::writeObject` -/
  writeBool : Bool → List UInt8
  /-- `Bool::readObject` -/
  readBool : Reader ReadError Bool
  /-- `Char16::writeObject` -/
  writeChar16 : UInt16 → List UInt8
  /-- `Char16::readObject` -/
  readChar16 : Reader ReadError UInt16
  /-- The text of a floating point number. -/
  realText : R → ByteStr
  /-- `String::toReal32` -/
  toReal32 : ByteStr → Option R
  /-- `String::toReal64` -/
  toReal64 : ByteStr → Option R
  /-- The text of an integer. -/
  int32Text : Int32 → ByteStr
  /-- `String::toInt32` -/
  toInt32 : ByteStr → Option Int32

/-- What is assumed about the library: its readers read back what was written, do not look ahead,
and have nothing to do with levels. -/
structure Blocxx.Faithful (R : Type) [Blocxx R] : Prop where
  string : ∀ s : ByteStr, s.length < 2 ^ 32 → Reads (readString R) (writeString R s) s
  bool : ∀ b : Bool, Reads (readBool R) (writeBool R b) b
  char16 : ∀ c : UInt16, Reads (readChar16 R) (writeChar16 R c) c
  plain_string : ∀ n, Plain .tooDeep n (readString R)
  plain_bool : ∀ n, Plain .tooDeep n (readBool R)
  plain_char16 : ∀ n, Plain .tooDeep n (readChar16 R)

/-- What is assumed about the texts of positive numbers: they are of digits, and are read back. -/
structure Blocxx.Decimal (R : Type) [Blocxx R] : Prop where
  digits : ∀ i : Int32, 0 < i → ∀ c ∈ int32Text R i, 48 ≤ c ∧ c ≤ 57
  toInt32 : ∀ i : Int32, 0 < i → toInt32 R (int32Text R i) = some i

/-! ### An implementation -/

/-- The number that decimal digits stand for. -/
def ofDigits (s : ByteStr) : Option ℕ :=
  if s.isEmpty then none
  else s.foldlM (fun n c => if 48 ≤ c && c ≤ 57 then some (10 * n + (c - 48).toNat) else none) 0

/-- An implementation, with a single floating point number: a string is written as its length and
its bytes, a truth value as a byte and a character as two. -/
instance : Blocxx Unit where
  writeString s := writeLen (UInt32.ofNat s.length) ++ s
  readString := do
    let len ← readLen .io
    take .io len.toNat
  writeBool b := encode 1 b.toNat
  readBool := readNum .io 1 fun n => n != 0
  writeChar16 c := encode 2 c.toNat
  readChar16 := readNum .io 2 UInt16.ofNat
  realText _ := []
  toReal32 _ := some ()
  toReal64 _ := some ()
  int32Text i := ascii (toDigits 10 i.toNatClampNeg)
  toInt32 s := (ofDigits s).map Int32.ofNat

/-- The sample can read what it writes. -/
lemma faithful_unit : Blocxx.Faithful Unit where
  string s hs := by
    have hlen : (UInt32.ofNat s.length).toNat = s.length := UInt32.toNat_ofNat_of_lt hs
    have hread := Reads.take ReadError.io s
    rw [← hlen] at hread
    exact (reads_len ReadError.io _).bind hread
  bool b := by
    cases b
    · exact reads_num (e := ReadError.io) (k := 1) (n := 0) (by decide)
    · exact reads_num (e := ReadError.io) (k := 1) (n := 1) (by decide)
  char16 c := by
    have h := reads_num (e := ReadError.io) (k := 2) (f := UInt16.ofNat) c.toNat_lt
    rwa [UInt16.ofNat_toNat] at h
  plain_string _ := (plain_len (by decide)).bind fun _ => .take (by decide) _
  plain_bool _ := plain_num (by decide)
  plain_char16 _ := plain_num (by decide)

/-- The byte of a digit. -/
lemma byte_of_isDigit {c : Char} (h : c.isDigit) : 48 ≤ ofNat c.toNat ∧ ofNat c.toNat ≤ 57 ∧
      (ofNat c.toNat - 48).toNat = c.toNat - '0'.toNat := by
  have hc : 48 ≤ c.toNat ∧ c.toNat ≤ 57 := by
    simpa [Char.isDigit, UInt32.le_iff_toNat_le] using h
  obtain ⟨hl, hu⟩ := hc
  generalize c.toNat = n at *
  interval_cases n <;> decide

/-- Reading digits. -/
lemma foldlM_digits {l : List Char} (hl : ∀ c ∈ l, c.isDigit) (n : ℕ) :
    (ascii l).foldlM
      (fun n c => if 48 ≤ c && c ≤ 57 then some (10 * n + (c - 48).toNat) else none) n =
      some (ofDigitChars 10 l n) := by
  induction l generalizing n with
  | nil => rfl
  | cons c l ih =>
    obtain ⟨h1, h2, h3⟩ := byte_of_isDigit (hl c (by simp))
    have ih := ih fun c hc => hl c (by simp [hc])
    simp only [ascii, map_cons, foldlM_cons, h1, h2, h3] at ih ⊢
    exact ih _

/-- The sample writes decimal numbers. -/
lemma decimal_unit : Blocxx.Decimal Unit where
  digits i _ c hc := by
    obtain ⟨d, hd, rfl⟩ := mem_map.mp hc
    obtain ⟨h1, h2, -⟩ := byte_of_isDigit (isDigit_of_mem_toDigits (by decide) (by decide) hd)
    exact ⟨h1, h2⟩
  toInt32 i hi := by
    have hne : (ascii (toDigits 10 i.toNatClampNeg)).isEmpty = false := by
      simp [ascii]
    have hdigits := foldlM_digits
      (fun c hc => isDigit_of_mem_toDigits (b := 10) (n := i.toNatClampNeg) (by decide)
        (by decide) hc) 0
    rw [ofDigitChars_toDigits (by decide) (by decide)] at hdigits
    change (ofDigits (ascii (toDigits 10 i.toNatClampNeg))).map Int32.ofNat = some i
    rw [ofDigits, hne, hdigits]
    exact congrArg some (Int32.ofNat_toNatClampNeg i (Int32.le_of_lt hi))

end OpenWbem
