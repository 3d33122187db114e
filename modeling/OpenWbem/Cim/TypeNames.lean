import OpenWbem.Cim.Data

/-!
# The names of the types

`CIMDataType::strToSimpleType` reads the name of a type with an automaton, whose states are labels
and whose steps are jumps. The automaton was changed by hand so that it does not read behind the end
of the text, and the tests that were put in compare signed characters: at the end of a name, a byte
above `0x7f` passes for the terminator. Moreover the text ends at its first NUL.

## Main definitions

* `TypeNames.switch`, `TypeNames.accept` — the table of the automaton.
* `strToSimpleType` — the automaton.
* `typeNamed` — the type with a given name.

## Main results

* `strToSimpleType_eq_iff` — when the automaton finds the type with the given name.
-/

namespace OpenWbem

open List Option UInt8

namespace TypeNames

/-- The `switch` behind a label: where to go on a character. A letter stands for its two cases. -/
def switch : ℕ → List (Char × ℕ)
  | 0 => [('b', 7), ('c', 6), ('d', 8), ('r', 5), ('s', 4), ('u', 2)]
  | 2 => [('i', 82)]
  | 4 => [('i', 58), ('t', 57)]
  | 5 => [('e', 35)]
  | 6 => [('h', 28)]
  | 7 => [('o', 20)]
  | 8 => [('a', 10)]
  | 10 => [('t', 12)]
  | 12 => [('e', 13)]
  | 13 => [('t', 14)]
  | 14 => [('i', 15)]
  | 15 => [('m', 16)]
  | 16 => [('e', 17)]
  | 20 => [('o', 21)]
  | 21 => [('l', 22)]
  | 22 => [('e', 23)]
  | 23 => [('a', 24)]
  | 24 => [('n', 25)]
  | 28 => [('a', 29)]
  | 29 => [('r', 30)]
  | 30 => [('1', 31)]
  | 31 => [('6', 32)]
  | 35 => [('a', 36), ('f', 37)]
  | 36 => [('l', 48)]
  | 37 => [('e', 38)]
  | 38 => [('r', 41)]
  | 41 => [('e', 42)]
  | 42 => [('n', 43)]
  | 43 => [('c', 44)]
  | 44 => [('e', 45)]
  | 48 => [('3', 49), ('6', 50)]
  | 49 => [('2', 54)]
  | 50 => [('4', 51)]
  | 57 => [('r', 76)]
  | 58 => [('n', 59)]
  | 59 => [('t', 60)]
  | 60 => [('1', 62), ('3', 63), ('6', 64), ('8', 61)]
  | 62 => [('6', 71)]
  | 63 => [('2', 68)]
  | 64 => [('4', 65)]
  | 76 => [('i', 77)]
  | 77 => [('n', 78)]
  | 78 => [('g', 79)]
  | 82 => [('n', 83)]
  | 83 => [('t', 84)]
  | 84 => [('1', 86), ('3', 87), ('6', 88), ('8', 85)]
  | 86 => [('6', 95)]
  | 87 => [('2', 92)]
  | 88 => [('4', 89)]
  | _ => []

/-- The type that is returned if the name ends behind a label. -/
def accept : ℕ → Option ValueType
  | 17 => some .dateTime
  | 25 => some .boolean
  | 32 => some .char16
  | 37 => some .reference
  | 45 => some .reference
  | 51 => some .real64
  | 54 => some .real32
  | 61 => some .sint8
  | 65 => some .sint64
  | 68 => some .sint32
  | 71 => some .sint16
  | 79 => some .string
  | 85 => some .uint8
  | 89 => some .uint64
  | 92 => some .uint32
  | 95 => some .uint16
  | _ => none

/-- The byte of a character. -/
def byte (c : Char) : UInt8 := ofNat c.toNat

/-- The label to go to on a byte. -/
def next (q : ℕ) (b : UInt8) : Option ℕ :=
  ((switch q).find? fun x => byte x.1 = lowerByte b).map Prod.snd

/-- The byte passes for the end of the text: `yych` is `'\000'` behind the label 37, and not at
least `'\001'` behind the others. -/
def isEnd (q : ℕ) (b : UInt8) : Bool := if q = 37 then b = 0 else ¬ 1 ≤ b.toInt8

/-- The automaton from a label on. There is no result for `INVALID`. -/
def run (q : ℕ) : ByteStr → Option ValueType
  | [] => accept q
  | b :: s =>
    match next q b with
    | some q' => run q' s
    | none => if isEnd q b then accept q else none

/-- The names, and their types. -/
def names : List (ByteStr × ValueType) :=
  [(text "uint8", .uint8), (text "sint8", .sint8), (text "uint16", .uint16),
    (text "sint16", .sint16),
    (text "uint32", .uint32), (text "sint32", .sint32), (text "uint64", .uint64),
    (text "sint64", .sint64), (text "real64", .real64), (text "real32", .real32),
    (text "char16", .char16), (text "string", .string), (text "boolean", .boolean),
    (text "datetime", .dateTime), (text "ref", .reference), (text "reference", .reference)]

/-- The type of a name in lower case. -/
def lookup (w : ByteStr) : Option ValueType := (names.find? fun x => x.1 = w).map Prod.snd

end TypeNames

open TypeNames

/-- `CIMDataType::strToSimpleType` -/
def strToSimpleType (s : ByteStr) : Option ValueType := run 0 s

/-- The type with a given name: the comparison of strings that the automaton stands for. -/
def typeNamed (s : ByteStr) : Option ValueType := lookup (s.map lowerByte)

namespace TypeNames

/-- The labels that are reached with `d` characters, and the characters. -/
def level : ℕ → List (ℕ × ByteStr)
  | 0 => [(0, [])]
  | d + 1 => (level d).flatMap fun x => (switch x.1).map fun y => (y.2, x.2 ++ [byte y.1])

/-- What the table says of a label behind which the part `w` of a name has been read. -/
def Reads (q : ℕ) (w : ByteStr) : Prop :=
  accept q = lookup w ∧ (q = 37 ↔ w = text "ref") ∧
    (∀ y ∈ switch q, byte y.1 ≠ 0 ∧ byte y.1 < 128) ∧
    ∀ x ∈ names, w <+: x.1 → x.1 = w ∨ ∃ y ∈ switch q, w ++ [byte y.1] <+: x.1

instance (q : ℕ) (w : ByteStr) : Decidable (Reads q w) :=
  inferInstanceAs (Decidable (_ ∧ _ ∧ _ ∧ _))

variable {d q : ℕ} {w : ByteStr}

/-- **The table is right**, label by label. No name has more than nine characters. -/
lemma reads_of_level (h : (q, w) ∈ level d) : Reads q w := by
  have htable : ∀ d < 10, ∀ x ∈ level d, Reads x.1 x.2 := by decide +kernel
  have hten (j : ℕ) : level (j + 10) = [] := by
    induction j with
    | zero => decide +kernel
    | succ j ih => rw [level, ih, flatMap_nil]
  rcases Nat.lt_or_ge d 10 with hd | hd
  · exact htable d hd _ h
  · rw [← Nat.sub_add_cancel hd, hten] at h
    cases h

/-- The tests of the automaton, byte by byte. -/
lemma bytes (b : UInt8) : (1 ≤ b.toInt8 ↔ ¬ (b = 0 ∨ 128 ≤ b)) ∧
    (b = 0 ∨ 128 ≤ b → lowerByte b = 0 ∨ 128 ≤ lowerByte b) := by
  have hall : ∀ n < 256, (1 ≤ (ofNat n).toInt8 ↔ ¬ (ofNat n = 0 ∨ 128 ≤ ofNat n)) ∧
      (ofNat n = 0 ∨ 128 ≤ ofNat n →
        lowerByte (ofNat n) = 0 ∨ 128 ≤ lowerByte (ofNat n)) := by
    decide +kernel
  simpa using hall b.toNat b.toNat_lt

/-- What may stand behind a name. -/
def Ends (n tail : ByteStr) : Prop := ∀ b ∈ tail.head?, b = 0 ∨ 128 ≤ b ∧ n ≠ text "ref"

/-- The bytes that end a name. -/
lemma Reads.isEnd_iff (h : Reads q w) (b : UInt8) :
    isEnd q b ↔ b = 0 ∨ 128 ≤ b ∧ w ≠ text "ref" := by
  unfold isEnd
  by_cases hq : q = 37
  · simp [hq, h.2.1.1 hq]
  · have hw : w ≠ text "ref" := fun hw => hq (h.2.1.2 hw)
    simp [hq, hw, (bytes b).1]

/-- No name goes on with a character for which there is no label to go to. -/
lemma Reads.lookup_eq_none {b : UInt8} (h : Reads q w) (hn : next q b = none)
    (v : ByteStr) : lookup (w ++ lowerByte b :: v) = none := by
  rw [lookup, map_eq_none_iff, find?_eq_none]
  intro x hx hxw
  replace hxw : x.1 = w ++ lowerByte b :: v := by simpa using hxw
  rcases h.2.2.2 x hx (hxw ▸ prefix_append _ _) with hw | ⟨y, hy, hyw⟩
  · simp [hxw] at hw
  · rw [hxw, prefix_append_right_inj, cons_prefix_cons] at hyw
    simpa [hyw.1] using find?_eq_none.1 (map_eq_none_iff.1 hn) y hy

/-- **The automaton** finds a name, and does not look at what stands behind it if that passes for
the end.

**Proof sketch.** By induction on the text. If there is a label to go to, the character belongs to
the name, as no such character passes for the end. Otherwise no name goes on with it. -/
lemma run_eq_some (h : (q, w) ∈ level d) (s : ByteStr) (t : ValueType) :
    run q s = some t ↔ ∃ v tail, s = v ++ tail ∧ lookup (w ++ v.map lowerByte) = some t ∧
      Ends (w ++ v.map lowerByte) tail := by
  induction s generalizing d q w with
  | nil =>
    rw [run, (reads_of_level h).1]
    constructor
    · intro ht
      exact ⟨[], [], rfl, by simpa using ht, by simp [Ends]⟩
    · rintro ⟨v, tail, hs, ht, -⟩
      obtain ⟨rfl, rfl⟩ := append_eq_nil_iff.1 hs.symm
      simpa using ht
  | cons b s ih =>
    have hreads := reads_of_level h
    rw [run]
    rcases hn : next q b with _ | q'
    · constructor
      · intro ht
        split_ifs at ht with he
        exact ⟨[], b :: s, rfl, by simpa [← hreads.1] using ht,
          by simpa [Ends] using (hreads.isEnd_iff b).1 he⟩
      · rintro ⟨_ | ⟨b', v⟩, tail, hs, ht, he⟩
        · rw [nil_append] at hs
          subst hs
          rw [if_pos ((hreads.isEnd_iff b).2 (by simpa [Ends] using he)), hreads.1]
          simpa using ht
        · cases hs
          rw [map_cons, hreads.lookup_eq_none hn] at ht
          cases ht
    · obtain ⟨y, hy, rfl⟩ := map_eq_some_iff.1 hn
      have hyb : byte y.1 = lowerByte b := by simpa using find?_some hy
      replace hy := mem_of_find?_eq_some hy
      have hlevel : (y.2, w ++ [lowerByte b]) ∈ level (d + 1) := by
        rw [level, mem_flatMap]
        exact ⟨(q, w), h, mem_map.2 ⟨y, hy, by rw [hyb]⟩⟩
      rw [ih hlevel]
      constructor
      · rintro ⟨v, tail, rfl, ht, he⟩
        exact ⟨b :: v, tail, rfl, by simpa using ht, by simpa using he⟩
      · rintro ⟨_ | ⟨b', v⟩, tail, hs, ht, he⟩
        · rw [nil_append] at hs
          subst hs
          have hb := (bytes b).2 ((he b rfl).imp_right And.left)
          rw [← hyb] at hb
          obtain ⟨hne, hlt⟩ := hreads.2.2.1 y hy
          exact absurd hb (not_or.2 ⟨hne, UInt8.not_le.2 hlt⟩)
        · cases hs
          exact ⟨v, tail, rfl, by simpa using ht, by simpa using he⟩

end TypeNames

/-- The name of a type stands at the beginning of the text, and a byte behind it passes for the
end. -/
def Overrun (s : ByteStr) : Prop := ∃ w b r, s = w ++ b :: r ∧ (typeNamed w).isSome ∧
  (b = 0 ∨ 128 ≤ b ∧ w.map lowerByte ≠ text "ref")

/-- **The automaton finds the type with the given name**, unless a name is followed by a byte that
passes for the end. -/
theorem strToSimpleType_eq_iff (s : ByteStr) : strToSimpleType s = typeNamed s ↔ ¬ Overrun s := by
  have hrun := run_eq_some (d := 0) (q := 0) (w := []) (by simp [level]) s
  constructor
  · rintro heq ⟨w, b, r, rfl, hw, hb⟩
    obtain ⟨t, ht⟩ := isSome_iff_exists.1 hw
    have hfound := (hrun t).2 ⟨w, b :: r, rfl, ht, by simpa [Ends] using hb⟩
    obtain ⟨x, hx, -⟩ := map_eq_some_iff.1 (heq.symm.trans hfound)
    have hbytes : ∀ x ∈ names, ∀ c ∈ x.1, ¬ (c = 0 ∨ 128 ≤ c) := by decide +kernel
    refine hbytes x (mem_of_find?_eq_some hx) (lowerByte b) ?_ ((bytes b).2 (hb.imp_right And.left))
    have hxw : x.1 = (w ++ b :: r).map lowerByte := by simpa using find?_some hx
    simp [hxw]
  · intro hover
    refine ext fun t => (hrun t).trans ⟨?_, fun ht => ⟨s, [], by simp, ht, by simp [Ends]⟩⟩
    rintro ⟨v, _ | ⟨b, r⟩, rfl, ht, he⟩
    · rw [append_nil]
      exact ht
    · exact absurd ⟨v, b, r, rfl, isSome_of_eq_some ht, he b rfl⟩ hover

/-- A byte above `0x7f` behind a name. -/
theorem strToSimpleType_uint16 : strToSimpleType (text "uint16" ++ [128]) = some .uint16 ∧
    typeNamed (text "uint16" ++ [128]) = none := by
  decide +kernel

end OpenWbem
