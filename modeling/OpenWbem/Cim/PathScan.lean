import OpenWbem.Cim.PathText

/-!
# The scanner for the keys of a path

What the loop that extracts the keys of a path does: which keys it finds in the text that
`CIMObjectPath::modelPath` has written, and what can be said about a text in which it finds given
keys.

## Main definitions

* `keysFrom` — the text of keys from the first value on.
* `Decodes` — what a text is made of if the scanner finds given keys in it.

## Main results

* `unEscape_escape` — the escapes are read back.
* `scanKeys_keys` — the scanner finds the keys of the text that was written.
* `decodes_of_scanKeys` — what a successful scan says about the text.
-/

namespace OpenWbem

open List Nat

/-! ### Escapes -/

/-- A byte is escaped iff it would be misread, and an escape is read back. -/
lemma escapeByte_cases (c : UInt8) : (escapeByte c = [c] ∧ c ≠ 34 ∧ c ≠ 92) ∨
      ∃ d, escapeByte c = [92, d] ∧ (∀ s, unEscapeByte d s = ([c], 0)) ∧ d ≠ 61 ∧ d ≠ 58 ∧
      d ≠ 47 := by
  by_cases h : c = 8 ∨ c = 9 ∨ c = 10 ∨ c = 12 ∨ c = 13 ∨ c = 34 ∨ c = 92
  · right
    rcases h with rfl | rfl | rfl | rfl | rfl | rfl | rfl <;>
      exact ⟨_, rfl, fun _ => rfl, by decide, by decide, by decide⟩
  · left
    simp only [not_or] at h
    obtain ⟨h1, h2, h3, h4, h5, h6, h7⟩ := h
    exact ⟨by simp [escapeByte, h1, h2, h3, h4, h5, h6, h7], h6, h7⟩

/-- Byte by byte. -/
lemma escape_cons (c : UInt8) (s : ByteStr) : escape (c :: s) = escapeByte c ++ escape s := by
  simp [escape]

variable {c d : UInt8} {b z v x w k : ByteStr} {s s' : ScanState} {l : List (ByteStr × ByteStr)}

/-- Nothing to do. -/
@[simp] lemma unEscape_nil : unEscape [] = [] := rfl

/-- A byte that is no backslash. -/
lemma unEscape_cons (h : c ≠ 92) (s : ByteStr) : unEscape (c :: s) = c :: unEscape s := by
  simp [unEscape, unEscapeFrom, h]

/-- The escape of a byte is read as that byte. -/
lemma unEscape_escapeByte (c : UInt8) (s : ByteStr) :
    unEscape (escapeByte c ++ s) = c :: unEscape s := by
  rcases escapeByte_cases c with ⟨hc, -, hb⟩ | ⟨d, hc, hd, -⟩
  · rw [hc, singleton_append, unEscape_cons hb]
  · simp [hc, unEscape, unEscapeFrom, hd]

/-- **Escapes are read back.** -/
lemma unEscape_escape (v : ByteStr) : unEscape (escape v) = v := by
  induction v with
  | nil => rfl
  | cons c v ih => rw [escape_cons, unEscape_escapeByte, ih]

/-- What is read from a part of an escaped text with its closing quote is no longer than the text
was, but for the quote. -/
lemma length_unEscape_le {q : ByteStr} (h : q ++ z = escape b ++ [34]) :
    (unEscape q).length ≤ b.length + 1 := by
  induction b generalizing q with
  | nil =>
    rcases q with _ | ⟨c, _ | ⟨d, q⟩⟩
    · simp
    · obtain rfl : c = 34 := by simpa using (cons.inj h).1
      decide
    · simp [escape] at h
  | cons c b ih =>
    rw [escape_cons] at h
    rcases escapeByte_cases c with ⟨hc, -, hb⟩ | ⟨d, hc, hd, -⟩ <;> rw [hc] at h
    · rcases q with _ | ⟨x, q⟩
      · simp
      · simp only [cons_append, cons.injEq] at h
        obtain ⟨rfl, hq⟩ := h
        rw [unEscape_cons hb]
        simpa using ih hq
    · rcases q with _ | ⟨x, _ | ⟨y, q⟩⟩
      · simp
      · obtain rfl : x = 92 := (cons.inj h).1
        exact zero_le _
      · simp only [cons_append, cons.injEq] at h
        obtain ⟨rfl, rfl, hq⟩ := h
        have hread := unEscape_escapeByte c q
        rw [hc, cons_append, singleton_append] at hread
        rw [hread]
        simpa using ih hq

/-- An equals sign in an escaped text with its closing quote was one in the text. -/
lemma equals_of_escape {y : ByteStr} (h : escape v ++ [34] = x ++ 61 :: y) :
    ∃ a b, v = a ++ 61 :: b ∧ x = escape a ∧ y = escape b ++ [34] := by
  induction v generalizing x with
  | nil =>
    rcases x with _ | ⟨c, x⟩ <;> simp [escape] at h
  | cons c v ih =>
    rw [escape_cons] at h
    rcases escapeByte_cases c with ⟨hc, -, -⟩ | ⟨d, hc, -, hd, -⟩ <;> rw [hc] at h
    · rcases x with _ | ⟨w, x⟩
      · obtain ⟨rfl, rfl⟩ := cons.inj h
        exact ⟨[], v, rfl, rfl, rfl⟩
      · simp only [cons_append, cons.injEq] at h
        obtain ⟨rfl, hx⟩ := h
        obtain ⟨a, b, rfl, rfl, rfl⟩ := ih hx
        exact ⟨c :: a, b, rfl, by rw [escape_cons, hc]; rfl, rfl⟩
    · rcases x with _ | ⟨w, _ | ⟨w', x⟩⟩
      · cases (cons.inj h).1
      · exact absurd (cons.inj (cons.inj h).2).1 hd
      · simp only [cons_append, cons.injEq] at h
        obtain ⟨rfl, rfl, hx⟩ := h
        obtain ⟨a, b, rfl, rfl, rfl⟩ := ih hx
        exact ⟨c :: a, b, rfl, by rw [escape_cons, hc]; rfl, rfl⟩

/-! ### The text of keys -/

/-- The text of keys from the first value on, without the quote before it. -/
def keysFrom : ByteStr → List (ByteStr × ByteStr) → ByteStr
  | v, [] => escape v ++ [34]
  | v, (k', v') :: l => escape v ++ [34, 44] ++ k' ++ [61, 34] ++ keysFrom v' l

/-- The bytes of identifiers: letters, digits, underscores, and what belongs to other characters. -/
def isNameByte (c : UInt8) : Bool :=
  (48 ≤ c && c ≤ 57) || (65 ≤ c && c ≤ 90) || c = 95 || (97 ≤ c && c ≤ 122) || 128 ≤ c

/-- An identifier is not empty and has the bytes of identifiers only. -/
def IsIdentifier (s : ByteStr) : Prop := s ≠ [] ∧ ∀ c ∈ s, isNameByte c

instance (s : ByteStr) : Decidable (IsIdentifier s) := inferInstanceAs (Decidable (_ ∧ _))

/-- A byte of a name is none that the scanner or `parse` looks for. -/
lemma ne_of_isNameByte (h : isNameByte c) (hd : isNameByte d = false) : c ≠ d := by
  rintro rfl
  rw [h] at hd
  cases hd

/-- An identifier has such bytes only. -/
lemma IsIdentifier.not_mem {s : ByteStr} (h : IsIdentifier s) (hd : isNameByte d = false) :
    d ∉ s := fun hm => ne_of_isNameByte (h.2 d hm) hd rfl

/-! ### The scanner -/

/-- The scanner from a state on, with as many rounds as there may be. -/
def scanFrom (values : ByteStr) (s : ScanState) : Except PathError (List (PROPData ByteStr)) :=
  scanKeys values (values.length - s.i) s

/-- One step, by the byte at the position. -/
lemma scanStep_at {values rest : ByteStr} {i : ℕ} (h : values.drop i = c :: rest) (ks eq : ℕ)
    (q : Bool) (keys : List (PROPData ByteStr)) : scanStep values ⟨i, ks, eq, q, keys⟩ =
      if !rest.isEmpty && c = 92 then .ok ⟨i + 2, ks, eq, q, keys⟩
      else
        let q := if c = 34 then !q else q
        if q then .ok ⟨i + 1, ks, eq, q, keys⟩
        else
          let eq := if c = 61 then i + 1 else eq
          if c = 44 || rest.isEmpty then
            let i := if rest.isEmpty then i + 1 else i
            if eq = 0 then
              .error (.notFound (ascii "Bad key in string (".toList ++ values ++ ascii [')']))
            else .ok ⟨i + 2, i + 1, 0, q, keys ++ [extractKey values ks eq i]⟩
          else .ok ⟨i + 1, ks, eq, q, keys⟩ := by
  have hlen : values.length - i = rest.length + 1 := by
    rw [← length_drop, h, length_cons]
  have hch : values.getD i 0 = c := by
    rw [getD_eq_getElem?_getD, ← head?_drop, h]
    rfl
  have hlast : i + 1 = values.length ↔ rest.isEmpty := by
    rw [isEmpty_iff_length_eq_zero]
    omega
  have hnot : i < values.length - 1 ↔ (!rest.isEmpty) := by
    rw [Bool.not_eq_true', ← Bool.not_eq_true, isEmpty_iff_length_eq_zero]
    omega
  simp only [scanStep, hch, hlast, hnot, Bool.decide_eq_true]

/-- A step goes forward. -/
lemma lt_of_scanStep {values : ByteStr} (h : scanStep values s = .ok s') : s.i < s'.i := by
  simp only [scanStep] at h
  split_ifs at h <;> cases h <;> dsimp only <;> omega

/-- Rounds beyond the bytes that are left do nothing. -/
lemma scanKeys_congr {values : ByteStr} {m n : ℕ} (hm : values.length - s.i ≤ m)
    (hn : values.length - s.i ≤ n) : scanKeys values m s = scanKeys values n s := by
  induction m generalizing n s with
  | zero =>
    cases n with
    | zero => rfl
    | succ n => rw [scanKeys, scanKeys, if_neg (by omega)]
  | succ m ih =>
    cases n with
    | zero => rw [scanKeys, scanKeys, if_neg (by omega)]
    | succ n =>
      rw [scanKeys, scanKeys]
      split
      · rcases hs : scanStep values s with e | s'
        · rfl
        · have hlt := lt_of_scanStep hs
          exact ih (by omega) (by omega)
      · rfl

/-- The scan after one step. -/
lemma scanFrom_of_step {values : ByteStr} (s' : ScanState) (hi : s.i < values.length)
    (hs : scanStep values s = .ok s') : scanFrom values s = scanFrom values s' := by
  obtain ⟨n, hn⟩ : ∃ n, values.length - s.i = n + 1 := ⟨values.length - s.i - 1, by omega⟩
  have hlt := lt_of_scanStep hs
  rw [scanFrom, hn, scanKeys, if_pos hi, hs]
  exact scanKeys_congr (by omega) le_rfl

/-- The scan at the end. -/
lemma scanFrom_end {values : ByteStr} (hi : values.length ≤ s.i) :
    scanFrom values s = .ok s.keys := by
  rw [scanFrom, Nat.sub_eq_zero_of_le hi, scanKeys]

section Forward

variable {values rest : ByteStr} {i ks eq : ℕ} {q : Bool} {keys : List (PROPData ByteStr)}

/-- There is a byte. -/
lemma lt_length_of_drop (h : values.drop i = c :: rest) : i < values.length := by
  by_contra hi
  rw [drop_eq_nil_of_le (by omega)] at h
  cases h

/-- Skipping some bytes. -/
lemma drop_length {a : ByteStr} (h : values.drop i = a ++ b) : values.drop (i + a.length) = b := by
  rw [← drop_drop, h, drop_left]

/-- Skipping one byte. -/
lemma drop_succ (h : values.drop i = c :: rest) : values.drop (i + 1) = rest :=
  drop_length (a := [c]) h

/-- Outside quotes, the scanner passes a name. -/
lemma scanFrom_name (h : values.drop i = w ++ rest) (hrest : rest ≠ [])
    (hw : ∀ c ∈ w, isNameByte c) :
    scanFrom values ⟨i, ks, eq, false, keys⟩ =
      scanFrom values ⟨i + w.length, ks, eq, false, keys⟩ := by
  induction w generalizing i with
  | nil => rfl
  | cons c w ih =>
    have hc : ∀ {d}, isNameByte d = false → c ≠ d := fun hd => ne_of_isNameByte (hw c (by simp)) hd
    have hne : (w ++ rest).isEmpty = false := by simp [hrest]
    have hstep : scanStep values ⟨i, ks, eq, false, keys⟩ = .ok ⟨i + 1, ks, eq, false, keys⟩ := by
      rw [scanStep_at h]
      simp [hne, hc (d := 92) rfl, hc (d := 34) rfl, hc (d := 61) rfl, hc (d := 44) rfl]
    rw [scanFrom_of_step _ (lt_length_of_drop h) hstep,
      ih (drop_succ h) fun c hc => hw c (mem_cons_of_mem _ hc), length_cons,
      add_right_comm, add_assoc]

/-- In quotes, the scanner passes an escaped text. -/
lemma scanFrom_quoted (h : values.drop i = escape v ++ 34 :: rest) :
    scanFrom values ⟨i, ks, eq, true, keys⟩ =
      scanFrom values ⟨i + (escape v).length, ks, eq, true, keys⟩ := by
  induction v generalizing i with
  | nil => rfl
  | cons c v ih =>
    rw [escape_cons, append_assoc] at h
    have hnext := ih (drop_length h)
    rw [escape_cons, length_append, ← add_assoc, ← hnext]
    rcases escapeByte_cases c with ⟨hc, hq, hb⟩ | ⟨d, hc, -⟩ <;> rw [hc] at h ⊢
    · exact scanFrom_of_step _ (lt_length_of_drop h) (by rw [scanStep_at h]; simp [hq, hb])
    · exact scanFrom_of_step _ (lt_length_of_drop h) (by rw [scanStep_at h]; simp)

/-- The key with a quoted value. -/
lemma extractKey_quoted (h : values.drop ks = k ++ [61, 34] ++ escape v ++ 34 :: rest) :
    extractKey values ks (ks + k.length + 1) (ks + k.length + 2 + (escape v).length + 1) =
      stringKey k v := by
  simp only [append_assoc] at h
  have hk : sub values ks k.length = k := by rw [sub, h, take_left]
  have heq : values.drop (ks + k.length + 1) = 34 :: (escape v ++ 34 :: rest) := by
    have := drop_length (a := k ++ [61]) (by simpa using h)
    simpa [add_assoc] using this
  have hval : values.getD (ks + k.length + 1) 0 = 34 := by
    rw [getD_eq_getElem?_getD, ← head?_drop, heq]
    rfl
  have hv : sub values (ks + k.length + 1 + 1) (escape v).length = escape v := by
    rw [sub, drop_succ heq, take_left]
  have hname : ks + k.length + 1 - ks - 1 = k.length := by omega
  have hlen : ks + k.length + 2 + (escape v).length + 1 - (ks + k.length + 1) - 2 =
      (escape v).length := by omega
  rw [extractKey, hval, if_neg (by simp), hname, hlen, hk, hv, unEscape_escape]

/-- From the first value on, the scanner finds all keys.

**Proof sketch.** Induction on the further keys. Behind a comma the scanner skips the first byte of
the next name, which does not matter. -/
lemma scanFrom_keysFrom (h : values.drop ks = k ++ [61, 34] ++ keysFrom v l)
    (hl : ∀ p ∈ l, IsIdentifier p.1) :
    scanFrom values ⟨ks + k.length + 2, ks, ks + k.length + 1, true, keys⟩ =
      .ok (keys ++ ((k, v) :: l).map fun p => stringKey p.1 p.2) := by
  have hi : values.drop (ks + k.length + 2) = keysFrom v l := by
    simpa [add_assoc] using drop_length h
  induction l generalizing k v ks keys with
  | nil =>
    have hq := drop_length hi
    rw [keysFrom, ← append_assoc] at h
    have hstep :
        scanStep values
          ⟨ks + k.length + 2 + (escape v).length, ks, ks + k.length + 1, true, keys⟩ =
        .ok ⟨ks + k.length + 2 + (escape v).length + 1 + 2,
          ks + k.length + 2 + (escape v).length + 1 + 1, 0, false, keys ++ [stringKey k v]⟩ := by
      rw [scanStep_at hq, ← extractKey_quoted h]
      rfl
    rw [scanFrom_quoted hi, scanFrom_of_step _ (lt_length_of_drop hq) hstep, scanFrom_end]
    · rfl
    · have hlen := congrArg length hq
      simp only [length_drop, length_singleton] at hlen ⊢
      omega
  | cons p l ih =>
    obtain ⟨k', v'⟩ := p
    have hk' : IsIdentifier k' := hl (k', v') (by simp)
    simp only [keysFrom, append_assoc] at h hi
    have hq := drop_length hi
    have hcomma := drop_succ hq
    have hname := drop_succ hcomma
    have hkey :
        extractKey values ks (ks + k.length + 1) (ks + k.length + 2 + (escape v).length + 1) =
        stringKey k v := extractKey_quoted (by simpa using h)
    rw [scanFrom_quoted hi]
    generalize ks + k.length + 2 + (escape v).length = i at *
    rw [scanFrom_of_step ⟨i + 1, ks, ks + k.length + 1, false, keys⟩ (lt_length_of_drop hq)
      (by rw [scanStep_at hq]; simp),
      scanFrom_of_step ⟨i + 1 + 2, i + 1 + 1, 0, false, keys ++ [stringKey k v]⟩
      (lt_length_of_drop hcomma) (by rw [scanStep_at hcomma, ← hkey]; simp)]
    obtain ⟨c, w, rfl⟩ := exists_cons_of_ne_nil hk'.1
    have hw := drop_succ hname
    have heq := drop_length hw
    have hopen := drop_succ heq
    rw [scanFrom_name hw (by simp) fun d hd => hk'.2 d (mem_cons_of_mem _ hd),
      scanFrom_of_step ⟨i + 1 + 1 + 1 + w.length + 1, i + 1 + 1,
        i + 1 + 1 + 1 + w.length + 1, false,
        keys ++ [stringKey k v]⟩ (lt_length_of_drop heq) (by rw [scanStep_at heq]; simp),
      scanFrom_of_step ⟨i + 1 + 1 + 1 + w.length + 1 + 1, i + 1 + 1,
        i + 1 + 1 + 1 + w.length + 1, true,
        keys ++ [stringKey k v]⟩ (lt_length_of_drop hopen) (by rw [scanStep_at hopen]; simp)]
    have hall : scanFrom values ⟨i + 1 + 1 + (c :: w).length + 2, i + 1 + 1,
        i + 1 + 1 + (c :: w).length + 1, true, keys ++ [stringKey k v]⟩ = _ := ih
      (by simpa using hname) (fun p hp => hl p (mem_cons_of_mem _ hp))
      (by simpa [add_comm, add_left_comm] using drop_succ hopen)
    rw [length_cons,
      show i + 1 + 1 + (w.length + 1) + 2 = i + 1 + 1 + 1 + w.length + 1 + 1 by omega,
      show i + 1 + 1 + (w.length + 1) + 1 = i + 1 + 1 + 1 + w.length + 1 by omega] at hall
    rw [hall]
    simp

/-- **The scanner finds the keys of the text that was written.** -/
lemma scanKeys_keys
    (hl : ∀ p ∈ (k, v) :: l, IsIdentifier p.1) (hvalues : values = k ++ [61, 34] ++ keysFrom v l) :
    scanKeys values values.length ⟨0, 0, 0, false, []⟩ =
      .ok (((k, v) :: l).map fun p => stringKey p.1 p.2) := by
  have hk : IsIdentifier k := hl (k, v) (by simp)
  have h0 : values.drop 0 = k ++ 61 :: 34 :: keysFrom v l := by simp [hvalues]
  have heq := drop_length h0
  have hopen := drop_succ heq
  have hall : scanFrom values ⟨0 + k.length + 2, 0, 0 + k.length + 1, true, []⟩ = _ :=
    scanFrom_keysFrom (by simpa using hvalues) (fun p hp => hl p (mem_cons_of_mem _ hp))
  rw [zero_add] at heq hopen hall
  change scanFrom values ⟨0, 0, 0, false, []⟩ = _
  rw [scanFrom_name h0 (by simp) hk.2, zero_add,
    scanFrom_of_step ⟨k.length + 1, 0, k.length + 1, false, []⟩ (lt_length_of_drop heq)
    (by rw [scanStep_at heq]; simp),
    scanFrom_of_step ⟨k.length + 1 + 1, 0, k.length + 1, true, []⟩ (lt_length_of_drop hopen)
    (by rw [scanStep_at hopen]; simp)]
  exact hall

end Forward

/-! ### Texts in which the scanner finds given keys -/

/-- The value of a key, from what is behind the equals sign. -/
def decodeValue (val : ByteStr) : ByteStr :=
  if val.head? = some 34 then unEscape ((val.drop 1).take (val.length - 2)) else unEscape val

/-- What a text is made of if the scanner finds given keys in it: each key has a region of its own,
with an equals sign between its name and its value, and a comma behind it, unless the text ends.
Where quotes are does not matter here. -/
inductive Decodes : ByteStr → List (ByteStr × ByteStr) → Prop where
  | done (w : ByteStr) : Decodes w []
  | last (k val : ByteStr) : Decodes (k ++ 61 :: val) [(k, decodeValue val)]
  | key (k val : ByteStr) {w : ByteStr} {l : List (ByteStr × ByteStr)} (h : Decodes w l) :
    Decodes (k ++ 61 :: val ++ 44 :: w) ((k, decodeValue val) :: l)

/-- No bytes, no keys. -/
lemma Decodes.eq_nil (h : Decodes [] l) : l = [] := by
  generalize hw : ([] : ByteStr) = w at h
  cases h with
  | done => rfl
  | last => simp at hw
  | key => simp at hw

/-- The variables of the scanner say where the current key is. -/
structure ScanOk (values : ByteStr) (s : ScanState) : Prop where
  keystart : s.keystart ≤ s.i
  equals : s.equalspos ≠ 0 → s.keystart < s.equalspos ∧ s.equalspos ≤ s.i ∧
    values[s.equalspos - 1]? = some 61

section Backward

variable {values : ByteStr}

/-- The text from the beginning of a key on: its name, the equals sign and what is behind. -/
lemma drop_keystart {ks eq : ℕ} (hlt : ks < eq) (h : values[eq - 1]? = some 61) :
    values.drop ks = sub values ks (eq - ks - 1) ++ 61 :: values.drop eq := by
  obtain ⟨hi, he⟩ := List.getElem?_eq_some_iff.mp h
  have hdrop : values.drop (eq - 1) = 61 :: values.drop eq := by
    rw [drop_eq_getElem_cons hi, he, Nat.sub_add_cancel (by omega)]
  rw [← hdrop, show eq - 1 = ks + (eq - ks - 1) by omega, ← drop_drop]
  exact (take_append_drop _ _).symm

/-- What the scanner extracts, from the text of the region of the key. -/
lemma extractKey_eq {ks eq i : ℕ} (hle : eq ≤ i) (hend : i = values.length ∨ values[i]? = some 44) :
    extractKey values ks eq i =
      stringKey (sub values ks (eq - ks - 1)) (decodeValue (sub values eq (i - eq))) := by
  have hi : i ≤ values.length := by
    rcases hend with rfl | hc
    · exact le_rfl
    · exact (List.getElem?_eq_some_iff.mp hc).1.le
  have hlen : (sub values eq (i - eq)).length = i - eq := by
    rw [sub, length_take, length_drop]
    omega
  have hhead : values.getD eq 0 = 34 ↔ (sub values eq (i - eq)).head? = some 34 := by
    rw [getD_eq_getElem?_getD, sub, head?_take, head?_drop]
    rcases hle.lt_or_eq with hlt | rfl
    · rw [if_neg (by omega)]
      rcases values[eq]? with _ | c <;> simp
    · rcases hend with rfl | hc
      · simp
      · simp [hc]
  have hquoted : sub values (eq + 1) (i - eq - 2) =
      ((sub values eq (i - eq)).drop 1).take ((sub values eq (i - eq)).length - 2) := by
    rw [hlen, sub, sub, drop_take, drop_drop, take_take, min_eq_left (by omega)]
  rw [extractKey, decodeValue]
  by_cases hq : values.getD eq 0 = 34
  · rw [if_neg (not_not_intro hq), if_pos (hhead.mp hq), hquoted]
  · rw [if_pos hq, if_neg (fun h => hq (hhead.mpr h))]

variable {q' : Bool}

/-- The variables stay right when the scanner goes on. -/
lemma ScanOk.forward {i j ks eq : ℕ} {q : Bool} {keys : List (PROPData ByteStr)}
    (hs : ScanOk values ⟨i, ks, eq, q, keys⟩) (hij : i ≤ j) : ScanOk values ⟨j, ks, eq, q', keys⟩ :=
  ⟨hs.keystart.trans hij, fun hne =>
    ⟨(hs.equals hne).1, (hs.equals hne).2.1.trans hij, (hs.equals hne).2.2⟩⟩

/-- The variables stay right when an equals sign is noted. -/
lemma ScanOk.note {i ks eq : ℕ} {q : Bool} {keys : List (PROPData ByteStr)}
    (hs : ScanOk values ⟨i, ks, eq, q, keys⟩) (hc : values[i]? = some c) :
    ScanOk values ⟨i + 1, ks, if c = 61 then i + 1 else eq, q', keys⟩ := by
  split
  case isTrue h61 =>
    subst h61
    exact ⟨le_succ_of_le hs.keystart, fun _ => ⟨lt_succ_of_le hs.keystart, le_rfl, hc⟩⟩
  case isFalse => exact hs.forward (le_succ i)

/-- The text from the beginning of a key on, if its region ends at a position. -/
lemma drop_region {ks eq i : ℕ} (hlt : ks < eq) (hle : eq ≤ i) (h : values[eq - 1]? = some 61) :
    values.drop ks = sub values ks (eq - ks - 1) ++ 61 :: sub values eq (i - eq) ++
      values.drop i := by
  have hi : values.drop i = (values.drop eq).drop (i - eq) := by
    rw [drop_drop, Nat.add_sub_cancel' hle]
  rw [drop_keystart hlt h, hi, append_assoc, cons_append, sub, sub, take_append_drop]

/-- A round keeps the variables right, and finds a key or none. -/
lemma scanStep_cases (hs : ScanOk values s) (hi : s.i < values.length)
    (h : scanStep values s = .ok s') :
    ScanOk values s' ∧ ((s'.keystart = s.keystart ∧ s'.keys = s.keys) ∨
      ∃ k val, s'.keys = s.keys ++ [stringKey k (decodeValue val)] ∧
        ((values.length ≤ s'.keystart ∧ values.drop s.keystart = k ++ 61 :: val) ∨
          values.drop s.keystart = k ++ 61 :: val ++ 44 :: values.drop s'.keystart)) := by
  obtain ⟨i, ks, eq, q, keys⟩ := s
  dsimp only at hi ⊢
  have hat := drop_eq_getElem_cons hi
  rw [scanStep_at hat] at h
  generalize hc : values[i] = c at hat h
  have hget : values[i]? = some c := by rw [getElem?_eq_getElem hi, hc]
  have hnote : ∀ q', ScanOk values ⟨i + 1, ks, if c = 61 then i + 1 else eq, q', keys⟩ :=
    fun _ => hs.note hget
  have hlast : (values.drop (i + 1)).isEmpty ↔ i + 1 = values.length := by
    rw [isEmpty_iff_length_eq_zero, length_drop]
    omega
  have h61 : c = 44 → (if c = 61 then i + 1 else eq) = eq := by
    rintro rfl
    rfl
  dsimp only at h
  generalize (if c = 34 then !q else q) = q' at h
  generalize (if c = 61 then i + 1 else eq) = eq' at h h61 hnote
  by_cases hesc : (!(values.drop (i + 1)).isEmpty && decide (c = 92))
  · rw [if_pos hesc] at h
    cases h
    exact ⟨hs.forward (by omega), .inl ⟨rfl, rfl⟩⟩
  rw [if_neg hesc] at h
  by_cases hq : q'
  · rw [if_pos hq] at h
    cases h
    exact ⟨hs.forward (by omega), .inl ⟨rfl, rfl⟩⟩
  rw [if_neg hq] at h
  by_cases hstop : (decide (c = 44) || (values.drop (i + 1)).isEmpty)
  · rw [if_pos hstop] at h
    split at h
    · cases h
    next hne =>
    cases h
    refine ⟨⟨le_succ _, fun h => absurd rfl h⟩, .inr ?_⟩
    by_cases hend : (values.drop (i + 1)).isEmpty
    · -- the text ends, and the region of the key with it
      have hlen := hlast.mp hend
      obtain ⟨hlt, hle, heq⟩ := (hnote false).equals hne
      refine ⟨_, _, by rw [if_pos hend, extractKey_eq hle (.inl hlen)], .inl ⟨?_, ?_⟩⟩
      · rw [if_pos hend]
        dsimp only
        omega
      · have hdrop := drop_region hlt hle heq
        rwa [isEmpty_iff.mp hend, append_nil] at hdrop
    · -- the region ends at a comma
      obtain rfl : c = 44 := by simpa [hend] using hstop
      rw [h61 rfl] at hne ⊢
      obtain ⟨hlt, hle, heq⟩ := hs.equals hne
      refine ⟨_, _, by rw [if_neg hend, extractKey_eq hle (.inr hget)], .inr ?_⟩
      rw [if_neg hend, ← hat]
      exact drop_region hlt hle heq
  · rw [if_neg hstop] at h
    cases h
    exact ⟨hnote q', .inl ⟨rfl, rfl⟩⟩

/-- **What a successful scan says about the text.** -/
lemma decodes_of_scanKeys {rounds : ℕ} {keys : List (PROPData ByteStr)}
    (hs : ScanOk values s) (h : scanKeys values rounds s = .ok keys) :
    ∃ l, keys = s.keys ++ (l.map fun p => stringKey p.1 p.2) ∧
    Decodes (values.drop s.keystart) l := by
  induction rounds generalizing s with
  | zero =>
    cases h
    exact ⟨[], by simp, .done _⟩
  | succ rounds ih =>
    rw [scanKeys] at h
    split at h
    case isFalse =>
      cases h
      exact ⟨[], by simp, .done _⟩
    case isTrue hi =>
      rcases hstep : scanStep values s with e | s' <;> rw [hstep] at h
      · cases h
      obtain ⟨hs', hcases⟩ := scanStep_cases hs hi hstep
      obtain ⟨l, rfl, hl⟩ := ih hs' h
      rcases hcases with ⟨hks, hkeys⟩ | ⟨k, val, hkeys, ⟨hend, htext⟩ | htext⟩
      · exact ⟨l, by rw [hkeys], by rwa [← hks]⟩
      · -- behind the end of the text there are no further keys
        rw [drop_eq_nil_of_le hend] at hl
        obtain rfl : l = [] := hl.eq_nil
        exact ⟨[(k, decodeValue val)], by rw [hkeys]; simp, by rw [htext]; exact .last k val⟩
      · exact ⟨(k, decodeValue val) :: l, by rw [hkeys]; simp, by rw [htext]; exact .key k val hl⟩

end Backward

/-! ### Texts that begin behind the first name -/

/-- In the value of a key, with its closing quote, there is no region with the same value. -/
lemma length_decodeValue_lt {val : ByteStr} (hk : k ≠ [])
    (h : escape v ++ [34] = x ++ (k ++ 61 :: val) ++ z) : (decodeValue val).length < v.length := by
  have h' : escape v ++ [34] = (x ++ k) ++ 61 :: (val ++ z) := by simpa using h
  obtain ⟨a, b, rfl, ha, hb⟩ := equals_of_escape h'
  have ha' : a ≠ [] := by
    rintro rfl
    simp [escape, hk] at ha
  have hpos := length_pos_iff.mpr ha'
  rw [decodeValue]
  split
  case isFalse =>
    have hle := length_unEscape_le hb
    simp only [length_append, length_cons]
    omega
  case isTrue hq =>
    -- an escaped text does not begin with a quote, so that there is none
    have hb' : b = [] := by
      rcases val with _ | ⟨x, val⟩
      · cases hq
      obtain rfl : x = 34 := by simpa using hq
      cases b with
      | nil => rfl
      | cons c b =>
        rw [escape_cons] at hb
        rcases escapeByte_cases c with ⟨hc, hne, -⟩ | ⟨d, hc, -⟩ <;> rw [hc] at hb
        · exact absurd (cons.inj hb).1.symm hne
        · cases (cons.inj hb).1
    subst hb'
    have hlen := congrArg length hb
    simp only [escape, flatMap_nil, nil_append, length_append, length_singleton] at hlen
    rw [show val.length - 2 = 0 by omega]
    simp

/-- **The keys of a path are not found in the text from the first value on, nor in an end of it.**

**Proof sketch.** Induction on the further keys. If the region of the first key ends at a comma
before the text of the second value begins, then the region is in the text of the first value, and
what it decodes to is too short. Otherwise, what is behind it is an end of the text from the second
value on. -/
lemma not_decodes_suffix (hk : k ≠ [])
    (hl : ∀ p ∈ l, IsIdentifier p.1) (hw : w <:+ keysFrom v l) : ¬ Decodes w ((k, v) :: l) := by
  intro h
  induction l generalizing k v w with
  | nil =>
    obtain ⟨x, hx⟩ := hw
    rw [keysFrom] at hx
    cases h with
    | last k val => exact lt_irrefl _ (length_decodeValue_lt (z := []) hk (by simpa using hx.symm))
    | key k val h => exact lt_irrefl _ (length_decodeValue_lt hk (by simpa using hx.symm))
  | cons p l ih =>
    obtain ⟨k', v'⟩ := p
    have hk' : IsIdentifier k' := hl (k', v') (by simp)
    cases h with
    | key k val h =>
      rename_i w
      have hsuffix : keysFrom v' l <:+ keysFrom (decodeValue val) ((k', v') :: l) := ⟨_, rfl⟩
      have hw' : w <:+ keysFrom (decodeValue val) ((k', v') :: l) :=
        .trans ⟨k ++ 61 :: val ++ [44], by simp⟩ hw
      rcases le_total w.length (keysFrom v' l).length with hle | hge
      · -- the rest is in the text from the second value on
        exact ih hk'.1 (fun p hp => hl p (mem_cons_of_mem _ hp))
          (suffix_of_suffix_length_le hw' hsuffix hle) h
      · obtain ⟨y, rfl⟩ := suffix_of_suffix_length_le hsuffix hw' hge
        obtain ⟨x, hx⟩ := hw
        have hcut : (x ++ (k ++ 61 :: val)) ++ 44 :: y =
            (escape (decodeValue val) ++ [34]) ++ 44 :: (k' ++ [61, 34]) := by
          have hall : ((x ++ (k ++ 61 :: val)) ++ 44 :: y) ++ keysFrom v' l =
              ((escape (decodeValue val) ++ [34]) ++ 44 :: (k' ++ [61, 34])) ++ keysFrom v' l := by
            simpa [keysFrom] using hx
          exact append_cancel_right hall
        -- the comma is the one behind the first value, or in it
        rcases append_eq_append_iff.mp hcut with ⟨z, hz, -⟩ | ⟨z, hz, hy⟩
        · exact lt_irrefl _ (length_decodeValue_lt hk hz)
        · rcases z with _ | ⟨c, z⟩
          · exact lt_irrefl _ (length_decodeValue_lt (z := []) hk (by simpa using hz.symm))
          · have htail : k' ++ [61, 34] = z ++ 44 :: y := (cons.inj hy).2
            have hmem : (44 : UInt8) ∈ k' ++ [61, 34] := by
              rw [htail]
              simp
            simp [hk'.not_mem (d := 44) rfl] at hmem

end OpenWbem
