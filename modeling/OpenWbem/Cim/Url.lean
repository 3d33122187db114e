import OpenWbem.Cim.Blocxx

/-!
# URLs

The class `CIMUrl`. A URL has a text and the components that the text is made of. When the text is
set, the components are taken from it, get their default values, and the text is made again from
them.

## Main definitions

* `URLData` — a URL.
* `URLData.setComponents` — the components of a text.
* `URLData.setDefaultValues`, `URLData.buildSpec` — the text of components.
-/

namespace OpenWbem

open List

/-! ### Strings -/

/-- What is before and behind the first occurrence of a byte. -/
def cutAt (c : UInt8) : ByteStr → Option (ByteStr × ByteStr)
  | [] => none
  | x :: s => if x = c then some ([], s) else (cutAt c s).map fun (a, b) => (x :: a, b)

/-- What is before and behind the first occurrence of a string. -/
def cutAtString (w : ByteStr) : ByteStr → Option (ByteStr × ByteStr)
  | [] => if w = [] then some ([], []) else none
  | x :: s =>
    if w.isPrefixOf (x :: s) then some ([], (x :: s).drop w.length)
    else (cutAtString w s).map fun (a, b) => (x :: a, b)

variable {c : UInt8} {a s b w : ByteStr} {A : Type}

/-- The first such byte. -/
lemma cutAt_append (b : ByteStr) (h : c ∉ a) : cutAt c (a ++ c :: b) = some (a, b) := by
  induction a with
  | nil => simp [cutAt]
  | cons x a ih =>
    rw [mem_cons, not_or] at h
    simp [cutAt, Ne.symm h.1, ih h.2]

/-- What a cut says. -/
lemma of_cutAt_eq_some (h : cutAt c s = some (a, b)) : s = a ++ c :: b ∧ c ∉ a := by
  induction s generalizing a with
  | nil => cases h
  | cons x s ih =>
    rw [cutAt] at h
    split at h
    case isTrue hx => cases h; simp [hx]
    case isFalse hx =>
      obtain ⟨⟨a', b'⟩, ht, he⟩ := Option.map_eq_some_iff.mp h
      cases he
      obtain ⟨rfl, hn⟩ := ih ht
      exact ⟨rfl, by simp [hn, Ne.symm hx]⟩

/-- There is one first byte. -/
lemma cut_unique {c : A} {a a' b b' : List A} (ha : c ∉ a) (ha' : c ∉ a')
    (h : a ++ c :: b = a' ++ c :: b') : a = a' ∧ b = b' := by
  induction a generalizing a' with
  | nil => cases a' <;> grind
  | cons x a ih => cases a' <;> grind

/-- And one last byte. -/
lemma lastCut_unique {c : A} {a a' b b' : List A} (hb : c ∉ b) (hb' : c ∉ b')
    (h : a ++ c :: b = a' ++ c :: b') : a = a' ∧ b = b' := by
  have hrev := congrArg reverse h
  simp only [reverse_append, reverse_cons, append_assoc] at hrev
  have hcut := cut_unique (by simpa using hb) (by simpa using hb') hrev
  simpa [and_comm] using hcut

/-- No such byte, no cut. -/
lemma cutAt_eq_none (h : c ∉ s) : cutAt c s = none := by
  rcases hs : cutAt c s with _ | ⟨a, b⟩
  · rfl
  · obtain ⟨rfl, -⟩ := of_cutAt_eq_some hs
    simp at h

/-- No cut, no such byte. -/
lemma not_mem_of_cutAt_eq_none (h : cutAt c s = none) : c ∉ s := by
  intro hc
  obtain ⟨a, b, rfl, ha⟩ := eq_append_cons_of_mem hc
  rw [cutAt_append b ha] at h
  cases h

/-- What a cut at a text says. -/
lemma of_cutAtString_eq_some (h : cutAtString w s = some (a, b)) : s = a ++ w ++ b := by
  induction s generalizing a with
  | nil =>
    rw [cutAtString] at h
    split at h
    case isTrue hw => cases h; simp [hw]
    case isFalse => cases h
  | cons x s ih =>
    rw [cutAtString] at h
    split at h
    case isTrue hw =>
      cases h
      obtain ⟨b, hb⟩ := isPrefixOf_iff_prefix.mp hw
      simp [← hb]
    case isFalse hw =>
      obtain ⟨⟨a', b'⟩, ht, he⟩ := Option.map_eq_some_iff.mp h
      cases he
      simp [ih ht]

/-- No such text, no cut. -/
lemma cutAtString_eq_none (h : ¬ w <:+: s) : cutAtString w s = none := by
  rcases hs : cutAtString w s with _ | ⟨a, b⟩
  · rfl
  · exact absurd ⟨a, b, (of_cutAtString_eq_some hs).symm⟩ h

/-- A text that is there is found. -/
lemma exists_cutAtString_eq_some (h : w <:+: s) : ∃ a b, cutAtString w s = some (a, b) := by
  induction s with
  | nil =>
    rw [infix_nil] at h
    exact ⟨[], [], by simp [cutAtString, h]⟩
  | cons x s ih =>
    by_cases hw : w.isPrefixOf (x :: s)
    · exact ⟨[], _, by rw [cutAtString, if_pos hw]⟩
    · rcases infix_cons_iff.mp h with hp | hi
      · exact absurd ( isPrefixOf_iff_prefix.mpr hp) hw
      · obtain ⟨a, b, hs⟩ := ih hi
        exact ⟨x :: a, b, by rw [cutAtString, if_neg hw, hs]; rfl⟩

/-- It is found if it is there. -/
lemma cutAtString_isSome_iff : (cutAtString w s).isSome ↔ w <:+: s := by
  constructor
  · intro h
    obtain ⟨⟨a, b⟩, hs⟩ := Option.isSome_iff_exists.mp h
    exact ⟨a, b, (of_cutAtString_eq_some hs).symm⟩
  · intro h
    obtain ⟨a, b, hs⟩ := exists_cutAtString_eq_some h
    rw [hs]
    rfl

/-- The separator `://` behind the protocol. -/
def schemeEnd : ByteStr := [58, 47, 47]

/-- The separator is found where it was put, since it does not overlap with itself. -/
lemma cutAtString_schemeEnd (b : ByteStr) (h : ¬ schemeEnd <:+: a) :
    cutAtString schemeEnd (a ++ schemeEnd ++ b) = some (a, b) := by
  induction a with
  | nil => simp [schemeEnd, cutAtString]
  | cons x a ih =>
    have hp : ¬ schemeEnd.isPrefixOf (x :: (a ++ schemeEnd ++ b)) := by
      rw [ isPrefixOf_iff_prefix]
      rcases a with _ | ⟨y, _ | ⟨z, a⟩⟩
      · simp [schemeEnd]
      · simp [schemeEnd]
      · rintro ⟨t, ht⟩
        obtain ⟨rfl, rfl, rfl, -⟩ := ht
        exact h ⟨[], a, rfl⟩
    have ha : ¬ schemeEnd <:+: a := fun hi => h (infix_cons hi)
    simp only [cons_append, cutAtString, hp, ih ha]
    rfl

/-- `isspace` -/
def isSpace (c : UInt8) : Bool := c = 32 || (9 ≤ c && c ≤ 13)

/-- `String::trim` -/
def trim (s : ByteStr) : ByteStr := ((s.dropWhile isSpace).reverse.dropWhile isSpace).reverse

/-- Only leading blanks go. -/
lemma dropWhile_append_cons {t : ByteStr} (hc : isSpace c = false) :
    (s ++ c :: t).dropWhile isSpace = s.dropWhile isSpace ++ c :: t := by
  induction s with
  | nil => simp [hc]
  | cons x s ih =>
    rw [cons_append, dropWhile_cons, dropWhile_cons]
    split
    · exact ih
    · rfl

/-- Trimming gives a part. -/
lemma trim_infix (s : ByteStr) : trim s <:+: s := by
  have hright : trim s <+: s.dropWhile isSpace := by
    rw [trim, ← reverse_suffix, reverse_reverse]
    exact dropWhile_suffix _
  exact hright.isInfix.trans (dropWhile_suffix _).isInfix

/-- A byte in lower case. -/
def lowerByte (c : UInt8) : UInt8 := if 65 ≤ c && c ≤ 90 then c + 32 else c

/-- `String::equalsIgnoreCase` -/
def equalsIgnoreCase (s t : ByteStr) : Bool := s.map lowerByte = t.map lowerByte

/-! ### URLs -/

/-- The text of the address of the local host. -/
def localAddress : ByteStr := ascii ['1', '2', '7', '.', '0', '.', '0', '.', '1']

/-- What `CIMUrl::setLocalHost` makes of a host, and whether the host is local. -/
def localForm (host : ByteStr) : ByteStr × Bool :=
  if trim host = [] ∨ trim host = localAddress ∨
      equalsIgnoreCase (trim host) (ascii ['l', 'o', 'c', 'a', 'l', 'h', 'o', 's', 't']) then
    (localAddress, true)
  else (trim host, false)

/-- No new bytes in a host. -/
lemma not_mem_localForm {host : ByteStr} (hc : c ∉ host) (hl : c ∉ localAddress) :
    c ∉ (localForm host).1 := by
  unfold localForm
  split_ifs
  · exact hl
  · exact fun h => hc (( trim_infix host).subset h)

/-- `CIMUrl::URLData` -/
structure URLData where
  spec : ByteStr
  protocol : ByteStr
  host : ByteStr
  port : Int32
  file : ByteStr
  ref : ByteStr
  localHost : Bool
  deriving DecidableEq

namespace URLData

/-- `URLData::URLData` -/
def empty : URLData := ⟨[], [], [], 0, [], [], true⟩

/-- `CIMUrl::setLocalHost` -/
def setLocalHost (u : URLData) : URLData :=
  { u with host := (localForm u.host).1, localHost := (localForm u.host).2 }

/-- `CIMUrl::checkRef` -/
def checkRef (u : URLData) : URLData :=
  match cutAt 35 u.file with
  | some (file, ref) => { u with file, ref }
  | none => u

variable (R : Type) [Blocxx R]

/-- `CIMUrl::buildSpec` -/
def buildSpec (u : URLData) : URLData :=
  { u with
    spec := u.protocol ++ ascii [':', '/', '/'] ++ u.host ++
      (if 0 < u.port then ascii [':'] ++ Blocxx.int32Text R u.port else []) ++
      (if u.file.isEmpty then [] else ascii ['/'] ++ u.file) ++
      (if u.ref.isEmpty then [] else ascii ['#'] ++ u.ref) }

/-- `CIMUrl::setDefaultValues` -/
def setDefaultValues (u : URLData) : URLData :=
  let protocol := trim u.protocol
  let u := { u with protocol := if protocol.isEmpty then ascii ['h', 't', 't', 'p'] else protocol }
  let u := u.setLocalHost
  let u := if u.port ≤ 0 then { u with port := 5988 } else u
  let file := trim u.file
  let u :=
    if file.isEmpty then { u with file := ascii ['c', 'i', 'm', 'o', 'm'], ref := [] }
    else { u with file }
  u.buildSpec R

/-- All the defaults. -/
lemma setDefaultValues_eq (u : URLData) : setDefaultValues R u = buildSpec R
    ⟨u.spec, if trim u.protocol = [] then ascii ['h', 't', 't', 'p'] else trim u.protocol,
      (localForm u.host).1, if u.port ≤ 0 then 5988 else u.port,
      if trim u.file = [] then ascii ['c', 'i', 'm', 'o', 'm'] else trim u.file,
      if trim u.file = [] then [] else u.ref, (localForm u.host).2⟩ := by
  simp only [setDefaultValues, setLocalHost, List.isEmpty_iff]
  split_ifs <;> rfl

/-- `CIMUrl::setComponents` -/
def setComponents (u : URLData) : URLData :=
  if u.spec.isEmpty then u
  else
    let (protocol, spec) := (cutAtString (ascii [':', '/', '/']) u.spec).getD ([], u.spec)
    -- a name and password are dropped
    let spec := ((cutAt 64 spec).map Prod.snd).getD spec
    let u := { u with protocol, host := spec, port := 0, file := [], ref := [], localHost := true }
    let u :=
      match cutAt 47 spec with
      | some (host, file) => checkRef { u with host, file }
      | none => u
    let u :=
      match cutAt 58 u.host with
      | some (host, sport) => { u with host, port := (Blocxx.toInt32 R sport).getD 5988 }
      | none => u
    setDefaultValues R u.checkRef

/-- `CIMUrl::readObject`, after the text has been read. -/
def ofSpec (spec : ByteStr) : URLData := setComponents R { empty with spec }

end URLData

end OpenWbem
