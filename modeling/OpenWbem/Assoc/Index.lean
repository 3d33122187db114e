import OpenWbem.Assoc.Entries

/-!
# What is in an association database

An association database is described by the entries that it has under each key. Deleting takes the
first entry that is the same out of those under the key, or throws; if there is no key at or behind
the one that is looked for, it does neither.

The entries of an association are counted, so that it can be said which of them are left after some
of them have been deleted.

## Main definitions

* `AssocMap.entriesAt` — the entries under a key.
* `AssocMap.Keyed` — every record is under its own key.
* `sameIndex` — classes of which the entries cannot be told apart.

## Main results

* `AssocMap.deleteEntry_absent_iff` — **deleting an entry that is not there.**
* `AssocMap.filter_deleteEntries`, `AssocMap.countP_deleteEntries` — what is left after deleting.
-/

namespace OpenWbem

open Prog List OrderedIndex

variable {P : Type} [AssocPath P]

/-- The entry belongs under the key. -/
def AssocArgs.isAt (K : Str) (a : AssocArgs P) : Bool :=
  match makeAssocKey a.objectName a.role a.resultRole with
  | .ok key => key = K
  | .error _ => false

/-- The entries that belong under the key. -/
def argsAt (K : Str) (l : List (AssocArgs P)) : List (AssocEntry P) :=
  (l.filter (AssocArgs.isAt K)).map AssocArgs.entry

variable {a : AssocArgs P}

/-- An argument is at its own key. -/
lemma AssocArgs.isAt_iff {K key : Str}
    (h : makeAssocKey a.objectName a.role a.resultRole = .ok key) :
    a.isAt K = decide (key = K) := by
  rw [isAt, h]

/-- One argument more. -/
lemma argsAt_cons (K : Str) (a : AssocArgs P) (l : List (AssocArgs P)) :
    argsAt K (a :: l) = (if a.isAt K then [a.entry] else []) ++ argsAt K l := by
  rw [argsAt, filter_cons]
  split_ifs <;> rfl

namespace AssocMap

variable {m m' : AssocMap P} {K : Str}

/-- The entries under a key. -/
def entriesAt (m : AssocMap P) (K : Str) : List (AssocEntry P) :=
  (m.find K).elim [] AssocDbEntry.entries

/-- Every record is under its own key. -/
def Keyed (m : AssocMap P) : Prop := ∀ K r, m.find K = some r → r.makeKey = .ok K

/-- The empty database. -/
lemma keyed_empty : Keyed (.empty : AssocMap P) := nofun

omit [AssocPath P] in
/-- The entries after `put`. -/
lemma entriesAt_put (m : AssocMap P) (K : Str) (r : AssocDbEntry P) (K' : Str) :
    entriesAt (m.put K r) K' = if K' = K then r.entries else entriesAt m K' := by
  rw [entriesAt, find_put]
  split_ifs <;> rfl

omit [AssocPath P] in
/-- The entries after `remove`. -/
lemma entriesAt_remove (m : AssocMap P) (K K' : Str) :
    entriesAt (m.remove K) K' = if K' = K then [] else entriesAt m K' := by
  rw [entriesAt, find_remove]
  split_ifs <;> rfl

omit [AssocPath P] in
/-- The entries of a record. -/
lemma entriesAt_of_find {r : AssocDbEntry P} (h : m.find K = some r) :
    entriesAt m K = r.entries := by
  rw [entriesAt, h]
  rfl

/-- A record under its own key. -/
lemma Keyed.put (hm : Keyed m) {r : AssocDbEntry P} (hr : r.makeKey = .ok K) :
    Keyed (m.put K r) := by
  intro K' r' h
  rw [find_put] at h
  split_ifs at h with heq
  · cases h
    rw [heq]
    exact hr
  · exact hm K' r' h

/-- A record less. -/
lemma Keyed.remove (hm : Keyed m) (K : Str) : Keyed (m.remove K) := by
  intro K' r' h
  rw [find_remove] at h
  split_ifs at h
  exact hm K' r' h

/-! ### Deleting -/

variable {l : List (AssocArgs P)}

/-- **Deleting an entry**, when it does not throw: an entry that is the same goes, or there is
nothing under the key. -/
lemma deleteEntry_spec (hm : Keyed m) (h : exec (deleteEntry a) m = (.ok ⟨⟩, m')) :
    Keyed m' ∧ ∀ K, if a.isAt K then
        entriesAt m' K = (entriesAt m K).eraseP a.entry.same ∧
          (entriesAt m K = [] ∨ ∃ e ∈ entriesAt m K, a.entry.same e)
      else entriesAt m' K = entriesAt m K := by
  rw [deleteEntry] at h
  rcases hkey : makeAssocKey a.objectName a.role a.resultRole with e | key <;> rw [hkey] at h
  · cases h
  rw [liftExcept, pure_bind, exec_get_bind] at h
  have hat : ∀ K, a.isAt K = decide (key = K) := fun K => AssocArgs.isAt_iff hkey
  rcases hlow : m.lowerBound key with _ | ⟨k, r⟩ <;> rw [hlow] at h
  · -- there is no key at or behind it
    cases h
    have hnil : entriesAt m key = [] := by
      rcases hfind : m.find key with _ | r
      · rw [entriesAt, hfind]
        rfl
      · rw [lowerBound_of_find hfind] at hlow
        cases hlow
    refine ⟨hm, fun K => ?_⟩
    split_ifs with hK
    · obtain rfl : key = K := by simpa [hat] using hK
      rw [hnil]
      exact ⟨rfl, .inl rfl⟩
    · rfl
  have hfind : m.find k = some r := find_eq_some_iff.2 (mem_of_find?_eq_some hlow)
  dsimp only at h
  rw [hm k r hfind, liftExcept, pure_bind] at h
  split_ifs at h with hne hany hempty
  · cases h
  · obtain rfl : k = key := by simpa using hne
    cases h
    refine ⟨hm.remove k, fun K => ?_⟩
    rw [entriesAt_remove]
    split_ifs with hK hKk hKk
    · subst hKk
      rw [entriesAt_of_find hfind]
      exact ⟨(isEmpty_iff.1 hempty).symm, .inr (by simpa using hany)⟩
    · exact absurd (by simpa [hat] using hK) (Ne.symm hKk)
    · exact absurd (by simp [hat, hKk]) hK
    · rfl
  · obtain rfl : k = key := by simpa using hne
    cases h
    refine ⟨hm.put (by rw [← hm k r hfind]; rfl), fun K => ?_⟩
    rw [entriesAt_put]
    split_ifs with hK hKk hKk
    · subst hKk
      rw [entriesAt_of_find hfind]
      exact ⟨rfl, .inr (by simpa using hany)⟩
    · exact absurd (by simpa [hat] using hK) (Ne.symm hKk)
    · exact absurd (by simp [hat, hKk]) hK
    · rfl
  · cases h

/-- Nothing is under the key of the entry. -/
def Absent (m : AssocMap P) (a : AssocArgs P) : Prop :=
  ∀ key, makeAssocKey a.objectName a.role a.resultRole = .ok key → m.find key = none

/-- There is a record under a key that is greater. -/
def HasAbove (m : AssocMap P) (K : Str) : Prop := ∃ K' r, K < K' ∧ m.find K' = some r

/-- An entry that has no key cannot be deleted from any database. -/
lemma exec_deleteEntry_of_error {e : CIMException}
    (hkey : makeAssocKey a.objectName a.role a.resultRole = .error e) (m : AssocMap P) :
    exec (deleteEntry a) m = (.error e, m) := by
  rw [deleteEntry, hkey]
  rfl

/-- **Deleting an entry with nothing under its key**: nothing changes. It is an exception if the
cursor is put on another key. -/
lemma exec_deleteEntry_absent (hm : Keyed m) {key : Str}
    (hkey : makeAssocKey a.objectName a.role a.resultRole = .ok key) (hfind : m.find key = none) :
    (exec (deleteEntry a) m).2 = m ∧ ((exec (deleteEntry a) m).1.isOk ↔ ¬ HasAbove m key) := by
  rw [HasAbove, ← lowerBound_isSome_iff hfind, deleteEntry, hkey, liftExcept,
    pure_bind, exec_get_bind]
  rcases hlow : m.lowerBound key with _ | ⟨k, r⟩
  · exact ⟨rfl, by simp [Except.toBool]⟩
  · have hk : m.find k = some r := find_eq_some_iff.2 (mem_of_find?_eq_some hlow)
    have hne : k ≠ key := ne_of_lowerBound hfind hlow
    dsimp only
    rw [hm k r hk, liftExcept, pure_bind, if_pos hne]
    exact ⟨rfl, by simp [Except.toBool]⟩

/-- **Deleting an absent entry**: the database stays as it is, and whether there is an exception is
the same for two databases iff both of them or none of them have a greater key.

**Proof sketch.** The search stands on the next greater key, if there is one. The record there is
under its own key, and so it is not the record of the entry, which is an exception. Without a
greater key the search finds nothing, and that is only logged. -/
theorem deleteEntry_absent_iff {m₁ m₂ : AssocMap P} {a : AssocArgs P} (h₁ : Keyed m₁)
    (h₂ : Keyed m₂) (ha₁ : Absent m₁ a) (ha₂ : Absent m₂ a) : (exec (deleteEntry a) m₁).2 = m₁ ∧
      ((exec (deleteEntry a) m₁).1.isOk = (exec (deleteEntry a) m₂).1.isOk ↔
        ∀ key, makeAssocKey a.objectName a.role a.resultRole = .ok key →
          (HasAbove m₁ key ↔ HasAbove m₂ key)) := by
  rcases hkey : makeAssocKey a.objectName a.role a.resultRole with e | key
  · rw [exec_deleteEntry_of_error hkey, exec_deleteEntry_of_error hkey]
    simp
  · obtain ⟨hsame, hok1⟩ := exec_deleteEntry_absent h₁ hkey (ha₁ key hkey)
    obtain ⟨-, hok2⟩ := exec_deleteEntry_absent h₂ hkey (ha₂ key hkey)
    refine ⟨hsame, ?_⟩
    rw [Bool.eq_iff_iff, hok1, hok2, not_iff_not]
    constructor
    · rintro h key' heq
      cases heq
      exact h
    · intro h
      exact h key rfl

/-- An entry under the class `n:b`. -/
def entryOfB : AssocArgs (CIMObjectPath Bool) :=
  ⟨.ofClass ['b'] ['n'], [], [], ⟨['l'], ['x'], .ofClass ['x'] ['n'], .ofClass ['l'] ['n']⟩⟩

/-- A database with one record, for the class `n:c`. -/
def dbWithC : AssocMap (CIMObjectPath Bool) :=
  empty.put "n:c##".toList ⟨.ofClass ['c'] ['n'], [], [], []⟩

/-- The sample is keyed. -/
lemma keyed_dbWithC : Keyed dbWithC := keyed_empty.put (by decide +kernel)

/-- The key of the sample. -/
lemma makeAssocKey_entryOfB : makeAssocKey entryOfB.objectName entryOfB.role entryOfB.resultRole =
    .ok "n:b##".toList := by decide +kernel

/-- No record, no entry. -/
lemma absent_entryOfB {m : AssocMap (CIMObjectPath Bool)} (h : m.find "n:b##".toList = none) :
    Absent m entryOfB := by
  intro key hkey
  rw [makeAssocKey_entryOfB] at hkey
  cases hkey
  exact h

/-- The two outcomes for a database with a greater key and for one without any. -/
theorem deleteEntry_absent_dbWithC : (exec (deleteEntry entryOfB) dbWithC).2 = dbWithC ∧
      ((exec (deleteEntry entryOfB) dbWithC).1.isOk = (exec (deleteEntry entryOfB) .empty).1.isOk ↔
        ∀ key, makeAssocKey entryOfB.objectName entryOfB.role entryOfB.resultRole = .ok key →
          (HasAbove dbWithC key ↔ HasAbove (.empty : AssocMap (CIMObjectPath Bool)) key)) :=
  deleteEntry_absent_iff keyed_dbWithC keyed_empty (absent_entryOfB (by decide +kernel))
    (absent_entryOfB (by decide +kernel))

/-- **The outcome depends on an unrelated key**: deleting an entry that is in neither of two
databases returns for the empty one, and throws for the one that has a record of another class. -/
theorem exists_deleteEntry_absent_ne :
    Keyed (.empty : AssocMap (CIMObjectPath Bool)) ∧ Keyed dbWithC ∧
      Absent (.empty : AssocMap (CIMObjectPath Bool)) entryOfB ∧ Absent dbWithC entryOfB ∧
      (exec (deleteEntry entryOfB) (.empty : AssocMap (CIMObjectPath Bool))).1.isOk ∧
      (exec (deleteEntry entryOfB) dbWithC).1.isOk = false :=
  ⟨keyed_empty, keyed_dbWithC, absent_entryOfB (by decide +kernel),
    absent_entryOfB (by decide +kernel), by decide +kernel, by decide +kernel⟩

omit [AssocPath P] in
/-- Other entries stay. -/
lemma filter_eraseP {l : List (AssocEntry P)} {p q : AssocEntry P → Bool}
    (h : ∀ x, q x → p x = false) : (l.eraseP q).filter p = l.filter p := by
  rcases exists_or_eq_self_of_eraseP q l with heq | ⟨a, l1, l2, -, ha, rfl, heq⟩
  · rw [heq]
  · rw [heq, filter_append, filter_append, filter_cons_of_neg (by simp [h a ha])]

omit [AssocPath P] in
/-- One entry goes, if there is one. -/
lemma countP_eraseP {l : List (AssocEntry P)} {p q : AssocEntry P → Bool} (h : ∀ x, q x → p x)
    (hl : l = [] ∨ ∃ x ∈ l, q x) : (l.eraseP q).countP p = l.countP p - 1 := by
  rcases hl with rfl | ⟨x, hx, hq⟩
  · rfl
  · obtain ⟨a, l1, l2, -, ha, rfl, heq⟩ := exists_of_eraseP hx hq
    rw [heq, countP_append, countP_append, countP_cons_of_pos (h a ha)]
    omega

/-- **Deleting entries leaves the others** as they are. -/
lemma filter_deleteEntries (hm : Keyed m) (h : exec (l.forM deleteEntry) m = (.ok ⟨⟩, m'))
    {p : AssocEntry P → Bool} (hp : ∀ a ∈ l, ∀ x, a.entry.same x → p x = false) :
    Keyed m' ∧ ∀ K, (entriesAt m' K).filter p = (entriesAt m K).filter p := by
  induction l generalizing m with
  | nil =>
    cases h
    exact ⟨hm, fun K => rfl⟩
  | cons a l ih =>
    obtain ⟨u, m₁, ha, h⟩ := exec_bind_ok h
    obtain ⟨hm1, hdel⟩ := deleteEntry_spec hm ha
    obtain ⟨hm', hrest⟩ := ih hm1 h fun a' ha' => hp a' (mem_cons_of_mem _ ha')
    refine ⟨hm', fun K => ?_⟩
    have hK := hdel K
    rw [hrest K]
    split_ifs at hK
    · rw [hK.1, filter_eraseP (hp a mem_cons_self)]
    · rw [hK]

/-- **Deleting entries takes as many of them** as there are to be deleted under the key, or all.
Here `g` says which of the arguments are counted. -/
lemma countP_deleteEntries (hm : Keyed m) (h : exec (l.forM deleteEntry) m = (.ok ⟨⟩, m'))
    {p : AssocEntry P → Bool} {g : AssocArgs P → Bool}
    (hp : ∀ a ∈ l, ∀ x, a.entry.same x → p x = g a)
    (K : Str) :
    (entriesAt m' K).countP p = (entriesAt m K).countP p - (argsAt K (l.filter g)).length := by
  induction l generalizing m with
  | nil =>
    cases h
    rfl
  | cons a l ih =>
    obtain ⟨u, m₁, ha, h⟩ := exec_bind_ok h
    obtain ⟨hm1, hdel⟩ := deleteEntry_spec hm ha
    have hK := hdel K
    have hsame := hp a mem_cons_self
    rw [ih hm1 h fun a' ha' => hp a' (mem_cons_of_mem _ ha'), filter_cons]
    split_ifs at hK with hat <;> cases hg : g a
    · rw [hK.1, countP_eq_length_filter, filter_eraseP fun x hx => (hsame x hx).trans hg,
        ← countP_eq_length_filter, if_neg Bool.false_ne_true]
    · rw [hK.1, countP_eraseP (fun x hx => (hsame x hx).trans hg) hK.2, if_pos rfl, argsAt_cons,
        if_pos hat, length_append, length_singleton]
      omega
    · rw [hK, if_neg Bool.false_ne_true]
    · rw [hK, if_pos rfl, argsAt_cons, if_neg hat, nil_append]

end AssocMap

/-! ### The entries of a class -/

section Classes

variable {V : Type}

/-- The entry is one of the association class: the path of the association is that of the class. -/
def entryOf (ns : Str) (name : CIMName) (e : AssocEntry (CIMObjectPath V)) : Bool :=
  decide (Str.lower e.associationPath.nameSpace = Str.lower (normalizeNs ns)) &&
    sameName e.associationPath.className name

/-- The entries that are added for a class, and those that are deleted. -/
def assocEntries (ns : Str) (c : CIMClass V) : List (AssocArgs (CIMObjectPath V)) :=
  if c.isAssociation then classEntries ns c else []

variable {ns : Str} {c : CIMClass V} {e : AssocEntry (CIMObjectPath V)} {name : CIMName}

/-- The entries of an association class have its path. -/
lemma associationPath_of_mem {a : AssocArgs (CIMObjectPath V)}
    (h : a ∈ assocEntries ns c) : a.entry.associationPath = .ofClass c.name ns := by
  rw [assocEntries] at h
  split_ifs at h
  · obtain ⟨⟨p1, p2⟩, -, ha⟩ := mem_flatMap.1 h
    dsimp only at ha
    split at ha
    · simp only [pairEntries, mem_cons, not_mem_nil, or_false] at ha
      rcases ha with rfl | rfl | rfl | rfl <;> rfl
    · cases ha
  · cases h

/-- Two classes have the same entries: their names are the same up to case, and so are the
namespaces, without what `CIMObjectPath` drops of them. -/
def sameIndex (ns : Str) (name : CIMName) (ns' : Str) (name' : CIMName) : Prop :=
  Str.lower (normalizeNs ns) = Str.lower (normalizeNs ns') ∧ Str.lower name = Str.lower name'

variable {ns' : Str} {name' : CIMName}

/-- Names that give the same key. -/
lemma entryOf_congr (h : sameIndex ns name ns' name') :
    (entryOf ns name : AssocEntry (CIMObjectPath V) → Bool) = entryOf ns' name' := by
  funext e
  rw [entryOf, entryOf, sameName, sameName, h.1, h.2]

variable [CIMValue V]

/-- Entries that are the same are entries of the same class. -/
lemma entryOf_of_same {e' : AssocEntry (CIMObjectPath V)}
    (h : e.same e') : entryOf ns name e' = entryOf ns name e := by
  have hpath : CIMObjectPath.equals e.associationPath e'.associationPath := by
    rw [AssocEntry.same, Bool.and_eq_true] at h
    exact h.2
  simp only [CIMObjectPath.equals, Bool.and_eq_true, decide_eq_true_eq, sameName_iff] at hpath
  obtain ⟨⟨⟨hns, hname⟩, -⟩, -⟩ := hpath
  simp only [entryOf, sameName, hns, hname]

/-- What is the same as an entry of a class is an entry of the class. -/
lemma entryOf_of_mem {a : AssocArgs (CIMObjectPath V)} (ha : a ∈ assocEntries ns c)
    {x : AssocEntry (CIMObjectPath V)} (hx : a.entry.same x) :
    entryOf ns' name x = (decide (Str.lower (normalizeNs ns) = Str.lower (normalizeNs ns')) &&
      sameName c.name name) := by
  rw [entryOf_of_same hx, entryOf, associationPath_of_mem ha]
  rfl

end Classes

end OpenWbem
