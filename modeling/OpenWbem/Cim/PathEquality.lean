import OpenWbem.Base.Covering
import OpenWbem.Cim.Objects

/-!
# Equality of object paths

`CIMObjectPath::equals` looks for each key of the left path for a key of the right path with the
same name and an equal value. A key of the right path can be found for several keys of the left one,
so that with repeated keys the comparison depends on the side. Keys that are references are compared
in the same way.

## Main definitions

* `CIMProperty.Matches` — the keys agree in name and value.
* `NestedKey` — the values of keys, with references nested to a depth.
* `NestedKey.Distinct`, `CIMObjectPath.DistinctKeys` — no two keys of a path match.

## Main results

* `CIMObjectPath.equals_laws` — the laws that hold for all paths, and the paths with a symmetric
  equality.
-/

namespace OpenWbem

open List CIMObjectPath

/-- A relation is symmetric at an element. -/
def SymmAt {α : Type} (r : α → α → Bool) (x : α) : Prop := ∀ y, r x y → r y x

section

variable {V : Type} [CIMValue V]

/-- The keys have the same name and equal values. -/
def CIMProperty.Matches (x y : CIMProperty V) : Prop :=
  sameName x.name y.name ∧ equalValues x.value y.value

/-- No two keys of the path match, and the values of its keys have a property. -/
def CIMObjectPath.DistinctKeys (D : V → Prop) (p : CIMObjectPath V) : Prop :=
  p.keys.Pairwise (fun x y => ¬ x.Matches y ∧ ¬ y.Matches x) ∧ ∀ x ∈ p.keys, ∀ v ∈ x.value, D v

variable {p q r : CIMObjectPath V}

namespace CIMObjectPath

/-- The comparison as covering. -/
lemma equals_iff : p.equals q ↔ Str.lower p.nameSpace = Str.lower q.nameSpace ∧
    sameName p.className q.className ∧ Covers CIMProperty.Matches p.keys q.keys := by
  simp [equals, Covers, CIMProperty.Matches, and_assoc]

/-- A key that matches none of them. -/
lemma exists_not_matches (l : List (CIMProperty V)) :
    ∃ z : CIMProperty V, ∀ y ∈ l, ¬ z.Matches y := by
  obtain ⟨n, hn⟩ := Infinite.exists_notMem_finset (l.map (·.name.length)).toFinset
  refine ⟨⟨replicate n 'a', [], [], .other 0, none, false⟩, fun y hy hm => hn ?_⟩
  have hlen := congrArg length (sameName_iff.1 hm.1)
  simp only [Str.lower, length_map, length_replicate] at hlen
  exact mem_toFinset.2 (mem_map.2 ⟨y, hy, hlen.symm⟩)

section Laws

variable (hrefl : ∀ v : V, CIMValue.equal v v)
  (htrans : ∀ {u v w : V}, CIMValue.equal u v → CIMValue.equal v w →
    CIMValue.equal u w)

include hrefl in
/-- A key matches itself. -/
lemma matches_refl (x : CIMProperty V) : x.Matches x := by
  refine ⟨sameName_iff.2 rfl, ?_⟩
  cases x.value with
  | none => rfl
  | some v => exact hrefl v

include htrans in
/-- Matching is transitive. -/
lemma matches_trans {x y z : CIMProperty V} (h : x.Matches y) (h' : y.Matches z) : x.Matches z := by
  obtain ⟨hn, hv⟩ := h
  obtain ⟨hn', hv'⟩ := h'
  refine ⟨sameName_iff.2 ((sameName_iff.1 hn).trans (sameName_iff.1 hn')), ?_⟩
  revert hv hv'
  rcases x.value, y.value, z.value with ⟨_ | u, _ | v, _ | w⟩ <;> simp [equalValues]
  exact htrans

include hrefl in
/-- The order of the keys does not matter. -/
lemma equals_of_perm {keys : List (CIMProperty V)} (h : p.keys.Perm keys) :
    p.equals { p with keys := keys } :=
  equals_iff.2 ⟨rfl, sameName_iff.2 rfl, .of_perm (matches_refl hrefl) h⟩

include htrans in
/-- The comparison is transitive. -/
lemma equals_trans (h : p.equals q) (h' : q.equals r) : p.equals r := by
  obtain ⟨hs, hc, hk⟩ := equals_iff.1 h
  obtain ⟨hs', hc', hk'⟩ := equals_iff.1 h'
  exact equals_iff.2 ⟨hs.trans hs', sameName_iff.2 ((sameName_iff.1 hc).trans (sameName_iff.1 hc')),
    hk.trans (matches_trans htrans) hk'⟩

/-- A key matches its partners in both directions just if its value does. -/
lemma matches_symm_iff (x : CIMProperty V) :
    (∀ y, x.Matches y → y.Matches x) ↔ ∀ v ∈ x.value, SymmAt CIMValue.equal v := by
  constructor
  · intro h v hv w hvw
    have hx := (h { x with value := some w } ⟨sameName_iff.2 rfl, by rw [hv]; exact hvw⟩).2
    rwa [hv] at hx
  · rintro h y ⟨hn, hv⟩
    refine ⟨sameName_iff.2 (sameName_iff.1 hn).symm, ?_⟩
    revert hv h
    rcases x.value, y.value with ⟨_ | v, _ | w⟩ <;> simp [equalValues]
    exact fun h => h w

include hrefl htrans in
/-- **Where equality is symmetric.** The paths that a path equals are all equal to it just if no two
of its keys match, and the equality of values is symmetric at the values of its keys. -/
theorem symmAt_equals_iff : SymmAt equals p ↔ p.DistinctKeys (SymmAt CIMValue.equal) := by
  have hcovers :=
    Covers.symm_iff (matches_refl hrefl) (matches_trans htrans) (exists_not_matches p.keys)
  simp only [matches_symm_iff] at hcovers
  rw [DistinctKeys, ← hcovers]
  constructor
  · intro h l hl
    exact (equals_iff.1 (h { p with keys := l } (equals_iff.2 ⟨rfl, sameName_iff.2 rfl, hl⟩))).2.2
  · intro h q hq
    obtain ⟨hs, hc, hk⟩ := equals_iff.1 hq
    exact equals_iff.2 ⟨hs.symm, sameName_iff.2 (sameName_iff.1 hc).symm, h _ hk⟩

end Laws

end CIMObjectPath

end

/-! ### Nested references -/

/-- What a value holds: an object path, an array of them, or something else. -/
inductive KeyContent (E P : Type) where
  | plain (v : E)
  | reference (p : P)
  | references (ps : List P)

/-- The values of keys with references nested less than some levels deep. The values `E` that are
not references are those with an equality of their own: all types except embedded objects and
not-a-number. -/
def NestedKey (E : Type) : ℕ → Type
  | 0 => Empty
  | n + 1 => KeyContent E (CIMObjectPath (NestedKey E n))

/-- Values of which only the equality matters. -/
@[reducible] def valueOfEqual {V : Type} (equal : V → V → Bool) : CIMValue V where
  boolean? _ := none
  equal := equal
  cloneEmbedded _ _ v := v
  toMOF p := p.name
  objectPath? _ := none
  asKeyString _ := []

namespace NestedKey

variable {E : Type} [DecidableEq E] {n : ℕ}

/-- `CIMValueImpl::equal`: values of different types are not equal, and arrays are compared by
elements. -/
def equal : (n : ℕ) → NestedKey E n → NestedKey E n → Bool
  | 0, v, _ => Empty.elim v
  | n + 1, v, w =>
    letI := valueOfEqual (equal n)
    match (v : KeyContent E _), (w : KeyContent E _) with
    | .plain v, .plain w => decide (v = w)
    | .reference p, .reference q => p.equals q
    | .references ps, .references qs => decide (List.Forall₂ (fun p q => p.equals q) ps qs)
    | _, _ => false

instance : CIMValue (NestedKey E n) := valueOfEqual (equal n)

/-- No path among the values has two keys that match. -/
def Distinct : (n : ℕ) → NestedKey E n → Prop
  | 0, _ => True
  | n + 1, v =>
    match (v : KeyContent E _) with
    | .plain _ => True
    | .reference p => p.DistinctKeys (Distinct n)
    | .references ps => ∀ p ∈ ps, p.DistinctKeys (Distinct n)

/-- A nested value equals itself. -/
lemma equal_refl : ∀ (n : ℕ) (v : NestedKey E n), CIMValue.equal v v
  | _ + 1, .plain _ => decide_eq_true rfl
  | n + 1, .reference p => equals_of_perm (equal_refl n) (.refl p.keys)
  | n + 1, .references _ => decide_eq_true
      (forall₂_same.2 fun p _ => equals_of_perm (equal_refl n) (.refl p.keys))

/-- Equality of nested values is transitive. -/
lemma equal_trans : ∀ (n : ℕ) {u v w : NestedKey E n}, CIMValue.equal u v →
    CIMValue.equal v w → CIMValue.equal u w
  | _ + 1, .plain _, .plain _, .plain _, h, h' =>
    decide_eq_true ((of_decide_eq_true h).trans (of_decide_eq_true h'))
  | n + 1, .reference _, .reference _, .reference _, h, h' =>
    equals_trans (equal_trans n) h h'
  | n + 1, .references _, .references _, .references _, h, h' => by
    obtain ⟨hlen, h⟩ := forall₂_iff_get.1 (of_decide_eq_true h)
    obtain ⟨hlen', h'⟩ := forall₂_iff_get.1 (of_decide_eq_true h')
    exact decide_eq_true (forall₂_iff_get.2 ⟨hlen.trans hlen', fun i hi hk =>
      equals_trans (equal_trans n) (h i hi (hlen ▸ hi)) (h' i (hlen ▸ hi) hk)⟩)

end NestedKey

/-- Arrays of elements with a reflexive equality are compared symmetrically just if their elements
are. -/
lemma forall₂_symm_iff {α : Type} {r : α → α → Bool} (hrefl : ∀ x, r x x) (l : List α) :
    (∀ l', List.Forall₂ (fun x y => r x y) l l' → List.Forall₂ (fun x y => r x y) l' l) ↔
      ∀ x ∈ l, SymmAt r x := by
  induction l with
  | nil => simp
  | cons x l ih =>
    rw [forall_mem_cons, ← ih]
    constructor
    · intro h
      exact ⟨fun y hy =>
        (forall₂_cons.1 (h (y :: l) (.cons hy (forall₂_same.2 fun _ _ => hrefl _)))).1,
        fun l' hl' => (forall₂_cons.1 (h (x :: l') (.cons (hrefl x) hl'))).2⟩
    · rintro ⟨hx, hl⟩ _ (_ | ⟨hy, hl'⟩)
      exact .cons (hx _ hy) (hl _ hl')

namespace NestedKey

variable {E : Type} [DecidableEq E] {n : ℕ}

/-- The equality of values is symmetric just at values without repeated keys, by induction on the
depth. -/
lemma symmAt_equal_iff : ∀ (n : ℕ) (v : NestedKey E n), SymmAt CIMValue.equal v ↔ v.Distinct
  | _ + 1, .plain v => by
    refine iff_of_true (fun w hw => ?_) trivial
    match w, hw with
    | .plain w, hw => exact decide_eq_true (of_decide_eq_true hw).symm
  | n + 1, .reference p => by
    have hp := symmAt_equals_iff (p := p) (equal_refl n) (equal_trans n)
    rw [funext fun v => propext (symmAt_equal_iff n v)] at hp
    refine Iff.trans ⟨fun h q => h (.reference q), fun h w hw => ?_⟩ hp
    match w, hw with
    | .reference q, hw => exact h q hw
  | n + 1, .references ps => by
    have hps := forall₂_symm_iff (r := equals (V := NestedKey E n))
      (fun p => equals_of_perm (equal_refl n) (.refl p.keys)) ps
    simp only [symmAt_equals_iff (equal_refl n) (equal_trans n),
      funext fun v => propext (symmAt_equal_iff n v)] at hps
    refine Iff.trans ⟨fun h qs hqs => ?_, fun h w hw => ?_⟩ hps
    · exact of_decide_eq_true (h (.references qs) (decide_eq_true hqs))
    · match w, hw with
      | .references qs, hw => exact decide_eq_true (h qs (of_decide_eq_true hw))

end NestedKey

namespace CIMObjectPath

/-- **The laws of path equality.** It is reflexive and transitive, and the order of the keys does
not matter. A path is equal to all the paths that it equals just if no two of its keys match, nor
two keys of a path nested in it. -/
theorem equals_laws {E : Type} [DecidableEq E] (n : ℕ) (p : CIMObjectPath (NestedKey E n)) :
    p.equals p ∧
    (∀ q r, p.equals q → q.equals r → p.equals r) ∧
    (∀ keys, p.keys.Perm keys → p.equals { p with keys := keys }) ∧
    ((∀ q, p.equals q → q.equals p) ↔ p.DistinctKeys (NestedKey.Distinct n)) := by
  have hsymm := symmAt_equals_iff (p := p) (NestedKey.equal_refl n) (NestedKey.equal_trans n)
  have hvalues : SymmAt CIMValue.equal = NestedKey.Distinct (E := E) n :=
    funext fun v => propext (NestedKey.symmAt_equal_iff n v)
  rw [hvalues] at hsymm
  exact ⟨equals_of_perm (NestedKey.equal_refl n) (.refl _),
    fun _ _ => equals_trans (NestedKey.equal_trans n),
    fun _ => equals_of_perm (NestedKey.equal_refl n), hsymm⟩

/-- A key with a number. -/
def numberKey (name : CIMName) (i : ℕ) : CIMProperty (NestedKey ℕ 1) :=
  ⟨name, [], [], .other 0, some (.plain i), false⟩

/-- A path with the same key twice equals one with two different keys, which does not equal it. -/
theorem equals_not_symm :
    let p : CIMObjectPath (NestedKey ℕ 1) := ⟨[], ['c'], [numberKey ['a'] 1, numberKey ['a'] 1]⟩
    let q : CIMObjectPath (NestedKey ℕ 1) := ⟨[], ['c'], [numberKey ['a'] 1, numberKey ['a'] 2]⟩
    p.equals q ∧ q.equals p = false := by
  decide

end CIMObjectPath

end OpenWbem
