import OpenWbem.Cim.Elements
import OpenWbem.Repository.ClassCache

/-!
# Restricted qualifiers

A qualifier with the flavor `RESTRICTED` stays with the class that gives it. There are three places
at which qualifiers go from a class to a subclass, and they do not agree. The qualifiers of the
class itself are tested for the flavor when the subclass is read (`inheritQualifier`). Those of a
property that the subclass overrides are tested for it when the subclass is created
(`overrideQualifier`). Those of a property or method that the subclass declares again without
`Override` are not tested: all of them are added when the subclass is read (`inheritQualifiers`).

## Main definitions

* `CIMQualifier.stays` — the qualifier is not for subclasses.
* `RestrictedStay` — a class has of the restricted qualifiers above it only those that it gives
  itself.
* `ElementKind.Repeats` — the class repeats the restricted qualifiers of what it does not override.

## Main results

* `restrictedStay_of_repeats` — the qualifiers stay, for every class that repeats them.
* `restricted_inherited` — a restricted qualifier in a subclass that does not give it.
-/

namespace OpenWbem

open Prog Hierarchy MetaRepository List Str CIMQualifier CIMClass ElementKind

variable {V α : Type} [CIMValue V]

/-! ### Qualifiers that stay -/

variable {q : CIMQualifier V}

section Qualifiers

omit [CIMValue V]

/-- The qualifier has the flavor `RESTRICTED`, and not `DISABLEOVERRIDE`: it stays with the class
that gives it. -/
def CIMQualifier.stays (q : CIMQualifier V) : Bool :=
  q.hasFlavor .restricted && !q.hasFlavor .disableOverride

/-- A qualifier of the name is given. -/
def Gives (quals : List (CIMQualifier V)) (name : CIMName) : Prop :=
  ∃ q ∈ quals, sameName q.name name

/-- A qualifier of the name is there, and it is one that stays with its class. -/
def Carries (quals : List (CIMQualifier V)) (name : CIMName) : Prop :=
  ∃ q ∈ quals, sameName q.name name ∧ q.stays

/-- The qualifiers that stay. -/
lemma CIMQualifier.stays_iff :
    q.stays ↔ q.hasFlavor .restricted ∧ q.hasFlavor .disableOverride = false := by
  rw [stays, Bool.and_eq_true, Bool.not_eq_true']

/-- Only the flavors matter. -/
lemma CIMQualifier.stays_congr {q' : CIMQualifier V} (h : q'.flavors = q.flavors) :
    q'.stays = q.stays := by
  rw [stays, stays, hasFlavor, hasFlavor, hasFlavor, hasFlavor, h]

/-- An element of a list in which one is replaced or appended. -/
lemma mem_of_mem_setByName {β : Type} {name : β → CIMName} {l : List β} {x y : β}
    (h : y ∈ setByName name l x) : y = x ∨ y ∈ l := by
  induction l with
  | nil => exact .inl (mem_singleton.1 h)
  | cons u l ih =>
    rw [setByName] at h
    split_ifs at h
    · exact (mem_cons.1 h).imp_right (mem_cons_of_mem _)
    · rcases mem_cons.1 h with rfl | h
      · exact .inr mem_cons_self
      · exact (ih h).imp_right (mem_cons_of_mem _)

variable {parentQuals : List (CIMQualifier V)}

/-- The qualifiers that are added to those of an overriding property are for subclasses. -/
lemma of_mem_overrideQualifiers (hstays : q.stays) : ∀ {quals : List (CIMQualifier V)},
      q ∈ parentQuals.foldl overrideQualifier quals → q ∈ quals := by
  obtain ⟨hrestricted, hdisable⟩ := stays_iff.1 hstays
  have hstep : ∀ (quals : List (CIMQualifier V)) qual, q ∈ overrideQualifier quals qual →
      q ∈ quals := by
    intro quals qual h
    rw [overrideQualifier] at h
    have hne : qual.hasFlavor .disableOverride ∨ qual.hasFlavor .restricted = false → q ≠ qual := by
      rintro hqual rfl
      rw [hrestricted, hdisable] at hqual
      exact absurd hqual (by simp)
    split_ifs at h with hd _ hr
    · exact (mem_of_mem_setByName h).resolve_left (hne (.inl hd))
    · exact (mem_append.1 h).resolve_right fun h => hne (.inl hd) (mem_singleton.1 h)
    · exact h
    · exact h
    · exact (mem_append.1 h).resolve_right fun h =>
        hne (.inr (eq_false_of_ne_true hr)) (mem_singleton.1 h)
  induction parentQuals with
  | nil => exact fun h => h
  | cons qual l ih => exact fun h => hstep _ qual (ih h)

/-- The qualifiers of an element that is declared again: all those of the superclass are added. -/
lemma of_mem_inheritQualifiers :
    ∀ {quals : List (CIMQualifier V)}, q ∈ inheritQualifiers quals parentQuals →
      q ∈ quals ∨ ∃ q0 ∈ parentQuals, q.name = q0.name ∧ q.flavors = q0.flavors := by
  induction parentQuals with
  | nil => exact fun h => .inl h
  | cons qual l ih =>
    intro quals h
    rw [inheritQualifiers, foldl_cons] at h
    rcases ih h with h | ⟨q0, hq0, heq⟩
    · split_ifs at h
      · exact .inl h
      · rcases mem_append.1 h with h | h
        · exact .inl h
        · rw [mem_singleton.1 h]
          exact .inr ⟨qual, mem_cons_self, rfl, rfl⟩
    · exact .inr ⟨q0, mem_cons_of_mem _ hq0, heq⟩

end Qualifiers

/-- The qualifiers of a class that inherits: those that are added are not restricted. -/
lemma of_mem_quals_inherit {c pc : CIMClass V}
    (h : q ∈ (c.inherit pc).quals) (hstays : q.stays) : q ∈ c.quals := by
  have hrestricted := (stays_iff.1 hstays).1
  have hqual : ∀ (c : CIMClass V) p, q ∈ (c.inheritQualifier p).quals → q ∈ c.quals := by
    intro c p h
    rw [inheritQualifier] at h
    split_ifs at h with hr
    · exact h
    · exact h
    · rcases mem_append.1 h with h | h
      · exact mem_of_mem_eraseP h
      · rw [mem_singleton.1 h] at hrestricted
        exact absurd hrestricted hr
  have hfold : ∀ (l : List (CIMQualifier V)) (c : CIMClass V),
      q ∈ (l.foldl inheritQualifier c).quals → q ∈ c.quals := by
    intro l
    induction l with
    | nil => exact fun c h => h
    | cons x l ih => exact fun c h => hqual c x (ih _ h)
  rw [inherit, foldl_keeps quals (fun c m => by rw [inheritMethod_eq]),
    foldl_keeps quals (fun c p => by rw [inheritProperty_eq])] at h
  have h := hfold _ _ h
  split_ifs at h <;> exact h

/-- The qualifiers of a class that is adjusted are among those that it gives. -/
lemma quals_of_adjust {c pc c' : CIMClass V} (h : c.adjust pc = .ok c') : c'.quals ⊆ c.quals := by
  obtain ⟨quals, _, hq, -, rfl⟩ := adjust_ok h
  intro q hmem
  obtain ⟨l, hl, hql⟩ := mem_flatten.1 hmem
  obtain ⟨x, hx, hxl⟩ := (mem_of_forall₂ (forall₂_of_mapM_ok hq)).1 l hl
  have hsub : l ⊆ [x] := by
    rw [adjustQualifier] at hxl
    split at hxl
    · cases hxl
      exact List.Subset.refl _
    · split_ifs at hxl <;> cases hxl
      · exact List.Subset.refl _
      · exact nil_subset _
      · exact List.Subset.refl _
  rw [mem_singleton.1 (hsub hql)]
  exact hx

/-! ### Elements -/

namespace ElementKind

variable (E : ElementKind V α)

/-- The class gives a qualifier of the name to an element `e`. -/
def Gives (c : CIMClass V) (e : Str) (name : CIMName) : Prop :=
  ∃ y ∈ E.elements c, lower (E.name y) = e ∧ OpenWbem.Gives (E.quals y) name

/-- **The restricted qualifiers of elements stay.** For a class `c` that is read as `cc`, and a
class `ac` above it: of the qualifiers of an element of `ac` that stay with `ac`, an element that
`c` declares again carries only those that `c` gives. -/
def Confined (c ac cc : CIMClass V) : Prop :=
  ∀ x ∈ E.elements ac, ∀ q ∈ E.quals x, q.stays → E.Declares c (lower (E.name x)) →
    ¬ E.Gives c (lower (E.name x)) q.name →
    ∀ z ∈ E.elements cc, lower (E.name z) = lower (E.name x) → ¬ Carries (E.quals z) q.name

/-- The class repeats the restricted qualifiers of those elements of its superclass that it declares
again without `Override`. -/
def Repeats (c pc : CIMClass V) : Prop :=
  ∀ y ∈ E.elements c, E.overrides y = false → ∀ x ∈ E.elements pc,
    lower (E.name x) = lower (E.name y) → ∀ q ∈ E.quals x, q.stays →
    E.Gives c (lower (E.name y)) q.name

/-- What reading and writing classes does to the qualifiers of the elements of the kind. -/
structure Qualified : Prop where
  quals_inherited : ∀ x, E.quals (E.inherited x) = E.quals x
  quals_withQuals : ∀ x qs, E.quals (E.withQuals x qs) = qs
  base : ∀ c : CIMClass V, ∀ y ∈ E.elements c.adjustBase, ∀ q ∈ E.quals y,
    ∃ y₀ ∈ E.elements c, E.name y₀ = E.name y ∧ q ∈ E.quals y₀
  adjusted : ∀ {c pc c' : CIMClass V}, c.adjust pc = .ok c' → ∀ y ∈ E.elements c', ∀ q ∈ E.quals y,
    q.stays → ∃ y₀ ∈ E.elements c, E.name y₀ = E.name y ∧ q ∈ E.quals y₀
  filtered : ∀ (req : ClassRequest) (cc : CIMClass V), ∀ z ∈ E.elements (req.filter cc),
    ∃ x ∈ E.elements cc, E.name x = E.name z ∧ E.quals z ⊆ E.quals x

variable {E}

omit [CIMValue V] in
/-- Where the elements of a merged list come from: the list itself, the element of the superclass,
if the list has none of the name, or an element that does not override it, with the qualifiers
added. -/
lemma of_mem_merge {l : List α} {x z : α} (hz : z ∈ E.merge l x) :
    z ∈ l ∨ (z = E.inherited x ∧ ∀ y ∈ l, lower (E.name y) ≠ lower (E.name x)) ∨
      ∃ y ∈ l, lower (E.name y) = lower (E.name x) ∧ E.overrides y = false ∧
        z = E.withQuals y (inheritQualifiers (E.quals y) (E.quals x)) := by
  rw [merge] at hz
  rcases hfind : l.find? fun y => sameName (E.name y) (E.name x) with _ | y
  · rw [hfind] at hz
    refine (mem_append.1 hz).imp_right fun hz => .inl ⟨mem_singleton.1 hz, ?_⟩
    exact fun y hy hname => find?_eq_none.1 hfind y hy (sameName_iff.2 hname)
  · rw [hfind] at hz
    dsimp only at hz
    split_ifs at hz with hover
    · exact .inl hz
    · refine (mem_of_mem_setByName hz).symm.imp_right fun hz => .inr
        ⟨y, mem_of_find?_eq_some hfind, ?_, eq_false_of_ne_true hover, hz⟩
      have hfound := find?_some hfind
      exact sameName_iff.1 hfound

/-- The list has no element of the name, or one without `Override`. -/
def Open (E : ElementKind V α) (l : List α) (e : Str) : Prop :=
  (∀ y ∈ l, lower (E.name y) ≠ e) ∨ ∃ y ∈ l, lower (E.name y) = e ∧ E.overrides y = false

omit [CIMValue V] in
/-- Merging does not take an `Override` away. -/
lemma open_of_merge {l : List α} {x : α} {e : Str} (h : E.Open (E.merge l x) e) : E.Open l e := by
  rcases h with h | ⟨y, hy, rfl, hover⟩
  · refine .inl fun y hy => ?_
    rcases merge_cases l x with ⟨heq, -⟩ | ⟨-, hsame⟩
    · exact h y (heq ▸ mem_append_left _ hy)
    · obtain ⟨z, hz, hzy⟩ := (mem_of_forall₂ hsame).2 y hy
      exact hzy.1 ▸ h z hz
  · rcases of_mem_merge hy with hy | ⟨rfl, hnone⟩ | ⟨w, hw, -, hbare, rfl⟩
    · exact .inr ⟨y, hy, rfl, hover⟩
    · exact .inl fun w hw => E.name_inherited x ▸ hnone w hw
    · exact .inr ⟨w, hw, by rw [E.name_withQuals], hbare⟩

/-- **The qualifiers of merged elements**: those of an element of the class, or those of an element
of the superclass that the class does not override. -/
lemma of_mem_quals_foldl (hE : E.Qualified) {ps : List α} : ∀ {l : List α} {z : α}
    {q : CIMQualifier V}, z ∈ ps.foldl E.merge l → q ∈ E.quals z →
    (∃ y ∈ l, lower (E.name y) = lower (E.name z) ∧ q ∈ E.quals y) ∨
      ∃ x ∈ ps, lower (E.name x) = lower (E.name z) ∧
        (∃ q0 ∈ E.quals x, q.name = q0.name ∧ q.flavors = q0.flavors) ∧
        E.Open l (lower (E.name z)) := by
  induction ps with
  | nil => exact fun hz hq => .inl ⟨_, hz, rfl, hq⟩
  | cons x ps ih =>
    intro l z q hz hq
    rcases ih hz hq with ⟨y, hy, hname, hq⟩ | ⟨x', hx', hname, hq0, hopen⟩
    · rw [← hname]
      rcases of_mem_merge hy with hy | ⟨rfl, hnone⟩ | ⟨w, hw, hwx, hbare, rfl⟩
      · exact .inl ⟨y, hy, rfl, hq⟩
      · rw [hE.quals_inherited] at hq
        rw [E.name_inherited]
        exact .inr ⟨x, mem_cons_self, rfl, ⟨q, hq, rfl, rfl⟩, .inl hnone⟩
      · rw [hE.quals_withQuals] at hq
        rw [E.name_withQuals]
        rcases of_mem_inheritQualifiers hq with hq | hq
        · exact .inl ⟨w, hw, rfl, hq⟩
        · exact .inr ⟨x, mem_cons_self, hwx.symm, hq, .inr ⟨w, hw, rfl, hbare⟩⟩
    · exact .inr ⟨x', mem_cons_of_mem _ hx', hname, hq0, open_of_merge hopen⟩

/-- **An element that is read carries no restricted qualifier but those that the class gives**, for
a class that repeats those of its superclass. -/
lemma confined_of_repeats (hE : E.Qualified) (hreg : E.Regular) {c pc c' : CIMClass V}
    (hadj : c.adjust pc = .ok c') (hrep : E.Repeats c pc) (ac : CIMClass V) :
    E.Confined c ac (c'.markKeyed.inherit pc) := by
  rintro x - q - - ⟨y1, hy1, hy₁x⟩ hgives z hz hzx ⟨q', hq', hname, hstays⟩
  rw [hreg.elements_inherit, hreg.elements_markKeyed] at hz
  rcases of_mem_quals_foldl hE hz hq' with ⟨y, hy, hyz, hqy⟩
    | ⟨x0, hx0, hx₀z, ⟨q0, hq0, hnm, hfl⟩, hopen⟩
  · obtain ⟨y₀, hy0, hyy, hqy0⟩ := hE.adjusted hadj y hy q' hqy hstays
    exact hgives ⟨y₀, hy0, by rw [hyy, hyz, hzx], q', hqy0, hname⟩
  · have hsame := hreg.same hadj
    rcases hopen with hnone | ⟨y, hy, hyz, hbare⟩
    · obtain ⟨y, hy, hyy, -⟩ := hsame.after y1 hy1
      exact hnone y hy (by rw [hyy, hy₁x, hzx])
    · obtain ⟨y₀, hy0, hyy, hover⟩ := hsame.before y hy
      rw [hover] at hbare
      have hstays0 : q0.stays := by rwa [← stays_congr hfl]
      obtain ⟨w, hw, hwy, hwq⟩ := hrep y₀ hy0 hbare x0 hx0 (by rw [hx₀z, ← hyz, hyy]) q0 hq0 hstays0
      rw [← hyy, hyz, hzx] at hwy
      obtain ⟨q1, hq1, hq₁n⟩ := hwq
      refine hgives ⟨w, hw, hwy, q1, hq1, ?_⟩
      rw [sameName_iff] at hq₁n hname ⊢
      rw [hq₁n, ← hnm, hname]

/-- A class without superclass carries what it gives. -/
lemma confined_base (hE : E.Qualified) (hreg : E.Regular) (c ac : CIMClass V) :
    E.Confined c ac c.adjustBase.markKeyed := by
  rintro x - q - - - hgives z hz hzx ⟨q', hq', hname, -⟩
  rw [hreg.elements_markKeyed] at hz
  obtain ⟨y₀, hy0, hyz, hqy0⟩ := hE.base c z hz q' hq'
  exact hgives ⟨y₀, hy0, by rw [hyz, hzx], q', hqy0, hname⟩

/-- A part of a class carries no more than the class. -/
lemma Confined.filter (hE : E.Qualified) {c ac cc : CIMClass V} (h : E.Confined c ac cc)
    (req : ClassRequest) : E.Confined c ac (req.filter cc) := by
  intro x hx q hq hstays hdecl hgives z hz hzx ⟨q', hq', hname⟩
  obtain ⟨w, hw, hwz, hsub⟩ := hE.filtered req cc z hz
  exact h x hx q hq hstays hdecl hgives w hw (by rw [hwz, hzx]) ⟨q', hsub hq', hname⟩

end ElementKind

/-- Properties have qualifiers. -/
lemma propertyKind_qualified : (propertyKind : ElementKind V _).Qualified where
  quals_inherited _ := rfl
  quals_withQuals _ _ := rfl
  base c y hy q hq := by
    obtain ⟨x, hx, rfl⟩ := mem_map.1 hy
    exact ⟨x, hx, rfl, hq⟩
  adjusted {c pc c'} h y hy q hq hstays := by
    obtain ⟨x, hx, hxy⟩ := (mem_of_forall₂ (forall₂_of_mapM_ok (parts_of_adjust h).1)).1 y hy
    refine ⟨x, hx, (adjustProperty_cases hxy).1.1.symm, ?_⟩
    rw [adjustProperty] at hxy
    split at hxy
    · split_ifs at hxy
      · cases hxy
        exact of_mem_overrideQualifiers hstays hq
      · cases hxy
        exact of_mem_overrideQualifiers hstays hq
      · cases hxy
        exact hq
    · split_ifs at hxy
      cases hxy
      exact hq
  filtered req cc z hz := by
    rw [ClassRequest.filter] at hz
    split_ifs at hz
    · change z ∈ (clone _ cc).properties at hz
      rw [clone] at hz
      dsimp only at hz
      split_ifs at hz
      · exact absurd hz (by simp)
      · obtain ⟨x, hx, rfl⟩ := mem_map.1 hz
        refine ⟨x, mem_of_mem_filter (mem_of_mem_filter hx), rfl, ?_⟩
        change (if req.includeQualifiers then x.quals else []) ⊆ x.quals
        split_ifs
        · exact List.Subset.refl _
        · exact nil_subset _
    · exact ⟨z, hz, rfl, List.Subset.refl _⟩

/-- Methods have qualifiers. -/
lemma methodKind_qualified : (methodKind : ElementKind V _).Qualified where
  quals_inherited _ := rfl
  quals_withQuals _ _ := rfl
  base c y hy q hq := by
    obtain ⟨x, hx, rfl⟩ := mem_map.1 hy
    exact ⟨x, hx, rfl, hq⟩
  adjusted {c pc c'} h y hy q hq _ := by
    change y ∈ c'.methods at hy
    rw [(parts_of_adjust h).2] at hy
    obtain ⟨x, hx, rfl⟩ := mem_map.1 hy
    refine ⟨x, hx, (adjustMethod_cases c pc x).1.1.symm, ?_⟩
    rw [adjustMethod] at hq
    split_ifs at hq <;> exact hq
  filtered req cc z hz := by
    rw [ClassRequest.filter] at hz
    split_ifs at hz
    · obtain ⟨x, hx, rfl⟩ := mem_map.1 hz
      refine ⟨x, mem_of_mem_filter hx, rfl, ?_⟩
      change (if req.includeQualifiers then x.quals else []) ⊆ x.quals
      split_ifs
      · exact List.Subset.refl _
      · exact nil_subset _
    · exact ⟨z, hz, rfl, List.Subset.refl _⟩

/-! ### Runs -/

omit [CIMValue V] in
/-- The operation builds a hierarchy: it changes and deletes no class. -/
def Building (op : MetaOp V) (_ : MetaRepository V) : Prop :=
  ':' ∉ op.ns ∧
    match op with
    | .modifyClass _ _ | .deleteClass _ _ | .deleteNameSpace _ => False
    | _ => True

omit [CIMValue V] in
/-- It is safe for classes. -/
lemma Building.classSafe {op : MetaOp V} {s : MetaRepository V} (h : Building op s) :
    ClassSafe op s := by
  refine ⟨h.1, ?_⟩
  cases op with
  | modifyClass ns c => exact absurd h.2 id
  | deleteClass ns className => exact absurd h.2 id
  | _ => trivial

omit [CIMValue V] in
/-- The nodes of the classes of a store are as before. -/
def KeepsClasses (t t' : Store (MetaObj V)) : Prop :=
  ∀ x c, Store.objAt t x = some (.cls c) → row? t' x = row? t x

omit [CIMValue V] in
/-- One change after the other. -/
lemma KeepsClasses.trans {t t' t'' : Store (MetaObj V)} (h : KeepsClasses t t')
    (h' : KeepsClasses t' t'') : KeepsClasses t t'' := by
  intro x c hx
  rw [← h x c hx]
  refine h' x c ?_
  rw [Store.objAt, val?, h x c hx]
  exact hx

/-- **One operation** of those that build a hierarchy. -/
lemma keepsClasses_step {s : MetaRepository V} {op : MetaOp V} (h : Coherent .resolved s)
    (hop : Building op s) : KeepsClasses s.nodes (op.step s).nodes := by
  obtain ⟨hns, hop⟩ := hop
  have hsame : ∀ {t'}, t' = s.nodes → KeepsClasses s.nodes t' := fun h _ _ _ => by rw [h]
  cases op with
  | getQualifierType ns qualName => exact hsame (nodes_getQualifierType ns qualName s)
  | setQualifierType ns qt => exact (SameClasses.setQualifierType h.forest ns qt).old
  | deleteQualifierType ns qualName =>
    exact (SameClasses.deleteQualifierType h.forest ns qualName).old
  | getCIMClass ns className req => exact hsame (h.reading_getCIMClass hns className req).nodes
  | enumClass ns className deep f => exact hsame (h.reading_enumClass hns className deep f).nodes
  | createClass ns c =>
    have hns : ':' ∉ ns := hns
    rcases h.createClass_cases hns c with ⟨hs, -⟩ | ⟨s1, c', p, -, -, -, -, -, hfresh, -, heq⟩
    · exact hsame hs.nodes
    · change KeepsClasses s.nodes (exec (createClass ns c) s).2.nodes
      rw [heq]
      exact fun _ _ hx => row?_add_of_objAt hfresh hx
  | modifyClass ns c => exact absurd hop id
  | deleteClass ns className => exact absurd hop id
  | createNameSpace ns => exact (SameClasses.createNameSpace ns s).old
  | deleteNameSpace ns => exact absurd hop id

/-- **A whole run** of operations that build a hierarchy leaves the classes that are there alone. -/
lemma keepsClasses_of_reaches {s s' : MetaRepository V} {ops : List (MetaOp V)}
    (h : Coherent .resolved s) (hrun : Reaches MetaOp.step Building s ops s') :
    Coherent .resolved s' ∧ KeepsClasses s.nodes s'.nodes := by
  induction hrun with
  | nil => exact ⟨h, fun _ _ _ => rfl⟩
  | snoc _ hop ih =>
    exact ⟨resolvedCoherent_step ih.1 hop.classSafe, ih.2.trans (keepsClasses_step ih.1 hop)⟩

/-- **What is stored of a class that is created**: the class as it was adjusted, below the node of
the superclass. -/
lemma stored_of_createClass {s : MetaRepository V} {ns : Str} {c c' : CIMClass V}
    (h : Coherent .resolved s) (hns : ':' ∉ ns) (hc : (exec (createClass ns c) s).1 = .ok c') :
    ∃ r quals, row? (exec (createClass ns c) s).2.nodes (makeClassPath ns c.name) =
        some r ∧ r.val.obj = some (.cls c') ∧ c'.superClass = c.superClass ∧
      quals.map CIMQualifier.name = c.quals.map CIMQualifier.name ∧
      (c.superClass ≠ [] → r.parent = some (makeClassPath ns c.superClass)) ∧
      AdjustedFrom (Resolved s.nodes) ns { c with quals } c' := by
  rcases h.createClass_cases hns c with ⟨-, e, he⟩ | ⟨s1, c1, p, -, hname, hsuper, hhome,
    ⟨quals, hquals, hadj⟩, hfresh, hok, heq⟩
  · rw [he] at hc
    cases hc
  · rw [hok] at hc
    cases hc
    refine ⟨⟨makeClassPath ns c'.name, some p.key, ⟨classFlags c', some (.cls c')⟩⟩, quals, ?_, rfl,
      hsuper, hquals, fun hsub => ?_, hadj⟩
    · rw [heq, ← hname]
      exact row?_add_self hfresh
    · rw [hhome.key_eq, classHome, hsuper, if_neg hsub]

/-- **Restricted qualifiers stay with the classes that give them.** The class `c`, as it was
submitted, is answered, and of the qualifiers that stay with a class above it, it carries only those
that it gives: those of the class itself, and those of the properties and methods that it declares
again. -/
def RestrictedStay (s : MetaRepository V) (ns : Str) (c : CIMClass V) : Prop :=
  ∀ req, ∃ cc, (exec (getCIMClass ns c.name req) s).1 = .ok (some cc) ∧
    ∀ ancestor ac, Below s.nodes (makeClassPath ns ancestor) (makeClassPath ns c.name) →
      makeClassPath ns ancestor ≠ makeClassPath ns c.name →
      (exec (getCIMClass ns ancestor .whole) s).1 = .ok (some ac) →
      (∀ q ∈ ac.quals, q.stays → ¬ Gives c.quals q.name → ¬ Carries cc.quals q.name) ∧
      propertyKind.Confined c ac cc ∧ methodKind.Confined c ac cc

/-- A class that is to be created repeats the restricted qualifiers of the properties and methods
that it declares again without `Override`. -/
def RepeatsRestricted (s : MetaRepository V) (ns : Str) (c : CIMClass V) : Prop :=
  c.superClass ≠ [] → ∀ pc, Resolved s.nodes (makeClassPath ns c.superClass) pc →
    propertyKind.Repeats c pc ∧ methodKind.Repeats c pc

omit [CIMValue V] in
/-- A qualifier is given under its name, before and after the flavors are looked up. -/
lemma gives_of_names {quals quals' : List (CIMQualifier V)} {name : CIMName}
    (hnames : quals.map CIMQualifier.name = quals'.map CIMQualifier.name) (hq : q ∈ quals)
    (hname : sameName q.name name) : Gives quals' name := by
  have hmem : q.name ∈ quals'.map CIMQualifier.name := hnames ▸ mem_map_of_mem hq
  obtain ⟨q', hq', hqq⟩ := mem_map.1 hmem
  exact ⟨q', hq', hqq ▸ hname⟩

/-- A filter adds no qualifiers. -/
lemma quals_filter (req : ClassRequest) (cc : CIMClass V) : (req.filter cc).quals ⊆ cc.quals := by
  rw [ClassRequest.filter]
  split_ifs
  · rw [clone]
    dsimp only
    split_ifs
    · exact fun q hq => mem_of_mem_filter hq
    · exact nil_subset _
  · exact List.Subset.refl _

/-- The qualifiers stay. -/
lemma quals_markKeyed (c : CIMClass V) : c.markKeyed.quals = c.quals := by
  rw [markKeyed]
  split_ifs <;> rfl

/-- What a resolved class carries, for a class that was stored as it was adjusted. -/
lemma confined_of_resolved {t t0 : Store (MetaObj V)} {ns : Str} {c c' cc : CIMClass V}
    {r : Node (MetaObj V)} {quals : List (CIMQualifier V)} (hF : ClassForest t0)
    (hold : KeepsClasses t0 t) (hrow : row? t (makeClassPath ns c.name) = some r)
    (hobj : r.val.obj = some (.cls c')) (hsuper : c'.superClass = c.superClass)
    (hnames : quals.map CIMQualifier.name = c.quals.map CIMQualifier.name)
    (hparent : c.superClass ≠ [] → r.parent = some (makeClassPath ns c.superClass))
    (hadj : AdjustedFrom (Resolved t0) ns { c with quals } c')
    (hrep : c.superClass ≠ [] → ∀ pc, Resolved t0 (makeClassPath ns c.superClass) pc →
      propertyKind.Repeats c pc ∧ methodKind.Repeats c pc)
    (hcc : Resolved t (makeClassPath ns c.name) cc) (ac : CIMClass V) :
    (∀ q ∈ ac.quals, q.stays → ¬ Gives c.quals q.name → ¬ Carries cc.quals q.name) ∧
      propertyKind.Confined c ac cc ∧ methodKind.Confined c ac cc := by
  cases hcc with
  | base hobj' htop =>
    rw [Store.objAt_of_row? hrow, hobj] at hobj'
    cases hobj'
    rw [hadj.1 (hsuper.symm.trans htop)]
    refine ⟨fun q _ _ hgives ⟨q', hq', hname, _⟩ => ?_,
      confined_base propertyKind_qualified propertyKind_regular { c with quals } ac,
      confined_base methodKind_qualified methodKind_regular { c with quals } ac⟩
    rw [quals_markKeyed] at hq'
    exact hgives (gives_of_names hnames hq' hname)
  | derived hrow' hobj' hsub hparent' hp =>
    rw [hrow] at hrow'
    cases hrow'
    rw [hobj] at hobj'
    cases hobj'
    have hsub' : c.superClass ≠ [] := fun htop => hsub (hsuper.trans htop)
    rw [hparent hsub'] at hparent'
    cases hparent'
    obtain ⟨pc, hpc, hok⟩ := hadj.2 hsub'
    obtain ⟨pr, pc0, hpr, hpobj⟩ := hpc.exists_row?
    obtain rfl := (hp.of_old hF hpr hpobj hold).unique hpc
    obtain ⟨hprops, hmeths⟩ := hrep hsub' _ hpc
    refine ⟨fun q _ _ hgives ⟨q', hq', hname, hstays⟩ => ?_,
      confined_of_repeats propertyKind_qualified propertyKind_regular hok hprops ac,
      confined_of_repeats methodKind_qualified methodKind_regular hok hmeths ac⟩
    have hq' := of_mem_quals_inherit hq' hstays
    rw [quals_markKeyed] at hq'
    exact hgives (gives_of_names hnames (quals_of_adjust hok hq') hname)

/-- **Restricted qualifiers in hierarchies.** For every hierarchy that is built by creating classes
and every class in it that repeats, where it declares properties and methods again without
`Override`, the restricted qualifiers of its superclass: whatever is created afterwards, the class
is answered without the restricted qualifiers of the classes above it that it does not give itself.

**Proof sketch.** The class is stored as it was adjusted to its superclass, and neither of the two
changes (`stored_of_createClass`, `keepsClasses_of_reaches`). Qualifiers that are not tested come
from elements that it declares again without `Override` (`ElementKind.of_mem_quals_foldl`). -/
theorem restrictedStay_of_repeats {m n : ℕ} {before after : List (MetaOp V)}
    {s₀ s : MetaRepository V}
    {ns : Str} {c c' : CIMClass V} (hbefore : Reaches MetaOp.step Building (fresh m n) before s₀)
    (hns : ':' ∉ ns) (hrep : RepeatsRestricted s₀ ns c)
    (hc : (exec (createClass ns c) s₀).1 = .ok c')
    (hafter : Reaches MetaOp.step Building (exec (createClass ns c) s₀).2 after s) :
    RestrictedStay s ns c := by
  have hcoh0 := resolvedCoherent_of_reaches (hbefore.mono Building.classSafe)
  obtain ⟨r, quals, hrow, hobj, hsuper, hnames, hparent, hadj⟩ := stored_of_createClass hcoh0 hns hc
  have hop : Building (.createClass ns c) s₀ := ⟨hns, trivial⟩
  have hstep : KeepsClasses s₀.nodes (exec (createClass ns c) s₀).2.nodes :=
    keepsClasses_step hcoh0 hop
  obtain ⟨hcoh, hkeep⟩ := keepsClasses_of_reaches (hcoh0.createClass hns c) hafter
  have hrow : row? s.nodes (makeClassPath ns c.name) = some r :=
    (hkeep _ c' ((Store.objAt_of_row? hrow).trans hobj)).trans hrow
  intro req
  rcases hcoh.answer hns c.name req with ⟨hnone, -⟩ | ⟨cc, hcc, hans⟩
  · exact absurd (mem_keys_of_row? hrow) hnone
  refine ⟨_, hans, fun ancestor ac _ _ _ => ?_⟩
  obtain ⟨hquals, hprops, hmeths⟩ := confined_of_resolved hcoh0.forest (hstep.trans hkeep) hrow hobj
    hsuper hnames hparent hadj hrep hcc ac
  refine ⟨fun q hq hstays hgives ⟨q', hq', h⟩ => ?_, hprops.filter propertyKind_qualified req,
    hmeths.filter methodKind_qualified req⟩
  exact hquals q hq hstays hgives ⟨q', quals_filter req cc hq', h⟩

/-- A property `p` without value. -/
def plainProperty (quals : List (CIMQualifier Bool)) : CIMProperty Bool :=
  ⟨['p'], quals, [], .other 0, none, false⟩

/-- A restricted qualifier. -/
def restrictedQualifier : CIMQualifier Bool := ⟨['r'], some true, [.restricted], false⟩

/-- A repository with a class `A`, of which the property has a restricted qualifier. -/
def restrictedBase : MetaRepository Bool :=
  (MetaOp.createClass rootNs { bareClass ['A'] [] with
    properties := [plainProperty [restrictedQualifier]] }).step (fresh 10 10)

/-- The run of the sample. -/
lemma reaches_restrictedBase : Reaches MetaOp.step Building (fresh 10 10)
    [.createClass rootNs { bareClass ['A'] [] with
      properties := [plainProperty [restrictedQualifier]] }] restrictedBase :=
  .snoc .nil ⟨(by decide : ':' ∉ rootNs), trivial⟩

/-- A subclass of `A` that overrides the property. -/
def overridingSubclass : CIMClass Bool :=
  { bareClass ['B'] ['A'] with properties := [plainProperty [⟨qualOverride, none, [], false⟩]] }

/-- **An overriding subclass**: they stay. -/
theorem restrictedStay_overridingSubclass :
    RestrictedStay (exec (createClass rootNs overridingSubclass) restrictedBase).2
      rootNs overridingSubclass := by
  have hc : (exec (createClass rootNs overridingSubclass) restrictedBase).1 =
      .ok { overridingSubclass with properties :=
        [{ plainProperty [⟨qualOverride, none, [], false⟩] with originClass := ['B'] }] } := by
    decide +kernel
  refine restrictedStay_of_repeats reaches_restrictedBase (by decide) (fun _ pc _ =>
    ⟨?_, ?_⟩) hc .nil
  · intro y hy hbare
    rw [mem_singleton.1 hy] at hbare
    exact absurd hbare (by decide)
  · exact fun y hy => absurd hy (by simp [methodKind, overridingSubclass, bareClass])

/-- A subclass of `A` that declares the property again, without `Override`. -/
def redeclaringSubclass : CIMClass Bool :=
  { bareClass ['B'] ['A'] with properties := [plainProperty []] }

/-- **A restricted qualifier that is inherited**: the property of `B` is answered with the
restricted qualifier of `A`, which `B` does not give. -/
theorem restricted_inherited :
    let s := (exec (createClass rootNs redeclaringSubclass) restrictedBase).2
    Reaches MetaOp.step Building (fresh 10 10) [.createClass rootNs { bareClass ['A'] [] with
        properties := [plainProperty [restrictedQualifier]] },
      .createClass rootNs redeclaringSubclass] s ∧
    (exec (getCIMClass rootNs ['B'] .whole) s).1 = .ok (some { redeclaringSubclass with
      properties := [{ plainProperty [{ restrictedQualifier with propagated := true }] with
        originClass := ['A'], propagated := true }] }) ∧
    ¬ RestrictedStay s rootNs redeclaringSubclass := by
  intro s
  have hanswer : (exec (getCIMClass rootNs ['B'] .whole) s).1 = .ok (some { redeclaringSubclass with
      properties := [{ plainProperty [{ restrictedQualifier with propagated := true }] with
        originClass := ['A'], propagated := true }] }) := by decide +kernel
  refine ⟨.snoc reaches_restrictedBase ⟨(by decide : ':' ∉ rootNs), trivial⟩, hanswer, fun h => ?_⟩
  obtain ⟨cc, hcc, h⟩ := h .whole
  obtain rfl : _ = cc := Option.some.inj (Except.ok.inj (hanswer.symm.trans hcc))
  have hbelow : Below s.nodes (makeClassPath rootNs ['A']) (makeClassPath rootNs ['B']) :=
    .step .refl (by decide +kernel)
  obtain ⟨-, hprops, -⟩ := h ['A'] { bareClass ['A'] [] with
    properties := [{ plainProperty [restrictedQualifier] with originClass := ['A'] }] } hbelow
    (by decide) (by decide +kernel)
  refine hprops _ mem_cons_self restrictedQualifier mem_cons_self (by decide)
    ⟨_, mem_cons_self, rfl⟩ ?_ _ mem_cons_self rfl
    ⟨_, mem_cons_self, by decide, by decide⟩
  rintro ⟨y, hy, -, q, hq, -⟩
  rw [mem_singleton.1 hy] at hq
  exact absurd hq (by simp [propertyKind, plainProperty])

end OpenWbem
