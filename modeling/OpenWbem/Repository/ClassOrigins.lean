import OpenWbem.Cim.Elements
import OpenWbem.Repository.ClassCache

/-!
# Where the elements of a class come from

The origin of a property or method is the nearest class, on the way up from the class that is asked
for, that introduces or overrides it. Two functions work on this: `adjustClass` marks the elements
of a class when it is created, and `_resolveClass` adds those of the superclasses when it is read.

The marks are wrong in three cases. An overriding property that comes with an origin keeps it and is
marked as propagated. A method that is declared again without `Override` gets the superclass as its
origin, wherever the method comes from. And where a class has two elements of one name, one of which
overrides, the other is marked as propagated.

## Main definitions

* `OriginOf` — the class that introduces or overrides an element.
* `Inherits` — the elements of a class have the right origin and marks, and none is missing.
* `OriginSafe` — the operation creates no class with one of the three defects.

## Main results

* `getCIMClass_inherits_of_reaches` — in every run of safe operations the answers are right.
* `getCIMClass_wrong_origin` — a method with a wrong origin.
-/

namespace OpenWbem

open Prog Hierarchy MetaRepository Store List Str ElementKind

variable {V α : Type} [CIMValue V]

/-! ### The origin of an element -/

section Origin

variable (t : Store (MetaObj V)) (E : ElementKind V α)

/-- A class at the key or above it declares the element. -/
def Known (k e : Str) : Prop :=
  ∃ x c, Below t x k ∧ objAt t x = some (.cls c) ∧ E.Declares c e

/-- The class introduces the element, or overrides it. -/
def Owns (k : Str) (c : CIMClass V) (e : Str) : Prop :=
  E.Declares c e ∧ (E.Overrides c e ∨
    ∀ r p, row? t k = some r → r.parent = some p → ¬ Known t E p e)

/-- **The origin of an element**: the nearest class at the key or above it that introduces the
element or overrides it. -/
inductive OriginOf : Str → Str → CIMName → Prop
  | own {k e : Str} {c : CIMClass V} (hobj : objAt t k = some (.cls c))
      (howns : Owns t E k c e) : OriginOf k e c.name
  | above {k p e : Str} {r : Node (MetaObj V)} {c : CIMClass V} {o : CIMName}
      (hrow : row? t k = some r) (hobj : r.val.obj = some (.cls c)) (hnot : ¬ Owns t E k c e)
      (hparent : r.parent = some p) (hp : OriginOf p e o) : OriginOf k e o

/-- The elements of a class that is read under a key: each has its origin, is marked as propagated
unless the class itself introduces or overrides it, and every element that is declared at the key or
above it is there. -/
structure Inherits (k : Str) (cc : CIMClass V) : Prop where
  origin : ∀ q ∈ E.elements cc, ∃ o, OriginOf t E k (lower (E.name q)) o ∧
    sameName (E.origin q) o
  propagated : ∀ q ∈ E.elements cc, ∀ c, objAt t k = some (.cls c) →
    (E.propagated q ↔ ¬ Owns t E k c (lower (E.name q)))
  complete : ∀ e, Known t E k e → ∃ q ∈ E.elements cc, lower (E.name q) = e
  known : ∀ q ∈ E.elements cc, Known t E k (lower (E.name q))

end Origin

section

variable {t t' : Store (MetaObj V)} {E : ElementKind V α} {k p e : Str} {r : Node (MetaObj V)}
  {c pc cc : CIMClass V}

omit [CIMValue V] in
/-- What is known at a class: what it declares and what is known above it. -/
lemma known_iff (hnd : (keys t).Nodup) (hrow : row? t k = some r) (hobj : r.val.obj = some (.cls c))
    (hparent : r.parent = some p) : Known t E k e ↔ E.Declares c e ∨ Known t E p e := by
  have hkid : k ∈ kids t (some p) := mem_kids.2 ⟨r, mem_of_row? hrow, key_of_row? hrow, hparent⟩
  constructor
  · rintro ⟨x, c', hb, hc', hdecl⟩
    cases hb with
    | refl =>
      rw [objAt_of_row? hrow, hobj] at hc'
      cases hc'
      exact .inl hdecl
    | step hb hkid' =>
      obtain rfl := Option.some.inj (kids_unique hnd hkid hkid')
      exact .inr ⟨x, c', hb, hc', hdecl⟩
  · rintro (hdecl | ⟨x, c', hb, hc', hdecl⟩)
    · exact ⟨k, c, .refl, (objAt_of_row? hrow).trans hobj, hdecl⟩
    · exact ⟨x, c', hb.step hkid, hc', hdecl⟩

omit [CIMValue V] in
/-- The class of a node and the parent of the node decide whether the class owns an element. -/
lemma owns_iff (hrow : row? t k = some r) (hparent : r.parent = some p) :
    Owns t E k c e ↔ E.Declares c e ∧ (E.Overrides c e ∨ ¬ Known t E p e) := by
  rw [Owns]
  refine and_congr_right fun _ => or_congr_right ⟨fun h => h r p hrow hparent,
    fun h r' p' hr' hp' => ?_⟩
  rw [hrow] at hr'
  cases hr'
  rw [hparent] at hp'
  cases hp'
  exact h

omit [CIMValue V] in
/-- Nothing is known above a class without superclass. -/
lemma ClassForest.not_known_parent (hF : ClassForest t) (hrow : row? t k = some r)
    (hobj : r.val.obj = some (.cls c)) (hsuper : c.superClass = []) (hparent : r.parent = some p) :
    ¬ Known t E p e := by
  rintro ⟨x, c', hb, hc', -⟩
  obtain ⟨ns, hns, -, hhome⟩ := hF.housed r (mem_of_row? hrow) c hobj
  rw [hparent, Option.some.injEq] at hhome
  obtain ⟨pr, hpr⟩ := hF.exists_parent (mem_of_row? hrow) hparent
  have hp := hF.homeOf hns (hhome ▸ hpr)
  rw [HomeOf, if_pos hsuper] at hp
  have hkey := key_of_row? hpr
  by_cases hx : pr.key = x
  · obtain ⟨xr, hxr, hxobj⟩ := exists_row?_of_objAt hc'
    obtain ⟨ns', -, hkey', -⟩ := hF.housed xr (mem_of_row? hxr) c' hxobj
    rw [key_of_row? hxr, ← hx, hkey, hhome, classHome, if_pos hsuper] at hkey'
    exact absurd hkey' (IsContainer.cls hns).ne_makeClassPath
  · refine hF.not_below_of_flag (mem_of_row? hpr) hp.2 hx ?_
    rw [hkey]
    exact hb

/-! ### The stored classes -/

/-- What a stored class has of its elements: a class without superclass owns all of them; the others
are adjusted to their superclass as it is read. -/
structure StoredAt (t : Store (MetaObj V)) (E : ElementKind V α) (r : Node (MetaObj V))
    (c : CIMClass V) : Prop where
  base : c.superClass = [] → ∀ y ∈ E.elements c, E.origin y = c.name ∧ E.propagated y = false
  derived : c.superClass ≠ [] → ∀ p pc, r.parent = some p → Resolved t p pc → E.Adjusted pc c

/-- Every stored class is as it was adjusted. -/
def WellStored (t : Store (MetaObj V)) (E : ElementKind V α) : Prop :=
  ∀ k r c, row? t k = some r → r.val.obj = some (.cls c) → StoredAt t E r c

/-- A class without a superclass. -/
lemma inherits_base (hF : ClassForest t) (hw : WellStored t E) (hE : E.Regular)
    (hobj : objAt t k = some (.cls c)) (hsuper : c.superClass = []) :
    Inherits t E k c.markKeyed := by
  obtain ⟨r, hrow, hr⟩ := exists_row?_of_objAt hobj
  obtain ⟨ns, -, -, hparent⟩ := hF.housed r (mem_of_row? hrow) c hr
  have hstored := (hw k r c hrow hr).base hsuper
  have howns : ∀ y ∈ E.elements c, Owns t E k c (lower (E.name y)) := fun y hy =>
    (owns_iff hrow hparent).2 ⟨⟨y, hy, rfl⟩, .inr (hF.not_known_parent hrow hr hsuper hparent)⟩
  constructor
  · intro q hq
    rw [hE.elements_markKeyed] at hq
    refine ⟨c.name, .own hobj (howns q hq), ?_⟩
    rw [(hstored q hq).1]
    exact sameName_iff.2 rfl
  · intro q hq c' hc'
    rw [hE.elements_markKeyed] at hq
    rw [hobj] at hc'
    cases hc'
    rw [(hstored q hq).2]
    exact ⟨nofun, fun h => absurd (howns q hq) h⟩
  · intro e he
    rw [hE.elements_markKeyed]
    rcases (known_iff hF.shape.nodup hrow hr hparent).1 he with hdecl | hknown
    · exact hdecl
    · exact absurd hknown (hF.not_known_parent hrow hr hsuper hparent)
  · intro q hq
    rw [hE.elements_markKeyed] at hq
    exact (known_iff hF.shape.nodup hrow hr hparent).2 (.inl ⟨q, hq, rfl⟩)

omit [CIMValue V] in
/-- What is said of one element of a class in `Inherits`. -/
private lemma inherits_element (hrow : row? t k = some r) (hr : r.val.obj = some (.cls c))
    (hparent : r.parent = some p) (hp : Inherits t E p pc) (hadj : E.Adjusted pc c) {q : α}
    (hq : (∃ y ∈ E.elements c, E.Agree q y) ∨ ∃ x ∈ E.elements pc, E.Agree q (E.inherited x) ∧
      ∀ y ∈ E.elements c, lower (E.name y) ≠ lower (E.name x)) :
    (∃ o, OriginOf t E k (lower (E.name q)) o ∧ sameName (E.origin q) o) ∧
      (E.propagated q ↔ ¬ Owns t E k c (lower (E.name q))) := by
  have hobj := (objAt_of_row? hrow).trans hr
  have hknown : ∀ {e}, Known t E p e ↔ E.Declares pc e := fun {e} =>
    ⟨fun h => hp.complete e h, fun ⟨x, hx, hxe⟩ => hxe ▸ hp.known x hx⟩
  rcases hq with ⟨y, hy, hname, horigin, hprop⟩ | ⟨x, hx, ⟨hname, horigin, hprop⟩, hnot⟩
  · rw [hname, horigin, hprop]
    by_cases hown : E.Declares pc (lower (E.name y)) → E.overrides y
    -- introduced or overridden by the class itself
    · obtain ⟨ho, hpr⟩ := hadj.own y hy hown
      have howns : Owns t E k c (lower (E.name y)) := by
        refine (owns_iff hrow hparent).2 ⟨⟨y, hy, rfl⟩, ?_⟩
        rw [hknown]
        by_cases hdecl : E.Declares pc (lower (E.name y))
        · exact .inl ⟨y, hy, rfl, hown hdecl⟩
        · exact .inr hdecl
      rw [ho, hpr]
      exact ⟨⟨c.name, .own hobj howns, sameName_iff.2 rfl⟩, nofun, fun h => absurd howns h⟩
    -- declared again without `Override`
    · obtain ⟨hdecl, hover⟩ := Classical.not_imp.1 hown
      obtain ⟨hpr, x, hx, hxy, ho⟩ := hadj.redeclared y hy hdecl (eq_false_of_ne_true hover)
      have hnot : ¬ Owns t E k c (lower (E.name y)) := by
        rw [owns_iff hrow hparent, hknown]
        rintro ⟨-, ⟨z, hz, hzy, hzo⟩ | hnot⟩
        · rw [← hadj.agree y hy z hz hzy.symm hdecl] at hzo
          exact hover hzo
        · exact hnot hdecl
      obtain ⟨o, hox, hsame⟩ := hp.origin x hx
      rw [hxy] at hox
      exact ⟨⟨o, .above hrow hr hnot hparent hox,
        sameName_iff.2 (ho.trans (sameName_iff.1 hsame))⟩, fun _ => hnot, fun _ => hpr⟩
  -- not declared by the class
  · rw [hname, horigin, hprop, E.name_inherited, E.origin_inherited, E.propagated_inherited]
    have hnot : ¬ Owns t E k c (lower (E.name x)) := by
      rintro ⟨⟨y, hy, hyx⟩, -⟩
      exact hnot y hy hyx
    obtain ⟨o, hox, hsame⟩ := hp.origin x hx
    exact ⟨⟨o, .above hrow hr hnot hparent hox, hsame⟩, fun _ => hnot, fun _ => rfl⟩

/-- The elements of a class that inherits from a superclass. -/
lemma inherits_derived (hF : ClassForest t) (hE : E.Regular) (hrow : row? t k = some r)
    (hr : r.val.obj = some (.cls c)) (hparent : r.parent = some p) (hp : Inherits t E p pc)
    (hadj : E.Adjusted pc c) : Inherits t E k (c.markKeyed.inherit pc) := by
  have hiff : ∀ {e}, Known t E k e ↔ E.Declares c e ∨ Known t E p e :=
    known_iff hF.shape.nodup hrow hr hparent
  have helems : E.elements (c.markKeyed.inherit pc) =
      (E.elements pc).foldl E.merge (E.elements c) := by
    rw [hE.elements_inherit, hE.elements_markKeyed]
  constructor
  · intro q hq
    rw [helems] at hq
    exact (inherits_element hrow hr hparent hp hadj (of_mem_foldl hq)).1
  · intro q hq c' hc'
    rw [helems] at hq
    rw [objAt_of_row? hrow, hr] at hc'
    cases hc'
    exact (inherits_element hrow hr hparent hp hadj (of_mem_foldl hq)).2
  · intro e he
    rw [helems]
    rcases hiff.1 he with ⟨y, hy, rfl⟩ | hknown
    · obtain ⟨q, hq, hqy⟩ := exists_of_mem hy
      exact ⟨q, hq, by rw [hqy.1]⟩
    · obtain ⟨x, hx, rfl⟩ := hp.complete e hknown
      exact exists_of_mem_parent hx
  · intro q hq
    rw [helems] at hq
    rw [hiff]
    rcases of_mem_foldl hq with ⟨y, hy, hqy⟩ | ⟨x, hx, hqx, -⟩
    · exact .inl ⟨y, hy, by rw [hqy.1]⟩
    · rw [hqx.1, E.name_inherited]
      exact .inr (hp.known x hx)

/-- **Reading a class that is stored as it was adjusted**: all elements are there, with their
origins and marks, by induction on the way up. -/
lemma Resolved.inherits (hF : ClassForest t) (hw : WellStored t E) (hE : E.Regular)
    (h : Resolved t k cc) : Inherits t E k cc := by
  induction h with
  | base hobj hsuper => exact inherits_base hF hw hE hobj hsuper
  | derived hrow hobj hsuper hparent hp ih =>
    exact inherits_derived hF hE hrow hobj hparent ih
      ((hw _ _ _ hrow hobj).derived hsuper _ _ hparent hp)

/-! ### Operations -/

/-- A stored class in a store in which all classes are as before. -/
lemma StoredAt.of_old (hF : ClassForest t) (h : StoredAt t E r c) (hrow : row? t k = some r)
    (hobj : r.val.obj = some (.cls c))
    (hold : ∀ x c, objAt t x = some (.cls c) → row? t' x = row? t x) : StoredAt t' E r c := by
  refine ⟨h.base, fun hsuper p pc hparent hpc => h.derived hsuper p pc hparent ?_⟩
  obtain ⟨pr, pc', hpr, hpobj, -⟩ := hF.exists_superclass (mem_of_row? hrow) hobj hsuper hparent
  exact hpc.of_old hF hpr hpobj hold

/-- A change of no class. -/
lemma WellStored.of_sameClasses (hF : ClassForest t) (hw : WellStored t E) (h : SameClasses t t') :
    WellStored t' E := by
  intro k r c hrow hobj
  have hrow' := h.new k r c hrow hobj
  exact (hw k r c hrow' hobj).of_old hF hrow' hobj h.old

/-- The operation creates no class of which the elements would be marked wrongly, and changes or
deletes none. -/
def OriginSafe (op : MetaOp V) (s : MetaRepository V) : Prop :=
  ':' ∉ op.ns ∧
    match op with
    | .createClass ns c => c.superClass ≠ [] →
        ∀ pc, Resolved s.nodes (makeClassPath ns c.superClass) pc → WellDeclared c pc
    | .modifyClass _ _ | .deleteClass _ _ | .deleteNameSpace _ => False
    | _ => True

variable {op : MetaOp V} {s : MetaRepository V}

/-- It is safe for classes. -/
lemma OriginSafe.classSafe (h : OriginSafe op s) : ClassSafe op s := by
  refine ⟨h.1, ?_⟩
  cases op with
  | modifyClass ns c => exact absurd h.2 id
  | deleteClass ns className => exact absurd h.2 id
  | _ => trivial

/-- **Creating a class** that is well declared: it is stored as it was adjusted, and so are the
others, since it is a leaf. -/
lemma WellStored.createClass {ns : Str} (h : Coherent .resolved s) (hns : ':' ∉ ns) (hE : E.Regular)
    (hw : WellStored s.nodes E)
    (hc : c.superClass ≠ [] → ∀ pc, Resolved s.nodes (makeClassPath ns c.superClass) pc →
      WellDeclared c pc) :
    WellStored (exec (createClass ns c) s).2.nodes E := by
  rcases h.createClass_cases hns c with ⟨hs, -⟩
    | ⟨s1, c', p, -, hname, hsuper, hhome, ⟨quals, -, hadj⟩,
    hfresh, -, heq⟩
  · rw [hs.nodes]
    exact hw
  rw [heq]
  have hold : ∀ x c, objAt s.nodes x = some (.cls c) →
      row? (add s.nodes (makeClassPath ns c'.name) (some p.key) ⟨classFlags c', some (.cls c')⟩) x =
        row? s.nodes x := fun _ _ hx => row?_add_of_objAt hfresh hx
  intro k r c1 hrow hobj
  by_cases hk : k = makeClassPath ns c'.name
  -- the new class
  · rw [hk, row?_add_self hfresh] at hrow
    obtain rfl := Option.some.inj hrow
    obtain rfl : c' = c1 := by simpa using hobj
    refine ⟨fun htop => ?_, fun hsub p' pc hparent hpc => ?_⟩
    · rw [hadj.1 (hsuper.symm.trans htop)]
      exact hE.base _
    · obtain ⟨pc', hpc', hok⟩ := hadj.2 (fun htop => hsub (hsuper.trans htop))
      obtain rfl := Option.some.inj hparent
      have hkey : p.key = makeClassPath ns c.superClass := by
        rw [hhome.key_eq, classHome, if_neg hsub, hsuper]
      have hwell := hc (fun htop => hsub (hsuper.trans htop)) pc' hpc'
      obtain ⟨pr, pc0, hpr, hpobj⟩ := hpc'.exists_row?
      have hold' := hpc.of_old h.forest (hkey ▸ hpr) hpobj hold
      rw [hkey] at hold'
      rw [hold'.unique hpc']
      have hquals : WellDeclared { c with quals } pc' :=
        ⟨hwell.property, hwell.method, hwell.properties_agree, hwell.methods_agree⟩
      exact hE.adjusted hquals hok
  · rw [row?_add_of_ne hk] at hrow
    exact (hw k r c1 hrow hobj).of_old h.forest hrow hobj hold

/-- **One operation.** -/
lemma wellStored_step (h : Coherent .resolved s) (hE : E.Regular) (hw : WellStored s.nodes E)
    (hsafe : OriginSafe op s) : WellStored (op.step s).nodes E := by
  obtain ⟨hns, hop⟩ := hsafe
  have hsame : ∀ {t'}, SameClasses s.nodes t' → WellStored t' E := hw.of_sameClasses h.forest
  cases op with
  | getQualifierType ns qualName =>
    rw [show ((MetaOp.getQualifierType ns qualName).step s).nodes = s.nodes from
      nodes_getQualifierType ns qualName s]
    exact hw
  | setQualifierType ns qt => exact hsame (.setQualifierType h.forest ns qt)
  | deleteQualifierType ns qualName => exact hsame (.deleteQualifierType h.forest ns qualName)
  | getCIMClass ns className req =>
    rw [show ((MetaOp.getCIMClass ns className req).step s).nodes = s.nodes from
      (h.reading_getCIMClass hns className req).nodes]
    exact hw
  | enumClass ns className deep f =>
    rw [show ((MetaOp.enumClass ns className deep f).step s).nodes = s.nodes from
      (h.reading_enumClass hns className deep f).nodes]
    exact hw
  | createClass ns c => exact hw.createClass h hns hE hop
  | modifyClass ns c => exact absurd hop id
  | deleteClass ns className => exact absurd hop id
  | createNameSpace ns => exact hsame (.createNameSpace ns s)
  | deleteNameSpace ns => exact absurd hop id

/-- In every run of safe operations all classes are stored as they were adjusted. -/
lemma wellStored_of_reaches {m n : ℕ} {ops : List (MetaOp V)} (hE : E.Regular)
    (h : Reaches MetaOp.step OriginSafe (fresh m n) ops s) :
    Coherent .resolved s ∧ WellStored s.nodes E := by
  induction h with
  | nil =>
    refine ⟨coherent_fresh _ m n, fun k r c hrow hobj => ?_⟩
    obtain ⟨k', -, rfl⟩ := mem_map.1 (mem_of_row? hrow)
    cases hobj
  | snoc _ hop ih => exact ⟨resolvedCoherent_step ih.1 hop.classSafe,
    wellStored_step ih.1 hE ih.2 hop⟩

end

/-- **The elements of classes in runs of safe operations.** For every class that is asked for,
either there is none, or the answer has every property and every method that the class or one of its
superclasses declares, each with the nearest class that introduces or overrides it as its origin,
and marked as propagated exactly if that is not the class itself.

**Proof sketch.** The stored classes are as they were adjusted to their superclasses, which do not
change any more (`wellStored_of_reaches`); reading adds up what is known on the way up
(`Resolved.inherits`). -/
theorem getCIMClass_inherits_of_reaches {m n : ℕ} {ops : List (MetaOp V)} {s : MetaRepository V}
    (h : Reaches MetaOp.step OriginSafe (fresh m n) ops s) {ns : Str} (hns : ':' ∉ ns)
    (className : CIMName) :
    (makeClassPath ns className ∉ keys s.nodes ∧
        (exec (getCIMClass ns className .whole) s).1 = .ok none) ∨
    ∃ cc, (exec (getCIMClass ns className .whole) s).1 = .ok (some cc) ∧
      Inherits s.nodes propertyKind (makeClassPath ns className) cc ∧
      Inherits s.nodes methodKind (makeClassPath ns className) cc := by
  obtain ⟨hcoh, hprop⟩ := wellStored_of_reaches propertyKind_regular h
  obtain ⟨-, hmeth⟩ := wellStored_of_reaches methodKind_regular h
  rcases hcoh.answer hns className .whole with hnone | ⟨cc, hcc, hr⟩
  · exact .inl hnone
  · exact .inr ⟨cc, hr, Resolved.inherits hcoh.forest hprop propertyKind_regular hcc,
      Resolved.inherits hcoh.forest hmeth methodKind_regular hcc⟩

/-- A property, without origin. -/
def bareProperty (name : CIMName) (quals : List (CIMQualifier Bool)) : CIMProperty Bool :=
  ⟨name, quals, [], .other 0, none, false⟩

/-- A class `A` with the properties `p` and `q`, and its subclass `B`, which overrides `p`. -/
def overridingClass : CIMClass Bool :=
  { bareClass ['B'] ['A'] with
    properties := [bareProperty ['p'] [⟨qualOverride, none, [], false⟩]] }

/-- A repository with a class `A` and its subclass `B`, which overrides a property of `A`. -/
def overridingRun : List (MetaOp Bool) :=
  [.createClass rootNs { bareClass ['A'] [] with
      properties := [bareProperty ['p'] [], bareProperty ['q'] []] },
    .createClass rootNs overridingClass]

/-- The run of the sample. -/
lemma reaches_overridingRun : Reaches MetaOp.step OriginSafe (fresh 10 10) overridingRun
    (overridingRun.foldl (fun s op => op.step s) (fresh 10 10)) := by
  refine .snoc (.snoc .nil ⟨(by decide : ':' ∉ rootNs), fun h => absurd rfl h⟩)
    ⟨(by decide : ':' ∉ rootNs), fun _ pc _ => ⟨?_, ?_, ?_, ?_⟩⟩
  · intro p hp _ _
    rw [mem_singleton.1 hp]
    rfl
  · exact fun m hm => absurd hm (by simp [overridingClass, bareClass])
  · intro p hp q hq _ _
    rw [mem_singleton.1 hp, mem_singleton.1 hq]
  · exact fun m hm => absurd hm (by simp [overridingClass, bareClass])

/-- **An overriding subclass** inherits. -/
theorem getCIMClass_inherits_overridingRun :
    let s := overridingRun.foldl (fun s op => op.step s) (fresh 10 10)
    (exec (getCIMClass rootNs ['B'] .whole) s).1 = .ok (some { overridingClass with
      properties :=
        [{ bareProperty ['p'] [⟨qualOverride, none, [], false⟩] with originClass := ['B'] },
        { bareProperty ['q'] [] with originClass := ['A'], propagated := true }] }) ∧
    ((makeClassPath rootNs ['B'] ∉ keys s.nodes ∧
        (exec (getCIMClass rootNs ['B'] .whole) s).1 = .ok none) ∨
      ∃ cc, (exec (getCIMClass rootNs ['B'] .whole) s).1 = .ok (some cc) ∧
        Inherits s.nodes propertyKind (makeClassPath rootNs ['B']) cc ∧
        Inherits s.nodes methodKind (makeClassPath rootNs ['B']) cc) :=
  ⟨by decide +kernel, getCIMClass_inherits_of_reaches reaches_overridingRun (by decide) _⟩

/-- A method, without origin. -/
def bareMethod : CIMMethod Bool := ⟨['m'], [], [], false⟩

/-- A class `A` with a method, its subclass `B`, and a subclass `C` of `B` that declares the method
again without `Override`. -/
def redeclaringRun : List (MetaOp Bool) :=
  [.createClass rootNs { bareClass ['A'] [] with methods := [bareMethod] },
    .createClass rootNs (bareClass ['B'] ['A']),
    .createClass rootNs { bareClass ['C'] ['B'] with methods := [bareMethod] }]

/-- The node of a class in the examples. -/
def classRow (c : CIMClass Bool) : Node (MetaObj Bool) :=
  ⟨makeClassPath rootNs c.name, some (classHome rootNs c), ⟨0, some (.cls c)⟩⟩

/-- **A wrong origin**: the method comes from `A`, and is answered with the origin `B`. -/
theorem getCIMClass_wrong_origin :
    let s := redeclaringRun.foldl (fun s op => op.step s) (fresh 10 10)
    Reaches MetaOp.step (fun _ _ => True) (fresh 10 10) redeclaringRun s ∧
    (exec (getCIMClass rootNs ['C'] .whole) s).1 = .ok (some { bareClass ['C'] ['B'] with
      methods := [{ bareMethod with originClass := ['B'], propagated := true }] }) ∧
    OriginOf s.nodes methodKind (makeClassPath rootNs ['C']) ['m'] ['A'] ∧
    sameName ['B'] ['A'] = false := by
  intro s
  have hrun : ∀ ok : MetaOp Bool → MetaRepository Bool → Prop,
      (∀ c s, ok (.createClass rootNs c) s) →
      Reaches MetaOp.step ok (fresh 10 10) redeclaringRun s := fun ok h =>
    .snoc (.snoc (.snoc (l := []) .nil (h _ _)) (h _ _)) (h _ _)
  have hF := (resolvedCoherent_of_reaches
    (hrun ClassSafe fun _ _ => ⟨(by decide : ':' ∉ rootNs), trivial⟩)).forest
  let a : CIMClass Bool :=
    { bareClass ['A'] [] with methods := [{ bareMethod with originClass := ['A'] }] }
  let b : CIMClass Bool := bareClass ['B'] ['A']
  let c : CIMClass Bool := { bareClass ['C'] ['B'] with
    methods := [{ bareMethod with originClass := ['B'], propagated := true }] }
  have ha : row? s.nodes (makeClassPath rootNs ['A']) = some (classRow a) := by decide +kernel
  have hb : row? s.nodes (makeClassPath rootNs ['B']) = some (classRow b) := by decide +kernel
  have hc : row? s.nodes (makeClassPath rootNs ['C']) = some (classRow c) := by decide +kernel
  have hdecl : methodKind.Declares a ['m'] := ⟨_, mem_singleton_self _, rfl⟩
  have hknown : Known s.nodes methodKind (makeClassPath rootNs ['B']) ['m'] :=
    ⟨_, a, .step .refl (mem_kids.2 ⟨_, mem_of_row? hb, key_of_row? hb, rfl⟩),
      objAt_of_row? ha, hdecl⟩
  refine ⟨hrun _ fun _ _ => trivial, by decide +kernel, .above hc rfl (fun howns => ?_) rfl
    (.above hb rfl (fun howns => ?_) rfl (.own (objAt_of_row? ha) ?_)), by decide⟩
  · rcases ((owns_iff hc rfl).1 howns).2 with ⟨y, hy, -, hover⟩ | hnot
    · rw [mem_singleton.1 hy] at hover
      cases hover
    · exact hnot hknown
  · obtain ⟨⟨y, hy, -⟩, -⟩ := howns
    exact absurd hy (by simp [methodKind, b, bareClass])
  · exact (owns_iff ha rfl).2 ⟨hdecl, .inr (hF.not_known_parent ha rfl rfl rfl)⟩

end OpenWbem
