import Mathlib.Data.List.Forall2
import OpenWbem.Cim.Inheritance

/-!
# Elements of classes

Properties and methods are inherited in the same way. An `ElementKind` is one of the two, so that
what is true of both is said once.

## Main definitions

* `ElementKind`, `propertyKind`, `methodKind` — properties and methods.
* `ElementKind.merge` — one element of the superclass is added to the elements of a class.

## Main results

* `properties_inherit`, `methods_inherit` — inheriting merges all elements of the superclass.
* `ElementKind.of_mem_foldl` — the elements of a class that inherits are its own and those of the
  superclass that it does not declare.
-/

namespace OpenWbem

open CIMClass List Str Option

variable {V α : Type}

variable {β : Type} {name : CIMName}

variable {l : List α} {l' : List β}

/-- Lists that correspond to each other have corresponding elements. -/
lemma mem_of_forall₂ {r : α → β → Prop}
    (h : List.Forall₂ r l l') : (∀ x ∈ l, ∃ y ∈ l', r x y) ∧ ∀ y ∈ l', ∃ x ∈ l, r x y := by
  induction h with
  | nil => simp
  | cons hxy _ ih =>
    simp only [mem_cons, forall_eq_or_imp, exists_eq_or_imp]
    exact ⟨⟨.inl hxy, fun x hx => .inr (ih.1 x hx)⟩, .inl hxy, fun y hy => .inr (ih.2 y hy)⟩

/-- Properties or methods: what they have in common. -/
structure ElementKind (V α : Type) where
  elements : CIMClass V → List α
  name : α → CIMName
  quals : α → List (CIMQualifier V)
  origin : α → CIMName
  propagated : α → Bool
  /-- The element as a subclass gets it. -/
  inherited : α → α
  withQuals : α → List (CIMQualifier V) → α
  name_inherited : ∀ x, name (inherited x) = name x
  origin_inherited : ∀ x, origin (inherited x) = origin x
  propagated_inherited : ∀ x, propagated (inherited x)
  name_withQuals : ∀ x qs, name (withQuals x qs) = name x
  origin_withQuals : ∀ x qs, origin (withQuals x qs) = origin x
  propagated_withQuals : ∀ x qs, propagated (withQuals x qs) = propagated x

/-- The properties. -/
def propertyKind : ElementKind V (CIMProperty V) where
  elements := properties
  name := CIMProperty.name
  quals := CIMProperty.quals
  origin := CIMProperty.originClass
  propagated := CIMProperty.propagated
  inherited p := { p with propagated := true }
  withQuals p quals := { p with quals }
  name_inherited _ := rfl
  origin_inherited _ := rfl
  propagated_inherited _ := rfl
  name_withQuals _ _ := rfl
  origin_withQuals _ _ := rfl
  propagated_withQuals _ _ := rfl

/-- The methods. -/
def methodKind : ElementKind V (CIMMethod V) where
  elements := methods
  name := CIMMethod.name
  quals := CIMMethod.quals
  origin := CIMMethod.originClass
  propagated := CIMMethod.propagated
  inherited m := { m with propagated := true }
  withQuals m quals := { m with quals }
  name_inherited _ := rfl
  origin_inherited _ := rfl
  propagated_inherited _ := rfl
  name_withQuals _ _ := rfl
  origin_withQuals _ _ := rfl
  propagated_withQuals _ _ := rfl

namespace ElementKind

variable (E : ElementKind V α)

/-- The element has the qualifier `Override`. -/
def overrides (x : α) : Bool := (getQualifier (E.quals x) qualOverride).isSome

/-- One element of the superclass is added to the elements of a class: if the class has no element
of the name, the element itself; otherwise its qualifiers, unless the class overrides it. -/
def merge (l : List α) (x : α) : List α :=
  match l.find? fun y => sameName (E.name y) (E.name x) with
  | none => l ++ [E.inherited x]
  | some y =>
    if E.overrides y then l
    else setByName E.name l (E.withQuals y (inheritQualifiers (E.quals y) (E.quals x)))

/-- Two elements agree in what inheritance is about: the name, the origin and whether it is
propagated. -/
def Agree (x y : α) : Prop :=
  E.name x = E.name y ∧ E.origin x = E.origin y ∧ E.propagated x = E.propagated y

variable {E}

/-- An element agrees with itself. -/
lemma Agree.refl (x : α) : E.Agree x x := ⟨rfl, rfl, rfl⟩

variable {y z : α} {ps : List α}

/-- Agreement is transitive. -/
lemma Agree.trans {x : α} (h : E.Agree x y) (h' : E.Agree y z) : E.Agree x z :=
  ⟨h.1.trans h'.1, h.2.1.trans h'.2.1, h.2.2.trans h'.2.2⟩

/-- An element that is set in the place of one that it agrees with. -/
lemma setByName_agree (hy : l.find? (fun y => sameName (E.name y) (E.name z)) = some y)
    (hz : E.Agree z y) :
    List.Forall₂ E.Agree (setByName E.name l z) l := by
  induction l with
  | nil => exact absurd hy (by simp)
  | cons u l ih =>
    have hcomm : sameName (E.name z) (E.name u) = sameName (E.name u) (E.name z) := by
      simp [sameName, eq_comm]
    rw [setByName, hcomm]
    rw [find?_cons] at hy
    by_cases hu : sameName (E.name u) (E.name z)
    · rw [hu] at hy
      obtain rfl : u = y := some.inj hy
      rw [if_pos hu]
      exact .cons hz (forall₂_same.2 fun q _ => .refl q)
    · rw [eq_false_of_ne_true hu] at hy
      rw [if_neg hu]
      exact .cons (.refl u) (ih hy)

/-- **Merging one element.** -/
lemma merge_cases (l : List α) (x : α) :
    (merge E l x = l ++ [E.inherited x] ∧ ∀ y ∈ l, lower (E.name y) ≠ lower (E.name x)) ∨
      ((∃ y ∈ l, lower (E.name y) = lower (E.name x)) ∧ List.Forall₂ E.Agree (merge E l x) l) := by
  rw [merge]
  rcases hfind : l.find? fun y => sameName (E.name y) (E.name x) with _ | y
  · refine .inl ⟨rfl, fun y hy hname => ?_⟩
    rw [find?_eq_none] at hfind
    exact hfind y hy (sameName_iff.2 hname)
  · have hy := find?_some hfind
    refine .inr ⟨⟨y, mem_of_find?_eq_some hfind, sameName_iff.1 hy⟩, ?_⟩
    dsimp only
    split_ifs
    · exact forall₂_same.2 fun q _ => .refl q
    · refine setByName_agree ?_ ⟨E.name_withQuals _ _, E.origin_withQuals _ _,
        E.propagated_withQuals _ _⟩
      rw [E.name_withQuals]
      have hpred : (fun u => sameName (E.name u) (E.name y)) = fun u =>
          sameName (E.name u) (E.name x) := by
        funext u
        rw [sameName, sameName, sameName_iff.1 hy]
      rw [hpred]
      exact hfind

/-- **Where the merged elements come from**: an element of the class, or one of the superclass that
the class does not have. -/
lemma of_mem_foldl : ∀ {l : List α} {q : α}, q ∈ ps.foldl E.merge l →
    (∃ w ∈ l, E.Agree q w) ∨ ∃ x ∈ ps, E.Agree q (E.inherited x) ∧
      ∀ y ∈ l, lower (E.name y) ≠ lower (E.name x) := by
  induction ps with
  | nil => exact fun hq => .inl ⟨_, hq, .refl _⟩
  | cons x ps ih =>
    intro l q hq
    rcases merge_cases l x with ⟨heq, hnew⟩ | ⟨-, hsame⟩
    · rcases ih hq with ⟨w, hw, hqw⟩ | ⟨z, hz, hqz, hout⟩
      · rw [heq] at hw
        rcases mem_append.1 hw with hw | hw
        · exact .inl ⟨w, hw, hqw⟩
        · rw [mem_singleton.1 hw] at hqw
          exact .inr ⟨x, mem_cons_self, hqw, hnew⟩
      · refine .inr ⟨z, mem_cons_of_mem _ hz, hqz, fun y hy => hout y ?_⟩
        rw [heq]
        exact mem_append_left _ hy
    · rcases ih hq with ⟨w, hw, hqw⟩ | ⟨z, hz, hqz, hout⟩
      · obtain ⟨u, hu, hwu⟩ := (mem_of_forall₂ hsame).1 w hw
        exact .inl ⟨u, hu, hqw.trans hwu⟩
      · refine .inr ⟨z, mem_cons_of_mem _ hz, hqz, fun y hy => ?_⟩
        obtain ⟨u, hu, huy⟩ := (mem_of_forall₂ hsame).2 y hy
        rw [← huy.1]
        exact hout u hu

/-- No element is lost. -/
lemma exists_of_mem : ∀ {l : List α} {w : α}, w ∈ l → ∃ q ∈ ps.foldl E.merge l, E.Agree q w := by
  induction ps with
  | nil => exact fun hw => ⟨_, hw, .refl _⟩
  | cons x ps ih =>
    intro l w hw
    rcases merge_cases l x with ⟨heq, -⟩ | ⟨-, hsame⟩
    · refine ih ?_
      rw [heq]
      exact mem_append_left _ hw
    · obtain ⟨u, hu, huw⟩ := (mem_of_forall₂ hsame).2 w hw
      obtain ⟨q, hq, hqu⟩ := ih hu
      exact ⟨q, hq, hqu.trans huw⟩

/-- The elements of the superclass are there under their names. -/
lemma exists_of_mem_parent : ∀ {l : List α} {x : α}, x ∈ ps →
    ∃ q ∈ ps.foldl E.merge l, lower (E.name q) = lower (E.name x) := by
  induction ps with
  | nil => exact nofun
  | cons z ps ih =>
    intro l x hx
    rcases mem_cons.1 hx with rfl | hx
    · have hmerged : ∃ w ∈ E.merge l x, lower (E.name w) = lower (E.name x) := by
        rcases merge_cases l x with ⟨heq, -⟩ | ⟨⟨y, hy, hname⟩, hsame⟩
        · refine ⟨E.inherited x, ?_, by rw [E.name_inherited]⟩
          rw [heq]
          exact mem_append_right _ (mem_singleton_self _)
        · obtain ⟨u, hu, huy⟩ := (mem_of_forall₂ hsame).2 y hy
          exact ⟨u, hu, by rw [huy.1, hname]⟩
      obtain ⟨w, hw, hname⟩ := hmerged
      obtain ⟨q, hq, hqw⟩ : ∃ q ∈ ps.foldl E.merge (E.merge l x), E.Agree q w := exists_of_mem hw
      exact ⟨q, hq, by rw [hqw.1, hname]⟩
    · exact ih hx

end ElementKind

/-! ### Reading a class -/

/-- When a class is read, the properties of its superclass are merged into its own. -/
lemma properties_inherit [CIMValue V] (c pc : CIMClass V) :
    (c.inherit pc).properties = pc.properties.foldl propertyKind.merge c.properties := by
  have hprop : ∀ (c : CIMClass V) p,
      (c.inheritProperty p).properties = propertyKind.merge c.properties p := by
    intro c p
    rw [inheritProperty, ElementKind.merge]
    have hfind : c.properties.find? (fun y => sameName ((propertyKind : ElementKind V _).name y)
        ((propertyKind : ElementKind V _).name p)) = c.getProperty p.name := rfl
    rw [hfind]
    rcases c.getProperty p.name with _ | y
    · rfl
    · dsimp only
      rw [ElementKind.overrides, propertyKind]
      split_ifs <;> rfl
  rw [inherit, foldl_keeps properties (fun c m => by rw [inheritMethod_eq]),
    foldl_part properties hprop, foldl_keeps properties (fun c q => by rw [inheritQualifier_eq])]
  split_ifs <;> rfl

/-- When a class is read, the methods of its superclass are merged into its own. -/
lemma methods_inherit [CIMValue V] (c pc : CIMClass V) :
    (c.inherit pc).methods = pc.methods.foldl methodKind.merge c.methods := by
  have hmeth : ∀ (c : CIMClass V) m, (c.inheritMethod m).methods =
      methodKind.merge c.methods m := by
    intro c m
    rw [inheritMethod, ElementKind.merge]
    have hfind : c.methods.find? (fun y => sameName ((methodKind : ElementKind V _).name y)
        ((methodKind : ElementKind V _).name m)) = c.getMethod m.name := rfl
    rw [hfind]
    rcases c.getMethod m.name with _ | y
    · rfl
    · dsimp only
      rw [ElementKind.overrides, methodKind]
      split_ifs <;> rfl
  rw [inherit, foldl_part methods hmeth, foldl_keeps methods (fun c p => by
    rw [inheritProperty_eq]),
    foldl_keeps methods (fun c q => by rw [inheritQualifier_eq])]
  split_ifs <;> rfl

/-! ### Writing a class -/

namespace ElementKind

variable (E : ElementKind V α)

/-- The element of the name is in the class. -/
def Declares (c : CIMClass V) (e : Str) : Prop := ∃ y ∈ E.elements c, lower (E.name y) = e

/-- The element of the name is in the class, with the qualifier `Override`. -/
def Overrides (c : CIMClass V) (e : Str) : Prop :=
  ∃ y ∈ E.elements c, lower (E.name y) = e ∧ E.overrides y

/-- The elements of a class that has been adjusted to a superclass: it is the origin of those that
it introduces or overrides, and has the others from the superclass. -/
structure Adjusted (pc c : CIMClass V) : Prop where
  own : ∀ y ∈ E.elements c,
    (E.Declares pc (lower (E.name y)) → E.overrides y) →
    E.origin y = c.name ∧ E.propagated y = false
  redeclared : ∀ y ∈ E.elements c, E.Declares pc (lower (E.name y)) → E.overrides y = false →
    E.propagated y ∧ ∃ x ∈ E.elements pc, lower (E.name x) = lower (E.name y) ∧
      lower (E.origin y) = lower (E.origin x)
  agree : ∀ y ∈ E.elements c, ∀ z ∈ E.elements c, lower (E.name y) = lower (E.name z) →
    E.Declares pc (lower (E.name y)) → E.overrides y = E.overrides z

/-- The elements of a class before and after it is adjusted: names and `Override` stay. -/
structure SameDeclarations (c c' : CIMClass V) : Prop where
  before : ∀ y ∈ E.elements c', ∃ x ∈ E.elements c, E.name y = E.name x ∧
    E.overrides y = E.overrides x
  after : ∀ x ∈ E.elements c, ∃ y ∈ E.elements c', E.name y = E.name x ∧
    E.overrides y = E.overrides x

/-- Where the element that a class gets for `x` comes from: it belongs to the class, or it is one of
the superclass again. -/
def ComesFrom (pc c : CIMClass V) (x y : α) : Prop :=
  ((E.Declares pc (lower (E.name x)) → E.overrides x) ∧ E.origin y = c.name ∧
      E.propagated y = false) ∨
    E.overrides x = false ∧ E.propagated y ∧ ∃ z ∈ E.elements pc,
      lower (E.name z) = lower (E.name x) ∧ lower (E.origin y) = lower (E.origin z)

variable {E} {c c' pc : CIMClass V}

/-- Element by element. -/
lemma SameDeclarations.of_forall₂ (h : List.Forall₂ (fun y x => E.name y = E.name x ∧
    E.overrides y = E.overrides x) (E.elements c') (E.elements c)) : E.SameDeclarations c c' :=
  ⟨(mem_of_forall₂ h).1, (mem_of_forall₂ h).2⟩

/-- The elements of an adjusted class, from what adjusting does to each of them. -/
lemma Adjusted.of_comesFrom (hname : c'.name = c.name)
    (hback : ∀ y ∈ E.elements c', ∃ x ∈ E.elements c,
      (E.name y = E.name x ∧ E.overrides y = E.overrides x) ∧ E.ComesFrom pc c x y)
    (hagree : ∀ x ∈ E.elements c, ∀ u ∈ E.elements c, sameName (E.name x) (E.name u) →
      E.Declares pc (lower (E.name x)) → E.overrides x = E.overrides u) : E.Adjusted pc c' := by
  refine ⟨fun y hy hown => ?_, fun y hy hdecl hover => ?_, fun y hy z hz heq hdecl => ?_⟩
  · obtain ⟨x, hx, ⟨hyx, hoy⟩, ⟨-, hcase⟩ | ⟨hover, -, z, hz, hzx, -⟩⟩ := hback y hy
    · rw [hname]
      exact hcase
    · rw [hyx, hoy] at hown
      rw [hown ⟨z, hz, hzx⟩] at hover
      cases hover
  · obtain ⟨x, hx, ⟨hyx, hoy⟩, ⟨hover', -⟩ | ⟨-, hcase⟩⟩ := hback y hy
    · rw [hyx] at hdecl
      rw [hoy, hover' hdecl] at hover
      cases hover
    · rw [hyx]
      exact hcase
  · obtain ⟨x, hx, ⟨hyx, hoy⟩, -⟩ := hback y hy
    obtain ⟨u, hu, ⟨hzu, hoz⟩, -⟩ := hback z hz
    rw [hyx] at heq hdecl
    rw [hzu] at heq
    rw [hoy, hoz]
    exact hagree x hx u hu (sameName_iff.2 heq) hdecl

end ElementKind

/-- The results of a loop that does not fail. -/
lemma forall₂_of_mapM_ok {ε : Type} {f : α → Except ε β}
    (h : l.mapM f = .ok l') : List.Forall₂ (fun y x => f x = .ok y) l' l := by
  induction l generalizing l' with
  | nil =>
    cases h
    exact .nil
  | cons x l ih =>
    rw [mapM_cons] at h
    rcases hx : f x with e | y
    · rw [hx] at h
      cases h
    rcases hl : l.mapM f with e | ys <;> rw [hx, hl] at h <;> cases h
    exact .cons hx (ih hl)

/-- What is there under a name is still there after another element has been set. -/
lemma exists_mem_setByName {name : α → CIMName} {z : α} (x : α) (hz : z ∈ l) :
    ∃ w ∈ setByName name l x, lower (name w) = lower (name z) := by
  induction l with
  | nil => exact absurd hz (by simp)
  | cons u l ih =>
    rw [setByName]
    split_ifs with hx
    · rcases mem_cons.1 hz with rfl | hz
      · exact ⟨x, mem_cons_self, sameName_iff.1 hx⟩
      · exact ⟨z, mem_cons_of_mem _ hz, rfl⟩
    · rcases mem_cons.1 hz with rfl | hz
      · exact ⟨z, mem_cons_self, rfl⟩
      · obtain ⟨w, hw, hname⟩ := ih hz
        exact ⟨w, mem_cons_of_mem _ hw, hname⟩

/-- A qualifier that is there stays there when those of the overridden property are added. -/
lemma isSome_getQualifier_foldl (parentQuals : List (CIMQualifier V)) :
    ∀ {quals : List (CIMQualifier V)}, (getQualifier quals name).isSome →
      (getQualifier (parentQuals.foldl overrideQualifier quals) name).isSome := by
  have hstep : ∀ (quals : List (CIMQualifier V)) qual, (getQualifier quals name).isSome →
      (getQualifier (overrideQualifier quals qual) name).isSome := by
    intro quals qual h
    have happend : (getQualifier (quals ++ [qual]) name).isSome := by
      rw [getQualifier] at h
      rw [getQualifier, find?_append, isSome_or, h, Bool.true_or]
    rw [overrideQualifier]
    split_ifs
    · rw [getQualifier, find?_isSome] at h ⊢
      obtain ⟨q, hq, hname⟩ := h
      obtain ⟨w, hw, hwq⟩ : ∃ w ∈ setByName CIMQualifier.name quals qual,
          lower w.name = lower q.name := exists_mem_setByName qual hq
      exact ⟨w, hw, sameName_iff.2 (hwq.trans (sameName_iff.1 hname))⟩
    all_goals assumption
  induction parentQuals with
  | nil => exact fun h => h
  | cons q l ih => exact fun h => ih (hstep _ q h)

/-- A name is declared if it is found. -/
lemma ElementKind.declares_iff {E : ElementKind V α} {pc : CIMClass V} :
    E.Declares pc (lower name) ↔
    ((E.elements pc).find? fun y => sameName (E.name y) name).isSome := by
  rw [find?_isSome]
  exact ⟨fun ⟨y, hy, h⟩ => ⟨y, hy, sameName_iff.2 h⟩, fun ⟨y, hy, h⟩ => ⟨y, hy, sameName_iff.1 h⟩⟩

/-! ### What adjusting does to an element -/

/-- **A property that is adjusted** keeps its name and its `Override`; it comes from where it should
if an overriding property has no origin yet. -/
lemma adjustProperty_cases [CIMValue V] {c pc : CIMClass V} {p p' : CIMProperty V}
    (h : c.adjustProperty pc p = .ok p') :
    (p'.name = p.name ∧ propertyKind.overrides p' = propertyKind.overrides p) ∧
    ((propertyKind.overrides p → (pc.getProperty p.name).isSome → p.originClass = []) →
      propertyKind.ComesFrom pc c p p') := by
  rw [adjustProperty] at h
  rcases hpp : pc.getProperty p.name with _ | pp
  · rw [hpp] at h
    dsimp only at h
    split_ifs at h
    cases h
    refine ⟨⟨rfl, rfl⟩, fun _ => .inl ⟨fun hdecl => ?_, rfl, rfl⟩⟩
    have hsome : (pc.getProperty p.name).isSome := ElementKind.declares_iff.1 hdecl
    rw [hpp] at hsome
    cases hsome
  rw [hpp] at h
  dsimp only at h
  by_cases hover : (getQualifier p.quals qualOverride).isSome
  · have hkeep := isSome_getQualifier_foldl pp.quals hover
    split_ifs at h with horigin <;> cases h
    · exact ⟨⟨rfl, hkeep.trans hover.symm⟩, fun _ => .inl ⟨fun _ => hover, rfl, rfl⟩⟩
    · exact ⟨⟨rfl, hkeep.trans hover.symm⟩, fun hw => absurd (hw hover rfl) horigin⟩
  · rw [if_neg hover] at h
    cases h
    refine ⟨⟨rfl, rfl⟩, fun _ => .inr ⟨eq_false_of_ne_true hover, rfl, pp,
      mem_of_find?_eq_some hpp, ?_, rfl⟩⟩
    exact sameName_iff.1 (find?_some (p := fun q : CIMProperty V => sameName q.name p.name) hpp)

/-- What adjusting does to the elements. -/
lemma parts_of_adjust [CIMValue V] {c pc c' : CIMClass V} (h : c.adjust pc = .ok c') :
    c.properties.mapM (c.adjustProperty pc) = .ok c'.properties ∧
      c'.methods = c.methods.map (c.adjustMethod pc) := by
  obtain ⟨_, _, -, hp, rfl⟩ := adjust_ok h
  exact ⟨hp, rfl⟩

/-- What a class has to observe so that its elements get the right origin: an overriding property
comes without origin, a method that is declared again without `Override` has been introduced or
overridden by the superclass itself, and elements of one name agree in `Override`. -/
structure WellDeclared (c pc : CIMClass V) : Prop where
  property : ∀ p ∈ c.properties, propertyKind.overrides p →
    (pc.getProperty p.name).isSome → p.originClass = []
  method : ∀ m ∈ c.methods, methodKind.overrides m = false →
    ∀ pm, pc.getMethod m.name = some pm → sameName pm.originClass c.superClass
  properties_agree : ∀ p ∈ c.properties, ∀ q ∈ c.properties, sameName p.name q.name →
    (pc.getProperty p.name).isSome → propertyKind.overrides p = propertyKind.overrides q
  methods_agree : ∀ m ∈ c.methods, ∀ n ∈ c.methods, sameName m.name n.name →
    (pc.getMethod m.name).isSome → methodKind.overrides m = methodKind.overrides n

/-- Adjusting declares the same properties. -/
lemma propertyKind_sameDeclarations [CIMValue V] {c pc c' : CIMClass V} (h : c.adjust pc = .ok c') :
    propertyKind.SameDeclarations c c' :=
  .of_forall₂ ((forall₂_of_mapM_ok (parts_of_adjust h).1).imp fun _ _ hxy =>
    (adjustProperty_cases hxy).1)

/-- **A method that is adjusted** keeps its name and its `Override`; it comes from where it should
if it is overridden, or if the superclass is the origin of the method of the name. -/
lemma adjustMethod_cases (c pc : CIMClass V) (m : CIMMethod V) :
    ((c.adjustMethod pc m).name = m.name ∧
      methodKind.overrides (c.adjustMethod pc m) = methodKind.overrides m) ∧
    ((methodKind.overrides m = false → ∀ pm, pc.getMethod m.name = some pm →
        sameName pm.originClass c.superClass) →
      methodKind.ComesFrom pc c m (c.adjustMethod pc m)) := by
  rw [adjustMethod]
  split_ifs with h
  · rw [Bool.and_eq_true, isNone_iff_eq_none] at h
    obtain ⟨pm, hpm⟩ := isSome_iff_exists.1 h.1
    have hover : methodKind.overrides m = false := by
      rw [ElementKind.overrides, methodKind, h.2]; rfl
    refine ⟨⟨rfl, rfl⟩, fun hw => .inr ⟨hover, rfl, pm, mem_of_find?_eq_some hpm, ?_,
      (sameName_iff.1 (hw hover pm hpm)).symm⟩⟩
    exact sameName_iff.1 (find?_some (p := fun n : CIMMethod V => sameName n.name m.name) hpm)
  · refine ⟨⟨rfl, rfl⟩, fun _ => .inl ⟨fun hdecl => ?_, rfl, rfl⟩⟩
    have hsome : (pc.getMethod m.name).isSome := ElementKind.declares_iff.1 hdecl
    rw [hsome, Bool.true_and, isNone_iff_eq_none] at h
    exact isSome_iff_ne_none.2 h

/-- And the same methods. -/
lemma methodKind_sameDeclarations [CIMValue V] {c pc c' : CIMClass V} (h : c.adjust pc = .ok c') :
    methodKind.SameDeclarations c c' := by
  refine .of_forall₂ ?_
  change List.Forall₂ _ c'.methods c.methods
  rw [(parts_of_adjust h).2, forall₂_map_left_iff]
  exact forall₂_same.2 fun x _ => (adjustMethod_cases c pc x).1

/-- **The properties of a class that has been adjusted.** -/
lemma propertyKind_adjusted [CIMValue V] {c pc c' : CIMClass V} (hw : WellDeclared c pc)
    (h : c.adjust pc = .ok c') : propertyKind.Adjusted pc c' := by
  refine .of_comesFrom (names_of_adjust h).1 (fun y hy => ?_) fun x hx u hu hname hdecl =>
    hw.properties_agree x hx u hu hname (ElementKind.declares_iff.1 hdecl)
  obtain ⟨x, hx, hxy⟩ := (mem_of_forall₂ (forall₂_of_mapM_ok (parts_of_adjust h).1)).1 y hy
  obtain ⟨hsame, hfrom⟩ := adjustProperty_cases hxy
  exact ⟨x, hx, hsame, hfrom (hw.property x hx)⟩

/-- **The methods of a class that has been adjusted.** -/
lemma methodKind_adjusted [CIMValue V] {c pc c' : CIMClass V} (hw : WellDeclared c pc)
    (h : c.adjust pc = .ok c') : methodKind.Adjusted pc c' := by
  refine .of_comesFrom (names_of_adjust h).1 (fun y hy => ?_) fun x hx u hu hname hdecl =>
    hw.methods_agree x hx u hu hname (ElementKind.declares_iff.1 hdecl)
  change y ∈ c'.methods at hy
  rw [(parts_of_adjust h).2] at hy
  obtain ⟨x, hx, rfl⟩ := mem_map.1 hy
  obtain ⟨hsame, hfrom⟩ := adjustMethod_cases c pc x
  exact ⟨x, hx, hsame, hfrom (hw.method x hx)⟩

/-- Reading and writing classes treats the elements of the kind in the same way: the elements of the
superclass are merged into those of the class, and a class that is written owns the elements that it
introduces or overrides. -/
structure ElementKind.Regular [CIMValue V] (E : ElementKind V α) : Prop where
  elements_markKeyed : ∀ c : CIMClass V, E.elements c.markKeyed = E.elements c
  elements_inherit : ∀ c pc : CIMClass V,
    E.elements (c.inherit pc) = (E.elements pc).foldl E.merge (E.elements c)
  base : ∀ c : CIMClass V, ∀ y ∈ E.elements c.adjustBase,
    E.origin y = c.name ∧ E.propagated y = false
  adjusted : ∀ {c pc c' : CIMClass V}, WellDeclared c pc → c.adjust pc = .ok c' → E.Adjusted pc c'
  elements_withQuals : ∀ (c : CIMClass V) quals, E.elements { c with quals } = E.elements c
  same_base : ∀ c : CIMClass V, E.SameDeclarations c c.adjustBase
  same : ∀ {c pc c' : CIMClass V}, c.adjust pc = .ok c' → E.SameDeclarations c c'

/-- Properties are regular. -/
lemma propertyKind_regular [CIMValue V] : (propertyKind : ElementKind V _).Regular where
  elements_markKeyed c := by
    rw [markKeyed]
    split_ifs <;> rfl
  elements_inherit := properties_inherit
  base c y hy := by
    obtain ⟨x, -, rfl⟩ := mem_map.1 hy
    exact ⟨rfl, rfl⟩
  adjusted := propertyKind_adjusted
  elements_withQuals _ _ := rfl
  same_base c := .of_forall₂ (forall₂_map_left_iff.2 (forall₂_same.2 fun _ _ => ⟨rfl, rfl⟩))
  same := propertyKind_sameDeclarations

/-- Methods are regular. -/
lemma methodKind_regular [CIMValue V] : (methodKind : ElementKind V _).Regular where
  elements_markKeyed c := by
    rw [markKeyed]
    split_ifs <;> rfl
  elements_inherit := methods_inherit
  base c y hy := by
    obtain ⟨x, -, rfl⟩ := mem_map.1 hy
    exact ⟨rfl, rfl⟩
  adjusted := methodKind_adjusted
  elements_withQuals _ _ := rfl
  same_base c := .of_forall₂ (forall₂_map_left_iff.2 (forall₂_same.2 fun _ _ => ⟨rfl, rfl⟩))
  same := methodKind_sameDeclarations

end OpenWbem
