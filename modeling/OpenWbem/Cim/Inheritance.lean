import OpenWbem.Cim.Objects

/-!
# Inheritance

What a class gets from its superclass. The schema store keeps of a class only what the class itself
declares. When a class is read, the elements of its superclass are added (`inherit`); when it is
written, it is checked against its superclass and reduced to its own elements (`adjust`).

## Main definitions

* `CIMClass.markKeyed`, `CIMClass.inherit` — what `MetaRepository::_resolveClass` does with classes.
* `CIMClass.adjustBase`, `CIMClass.adjust` — what `MetaRepository::adjustClass` does with them.
-/

namespace OpenWbem

variable {V : Type} [CIMValue V]

/-! ### Reading a class -/

/-- The qualifiers of an element that are added to those of the overriding element. -/
def inheritQualifiers (quals parentQuals : List (CIMQualifier V)) : List (CIMQualifier V) :=
  parentQuals.foldl (fun quals q =>
    if (getQualifier quals q.name).isSome then quals
    else quals ++ [{ q with propagated := true }]) quals

namespace CIMClass

/-- A class with a key property is keyed. -/
def markKeyed (c : CIMClass V) : CIMClass V :=
  if c.properties.any CIMProperty.isKey then { c with isKeyed := true } else c

/-- One qualifier of the superclass. -/
def inheritQualifier (child : CIMClass V) (qual : CIMQualifier V) : CIMClass V :=
  if qual.hasFlavor .restricted then child
  else if child.quals.any fun q => sameName q.name qual.name then child
  else child.addQualifier { qual with propagated := true }

/-- One property of the superclass. -/
def inheritProperty (child : CIMClass V) (parentProp : CIMProperty V) : CIMClass V :=
  match child.getProperty parentProp.name with
  | none => child.addProperty { parentProp with propagated := true }
  | some childProp =>
    if (getQualifier childProp.quals qualOverride).isSome then child
    else
      let childProp :=
        { childProp with quals := inheritQualifiers childProp.quals parentProp.quals }
      { child with properties := setByName CIMProperty.name child.properties childProp }

/-- One method of the superclass. -/
def inheritMethod (child : CIMClass V) (cm : CIMMethod V) : CIMClass V :=
  match child.getMethod cm.name with
  | none => child.addMethod { cm with propagated := true }
  | some childMethod =>
    if (getQualifier childMethod.quals qualOverride).isSome then child
    else
      let childMethod := { childMethod with quals := inheritQualifiers childMethod.quals cm.quals }
      { child with methods := setByName CIMMethod.name child.methods childMethod }

/-- Everything that a class gets from its superclass when it is read. -/
def inherit (child parentClass : CIMClass V) : CIMClass V :=
  let child := if parentClass.isKeyed then { child with isKeyed := true } else child
  let child := parentClass.quals.foldl inheritQualifier child
  let child := parentClass.properties.foldl inheritProperty child
  parentClass.methods.foldl inheritMethod child

variable (c : CIMClass V)

/-- Only the qualifiers change. -/
lemma inheritQualifier_eq (q : CIMQualifier V) : c.inheritQualifier q = { c with
      quals := (c.inheritQualifier q).quals
      isAssociation := (c.inheritQualifier q).isAssociation } := by
  rw [inheritQualifier]
  split_ifs <;> rfl

/-- Only the properties change. -/
lemma inheritProperty_eq (p : CIMProperty V) : c.inheritProperty p = { c with
      properties := (c.inheritProperty p).properties
      isKeyed := (c.inheritProperty p).isKeyed } := by
  rw [inheritProperty]
  split
  · rfl
  · split_ifs <;> rfl

omit [CIMValue V] in
/-- Only the methods change. -/
lemma inheritMethod_eq (m : CIMMethod V) :
    c.inheritMethod m = { c with methods := (c.inheritMethod m).methods } := by
  rw [inheritMethod]
  split
  · rfl
  · split_ifs <;> rfl

omit [CIMValue V] in
/-- What each step of a loop does to a part of a class, the loop does to it. -/
lemma foldl_part {α β : Type} (part : CIMClass V → β) {f : CIMClass V → α → CIMClass V}
    {g : β → α → β} (h : ∀ c x, part (f c x) = g (part c) x) (l : List α) (c : CIMClass V) :
    part (l.foldl f c) = l.foldl g (part c) := by
  induction l generalizing c with
  | nil => rfl
  | cons x l ih => rw [List.foldl_cons, List.foldl_cons, ih, h]

omit [CIMValue V] in
/-- What no step changes. -/
lemma foldl_keeps {α β : Type} (part : CIMClass V → β) {f : CIMClass V → α → CIMClass V}
    (h : ∀ c x, part (f c x) = part c) (l : List α) (c : CIMClass V) :
    part (l.foldl f c) = part c := by
  induction l generalizing c with
  | nil => rfl
  | cons x l ih => rw [List.foldl_cons, ih, h]

/-- Inheriting keeps the names. -/
lemma names_inherit (child parentClass : CIMClass V) :
    (child.inherit parentClass).name = child.name ∧
      (child.inherit parentClass).superClass = child.superClass := by
  let names := fun c : CIMClass V => (c.name, c.superClass)
  refine Prod.mk.inj ((foldl_keeps names (fun c m => ?_) _ _).trans
    ((foldl_keeps names (fun c p => ?_) _ _).trans
      ((foldl_keeps names (fun c q => ?_) _ _).trans ?_)))
  · rw [inheritMethod_eq]
  · rw [inheritProperty_eq]
  · rw [inheritQualifier_eq]
  · split_ifs <;> rfl

/-- So does `markKeyed`. -/
lemma names_markKeyed : c.markKeyed.name = c.name ∧ c.markKeyed.superClass = c.superClass := by
  rw [markKeyed]
  split_ifs <;> exact ⟨rfl, rfl⟩

end CIMClass

/-! ### Writing a class -/

/-- Why a class is refused: the message of an exception with the code `INVALID_PARAMETER`. -/
abbrev Refusal := Str

/-- A qualifier of a class with a superclass: it is not stored if it is inherited with the same
value. -/
def adjustQualifier (parentQuals : List (CIMQualifier V)) (qual : CIMQualifier V) :
    Except Refusal (List (CIMQualifier V)) :=
  match getQualifier parentQuals qual.name with
  | none => .ok [qual]
  | some pqual =>
    if equalValues pqual.value qual.value then
      .ok (if pqual.hasFlavor .restricted then [qual] else [])
    else if pqual.hasFlavor .disableOverride then
      .error ("Parent class qualifier ".toList ++ pqual.name ++
        " has DISABLEOVERRIDE flavor. Child cannot override it.".toList)
    else .ok [qual]

omit [CIMValue V] in
/-- A qualifier of an overridden property, for the overriding property. -/
def overrideQualifier (quals : List (CIMQualifier V)) (qual : CIMQualifier V) :
    List (CIMQualifier V) :=
  if qual.hasFlavor .disableOverride then
    if (getQualifier quals qual.name).isSome then setByName CIMQualifier.name quals qual
    else quals ++ [qual]
  else if qual.hasFlavor .restricted then quals
  else if (getQualifier quals qual.name).isSome then quals
  else quals ++ [qual]

namespace CIMClass

/-- A class without superclass: all its elements are its own. -/
def adjustBase (child : CIMClass V) : CIMClass V :=
  { child with
    properties := child.properties.map fun p =>
      { p with propagated := false, originClass := child.name }
    methods := child.methods.map fun m =>
      { m with propagated := false, originClass := child.name } }

/-- A property of a class with a superclass. -/
def adjustProperty (child parentClass : CIMClass V) (prop : CIMProperty V) :
    Except Refusal (CIMProperty V) :=
  match parentClass.getProperty prop.name with
  | some parentProp =>
    if (getQualifier prop.quals qualOverride).isSome then
      let prop :=
        if prop.originClass = [] then { prop with originClass := child.name, propagated := false }
        else { prop with propagated := true }
      .ok { prop with quals := parentProp.quals.foldl overrideQualifier prop.quals }
    else .ok { prop with originClass := parentProp.originClass, propagated := true }
  | none =>
    if prop.isKey && parentClass.isKeyed then
      .error ("Parent class has keys. Child cannot have additional key properties: ".toList ++
        child.name ++ ": ".toList ++ CIMValue.toMOF prop)
    else .ok { prop with originClass := child.name, propagated := false }

/-- A method of a class with a superclass. -/
def adjustMethod (child parentClass : CIMClass V) (m : CIMMethod V) : CIMMethod V :=
  if (parentClass.getMethod m.name).isSome && (getQualifier m.quals qualOverride).isNone then
    { m with originClass := child.superClass, propagated := true }
  else { m with originClass := child.name, propagated := false }

/-- A class with a superclass. -/
def adjust (child parentClass : CIMClass V) : Except Refusal (CIMClass V) := do
  let quals ← child.quals.mapM (adjustQualifier parentClass.quals)
  let properties ← child.properties.mapM (adjustProperty child parentClass)
  if child.isAssociation && !parentClass.isAssociation then
    .error ("Association class is derived from non-association class: ".toList ++ child.name)
  else
    .ok
      { child with
        quals := quals.flatten
        properties
        methods := child.methods.map (adjustMethod child parentClass)
        isKeyed := child.isKeyed || parentClass.isKeyed }

/-- What adjusting has done. -/
lemma adjust_ok {c pc c' : CIMClass V} (h : c.adjust pc = .ok c') : ∃ quals properties,
    c.quals.mapM (adjustQualifier pc.quals) = .ok quals ∧
    c.properties.mapM (adjustProperty c pc) = .ok properties ∧
    c' = { c with
      quals := quals.flatten
      properties
      methods := c.methods.map (adjustMethod c pc)
      isKeyed := c.isKeyed || pc.isKeyed } := by
  rw [adjust] at h
  rcases hq : c.quals.mapM (adjustQualifier pc.quals) with _ | quals
  · rw [hq] at h
    cases h
  rcases hp : c.properties.mapM (adjustProperty c pc) with _ | props
  · rw [hq, hp] at h
    cases h
  rw [hq, hp] at h
  simp only [bind, Except.bind] at h
  split_ifs at h
  cases h
  exact ⟨quals, props, rfl, rfl, rfl⟩

/-- Adjusting keeps the names. -/
lemma names_of_adjust {c pc c' : CIMClass V} (h : c.adjust pc = .ok c') :
    c'.name = c.name ∧ c'.superClass = c.superClass := by
  obtain ⟨_, _, -, -, rfl⟩ := adjust_ok h
  exact ⟨rfl, rfl⟩

end CIMClass

end OpenWbem
