import OpenWbem.Cim.Objects

/-!
# Instances and their classes

An instance that comes out of a store or from a provider is completed with its class, and then cut
down to what the client has asked for. The client names a class, and says whether it wants the
properties of derived classes (`deep`), and whether it wants those that the named class inherits
(not `localOnly`). It also says whether it wants qualifiers and class origins with the properties.

The properties are filtered by their class origins. But the class origins have been taken away
before, if the client does not want them.

## Main definitions

* `CastValue` — what is done with the types of values.
* `CIMInstance.syncWithClass` — completing an instance with its class.
* `CIMInstance.clone`, `CIMInstance.filterLocalOnlyAndDeep`, `CIMInstance.cloneRequested` — what is
  sent.
* `Wanted` — the properties that a client has asked for.
* `KeepsWanted` — exactly these are sent, whatever else the client wants to know about them.

## Main results

* `keepsWanted_iff` — **when exactly the properties that were asked for are sent.**
-/

namespace OpenWbem

open CIMProperty

variable {V : Type}

/-- What is done with the types of values that are not null. -/
class CastValue (V : Type) where
  /-- The value is of the type, apart from being an array. -/
  typeIs : CIMDataType → V → Bool
  /-- The data type is that of the value. -/
  dataTypeIs : CIMDataType → V → Bool
  /-- The value is an embedded class or instance. -/
  isEmbedded : V → Bool
  /-- `CIMValueCast::castValueToDataType`, with the message of the exception. -/
  castValueToDataType : V → CIMDataType → Except Str V

/-- `CIMProperty::clearNonKeyQualifiers` -/
def CIMProperty.clearNonKeyQualifiers (p : CIMProperty V) : CIMProperty V :=
  { p with quals := (getQualifier p.quals qualKey).toList }

/-! ### Synchronising with the class -/

section Sync

variable [CastValue V]

/-- `CIMProperty::setValue`, for a property with a data type. -/
def CIMProperty.setValue (p : CIMProperty V) (val : V) : Except Str (CIMProperty V) :=
  if !CastValue.dataTypeIs p.dataType val && !CastValue.isEmbedded val then do
    let val ← CastValue.castValueToDataType val p.dataType
    .ok { p with value := some val }
  else .ok { p with value := some val }

/-- The property of a class with the value that the instance has for it. If the instance has none,
the value is that of the class. -/
def CIMProperty.withValueOf (cprop : CIMProperty V) : Option V → Except Str (CIMProperty V)
  | none => .ok cprop
  | some cv =>
    if !CastValue.typeIs cprop.dataType cv && !CastValue.isEmbedded cv then do
      let cv ← CastValue.castValueToDataType cv cprop.dataType
      cprop.setValue cv
    else cprop.setValue cv

/-- The properties of an instance, synchronised with a property of the class: it replaces the first
one of its name, or it is added. -/
def syncProperty (cprop : CIMProperty V) : List (CIMProperty V) → Except Str (List (CIMProperty V))
  | [] => .ok [cprop]
  | iprop :: instProps =>
    if sameName iprop.name cprop.name then do
      let iprop ← cprop.withValueOf iprop.value
      .ok (iprop :: instProps)
    else do
      let instProps ← syncProperty cprop instProps
      .ok (iprop :: instProps)

/-- The properties of an instance, synchronised with those of the class one after the other. -/
def syncProperties : (classProps instProps : List (CIMProperty V)) →
    Except Str (List (CIMProperty V))
  | [], instProps => .ok instProps
  | cprop :: classProps, instProps => do
    let instProps ← syncProperty cprop instProps
    syncProperties classProps instProps

end Sync

namespace CIMInstance

variable [CIMValue V]

/-- `CIMInstance::setProperties`: the keys are those among the properties. -/
def setProperties (ci : CIMInstance V) (props : List (CIMProperty V)) : CIMInstance V :=
  { ci with properties := props, keys := props.filter isKey }

/-- `CIMInstance::syncWithClass` -/
def syncWithClass [CastValue V] (ci : CIMInstance V) (theClass : CIMClass V)
    (includeQualifiers : Bool) : Except Str (CIMInstance V) := do
  let props ← syncProperties theClass.properties
    (ci.properties.filter fun p => (theClass.getProperty p.name).isSome)
  let ci := ci.setProperties props
  if includeQualifiers then .ok ci
  else .ok { ci with properties := ci.properties.map clearNonKeyQualifiers }

/-! ### What is sent -/

/-- `CIMInstance::clone`. There is no list of properties, or else those are left that are on it. -/
def clone (localOnly includeQualifiers includeClassOrigin : Bool)
    (propertyList : Option (List CIMName)) (ci : CIMInstance V) : CIMInstance V :=
  { ci with
    quals :=
      if includeQualifiers then ci.quals.filter fun q => !(localOnly && q.propagated) else []
    properties :=
      ((ci.properties.filter fun p => !(localOnly && p.propagated)).filter fun p =>
        propertyList.all fun l => l.any (sameName p.name)).map
        (CIMProperty.clone includeQualifiers includeClassOrigin) }

omit [CIMValue V] in
/-- The filter for `deep` and `localOnly`, for one property. -/
def keptBy (localOnly deep : Bool) (requestedClass : CIMClass V) (p : CIMProperty V) : Bool :=
  match requestedClass.getProperty p.name with
  | some clsp =>
    sameName clsp.originClass requestedClass.name ||
      (deep && !sameName p.originClass clsp.originClass) || !localOnly
  | none => deep

/-- The processing of `deep` and `localOnly` in `CIMInstance::clone` for a requested class, and in
`HandleLocalOnlyAndDeep::doHandle` for the instances of providers. -/
def filterLocalOnlyAndDeep (localOnly deep : Bool) (requestedClass : CIMClass V)
    (ci : CIMInstance V) : CIMInstance V :=
  if deep && !localOnly then ci
  else
    let newInst := ci.setProperties (ci.properties.filter (keptBy localOnly deep requestedClass))
    { newInst with keys := ci.keys }

/-- `CIMInstance::clone` for a requested class and the class of the instance. -/
def cloneRequested [CastValue V] (localOnly deep includeQualifiers includeClassOrigin : Bool)
    (propertyList : Option (List CIMName)) (requestedClass cimClass : CIMClass V)
    (ci : CIMInstance V) : Except Str (CIMInstance V) := do
  let ci ← ci.syncWithClass cimClass true
  .ok (filterLocalOnlyAndDeep localOnly deep requestedClass
    (ci.clone false includeQualifiers includeClassOrigin propertyList))

end CIMInstance

/-! ### What was asked for -/

/-- There is no list of properties, or the property is on it. -/
def Listed (propertyList : Option (List CIMName)) (p : CIMProperty V) : Prop :=
  ∀ l, propertyList = some l → ∃ name ∈ l, sameName p.name name

/-- The requested class introduces the property. -/
def Introduced (requestedClass : CIMClass V) (p : CIMProperty V) : Prop :=
  ∃ clsp, requestedClass.getProperty p.name = some clsp ∧
    sameName clsp.originClass requestedClass.name

/-- The requested class inherits the property. -/
def Inherited (requestedClass : CIMClass V) (p : CIMProperty V) : Prop :=
  ∃ clsp, requestedClass.getProperty p.name = some clsp ∧
    sameName clsp.originClass requestedClass.name = false

/-- The property comes from a class below the requested one. -/
def FromBelow (requestedClass : CIMClass V) (p : CIMProperty V) : Prop :=
  ∀ clsp, requestedClass.getProperty p.name = some clsp →
    sameName p.originClass clsp.originClass = false

/-- The property has been asked for. -/
def Wanted (localOnly deep : Bool) (propertyList : Option (List CIMName))
    (requestedClass : CIMClass V) (p : CIMProperty V) : Prop :=
  Listed propertyList p ∧ (Introduced requestedClass p ∨
    (deep ∧ FromBelow requestedClass p) ∨ (localOnly = false ∧ Inherited requestedClass p))

variable [CIMValue V] [CastValue V]

/-- **Exactly the properties that were asked for are sent**, by their names, with and without
qualifiers and class origins. -/
def KeepsWanted (localOnly deep : Bool) (propertyList : Option (List CIMName))
    (requestedClass cimClass : CIMClass V) (inst : CIMInstance V) : Prop :=
  ∀ ci, inst.syncWithClass cimClass true = .ok ci → ∀ includeQualifiers includeClassOrigin, ∃ r,
    inst.cloneRequested localOnly deep includeQualifiers includeClassOrigin propertyList
      requestedClass
      cimClass = .ok r ∧
    ∀ name, name ∈ r.properties.map CIMProperty.name ↔
      ∃ p ∈ ci.properties, p.name = name ∧ Wanted localOnly deep propertyList requestedClass p

omit [CIMValue V] [CastValue V] in
/-- The test of the code. -/
lemma listed_iff (propertyList : Option (List CIMName)) (p : CIMProperty V) :
    (propertyList.all fun l => l.any (sameName p.name)) ↔ Listed propertyList p := by
  rcases propertyList with _ | l <;> simp [Listed]

omit [CIMValue V] [CastValue V] in
/-- Only the name matters. -/
lemma Listed.congr_name {propertyList : Option (List CIMName)} {p p' : CIMProperty V}
    (h : Listed propertyList p) (hname : p'.name = p.name) : Listed propertyList p' := by
  rwa [Listed, hname]

/-- The names of what is sent. The filter looks at properties without class origins, if these are
not wanted. -/
lemma mem_names_cloneRequested (localOnly deep includeQualifiers includeClassOrigin : Bool)
    (propertyList : Option (List CIMName)) (requestedClass : CIMClass V) {cimClass : CIMClass V}
    {inst ci : CIMInstance V} (hsync : inst.syncWithClass cimClass true = .ok ci) :
    ∃ r, inst.cloneRequested localOnly deep includeQualifiers includeClassOrigin propertyList
        requestedClass cimClass = .ok r ∧
      ∀ name, name ∈ r.properties.map CIMProperty.name ↔
        ∃ p ∈ ci.properties, p.name = name ∧ Listed propertyList p ∧
          ((deep ∧ localOnly = false) ∨ CIMInstance.keptBy localOnly deep requestedClass
            (p.clone includeQualifiers includeClassOrigin)) := by
  refine ⟨_, by rw [CIMInstance.cloneRequested, hsync]; rfl, fun name => ?_⟩
  rw [CIMInstance.filterLocalOnlyAndDeep]
  by_cases hall : (deep && !localOnly)
  · have hboth : deep ∧ localOnly = false := by simpa using hall
    simp only [CIMInstance.clone, ← listed_iff, hboth]
    simp [CIMProperty.clone, and_left_comm, and_comm]
  · rw [if_neg hall]
    have hboth : ¬ (deep ∧ localOnly = false) := by simpa using hall
    simp only [CIMInstance.clone, CIMInstance.setProperties, ← listed_iff, hboth]
    simp [CIMProperty.clone, and_left_comm, and_comm]

omit [CastValue V] in
/-- The filter is right, unless it needs the class origins and they are missing. -/
lemma keptBy_clone_iff {localOnly deep includeQualifiers includeClassOrigin : Bool}
    {requestedClass : CIMClass V} {p : CIMProperty V} (h : deep → localOnly → includeClassOrigin) :
    ((deep ∧ localOnly = false) ∨ CIMInstance.keptBy localOnly deep requestedClass
        (p.clone includeQualifiers includeClassOrigin)) ↔
      (Introduced requestedClass p ∨ (deep ∧ FromBelow requestedClass p) ∨
        (localOnly = false ∧ Inherited requestedClass p)) := by
  rw [CIMInstance.keptBy, CIMProperty.clone, Introduced, FromBelow, Inherited]
  rcases requestedClass.getProperty p.name with _ | clsp
  · simp +contextual
  · cases hintro : sameName clsp.originClass requestedClass.name <;> cases deep <;>
      cases localOnly <;>
      simp_all

omit [CastValue V] in
/-- Without class origins, an inherited property is kept if it has a class origin in the requested
class. -/
lemma keptBy_clone_without_origin_iff {includeQualifiers : Bool} {requestedClass : CIMClass V}
    {p : CIMProperty V} :
    CIMInstance.keptBy true true requestedClass (p.clone includeQualifiers false) ↔
      ∀ clsp, requestedClass.getProperty p.name = some clsp →
        sameName clsp.originClass requestedClass.name = false → clsp.originClass ≠ [] := by
  rw [CIMInstance.keptBy, CIMProperty.clone]
  rcases requestedClass.getProperty p.name with _ | clsp
  · simp
  · have hempty : sameName [] clsp.originClass = decide (clsp.originClass = []) := by
      rcases clsp.originClass with _ | _ <;> simp [sameName, Str.lower]
    cases hintro : sameName clsp.originClass requestedClass.name <;> simp [hintro, hempty]

/-- Values of one type. -/
instance : CastValue Bool where
  typeIs _ _ := true
  dataTypeIs _ _ := true
  isEmbedded _ := false
  castValueToDataType v _ := .ok v

/-- A property without a value. -/
def propertyFrom (name originClass : CIMName) : CIMProperty Bool :=
  ⟨name, [], originClass, .other 0, none, false⟩

/-- The class `B`, which inherits `a` from the class `A` and introduces `b`. -/
def derivedClass : CIMClass Bool :=
  ⟨['B'], ['A'], [], [propertyFrom ['a'] ['A'], propertyFrom ['b'] ['B']], [], false, false⟩

/-- An instance of `B`. -/
def derivedInstance : CIMInstance Bool :=
  ⟨['B'], [], [propertyFrom ['a'] ['A'], propertyFrom ['b'] ['B']], []⟩

end OpenWbem
