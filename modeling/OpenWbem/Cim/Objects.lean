import Mathlib.Tactic.Common

/-!
# CIM objects

Names, qualifiers, properties, methods and classes, as far as the repository works with them.
Objects are values: an object that is changed does not change its copies.

What is in a value of a property or a qualifier matters at few places, so the values are a type
variable, with the operations that the repository uses.

## Main definitions

* `CIMName`, `sameName` — names, which are compared without regard to case.
* `CIMQualifier`, `CIMQualifierType`, `CIMProperty`, `CIMMethod`, `CIMClass` — the objects.
* `CIMClass.clone` — a copy with a part of the elements.
* `CIMObjectPath`, `CIMInstance` — the paths of classes and instances, and instances.
-/

namespace OpenWbem

/-- Strings, as lists of characters. -/
abbrev Str := List Char

/-- `String::toLowerCase` -/
def Str.lower (s : Str) : Str := s.map Char.toLower

/-- The name of a class, a property, a method or a qualifier. The empty name stands for none. -/
abbrev CIMName := Str

/-- `operator==` on names: case does not matter. -/
def sameName (x y : CIMName) : Bool := Str.lower x = Str.lower y

/-- Names that differ in case only. -/
lemma sameName_iff {x y : CIMName} : sameName x y ↔ Str.lower x = Str.lower y := by
  simp [sameName]

/-- `CIMFlavor` -/
inductive CIMFlavor where
  | enableOverride
  | disableOverride
  | restricted
  | toSubclass
  | translate
  deriving DecidableEq

/-- The data type of a property: a reference to objects of a class, or another type. -/
inductive CIMDataType where
  | reference (refClassName : CIMName)
  | other (type : ℕ)
  deriving DecidableEq

/-- `CIMDataType::isReferenceType` -/
def CIMDataType.isReferenceType : CIMDataType → Bool
  | reference _ => true
  | other _ => false

variable {V : Type}

/-! ### Qualifiers -/

/-- `CIMQualifier` -/
structure CIMQualifier (V : Type) where
  name : CIMName
  value : Option V
  flavors : List CIMFlavor
  propagated : Bool
  deriving DecidableEq

/-- `CIMQualifierType`: the declaration of a qualifier. -/
structure CIMQualifierType (V : Type) where
  name : CIMName
  flavors : List CIMFlavor
  defaultValue : Option V
  deriving DecidableEq

/-- `CIMQualifier::CIM_QUAL_KEY` -/
def qualKey : CIMName := ['K', 'e', 'y']

/-- `CIMQualifier::CIM_QUAL_OVERRIDE` -/
def qualOverride : CIMName := ['O', 'v', 'e', 'r', 'r', 'i', 'd', 'e']

/-- `CIMQualifier::CIM_QUAL_ASSOCIATION` -/
def qualAssociation : CIMName := ['A', 's', 's', 'o', 'c', 'i', 'a', 't', 'i', 'o', 'n']

namespace CIMQualifier

/-- `CIMQualifier::hasFlavor` -/
def hasFlavor (q : CIMQualifier V) (flavor : CIMFlavor) : Bool := flavor ∈ q.flavors

/-- The flavor that a flavor excludes. -/
def opposite : CIMFlavor → Option CIMFlavor
  | .enableOverride => some .disableOverride
  | .disableOverride => some .enableOverride
  | .restricted => some .toSubclass
  | .toSubclass => some .restricted
  | .translate => none

/-- `CIMQualifier::addFlavor` -/
def addFlavor (q : CIMQualifier V) (flavor : CIMFlavor) : CIMQualifier V :=
  if flavor ∈ q.flavors then q
  else
    { q with flavors := (q.flavors.filter fun f => some f ≠ opposite flavor) ++ [flavor] }

end CIMQualifier

/-- `getQualifier` of classes, properties and methods. -/
def getQualifier (quals : List (CIMQualifier V)) (name : CIMName) : Option (CIMQualifier V) :=
  quals.find? fun q => sameName q.name name

/-- Replace the first element with a name, or append it: `setQualifier`, `setProperty` and
`setMethod`. -/
def setByName {α : Type} (name : α → CIMName) (l : List α) (x : α) : List α :=
  match l with
  | [] => [x]
  | y :: l => if sameName (name x) (name y) then x :: l else y :: setByName name l x

/-! ### Properties and methods -/

/-- `CIMProperty` -/
structure CIMProperty (V : Type) where
  name : CIMName
  quals : List (CIMQualifier V)
  originClass : CIMName
  dataType : CIMDataType
  value : Option V
  propagated : Bool
  deriving DecidableEq

/-- `CIMMethod` -/
structure CIMMethod (V : Type) where
  name : CIMName
  quals : List (CIMQualifier V)
  originClass : CIMName
  propagated : Bool
  deriving DecidableEq

/-- `CIMObjectPath`, of an object on this host; the path of a class has no keys. -/
structure CIMObjectPath (V : Type) where
  nameSpace : Str
  className : CIMName
  keys : List (CIMProperty V)
  deriving DecidableEq

/-- What the repository does with the values of properties and qualifiers. -/
class CIMValue (V : Type) where
  /-- The value, if it is of type `BOOLEAN`. -/
  boolean? : V → Option Bool
  /-- `CIMValue::equal` -/
  equal : V → V → Bool
  /-- A copy, in which an embedded instance is without qualifiers or without class origin. -/
  cloneEmbedded : (includeQualifiers includeClassOrigin : Bool) → V → V
  /-- `CIMProperty::toMOF`, for messages. -/
  toMOF : CIMProperty V → Str
  /-- The object path, if the value is of type `REFERENCE`. -/
  objectPath? : V → Option (CIMObjectPath V)
  /-- `asKeyString`: the text of the value in a key. -/
  asKeyString : V → Str

/-- `CIMValue::equal` on values that may be null. -/
def equalValues [CIMValue V] : Option V → Option V → Bool
  | none, none => true
  | some v, some w => CIMValue.equal v w
  | _, _ => false

/-- Boolean values only. -/
instance : CIMValue Bool where
  boolean? := some
  equal := (· == ·)
  cloneEmbedded _ _ v := v
  toMOF p := p.name
  objectPath? _ := none
  asKeyString v := if v then ['t'] else ['f']

namespace CIMProperty

variable [CIMValue V]

/-- `CIMProperty::hasTrueQualifier` -/
def hasTrueQualifier (p : CIMProperty V) (name : CIMName) : Bool :=
  match getQualifier p.quals name with
  | none => false
  | some q => (q.value.bind CIMValue.boolean?).getD false

/-- `CIMProperty::isKey`: every reference is a key. -/
def isKey (p : CIMProperty V) : Bool :=
  p.dataType.isReferenceType || p.hasTrueQualifier qualKey

/-- `CIMProperty::clone` -/
def clone (includeQualifiers includeClassOrigin : Bool) (p : CIMProperty V) : CIMProperty V :=
  { p with
    quals := if includeQualifiers then p.quals else []
    originClass := if includeClassOrigin then p.originClass else []
    value := p.value.map (CIMValue.cloneEmbedded includeQualifiers includeClassOrigin) }

end CIMProperty

/-- `CIMMethod::clone` -/
def CIMMethod.clone (includeQualifiers includeClassOrigin : Bool) (m : CIMMethod V) : CIMMethod V :=
  { m with
    quals := if includeQualifiers then m.quals else []
    originClass := if includeClassOrigin then m.originClass else [] }

/-! ### Object paths and instances -/

/-- `CIMNameSpace::setNameSpace`: spaces around a namespace and leading slashes are dropped. -/
def normalizeNs (ns : Str) : Str :=
  ((ns.dropWhile Char.isWhitespace).reverse.dropWhile Char.isWhitespace).reverse.dropWhile (· = '/')

namespace CIMObjectPath

/-- The path of a class. -/
def ofClass (className : CIMName) (ns : Str) : CIMObjectPath V := ⟨normalizeNs ns, className, []⟩

/-- `CIMObjectPath::isClassPath` -/
def isClassPath (path : CIMObjectPath V) : Bool := path.keys.isEmpty

/-- `CIMObjectPath::toString` of the path of a class. -/
def classText (className : CIMName) (ns : Str) : Str := '/' :: normalizeNs ns ++ ':' :: className

/-- `CIMObjectPath::equals` -/
def equals [CIMValue V] (x y : CIMObjectPath V) : Bool :=
  decide (Str.lower x.nameSpace = Str.lower y.nameSpace) && sameName x.className y.className &&
    x.keys.length == y.keys.length &&
    x.keys.all fun cp1 => y.keys.any fun cp2 =>
      sameName cp1.name cp2.name && equalValues cp1.value cp2.value

end CIMObjectPath

/-- `CIMInstance` -/
structure CIMInstance (V : Type) where
  className : CIMName
  keys : List (CIMProperty V)
  properties : List (CIMProperty V)
  quals : List (CIMQualifier V)
  deriving DecidableEq

/-! ### Classes -/

/-- `CIMClass`; the class has no superclass if the name of the superclass is empty. -/
structure CIMClass (V : Type) where
  name : CIMName
  superClass : CIMName
  quals : List (CIMQualifier V)
  properties : List (CIMProperty V)
  methods : List (CIMMethod V)
  isAssociation : Bool
  isKeyed : Bool
  deriving DecidableEq

namespace CIMClass

/-- `CIMClass::getProperty` -/
def getProperty (c : CIMClass V) (name : CIMName) : Option (CIMProperty V) :=
  c.properties.find? fun p => sameName p.name name

/-- `CIMClass::getMethod` -/
def getMethod (c : CIMClass V) (name : CIMName) : Option (CIMMethod V) :=
  c.methods.find? fun m => sameName m.name name

/-- `CIMClass::addMethod` -/
def addMethod (c : CIMClass V) (m : CIMMethod V) : CIMClass V :=
  { c with methods := c.methods ++ [m] }

variable [CIMValue V]

/-- `CIMClass::addProperty` -/
def addProperty (c : CIMClass V) (p : CIMProperty V) : CIMClass V :=
  { c with properties := c.properties ++ [p], isKeyed := c.isKeyed || p.isKey }

/-- `CIMClass::addQualifier`; the qualifier `Association` sets the association flag. -/
def addQualifier (c : CIMClass V) (q : CIMQualifier V) : CIMClass V :=
  { c with
    quals := (c.quals.eraseP fun q' => sameName q'.name q.name) ++ [q]
    isAssociation :=
      if sameName q.name qualAssociation then (q.value.bind CIMValue.boolean?).getD false
      else c.isAssociation }

/-- What a client asks for with a class. -/
structure Filter where
  localOnly : Bool
  includeQualifiers : Bool
  includeClassOrigin : Bool
  propertyList : List CIMName
  noProps : Bool
  deriving DecidableEq

/-- `CIMClass::clone` -/
def clone (f : Filter) (c : CIMClass V) : CIMClass V :=
  { c with
    quals :=
      if f.includeQualifiers then c.quals.filter fun q => !(f.localOnly && q.propagated) else []
    properties :=
      if f.noProps then []
      else
        ((c.properties.filter fun p => !(f.localOnly && p.propagated)).filter fun p =>
          f.propertyList.isEmpty || f.propertyList.any (sameName p.name)).map
          (CIMProperty.clone f.includeQualifiers f.includeClassOrigin)
    methods :=
      (c.methods.filter fun m => !(f.localOnly && m.propagated)).map
        (CIMMethod.clone f.includeQualifiers f.includeClassOrigin) }

end CIMClass

end OpenWbem
