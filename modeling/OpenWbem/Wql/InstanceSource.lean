import OpenWbem.Cim.Data
import OpenWbem.Wql.Evaluate

/-!
# Instances as property sources

The class `WQLInstancePropertySource`. The name of a property may have several parts, that lead
through embedded instances. Integers are widened to 64 bits by way of their texts, so this fails if
the number is too large, and the value of a character is that of the number that it is a digit of.

How the values without a model of their texts are printed is left open.

## Main definitions

* `Texts` — texts of values.
* `ClassTable` — the superclasses of the classes of a namespace.
* `instanceSource` — the property source of an instance.
-/

namespace OpenWbem

/-- `CIMInstance::getProperty` -/
def INSTData.getProperty {V : Type} (ci : INSTData V) (name : ByteStr) : Option (PROPData V) :=
  ci.properties.find? fun p => equalsIgnoreCase name p.name

namespace Wql

/-! ### Texts of values -/

/-- Texts of values and instances, and what the library makes of them. -/
structure Texts (R : Type) extends Reals R where
  /-- `CIMValue::toString`, of values other than a string, a truth value or an integer of 64
    bits. -/
  value : ∀ n, NestedValue R n → ByteStr
  /-- `CIMInstance::toString` -/
  inst : ∀ n, INSTData (NestedValue R n) → ByteStr
  /-- `String::toInt64` of the text of a character. -/
  charInt : UInt16 → Option Int64
  /-- `String::toReal64` -/
  toReal64 : ByteStr → Option R

/-- The truth value that a byte stands for. -/
def truthOf (b : UInt8) : Bool := b != 0

section Values

variable {R : Type} (T : Texts R) {n : ℕ}

/-- `CIMValue::toString` -/
def valueText : ValueOf R (NestedValue R n) → ByteStr
  | .single .string s => s
  | .single .boolean b => T.boolText (truthOf b)
  | .single .sint64 x => T.intText x
  | v => T.value (n + 1) v

/-- The integer of 64 bits that is made of a number or a character. -/
def castInt {V : Type} : (t : ValueType) → t.Payload R V → Option Int64
  | .uint8, x => some (.ofNat (UInt8.toNat x))
  | .sint8, x => some (.ofInt (Int8.toInt x))
  | .uint16, x => some (.ofNat (UInt16.toNat x))
  | .sint16, x => some (.ofInt (Int16.toInt x))
  | .uint32, x => some (.ofNat (UInt32.toNat x))
  | .sint32, x => some (.ofInt (Int32.toInt x))
  | .uint64, x => if UInt64.toNat x < 2 ^ 63 then some (.ofNat (UInt64.toNat x)) else none
  | .sint64, x => some x
  | .char16, x => T.charInt x
  | _, _ => none

/-- `castValueToDataType` to `SINT64`: of an array only the first element is used, which must
exist. -/
def castToSint64 {V : Type} : ValueOf R V → Option Int64
  | .single t v => castInt T t v
  | .array t l => l.head?.bind (castInt T t)

/-- `castValueToDataType` to `REAL64`: other numbers are printed and read back. -/
def castToReal64 {V : Type} : ValueOf R V → Option R
  | .single .real64 x => some x
  | .single .real32 x => T.toReal64 (T.text x)
  | .array .real64 l => l.head?.bind fun x => T.toReal64 (T.text x)
  | .array .real32 l => l.head?.bind fun x => T.toReal64 (T.text x)
  | _ => none

/-- The type of a value. -/
def ValueOf.type {V : Type} : ValueOf R V → ValueType
  | .single t _ => t
  | .array t _ => t

/-- The operand that a value stands for. Embedded instances stand for none. -/
def operandOf (v : ValueOf R (NestedValue R n)) : Option (WQLValue R) :=
  match ValueOf.type v with
  | .dateTime | .embeddedClass => some .null
  | .uint8 | .sint8 | .uint16 | .sint16 | .uint32 | .sint32 | .uint64 | .sint64 | .char16 =>
    (castToSint64 T v).map .integer
  | .string | .reference => some (.string (valueText T v))
  | .boolean =>
    match v with
    | .single .boolean b => some (.boolean (truthOf b))
    | _ => none
  | .real32 | .real64 => (castToReal64 T v).map .double
  | .embeddedInstance => none

/-- `getValueAux` -/
def getValueAux : (n : ℕ) → INSTData (NestedValue R n) → List ByteStr → Option (WQLValue R)
  | _, _, [] => none
  | 0, ci, x :: _ => (ci.getProperty x).map fun _ => .null
  | n + 1, ci, x :: xs => do
    let p ← ci.getProperty x
    match p.cimValue with
    | none => some .null
    | some (ValueOf.single .embeddedInstance embed) => getValueAux n embed xs
    | some v => operandOf T (n := n) v

end Values

/-! ### Classes -/

/-- The superclasses of the classes of a namespace, as `getClass` gives them for a name in any case;
an empty name means that there is none, and no name that `getClass` throws. -/
structure ClassTable where
  superClass : ByteStr → Option ByteStr
  rank : ByteStr → ℕ
  rank_congr : ∀ {c d}, equalsIgnoreCase c d → rank c = rank d
  rank_lt : ∀ {c p}, superClass c = some p → p ≠ [] → rank p < rank c
  noColon : ∀ {c p}, superClass c = some p → 58 ∉ p

/-- The loop of `classIsDerivedFrom`. -/
def derivedFromLoop (C : ClassTable) (className : ByteStr) : ℕ → ByteStr → Option Bool
  | 0, _ => none
  | fuel + 1, cur =>
    if cur = [] then some false
    else if equalsIgnoreCase cur className then some true
    else do
      let p ← C.superClass cur
      derivedFromLoop C className fuel p

/-- `classIsDerivedFrom`; there is no result if `getClass` throws. -/
def classIsDerivedFrom (C : ClassTable) (cls className : ByteStr) : Option Bool :=
  derivedFromLoop C className (C.rank cls + 2) cls

/-! ### Instances -/

section Source

variable {R : Type} (C : ClassTable)

/-- `String::tokenize` at periods. -/
def tokenize (s : ByteStr) : List ByteStr := (s.splitOn 46).filter (· ≠ [])

/-- `evaluateISAAux`; there is no result if the value of a property is `NULL`, or an array. -/
def evaluateISAAux (className : ByteStr) :
    (n : ℕ) → INSTData (NestedValue R n) → List ByteStr → Option Bool
  | _, ci, [] => classIsDerivedFrom C ci.owningClassName className
  | 0, ci, x :: _ => if (ci.getProperty x).isSome then none else some false
  | n + 1, ci, x :: xs =>
    match ci.getProperty x with
    | none => some false
    | some p =>
      match p.cimValue with
      | none => none
      | some (ValueOf.single .embeddedInstance embed) => evaluateISAAux className n embed xs
      | some (ValueOf.array .embeddedInstance _) => none
      | some _ => some false

/-- `WQLInstancePropertySource`. The name of the class may come before that of the property: in any
case for `getValue`, and as it is for `evaluateISA`. -/
def instanceSource (T : Texts R) {n : ℕ} (ci : INSTData (NestedValue R n)) : PropertySource R where
  getValue propertyName :=
    match tokenize propertyName with
    | [] => none
    | x :: xs => getValueAux T n ci (if equalsIgnoreCase x ci.owningClassName then xs else x :: xs)
  evaluateISA propertyName className :=
    match tokenize propertyName with
    | [] => some false
    | x :: xs => evaluateISAAux C className n ci (if x = ci.owningClassName then xs else x :: xs)

end Source

end Wql

end OpenWbem
