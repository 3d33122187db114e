import OpenWbem.Cim.Url

/-!
# The data of CIM objects

All that the objects of the object model have: values, qualifiers, properties, methods, classes,
instances and object paths, under the names that the source has for their data. The objects are
generic in the type `V` of the values in them.

Values and objects are nested: a value may be an object path, a class or an instance, which has
properties, which have values. `NestedValue R n` is the type of the values that are nested less than
`n` levels deep. So there is no value at all at level `0`, and the objects over `NestedValue R 0`
are those without values.

## Main definitions

* `DTData`, `QUALTData`, `QUALData`, `PROPData`, `PARMData`, `METHData`, `CLSData`, `INSTData`,
  `NSData`, `OPData` — the objects.
* `ValueType`, `ValueType.Payload` — the types of values.
* `ValueOf`, `NestedValue` — values.
-/

namespace OpenWbem

/-! ### Objects -/

/-- `CIMDataType::DTData`; the type is the number that the enumeration gives to it. -/
structure DTData where
  type : UInt32
  numberOfElements : Int32
  sizeRange : Int32
  reference : ByteStr
  deriving DecidableEq

/-- `CIMQualifierType::QUALTData`; scopes and flavors are the numbers that the enumerations give to
them. -/
structure QUALTData (V : Type) where
  name : ByteStr
  dataType : DTData
  scope : List UInt32
  flavor : List Int32
  defaultValue : Option V
  deriving DecidableEq

/-- `CIMQualifier::QUALData` -/
structure QUALData (V : Type) where
  name : ByteStr
  qualifierValue : Option V
  qualifierType : QUALTData V
  propagated : Bool
  flavors : List Int32
  language : ByteStr
  deriving DecidableEq

/-- `CIMProperty::PROPData` -/
structure PROPData (V : Type) where
  name : ByteStr
  qualifiers : List (QUALData V)
  propertyDataType : DTData
  sizeDataType : Int32
  override : ByteStr
  originClass : ByteStr
  cimValue : Option V
  propagated : Bool
  deriving DecidableEq

/-- `CIMParameter::PARMData` -/
structure PARMData (V : Type) where
  name : ByteStr
  dataType : DTData
  qualifiers : List (QUALData V)
  deriving DecidableEq

/-- `CIMMethod::METHData` -/
structure METHData (V : Type) where
  name : ByteStr
  returnDatatype : DTData
  qualifiers : List (QUALData V)
  parameters : List (PARMData V)
  originClass : ByteStr
  override : ByteStr
  propagated : Bool
  deriving DecidableEq

/-- `CIMClass::CLSData` -/
structure CLSData (V : Type) where
  name : ByteStr
  parentClassName : ByteStr
  qualifiers : List (QUALData V)
  properties : List (PROPData V)
  methods : List (METHData V)
  associationFlag : Bool
  isKeyed : Bool
  deriving DecidableEq

/-- `CIMInstance::INSTData` -/
structure INSTData (V : Type) where
  nameSpace : ByteStr
  owningClassName : ByteStr
  keys : List (PROPData V)
  properties : List (PROPData V)
  qualifiers : List (QUALData V)
  language : ByteStr
  deriving DecidableEq

/-- `CIMNameSpace::NSData` -/
structure NSData where
  nameSpace : ByteStr
  url : URLData
  deriving DecidableEq

/-- `CIMObjectPath::OPData` -/
structure OPData (V : Type) where
  nameSpace : NSData
  objectName : ByteStr
  keys : List (PROPData V)
  deriving DecidableEq

/-- `CIMDateTime::DateTimeData` -/
structure DateTimeData where
  year : UInt16
  month : UInt8
  days : UInt32
  hours : UInt8
  minutes : UInt8
  seconds : UInt8
  microSeconds : UInt32
  utc : Int16
  isInterval : UInt8
  deriving DecidableEq

/-! ### Values -/

/-- The types of `CIMDataType::Type` that values have. -/
inductive ValueType where
  | uint8
  | sint8
  | uint16
  | sint16
  | uint32
  | sint32
  | uint64
  | sint64
  | string
  | boolean
  | real32
  | real64
  | dateTime
  | char16
  | reference
  | embeddedClass
  | embeddedInstance
  deriving DecidableEq

namespace ValueType

/-- The number that the enumeration gives to a type. -/
def code : ValueType → UInt32
  | uint8 => 1
  | sint8 => 2
  | uint16 => 3
  | sint16 => 4
  | uint32 => 5
  | sint32 => 6
  | uint64 => 7
  | sint64 => 8
  | string => 9
  | boolean => 10
  | real32 => 11
  | real64 => 12
  | dateTime => 13
  | char16 => 14
  | reference => 15
  | embeddedClass => 16
  | embeddedInstance => 17

/-- All types. -/
def all : List ValueType :=
  [uint8, sint8, uint16, sint16, uint32, sint32, uint64, sint64, string, boolean, real32, real64,
    dateTime, char16, reference, embeddedClass, embeddedInstance]

/-- The type with a number. -/
def ofCode (code : UInt32) : Option ValueType := all.find? fun t => t.code = code

/-- Each type has its own code. -/
lemma ofCode_code (t : ValueType) : ofCode t.code = some t := by cases t <;> decide

/-- What a value of a type consists of. The type `R` is that of floating point numbers, and `V` that
of the values in objects. Truth values are stored as bytes. -/
def Payload (R V : Type) : ValueType → Type
  | boolean => UInt8
  | uint8 => UInt8
  | sint8 => Int8
  | uint16 => UInt16
  | sint16 => Int16
  | uint32 => UInt32
  | sint32 => Int32
  | uint64 => UInt64
  | sint64 => Int64
  | real32 => R
  | real64 => R
  | char16 => UInt16
  | string => ByteStr
  | dateTime => DateTimeData
  | reference => OPData V
  | embeddedClass => CLSData V
  | embeddedInstance => INSTData V

end ValueType

/-- `CIMValue::CIMValueImpl`, with values in `V` in the objects that it has. -/
inductive ValueOf (R V : Type) where
  | single (t : ValueType) (v : t.Payload R V)
  | array (t : ValueType) (l : List (t.Payload R V))

/-- `CIMValue`: values that are nested less than `n` levels deep. -/
def NestedValue (R : Type) : ℕ → Type
  | 0 => Empty
  | n + 1 => ValueOf R (NestedValue R n)

end OpenWbem
