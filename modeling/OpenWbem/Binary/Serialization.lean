import OpenWbem.Cim.Data

/-!
# The binary format

The functions `writeObject` and `readObject` of all objects. An object is its signature, a byte, and
its fields one after the other. Some signatures are followed by the version of the format.

The functions for objects have as a parameter the function for the values in them. `writeValue` and
`readValue` tie the knot, level by level.

## Main definitions

* `writeProperty`, `readProperty`, `writeClass`, `readClass` and so on — the objects.
* `writeValue`, `readValue` — values.
-/

namespace OpenWbem.Binary

open Prog Reader BigEndian Blocxx UInt8

/-! ### Signatures -/

/-- The byte of a signature. -/
def sig (c : Char) : UInt8 := ofNat c.toNat

/-- `BinarySerialization::read` of a byte. -/
def readByte : Reader ReadError UInt8 := readNum .io 1 ofNat

/-- `CIMBase::readSig`; `BinarySerialization::verifySignature` does the same. -/
def readSig (expected : UInt8) : Reader ReadError Unit := do
  let ch ← readByte
  if ch = expected then pure ⟨⟩ else throw .badSignature

/-- `CIMBase::readSig`, for objects with versions. -/
def readVersion (expected verSig : UInt8) (maxVersion : UInt32) : Reader ReadError UInt32 := do
  let ch ← readByte
  if ch = expected then pure 0
  else if ch = verSig then do
    let version ← readLen .io
    if maxVersion < version then throw .badSignature else pure version
  else throw .badSignature

/-- `CIMBase::writeSig`, for objects with versions. -/
def writeVersion (verSig : UInt8) (version : UInt32) : List UInt8 := verSig :: writeLen version

/-! ### Lists and optional parts -/

section

variable {α : Type}

/-- `BinarySerialization::writeArray` -/
def writeArray (write : α → List UInt8) (l : List α) : List UInt8 :=
  writeLen (UInt32.ofNat l.length) ++ l.flatMap write

/-- `BinarySerialization::readArray` -/
def readArray (read : Reader ReadError α) : Reader ReadError (List α) := do
  let len ← readLen .io
  replicateM read len.toNat

variable (R : Type) [Blocxx R]

/-- A value that may be null, behind a truth value that says whether it is there. -/
def writeOption (write : α → List UInt8) : Option α → List UInt8
  | some v => writeBool R true ++ write v
  | none => writeBool R false

/-- A string that is there in some versions of the format only. -/
def readStringIf (p : Prop) [Decidable p] : Reader ReadError ByteStr :=
  if p then readString R else pure []

/-- Read a value that may be null. -/
def readOption (read : Reader ReadError α) : Reader ReadError (Option α) := do
  let isValue ← readBool R
  if isValue then do
    let v ← read
    pure (some v)
  else pure none

end

/-! ### Objects -/

section Objects

variable (R : Type) [Blocxx R] {V : Type} (write : V → List UInt8) (read : Reader ReadError V)

/-- `CIMDataType::writeObject` -/
def writeDataType (d : DTData) : List UInt8 :=
  [sig 'D'] ++ writeLen d.type ++ writeLen d.numberOfElements.toUInt32 ++
    writeLen d.sizeRange.toUInt32 ++ writeString R d.reference

/-- `CIMDataType::readObject` -/
def readDataType : Reader ReadError DTData := do
  readSig (sig 'D')
  let type ← readLen .io
  let numberOfElements ← readLen .io
  let sizeRange ← readLen .io
  let reference ← readString R
  pure ⟨type, numberOfElements.toInt32, sizeRange.toInt32, reference⟩

/-- `CIMFlavor::writeObject` -/
def writeFlavor (flavor : Int32) : List UInt8 := writeLen flavor.toUInt32

/-- `CIMFlavor::readObject` -/
def readFlavor : Reader ReadError Int32 := do
  let flavor ← readLen .io
  pure flavor.toInt32

/-- `CIMQualifierType::writeObject`; a scope is written as its number. -/
def writeQualifierType (q : QUALTData V) : List UInt8 :=
  [sig 'T'] ++ writeString R q.name ++ writeDataType R q.dataType ++
    writeArray writeLen q.scope ++ writeArray writeFlavor q.flavor ++
    writeOption R write q.defaultValue

/-- `CIMQualifierType::readObject` -/
def readQualifierType : Reader ReadError (QUALTData V) := do
  readSig (sig 'T')
  let name ← readString R
  let dataType ← readDataType R
  let scope ← readArray (readLen .io)
  let flavor ← readArray readFlavor
  let defaultValue ← readOption R read
  pure ⟨name, dataType, scope, flavor, defaultValue⟩

/-- `CIMQualifier::writeObject`. The default value of the type is looked up where there is no value,
and is not written. -/
def writeQualifier (q : QUALData V) : List UInt8 :=
  writeVersion (sig 'q') 1 ++ writeString R q.name ++ writeOption R write q.qualifierValue ++
    writeQualifierType R write q.qualifierType ++ writeBool R q.propagated ++
    writeArray writeFlavor q.flavors ++ writeString R q.language

/-- `CIMQualifier::readObject` -/
def readQualifier : Reader ReadError (QUALData V) := do
  let version ← readVersion (sig 'Q') (sig 'q') 1
  let name ← readString R
  let qualifierValue ← readOption R read
  let qualifierType ← readQualifierType R read
  let propagated ← readBool R
  let flavors ← readArray readFlavor
  let language ← readStringIf R (0 < version)
  pure ⟨name, qualifierValue, qualifierType, propagated, flavors, language⟩

/-- `CIMProperty::writeObject` -/
def writeProperty (p : PROPData V) : List UInt8 :=
  [sig 'R'] ++ writeString R p.name ++ writeString R p.override ++
    writeString R p.originClass ++ writeDataType R p.propertyDataType ++
    writeLen p.sizeDataType.toUInt32 ++ writeBool R p.propagated ++
    writeArray (writeQualifier R write) p.qualifiers ++ writeOption R write p.cimValue

/-- `CIMProperty::readObject` -/
def readProperty : Reader ReadError (PROPData V) := do
  readSig (sig 'R')
  let name ← readString R
  let override ← readString R
  let originClass ← readString R
  let propertyDataType ← readDataType R
  let sizeDataType ← readLen .io
  let propagated ← readBool R
  let qualifiers ← readArray (readQualifier R read)
  let cimValue ← readOption R read
  pure ⟨name, qualifiers, propertyDataType, sizeDataType.toInt32, override, originClass, cimValue,
    propagated⟩

/-- `CIMParameter::writeObject` -/
def writeParameter (p : PARMData V) : List UInt8 :=
  [sig 'P'] ++ writeString R p.name ++ writeDataType R p.dataType ++
    writeArray (writeQualifier R write) p.qualifiers

/-- `CIMParameter::readObject` -/
def readParameter : Reader ReadError (PARMData V) := do
  readSig (sig 'P')
  let name ← readString R
  let dataType ← readDataType R
  let qualifiers ← readArray (readQualifier R read)
  pure ⟨name, dataType, qualifiers⟩

/-- `CIMMethod::writeObject` -/
def writeMethod (m : METHData V) : List UInt8 :=
  [sig 'M'] ++ writeString R m.name ++ writeDataType R m.returnDatatype ++
    writeArray (writeQualifier R write) m.qualifiers ++
    writeArray (writeParameter R write) m.parameters ++ writeString R m.originClass ++
    writeString R m.override ++ writeBool R m.propagated

/-- `CIMMethod::readObject` -/
def readMethod : Reader ReadError (METHData V) := do
  readSig (sig 'M')
  let name ← readString R
  let returnDatatype ← readDataType R
  let qualifiers ← readArray (readQualifier R read)
  let parameters ← readArray (readParameter R read)
  let originClass ← readString R
  let override ← readString R
  let propagated ← readBool R
  pure ⟨name, returnDatatype, qualifiers, parameters, originClass, override, propagated⟩

/-- `CIMClass::writeObject`; the current version is written like the one without version. -/
def writeClass (c : CLSData V) : List UInt8 :=
  [sig 'C'] ++ writeString R c.name ++ writeString R c.parentClassName ++
    writeBool R c.associationFlag ++ writeBool R c.isKeyed ++
    writeArray (writeQualifier R write) c.qualifiers ++
    writeArray (writeProperty R write) c.properties ++ writeArray (writeMethod R write) c.methods

/-- `CIMClass::readObject`; version 1 has a language, which is dropped. -/
def readClass : Reader ReadError (CLSData V) := do
  let version ← readVersion (sig 'C') (sig 'c') 2
  let name ← readString R
  let parentClassName ← readString R
  let associationFlag ← readBool R
  let isKeyed ← readBool R
  let qualifiers ← readArray (readQualifier R read)
  let properties ← readArray (readProperty R read)
  let methods ← readArray (readMethod R read)
  let _ ← readStringIf R (version = 1)
  pure ⟨name, parentClassName, qualifiers, properties, methods, associationFlag, isKeyed⟩

/-- `CIMInstance::writeObject` -/
def writeInstance (i : INSTData V) : List UInt8 :=
  writeVersion (sig 'i') 2 ++ writeString R i.owningClassName ++
    writeArray (writeProperty R write) i.keys ++ writeArray (writeProperty R write) i.properties ++
    writeArray (writeQualifier R write) i.qualifiers ++ writeString R i.language ++
    writeString R i.nameSpace

/-- `CIMInstance::readObject` -/
def readInstance : Reader ReadError (INSTData V) := do
  let version ← readVersion (sig 'I') (sig 'i') 2
  let owningClassName ← readString R
  let keys ← readArray (readProperty R read)
  let properties ← readArray (readProperty R read)
  let qualifiers ← readArray (readQualifier R read)
  let language ← readStringIf R (0 < version)
  let nameSpace ← readStringIf R (1 < version)
  pure ⟨nameSpace, owningClassName, keys, properties, qualifiers, language⟩

/-- `CIMUrl::writeObject` -/
def writeUrl (u : URLData) : List UInt8 := [sig 'U'] ++ writeString R u.spec

/-- `CIMUrl::readObject` -/
def readUrl : Reader ReadError URLData := do
  readSig (sig 'U')
  let spec ← readString R
  pure (.ofSpec R spec)

/-- `CIMNameSpace::writeObject` -/
def writeNameSpace (ns : NSData) : List UInt8 :=
  [sig 'N'] ++ writeString R ns.nameSpace ++ writeUrl R ns.url

/-- `CIMNameSpace::readObject` -/
def readNameSpace : Reader ReadError NSData := do
  readSig (sig 'N')
  let nameSpace ← readString R
  let url ← readUrl R
  pure ⟨nameSpace, url⟩

/-- `CIMObjectPath::writeObject` -/
def writeObjectPath (p : OPData V) : List UInt8 :=
  [sig 'O'] ++ writeNameSpace R p.nameSpace ++ writeString R p.objectName ++
    writeArray (writeProperty R write) p.keys

/-- `CIMObjectPath::readObject` -/
def readObjectPath : Reader ReadError (OPData V) := do
  readSig (sig 'O')
  let nameSpace ← readNameSpace R
  let objectName ← readString R
  let keys ← readArray (readProperty R read)
  pure ⟨nameSpace, objectName, keys⟩

/-- `CIMDateTime::writeObject` -/
def writeDateTime (d : DateTimeData) : List UInt8 :=
  encode 2 d.year.toNat ++ encode 1 d.month.toNat ++ encode 4 d.days.toNat ++
    encode 1 d.hours.toNat ++ encode 1 d.minutes.toNat ++ encode 1 d.seconds.toNat ++
    encode 4 d.microSeconds.toNat ++ encode 2 d.utc.toUInt16.toNat ++ encode 1 d.isInterval.toNat

/-- `CIMDateTime::readObject` -/
def readDateTime : Reader ReadError DateTimeData := do
  let year ← readNum .io 2 UInt16.ofNat
  let month ← readByte
  let days ← readNum .io 4 UInt32.ofNat
  let hours ← readByte
  let minutes ← readByte
  let seconds ← readByte
  let microSeconds ← readNum .io 4 UInt32.ofNat
  let utc ← readNum .io 2 UInt16.ofNat
  let isInterval ← readByte
  pure ⟨year, month, days, hours, minutes, seconds, microSeconds, utc.toInt16, isInterval⟩

/-! ### Values -/

/-- `readReal32Value` and `readReal64Value` -/
def readReal (toReal : ByteStr → Option R) : Reader ReadError R := do
  let text ← readString R
  match toReal text with
  | some v => pure v
  | none => throw .conversion

/-- A value of a type, alone or in an array: `writeValue`, `writeArray`, `writeRealValue` and
`writeObject`. -/
def writePayload : (t : ValueType) → t.Payload R V → List UInt8
  | .boolean, v => encode 1 (toNat v)
  | .uint8, v => encode 1 (toNat v)
  | .sint8, v => encode 1 (Int8.toUInt8 v).toNat
  | .uint16, v => encode 2 (UInt16.toNat v)
  | .sint16, v => encode 2 (Int16.toUInt16 v).toNat
  | .uint32, v => encode 4 (UInt32.toNat v)
  | .sint32, v => encode 4 (Int32.toUInt32 v).toNat
  | .uint64, v => encode 8 (UInt64.toNat v)
  | .sint64, v => encode 8 (Int64.toUInt64 v).toNat
  | .real32, v => writeString R (realText (R := R) v)
  | .real64, v => writeString R (realText (R := R) v)
  | .char16, v => writeChar16 R v
  | .string, v => writeString R v
  | .dateTime, v => writeDateTime v
  | .reference, v => writeObjectPath R write v
  | .embeddedClass, v => writeClass R write v
  | .embeddedInstance, v => writeInstance R write v

/-- A value of a type, alone or in an array: `readValue`, `readArray`, `readReal32Value`,
`readReal64Value` and `readObject`. -/
def readPayload : (t : ValueType) → Reader ReadError (t.Payload R V)
  | .boolean => readNum .io 1 ofNat
  | .uint8 => readNum .io 1 ofNat
  | .sint8 => readNum .io 1 fun n => (ofNat n).toInt8
  | .uint16 => readNum .io 2 UInt16.ofNat
  | .sint16 => readNum .io 2 fun n => (UInt16.ofNat n).toInt16
  | .uint32 => readNum .io 4 UInt32.ofNat
  | .sint32 => readNum .io 4 fun n => (UInt32.ofNat n).toInt32
  | .uint64 => readNum .io 8 UInt64.ofNat
  | .sint64 => readNum .io 8 fun n => (UInt64.ofNat n).toInt64
  | .real32 => readReal R toReal32
  | .real64 => readReal R toReal64
  | .char16 => readChar16 R
  | .string => readString R
  | .dateTime => readDateTime
  | .reference => readObjectPath R read
  | .embeddedClass => readClass R read
  | .embeddedInstance => readInstance R read

/-- `CIMValueImpl::writeObject` -/
def writeValueOf : ValueOf R V → List UInt8
  | .single t v =>
    [sig 'V'] ++ writeLen t.code ++ writeBool R false ++ writePayload R write t v
  | .array t l =>
    [sig 'V'] ++ writeLen t.code ++ writeBool R true ++ writeArray (writePayload R write t) l

/-- `CIMValueImpl::readObject` -/
def readValueOf : Reader ReadError (ValueOf R V) := do
  readSig (sig 'V')
  let type ← readLen .io
  let isArray ← readBool R
  match ValueType.ofCode type with
  | none => throw .assertion
  | some t =>
    if isArray then do
      let l ← readArray (readPayload R read t)
      pure (.array t l)
    else do
      let v ← readPayload R read t
      pure (.single t v)

end Objects

variable (R : Type) [Blocxx R]

/-- `CIMValue::writeObject` -/
def writeValue : (n : ℕ) → NestedValue R n → List UInt8
  | 0, v => Empty.elim v
  | n + 1, v => writeValueOf R (writeValue n) v

/-- `CIMValue::readObject`, for values that are nested less than `n` levels deep. -/
def readValue : (n : ℕ) → Reader ReadError (NestedValue R n)
  | 0 => throw .tooDeep
  | n + 1 => readValueOf R (readValue n)

end OpenWbem.Binary
