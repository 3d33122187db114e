import OpenWbem.Binary.Serialization

/-!
# Objects are read back

What `writeObject` has written for an object, `readObject` reads: exactly these bytes, whatever
follows them, and the object is the one that was written. Only the URLs in object paths are not the
same, since the components of a URL are taken from its text and the text is made again from them.

The readers have a bound on the levels of nesting, and every bound that is large enough will do. So
an object at level `n` is read at all levels `m` with `n ≤ m`.

## Main definitions

* `OPData.Fits`, `CLSData.Fits`, `INSTData.Fits` and so on — strings and lists are shorter than
  `2 ^ 32`, and there are no floating point numbers.
* `OPData.map`, `CLSData.map`, `INSTData.map` and so on — an object with other values and URLs.
* `ObjKind`, `ObjKind.withUrls` — the kinds of objects, and an object with other URLs.

## Main results

* `Binary.roundTrips_value` — values are read back.
* `Binary.reads_writeObject` — objects of all kinds are read back.
-/

namespace OpenWbem

open Prog Reader BigEndian Binary ReadError List

/-! ### Objects that fit into the format -/

section Fits

variable {α R V : Type} (P : V → Prop)

/-- The length of the list can be written. -/
def Short (l : List α) : Prop := l.length < 2 ^ 32

/-- The length of the list can be written, and the elements fit. -/
def FitsList (Q : α → Prop) (l : List α) : Prop := Short l ∧ ∀ x ∈ l, Q x

/-- The reference class fits. -/
def DTData.Fits (d : DTData) : Prop := Short d.reference

/-- All parts of a qualifier type fit. -/
structure QUALTData.Fits (q : QUALTData V) : Prop where
  name : Short q.name
  dataType : q.dataType.Fits
  scope : Short q.scope
  flavor : Short q.flavor
  defaultValue : ∀ v ∈ q.defaultValue, P v

/-- All parts of a qualifier fit. -/
structure QUALData.Fits (q : QUALData V) : Prop where
  name : Short q.name
  qualifierValue : ∀ v ∈ q.qualifierValue, P v
  qualifierType : q.qualifierType.Fits P
  flavors : Short q.flavors
  language : Short q.language

/-- All parts of a property fit. -/
structure PROPData.Fits (p : PROPData V) : Prop where
  name : Short p.name
  qualifiers : FitsList (QUALData.Fits P) p.qualifiers
  propertyDataType : p.propertyDataType.Fits
  override : Short p.override
  originClass : Short p.originClass
  cimValue : ∀ v ∈ p.cimValue, P v

/-- All parts of a parameter fit. -/
structure PARMData.Fits (p : PARMData V) : Prop where
  name : Short p.name
  dataType : p.dataType.Fits
  qualifiers : FitsList (QUALData.Fits P) p.qualifiers

/-- All parts of a method fit. -/
structure METHData.Fits (m : METHData V) : Prop where
  name : Short m.name
  returnDatatype : m.returnDatatype.Fits
  qualifiers : FitsList (QUALData.Fits P) m.qualifiers
  parameters : FitsList (PARMData.Fits P) m.parameters
  originClass : Short m.originClass
  override : Short m.override

/-- All parts of a class fit. -/
structure CLSData.Fits (c : CLSData V) : Prop where
  name : Short c.name
  parentClassName : Short c.parentClassName
  qualifiers : FitsList (QUALData.Fits P) c.qualifiers
  properties : FitsList (PROPData.Fits P) c.properties
  methods : FitsList (METHData.Fits P) c.methods

/-- All parts of an instance fit. -/
structure INSTData.Fits (i : INSTData V) : Prop where
  nameSpace : Short i.nameSpace
  owningClassName : Short i.owningClassName
  keys : FitsList (PROPData.Fits P) i.keys
  properties : FitsList (PROPData.Fits P) i.properties
  qualifiers : FitsList (QUALData.Fits P) i.qualifiers
  language : Short i.language

/-- All parts of a namespace fit. -/
structure NSData.Fits (ns : NSData) : Prop where
  nameSpace : Short ns.nameSpace
  spec : Short ns.url.spec

/-- All parts of an object path fit. -/
structure OPData.Fits (p : OPData V) : Prop where
  nameSpace : p.nameSpace.Fits
  objectName : Short p.objectName
  keys : FitsList (PROPData.Fits P) p.keys

/-- The strings and objects of a value fit, and it is not a floating point number. -/
def ValueType.PayloadFits : (t : ValueType) → t.Payload R V → Prop
  | real32, _ => False
  | real64, _ => False
  | string, s => Short (α := UInt8) s
  | reference, p => OPData.Fits P p
  | embeddedClass, c => CLSData.Fits P c
  | embeddedInstance, i => INSTData.Fits P i
  | _, _ => True

/-- A value or an array of values that fit. -/
def ValueOf.Fits : ValueOf R V → Prop
  | single t v => t.PayloadFits P v
  | array t l => FitsList (t.PayloadFits P) l

end Fits

/-- All parts of a value fit, at all levels. -/
def NestedValue.Fits (R : Type) : (n : ℕ) → NestedValue R n → Prop
  | 0, _ => True
  | n + 1, v => ValueOf.Fits (NestedValue.Fits R n) v

/-! ### Objects with other values and URLs -/

section Map

variable {R V W : Type} (r : URLData → URLData) (f : V → W)

/-- The qualifier type with other values. -/
def QUALTData.map (q : QUALTData V) : QUALTData W :=
  ⟨q.name, q.dataType, q.scope, q.flavor, q.defaultValue.map f⟩

/-- The qualifier with other values. -/
def QUALData.map (q : QUALData V) : QUALData W :=
  ⟨q.name, q.qualifierValue.map f, q.qualifierType.map f, q.propagated, q.flavors, q.language⟩

/-- The property with other values. -/
def PROPData.map (p : PROPData V) : PROPData W :=
  ⟨p.name, p.qualifiers.map (.map f), p.propertyDataType, p.sizeDataType, p.override, p.originClass,
    p.cimValue.map f, p.propagated⟩

/-- The parameter with other values. -/
def PARMData.map (p : PARMData V) : PARMData W :=
  ⟨p.name, p.dataType, p.qualifiers.map (.map f)⟩

/-- The method with other values. -/
def METHData.map (m : METHData V) : METHData W :=
  ⟨m.name, m.returnDatatype, m.qualifiers.map (.map f), m.parameters.map (.map f), m.originClass,
    m.override, m.propagated⟩

/-- The class with other values. -/
def CLSData.map (c : CLSData V) : CLSData W :=
  ⟨c.name, c.parentClassName, c.qualifiers.map (.map f), c.properties.map (.map f),
    c.methods.map (.map f), c.associationFlag, c.isKeyed⟩

/-- The instance with other values. -/
def INSTData.map (i : INSTData V) : INSTData W :=
  ⟨i.nameSpace, i.owningClassName, i.keys.map (.map f), i.properties.map (.map f),
    i.qualifiers.map (.map f), i.language⟩

/-- The namespace with another URL. -/
def NSData.map (ns : NSData) : NSData := ⟨ns.nameSpace, r ns.url⟩

/-- The object path with another URL and other values. -/
def OPData.map (p : OPData V) : OPData W :=
  ⟨p.nameSpace.map r, p.objectName, p.keys.map (.map f)⟩

/-- The value of a type with other URLs and other values in it. -/
def ValueType.mapPayload : (t : ValueType) → t.Payload R V → t.Payload R W
  | boolean, v => v
  | uint8, v => v
  | sint8, v => v
  | uint16, v => v
  | sint16, v => v
  | uint32, v => v
  | sint32, v => v
  | uint64, v => v
  | sint64, v => v
  | real32, v => v
  | real64, v => v
  | char16, v => v
  | string, v => v
  | dateTime, v => v
  | reference, v => OPData.map r f v
  | embeddedClass, v => CLSData.map f v
  | embeddedInstance, v => INSTData.map f v

/-- The value with other URLs and other values in it. -/
def ValueOf.map : ValueOf R V → ValueOf R W
  | single t v => .single t (t.mapPayload r f v)
  | array t l => .array t (l.map (t.mapPayload r f))

end Map

/-- The value with other URLs, at a higher level. -/
def NestedValue.withUrls {R : Type} (r : URLData → URLData) :
    (n m : ℕ) → n ≤ m → NestedValue R n → NestedValue R m
  | 0, _, _, v => Empty.elim v
  | _ + 1, 0, h, _ => absurd h (Nat.not_succ_le_zero _)
  | n + 1, m + 1, h, v =>
    ValueOf.map r (NestedValue.withUrls r n m (Nat.le_of_succ_le_succ h)) v

namespace Binary

variable {R : Type} [Blocxx R]

/-! ### Signatures, lists and optional parts -/

/-- Reading back a byte. -/
lemma reads_byte (c : UInt8) : Reads readByte [c] c := by
  have h := reads_num (e := io) (k := 1) (f := UInt8.ofNat) c.toNat_lt
  rwa [UInt8.ofNat_toNat, show encode 1 c.toNat = [c] by simp [encode]] at h

/-- Reading back a signature. -/
lemma reads_sig (c : UInt8) : Reads (readSig c) [c] ⟨⟩ := by
  intro t
  rw [readSig, exec_bind_of_ok (reads_byte c t), if_pos rfl, exec_pure]

/-- The signature without a version. -/
lemma reads_version_zero (c v : UInt8) (maxVersion : UInt32) :
    Reads (readVersion c v maxVersion) [c] 0 := by
  intro t
  rw [readVersion, exec_bind_of_ok (reads_byte c t), if_pos rfl, exec_pure]

/-- Reading back a version. -/
lemma reads_version {c v : UInt8} {version maxVersion : UInt32} (hne : v ≠ c)
    (hle : ¬maxVersion < version) :
    Reads (readVersion c v maxVersion) (writeVersion v version) version := by
  intro t
  rw [readVersion, writeVersion, ← singleton_append, append_assoc,
    exec_bind_of_ok (reads_byte v _), if_neg hne, if_pos rfl,
    exec_bind_of_ok (reads_len io version t), if_neg hle, exec_pure]

section

variable {α β : Type} {P : α → Prop} {write : α → List UInt8} {read : Reader ReadError β}
    {f : α → β}

/-- Arrays. -/
lemma roundTrips_array (h : RoundTrips P write read f) :
    RoundTrips (FitsList P) (writeArray write) (readArray read) (map f) := by
  intro l hl
  have hlen : (UInt32.ofNat l.length).toNat = l.length := UInt32.toNat_ofNat_of_lt hl.1
  have hread := Reads.replicateM fun x hx => h x (hl.2 x hx)
  rw [← hlen] at hread
  exact (reads_len io _).bind hread

/-- A list of numbers or other parts that are read back as they were. -/
lemma reads_array_id {read : Reader ReadError α} {l : List α}
    (h : ∀ x, Reads read (write x) x) (hl : Short l) :
    Reads (readArray read) (writeArray write l) l := by
  have hread := roundTrips_array (f := id) (fun x _ => h x) l ⟨hl, fun _ _ => trivial⟩
  rwa [map_id] at hread

/-- Optional parts. -/
lemma reads_option (hR : Blocxx.Faithful R) (h : RoundTrips P write read f) {o : Option α}
    (ho : ∀ v ∈ o, P v) : Reads (readOption R read) (writeOption R write o) (o.map f) := by
  cases o with
  | none =>
    intro t
    rw [readOption, writeOption, exec_bind_of_ok (hR.bool false t)]
    rfl
  | some v =>
    refine (hR.bool true).bind ?_
    exact (h v (ho v rfl)).bind_pure

end

/-- Strings of some versions. -/
lemma reads_stringIf (hR : Blocxx.Faithful R) {p : Prop} [Decidable p] (hp : p) {s : ByteStr}
    (hs : Short s) : Reads (readStringIf R p) (Blocxx.writeString R s) s := by
  rw [readStringIf, if_pos hp]
  exact hR.string s hs

/-! ### Numbers and dates -/

/-- One byte. -/
lemma reads_uint8 (v : UInt8) : Reads (readNum io 1 UInt8.ofNat) (encode 1 v.toNat) v := by
  have h := reads_num (e := io) (k := 1) (f := UInt8.ofNat) v.toNat_lt
  rwa [UInt8.ofNat_toNat] at h

/-- Two bytes. -/
lemma reads_uint16 (v : UInt16) : Reads (readNum io 2 UInt16.ofNat) (encode 2 v.toNat) v := by
  have h := reads_num (e := io) (k := 2) (f := UInt16.ofNat) v.toNat_lt
  rwa [UInt16.ofNat_toNat] at h

/-- Four bytes. -/
lemma reads_uint32 (v : UInt32) : Reads (readNum io 4 UInt32.ofNat) (encode 4 v.toNat) v := by
  have h := reads_num (e := io) (k := 4) (f := UInt32.ofNat) v.toNat_lt
  rwa [UInt32.ofNat_toNat] at h

/-- Eight bytes. -/
lemma reads_uint64 (v : UInt64) : Reads (readNum io 8 UInt64.ofNat) (encode 8 v.toNat) v := by
  have h := reads_num (e := io) (k := 8) (f := UInt64.ofNat) v.toNat_lt
  rwa [UInt64.ofNat_toNat] at h

/-- Points in time. -/
lemma reads_dateTime (d : DateTimeData) : Reads readDateTime (writeDateTime d) d := by
  exact (reads_uint16 _).bind <| (reads_uint8 _).bind <| (reads_uint32 _).bind <|
    (reads_uint8 _).bind <| (reads_uint8 _).bind <| (reads_uint8 _).bind <| (reads_uint32 _).bind <|
    (reads_uint16 _).bind (reads_uint8 _).bind_pure

/-- A number is read back through a conversion. -/
lemma reads_signed {α β : Type} {k n : ℕ} {g : ℕ → α} {c : α → β} {v : α}
    (h : Reads (readNum io k g) (encode k n) v) :
    Reads (readNum io k fun n => c (g n)) (encode k n) (c v) := by
  intro t
  have ht := h t
  obtain ⟨l, s, hs, ht⟩ := exec_bind_ok ht
  cases ht
  exact exec_bind_of_ok hs

/-! ### Objects and values -/

section Objects

variable {V W : Type} {P : V → Prop} {write : V → List UInt8} {read : Reader ReadError W}
    {f : V → W}

/-- Data types. -/
lemma reads_dataType (hR : Blocxx.Faithful R) {d : DTData} (hd : d.Fits) :
    Reads (readDataType R) (writeDataType R d) d := by
  simp only [writeDataType, append_assoc]
  exact (reads_sig _).bind <| (reads_len io _).bind <| (reads_len io _).bind <|
    (reads_len io _).bind (hR.string _ hd).bind_pure

/-- Flavors. -/
lemma reads_flavor (flavor : Int32) : Reads readFlavor (writeFlavor flavor) flavor :=
  (reads_len io flavor.toUInt32).bind_pure

/-- The URL that is read where a URL was written. -/
def rereadUrl (R : Type) [Blocxx R] (u : URLData) : URLData := .ofSpec R u.spec

/-- Namespaces. -/
lemma reads_nameSpace (hR : Blocxx.Faithful R) {ns : NSData} (hns : ns.Fits) :
    Reads (readNameSpace R) (writeNameSpace R ns) (ns.map (rereadUrl R)) := by
  have hurl : Reads (readUrl R) (writeUrl R ns.url) (rereadUrl R ns.url) :=
    (reads_sig _).bind (hR.string _ hns.spec).bind_pure
  exact (reads_sig _).bind <| (hR.string _ hns.nameSpace).bind hurl.bind_pure

/-- The head of a value: its type, and whether it is an array. -/
lemma reads_valueOf {t : ValueType} {isArray : Bool} {b : List UInt8} {v : ValueOf R W}
    (hR : Blocxx.Faithful R)
    (h : Reads (if isArray then do
        let l ← readArray (readPayload R read t)
        Pure.pure (.array t l)
      else do
        let v ← readPayload R read t
        Pure.pure (.single t v)) b v) :
    Reads (readValueOf R read) ([sig 'V'] ++
      (writeLen t.code ++ (Blocxx.writeBool R isArray ++ b))) v := by
  refine (reads_sig _).bind <| (reads_len io _).bind <| (hR.bool _).bind ?_
  rw [ValueType.ofCode_code]
  exact h

variable (hR : Blocxx.Faithful R) (h : RoundTrips P write read f)

include hR h

/-- Qualifier types. -/
lemma roundTrips_qualifierType :
    RoundTrips (QUALTData.Fits P) (writeQualifierType R write) (readQualifierType R read)
      (QUALTData.map f) := by
  intro q hq
  simp only [writeQualifierType, append_assoc]
  exact (reads_sig _).bind <| (hR.string _ hq.name).bind <| (reads_dataType hR hq.dataType).bind <|
    (reads_array_id (reads_len io) hq.scope).bind <| (reads_array_id reads_flavor hq.flavor).bind
      (reads_option hR h hq.defaultValue).bind_pure

/-- Qualifiers. -/
lemma roundTrips_qualifier :
    RoundTrips (QUALData.Fits P) (writeQualifier R write) (readQualifier R read)
      (QUALData.map f) := by
  intro q hq
  simp only [writeQualifier, append_assoc]
  exact (reads_version (by decide) (by decide)).bind <| (hR.string _ hq.name).bind <|
    (reads_option hR h hq.qualifierValue).bind <|
    (roundTrips_qualifierType hR h _ hq.qualifierType).bind <| (hR.bool _).bind <|
    (reads_array_id reads_flavor hq.flavors).bind
      (reads_stringIf hR (by decide) hq.language).bind_pure

/-- Properties. -/
lemma roundTrips_property :
    RoundTrips (PROPData.Fits P) (writeProperty R write) (readProperty R read)
      (PROPData.map f) := by
  intro p hp
  simp only [writeProperty, append_assoc]
  exact (reads_sig _).bind <| (hR.string _ hp.name).bind <| (hR.string _ hp.override).bind <|
    (hR.string _ hp.originClass).bind <| (reads_dataType hR hp.propertyDataType).bind <|
    (reads_len io _).bind <| (hR.bool _).bind <|
    (roundTrips_array (roundTrips_qualifier hR h) _ hp.qualifiers).bind
      (reads_option hR h hp.cimValue).bind_pure

/-- Parameters. -/
lemma roundTrips_parameter :
    RoundTrips (PARMData.Fits P) (writeParameter R write) (readParameter R read)
      (PARMData.map f) := by
  intro p hp
  simp only [writeParameter, append_assoc]
  exact (reads_sig _).bind <| (hR.string _ hp.name).bind <| (reads_dataType hR hp.dataType).bind
    (roundTrips_array (roundTrips_qualifier hR h) _ hp.qualifiers).bind_pure

/-- Methods. -/
lemma roundTrips_method :
    RoundTrips (METHData.Fits P) (writeMethod R write) (readMethod R read) (METHData.map f) := by
  intro m hm
  simp only [writeMethod, append_assoc]
  exact (reads_sig _).bind <| (hR.string _ hm.name).bind <|
    (reads_dataType hR hm.returnDatatype).bind <|
    (roundTrips_array (roundTrips_qualifier hR h) _ hm.qualifiers).bind <|
    (roundTrips_array (roundTrips_parameter hR h) _ hm.parameters).bind <|
    (hR.string _ hm.originClass).bind <| (hR.string _ hm.override).bind (hR.bool _).bind_pure

/-- The last part of a class is the language, which this version does not have. -/
lemma roundTrips_class :
    RoundTrips (CLSData.Fits P) (writeClass R write) (readClass R read) (CLSData.map f) := by
  intro c hc
  simp only [writeClass, append_assoc]
  exact (reads_version_zero _ _ _).bind <| (hR.string _ hc.name).bind <|
    (hR.string _ hc.parentClassName).bind <| (hR.bool _).bind <| (hR.bool _).bind <|
    (roundTrips_array (roundTrips_qualifier hR h) _ hc.qualifiers).bind <|
    (roundTrips_array (roundTrips_property hR h) _ hc.properties).bind
      (roundTrips_array (roundTrips_method hR h) _ hc.methods).bind_pure

/-- Instances. -/
lemma roundTrips_instance :
    RoundTrips (INSTData.Fits P) (writeInstance R write) (readInstance R read)
      (INSTData.map f) := by
  intro i hi
  simp only [writeInstance, append_assoc]
  exact (reads_version (by decide) (by decide)).bind <| (hR.string _ hi.owningClassName).bind <|
    (roundTrips_array (roundTrips_property hR h) _ hi.keys).bind <|
    (roundTrips_array (roundTrips_property hR h) _ hi.properties).bind <|
    (roundTrips_array (roundTrips_qualifier hR h) _ hi.qualifiers).bind <|
    (reads_stringIf hR (by decide) hi.language).bind
      (reads_stringIf hR (by decide) hi.nameSpace).bind_pure

/-- Object paths. -/
lemma roundTrips_objectPath :
    RoundTrips (OPData.Fits P) (writeObjectPath R write) (readObjectPath R read)
      (OPData.map (rereadUrl R) f) := by
  intro p hp
  simp only [writeObjectPath, append_assoc]
  exact (reads_sig _).bind <| (reads_nameSpace hR hp.nameSpace).bind <|
    (hR.string _ hp.objectName).bind
      (roundTrips_array (roundTrips_property hR h) _ hp.keys).bind_pure

/-- The value of each type is read back, if the values in objects are. -/
lemma roundTrips_payload (t : ValueType) :
    RoundTrips (t.PayloadFits P) (writePayload R write t) (readPayload R read t)
      (t.mapPayload (rereadUrl R) f) := by
  intro v hv
  cases t with
  | boolean => exact reads_uint8 v
  | uint8 => exact reads_uint8 v
  | sint8 => exact reads_signed (reads_uint8 (Int8.toUInt8 v))
  | uint16 => exact reads_uint16 v
  | sint16 => exact reads_signed (reads_uint16 (Int16.toUInt16 v))
  | uint32 => exact reads_uint32 v
  | sint32 => exact reads_signed (reads_uint32 (Int32.toUInt32 v))
  | uint64 => exact reads_uint64 v
  | sint64 => exact reads_signed (reads_uint64 (Int64.toUInt64 v))
  | real32 => exact hv.elim
  | real64 => exact hv.elim
  | char16 => exact hR.char16 v
  | string => exact hR.string v hv
  | dateTime => exact reads_dateTime v
  | reference => exact roundTrips_objectPath hR h v hv
  | embeddedClass => exact roundTrips_class hR h v hv
  | embeddedInstance => exact roundTrips_instance hR h v hv

/-- Values, one level up. -/
lemma roundTrips_valueOf : RoundTrips (ValueOf.Fits P) (writeValueOf R write) (readValueOf R read)
      (ValueOf.map (rereadUrl R) f) := by
  intro v hv
  cases v with
  | single t v =>
    simp only [writeValueOf, append_assoc]
    exact reads_valueOf hR (roundTrips_payload hR h t v hv).bind_pure
  | array t l =>
    simp only [writeValueOf, append_assoc]
    exact reads_valueOf hR (roundTrips_array (roundTrips_payload hR h t) l hv).bind_pure

end Objects

/-- **Values are read back** at all levels that are high enough, by induction on the level. -/
lemma roundTrips_value (hR : Blocxx.Faithful R) {n m : ℕ} (hnm : n ≤ m) :
    RoundTrips (NestedValue.Fits R n) (writeValue R n) (readValue R m)
      (NestedValue.withUrls (rereadUrl R) n m hnm) := by
  induction n generalizing m with
  | zero =>
    intro v
    exact Empty.elim v
  | succ n ih =>
    cases m with
    | zero => exact absurd hnm (Nat.not_succ_le_zero n)
    | succ m => exact roundTrips_valueOf hR (ih (Nat.le_of_succ_le_succ hnm))

end Binary

/-! ### All kinds of objects -/

/-- The kinds of objects that are written and read. -/
inductive ObjKind where
  | value
  | qualifierType
  | qualifier
  | property
  | parameter
  | method
  | cimClass
  | cimInstance
  | objectPath
  | nameSpace
  deriving DecidableEq

namespace ObjKind

/-- The objects of a kind, with values that are nested less than `n` levels deep. -/
def Obj (R : Type) (n : ℕ) : ObjKind → Type
  | value => NestedValue R n
  | qualifierType => QUALTData (NestedValue R n)
  | qualifier => QUALData (NestedValue R n)
  | property => PROPData (NestedValue R n)
  | parameter => PARMData (NestedValue R n)
  | method => METHData (NestedValue R n)
  | cimClass => CLSData (NestedValue R n)
  | cimInstance => INSTData (NestedValue R n)
  | objectPath => OPData (NestedValue R n)
  | nameSpace => NSData

variable (R : Type) [Blocxx R] (n m : ℕ)

/-- `writeObject` -/
def writeObject : (k : ObjKind) → k.Obj R n → List UInt8
  | value, x => writeValue R n x
  | qualifierType, x => writeQualifierType R (writeValue R n) x
  | qualifier, x => writeQualifier R (writeValue R n) x
  | property, x => writeProperty R (writeValue R n) x
  | parameter, x => writeParameter R (writeValue R n) x
  | method, x => writeMethod R (writeValue R n) x
  | cimClass, x => writeClass R (writeValue R n) x
  | cimInstance, x => writeInstance R (writeValue R n) x
  | objectPath, x => writeObjectPath R (writeValue R n) x
  | nameSpace, x => writeNameSpace R x

/-- `readObject` -/
def readObject : (k : ObjKind) → Reader ReadError (k.Obj R n)
  | value => readValue R n
  | qualifierType => readQualifierType R (readValue R n)
  | qualifier => readQualifier R (readValue R n)
  | property => readProperty R (readValue R n)
  | parameter => readParameter R (readValue R n)
  | method => readMethod R (readValue R n)
  | cimClass => readClass R (readValue R n)
  | cimInstance => readInstance R (readValue R n)
  | objectPath => readObjectPath R (readValue R n)
  | nameSpace => readNameSpace R

omit [Blocxx R] in
/-- All parts of an object fit, at all levels. -/
def Fits : (k : ObjKind) → k.Obj R n → Prop
  | value, x => NestedValue.Fits R n x
  | qualifierType, x => QUALTData.Fits (NestedValue.Fits R n) x
  | qualifier, x => QUALData.Fits (NestedValue.Fits R n) x
  | property, x => PROPData.Fits (NestedValue.Fits R n) x
  | parameter, x => PARMData.Fits (NestedValue.Fits R n) x
  | method, x => METHData.Fits (NestedValue.Fits R n) x
  | cimClass, x => CLSData.Fits (NestedValue.Fits R n) x
  | cimInstance, x => INSTData.Fits (NestedValue.Fits R n) x
  | objectPath, x => OPData.Fits (NestedValue.Fits R n) x
  | nameSpace, x => NSData.Fits x

variable {R n m}

omit [Blocxx R] in
/-- The object with other URLs, and else the same, at a higher level. -/
def withUrls (r : URLData → URLData) (hnm : n ≤ m) : (k : ObjKind) → k.Obj R n → k.Obj R m
  | value, x => NestedValue.withUrls r n m hnm x
  | qualifierType, x => QUALTData.map (NestedValue.withUrls r n m hnm) x
  | qualifier, x => QUALData.map (NestedValue.withUrls r n m hnm) x
  | property, x => PROPData.map (NestedValue.withUrls r n m hnm) x
  | parameter, x => PARMData.map (NestedValue.withUrls r n m hnm) x
  | method, x => METHData.map (NestedValue.withUrls r n m hnm) x
  | cimClass, x => CLSData.map (NestedValue.withUrls r n m hnm) x
  | cimInstance, x => INSTData.map (NestedValue.withUrls r n m hnm) x
  | objectPath, x => OPData.map r (NestedValue.withUrls r n m hnm) x
  | nameSpace, x => NSData.map r x

end ObjKind

/-- **Objects are read back**: from what was written for an object, followed by anything, the object
is read, and what followed is left. Each URL in the object is the one that its text gives. -/
theorem Binary.reads_writeObject {R : Type} [Blocxx R] (hR : Blocxx.Faithful R) {n m : ℕ}
    (hnm : n ≤ m) (k : ObjKind) (x : k.Obj R n) (hx : k.Fits R n x) (t : List UInt8) :
    exec (k.readObject R m) (k.writeObject R n x ++ t) =
      (.ok (k.withUrls (rereadUrl R) hnm x), t) := by
  have hv := roundTrips_value hR hnm
  cases k with
  | value => exact hv x hx t
  | qualifierType => exact roundTrips_qualifierType hR hv x hx t
  | qualifier => exact roundTrips_qualifier hR hv x hx t
  | property => exact roundTrips_property hR hv x hx t
  | parameter => exact roundTrips_parameter hR hv x hx t
  | method => exact roundTrips_method hR hv x hx t
  | cimClass => exact roundTrips_class hR hv x hx t
  | cimInstance => exact roundTrips_instance hR hv x hx t
  | objectPath => exact roundTrips_objectPath hR hv x hx t
  | nameSpace => exact reads_nameSpace hR hx t

namespace Binary

/-- An array with a reference to an object that has a number as its key. -/
def referenceArray : ObjKind.value.Obj Unit 2 :=
  let key : PROPData (NestedValue Unit 1) :=
    ⟨ascii ['I', 'd'], [], ⟨1, 0, 1, []⟩, 0, [], ascii ['A'],
      some (.single .uint8 (7 : UInt8)), false⟩
  .array .reference [⟨⟨ascii ['r', 'o', 'o', 't'], .empty⟩, ascii ['A'], [key]⟩]

/-- The sample can be written. -/
lemma fits_referenceArray : ObjKind.value.Fits Unit 2 referenceArray := by
  refine ⟨show 1 < 2 ^ 32 by decide, forall_mem_singleton.2 ⟨⟨?_, ?_⟩, ?_, ⟨?_, ?_⟩⟩⟩
  · simp [Short, ascii]
  · simp [Short, URLData.empty]
  · simp [Short, ascii]
  · simp [Short]
  · refine forall_mem_singleton.2 ⟨?_, ⟨?_, ?_⟩, ?_, ?_, ?_, ?_⟩
    · simp [Short, ascii]
    · simp [Short]
    · simp
    · simp [DTData.Fits, Short]
    · simp [Short]
    · simp [Short, ascii]
    · rintro v ⟨⟩
      exact trivial

/-- The array of references is read back in front of other bytes. -/
theorem reads_writeObject_referenceArray :
    exec (ObjKind.value.readObject Unit 3)
      (ObjKind.value.writeObject Unit 2 referenceArray ++ [7]) =
      (.ok (ObjKind.value.withUrls (rereadUrl Unit) (show 2 ≤ 3 by decide) referenceArray), [7]) :=
  reads_writeObject faithful_unit (by decide) .value referenceArray fits_referenceArray [7]

end Binary

end OpenWbem
