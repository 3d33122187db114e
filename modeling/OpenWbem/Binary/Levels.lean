import OpenWbem.Binary.RoundTrip

/-!
# Readers keep to their bytes

A reader of objects does not look ahead: when it returns, what it has read determines the object,
whatever follows. And the bound on the levels of nesting does no harm, if it is the length of the
stream: each value begins with a signature, so there are at least as many bytes as levels.

## Main results

* `Binary.plain_value` — the reader of values, at level `n` on streams of fewer than `n` bytes.
* `ObjKind.plain_readObject` — the readers of all kinds of objects.
-/

namespace OpenWbem

open Prog Reader BigEndian

namespace Binary

variable {R : Type} [Blocxx R] {n : ℕ}

/-- A byte. -/
lemma plain_byte : Plain .tooDeep n readByte := plain_num (by decide)

/-- A signature. -/
lemma plain_sig (c : UInt8) : Plain .tooDeep n (readSig c) := by
  refine plain_byte.bind fun ch => ?_
  split_ifs
  · exact .pure _
  · exact .throw (by decide)

/-- A signature has a byte. -/
lemma consumes_sig (c : UInt8) : Consumes (readSig c) := by
  refine (consumes_num Nat.one_pos).bind fun ch s => ?_
  split_ifs <;> exact Nat.le_refl _

/-- A version. -/
lemma plain_version (c v : UInt8) (maxVersion : UInt32) :
    Plain .tooDeep n (readVersion c v maxVersion) := by
  refine plain_byte.bind fun ch => ?_
  split_ifs
  · exact .pure _
  · refine (plain_len (by decide)).bind fun version => ?_
    split_ifs
    · exact .throw (by decide)
    · exact .pure _
  · exact .throw (by decide)

section

variable {α : Type} {read : Reader ReadError α}

/-- An array. -/
lemma plain_array (h : Plain .tooDeep n read) : Plain .tooDeep n (readArray read) :=
  (plain_len (by decide)).bind fun _ => h.replicateM _

/-- An optional part. -/
lemma plain_option (hR : Blocxx.Faithful R) (h : Plain .tooDeep n read) :
    Plain .tooDeep n (readOption R read) := by
  refine (hR.plain_bool n).bind fun isValue => ?_
  split_ifs
  · exact h.bind fun _ => .pure _
  · exact .pure _

end

/-- A string of some versions. -/
lemma plain_stringIf (hR : Blocxx.Faithful R) {p : Prop} [Decidable p] :
    Plain .tooDeep n (readStringIf R p) := by
  rw [readStringIf]
  split_ifs
  · exact hR.plain_string n
  · exact .pure _

section Objects

variable {V : Type} {read : Reader ReadError V}

/-- A data type. -/
lemma plain_dataType (hR : Blocxx.Faithful R) : Plain .tooDeep n (readDataType R) :=
  (plain_sig _).bind fun _ => (plain_len (by decide)).bind fun _ =>
    (plain_len (by decide)).bind fun _ => (plain_len (by decide)).bind fun _ =>
    (hR.plain_string n).bind fun _ => .pure _

/-- A flavor. -/
lemma plain_flavor : Plain .tooDeep n readFlavor := (plain_len (by decide)).bind fun _ => .pure _

/-- A namespace. -/
lemma plain_nameSpace (hR : Blocxx.Faithful R) : Plain .tooDeep n (readNameSpace R) :=
  (plain_sig _).bind fun _ => (hR.plain_string n).bind fun _ =>
    ((plain_sig _).bind fun _ => (hR.plain_string n).bind fun _ => .pure _).bind fun _ => .pure _

/-- A point in time. -/
lemma plain_dateTime : Plain .tooDeep n readDateTime :=
  (plain_num (by decide)).bind fun _ => plain_byte.bind fun _ =>
    (plain_num (by decide)).bind fun _ =>
    plain_byte.bind fun _ => plain_byte.bind fun _ => plain_byte.bind fun _ =>
    (plain_num (by decide)).bind fun _ => (plain_num (by decide)).bind fun _ =>
    plain_byte.bind fun _ => .pure _

/-- A real number. -/
lemma plain_real (hR : Blocxx.Faithful R) (toReal : ByteStr → Option R) :
    Plain .tooDeep n (readReal R toReal) := by
  refine (hR.plain_string n).bind fun text => ?_
  cases toReal text with
  | none => exact .throw (by decide)
  | some v => exact .pure v

variable (hR : Blocxx.Faithful R) (h : Plain .tooDeep n read)

include hR h

/-- A qualifier type. -/
lemma plain_qualifierType : Plain .tooDeep n (readQualifierType R read) :=
  (plain_sig _).bind fun _ => (hR.plain_string n).bind fun _ => (plain_dataType hR).bind fun _ =>
    (plain_array (plain_len (by decide))).bind fun _ => (plain_array plain_flavor).bind fun _ =>
    (plain_option hR h).bind fun _ => .pure _

/-- A qualifier. -/
lemma plain_qualifier : Plain .tooDeep n (readQualifier R read) :=
  (plain_version _ _ _).bind fun _ => (hR.plain_string n).bind fun _ =>
    (plain_option hR h).bind fun _ => (plain_qualifierType hR h).bind fun _ =>
    (hR.plain_bool n).bind fun _ => (plain_array plain_flavor).bind fun _ =>
    (plain_stringIf hR).bind fun _ => .pure _

/-- A property. -/
lemma plain_property : Plain .tooDeep n (readProperty R read) :=
  (plain_sig _).bind fun _ => (hR.plain_string n).bind fun _ => (hR.plain_string n).bind fun _ =>
    (hR.plain_string n).bind fun _ => (plain_dataType hR).bind fun _ =>
    (plain_len (by decide)).bind fun _ => (hR.plain_bool n).bind fun _ =>
    (plain_array (plain_qualifier hR h)).bind fun _ => (plain_option hR h).bind fun _ => .pure _

/-- A parameter. -/
lemma plain_parameter : Plain .tooDeep n (readParameter R read) :=
  (plain_sig _).bind fun _ => (hR.plain_string n).bind fun _ => (plain_dataType hR).bind fun _ =>
    (plain_array (plain_qualifier hR h)).bind fun _ => .pure _

/-- A method. -/
lemma plain_method : Plain .tooDeep n (readMethod R read) :=
  (plain_sig _).bind fun _ => (hR.plain_string n).bind fun _ => (plain_dataType hR).bind fun _ =>
    (plain_array (plain_qualifier hR h)).bind fun _ =>
    (plain_array (plain_parameter hR h)).bind fun _ => (hR.plain_string n).bind fun _ =>
    (hR.plain_string n).bind fun _ => (hR.plain_bool n).bind fun _ => .pure _

/-- A class. -/
lemma plain_class : Plain .tooDeep n (readClass R read) :=
  (plain_version _ _ _).bind fun _ => (hR.plain_string n).bind fun _ =>
    (hR.plain_string n).bind fun _ => (hR.plain_bool n).bind fun _ =>
    (hR.plain_bool n).bind fun _ => (plain_array (plain_qualifier hR h)).bind fun _ =>
    (plain_array (plain_property hR h)).bind fun _ =>
      (plain_array (plain_method hR h)).bind fun _ =>
    (plain_stringIf hR).bind fun _ => .pure _

/-- An instance. -/
lemma plain_instance : Plain .tooDeep n (readInstance R read) :=
  (plain_version _ _ _).bind fun _ => (hR.plain_string n).bind fun _ =>
    (plain_array (plain_property hR h)).bind fun _ =>
    (plain_array (plain_property hR h)).bind fun _ =>
    (plain_array (plain_qualifier hR h)).bind fun _ =>
    (plain_stringIf hR).bind fun _ =>
    (plain_stringIf hR).bind fun _ => .pure _

/-- An object path. -/
lemma plain_objectPath : Plain .tooDeep n (readObjectPath R read) :=
  (plain_sig _).bind fun _ => (plain_nameSpace hR).bind fun _ => (hR.plain_string n).bind fun _ =>
    (plain_array (plain_property hR h)).bind fun _ => .pure _

/-- What a value holds. -/
lemma plain_payload (t : ValueType) : Plain .tooDeep n (readPayload R read t) := by
  cases t
  case real32 | real64 => exact plain_real hR _
  case char16 => exact hR.plain_char16 n
  case string => exact hR.plain_string n
  case dateTime => exact plain_dateTime
  case reference => exact plain_objectPath hR h
  case embeddedClass => exact plain_class hR h
  case embeddedInstance => exact plain_instance hR h
  all_goals
    rw [readPayload]
    exact plain_num (by decide)

/-- A value is one level above the values in it, and at least one byte longer. -/
lemma plain_valueOf : Plain .tooDeep (n + 1) (readValueOf R read) := by
  refine .consumes_bind (fun _ => plain_sig _) (consumes_sig _) fun _ => ?_
  refine (plain_len (by decide)).bind fun type => (hR.plain_bool n).bind fun isArray => ?_
  cases ValueType.ofCode type with
  | none => exact .throw (by decide)
  | some t =>
    split_ifs
    · exact (plain_array (plain_payload hR h t)).bind fun _ => .pure _
    · exact (plain_payload hR h t).bind fun _ => .pure _

end Objects

/-- **The levels suffice** for streams of fewer bytes. -/
lemma plain_value (hR : Blocxx.Faithful R) (n : ℕ) : Plain .tooDeep n (readValue R n) := by
  induction n with
  | zero => exact .throw_zero ReadError.tooDeep
  | succ n ih => exact plain_valueOf hR ih

end Binary

/-- The readers of all kinds of objects keep to their bytes, and have enough levels. -/
lemma ObjKind.plain_readObject {R : Type} [Blocxx R] (hR : Blocxx.Faithful R) (n : ℕ)
    (k : ObjKind) :
    Plain .tooDeep n (k.readObject R n) := by
  have h := Binary.plain_value hR n
  cases k with
  | value => exact h
  | qualifierType => exact Binary.plain_qualifierType hR h
  | qualifier => exact Binary.plain_qualifier hR h
  | property => exact Binary.plain_property hR h
  | parameter => exact Binary.plain_parameter hR h
  | method => exact Binary.plain_method hR h
  | cimClass => exact Binary.plain_class hR h
  | cimInstance => exact Binary.plain_instance hR h
  | objectPath => exact Binary.plain_objectPath hR h
  | nameSpace => exact Binary.plain_nameSpace hR

end OpenWbem
