import OpenWbem.Indications.Server

/-!
# The indication server: processing of indications

The functions `_processIndication` and `_processIndicationRange`. When an indication comes in, the
subscriptions under the keys that fit to its class and its superclasses are evaluated, and those
that match are handed to the notifiers, with the properties of the indication that the query
selects.

## Main definitions

* `filterInstance` — the properties of an instance that a query selects.
* `deliver` — one subscription in `_processIndicationRange`.
* `processIndication` — `_processIndication`.
-/

namespace OpenWbem.Indications

open Wql

/-! ### Selected properties -/

section Filter

variable {R : Type}

/-- `clone`, without qualifiers and classes of origin. -/
def cloneInstance : (n : ℕ) → INSTData (NestedValue R n) → INSTData (NestedValue R n)
  | 0, ci => { ci with
      qualifiers := []
      properties := ci.properties.map fun p => { p with qualifiers := [], originClass := [] } }
  | n + 1, ci => { ci with
      qualifiers := []
      properties := ci.properties.map fun p => { p with
        qualifiers := []
        originClass := []
        cimValue := p.cimValue.map fun v =>
          match v with
          | ValueOf.single .embeddedInstance embed =>
            ValueOf.single .embeddedInstance (cloneInstance n embed)
          | ValueOf.array .embeddedInstance l =>
            ValueOf.array .embeddedInstance (l.map (cloneInstance n))
          | v => v } }

/-- A qualifier is true. There is no result if its value is an array of truth values. -/
def isTrueValue : (n : ℕ) → NestedValue R n → Option Bool
  | 0, v => nomatch v
  | _ + 1, ValueOf.single .boolean b => some (truthOf b)
  | _ + 1, ValueOf.array .boolean _ => none
  | _ + 1, _ => some false

/-- `CIMProperty::isKey` -/
def isKey {n : ℕ} (p : PROPData (NestedValue R n)) : Option Bool :=
  if p.propertyDataType.type = ValueType.reference.code then some true
  else
    match p.qualifiers.find? fun q => equalsIgnoreCase q.name (text "Key") with
    | none => some false
    | some q =>
      match q.qualifierValue with
      | none => some false
      | some v => isTrueValue n v

/-- `CIMInstance::setProperties` -/
def setProperties {n : ℕ} (ci : INSTData (NestedValue R n))
    (props : List (PROPData (NestedValue R n))) :
    Option (INSTData (NestedValue R n)) := do
  let keys ← props.filterM isKey
  some { ci with properties := props, keys }

/-- What `splitUpProps` puts into the map for one name. -/
def splitUpProp (prop : ByteStr) : List (ByteStr × ByteStr) :=
  ([], toLowerCase prop) ::
    match cutAt 46 (toLowerCase prop) with
    | none => []
    | some (key, val) =>
      [([], key), (key, val), (key, match cutAt 46 val with
        | some (head, _) => head
        | none => val)]

/-- The names that the map has for a key. -/
def propsAt (map : List (ByteStr × ByteStr)) (key : ByteStr) : List ByteStr :=
  (map.filter fun e => e.1 = key).map Prod.snd

/-- The names of the properties that an instance of a class keeps. -/
def propsToKeep (className : ByteStr) (props : List ByteStr) : List ByteStr :=
  let map := props.flatMap splitUpProp
  propsAt map [] ++ propsAt map (toLowerCase className)

/-- The names that are left for the embedded instance of a property. -/
def embeddedProps (keep : List ByteStr) (name : ByteStr) : List ByteStr :=
  keep.filterMap fun cur =>
    if (toLowerCase name).isPrefixOf cur then (cutAt 46 cur).map fun (_, rest) => 46 :: rest
    else none

/-- `filterInstance`; there is no result if a property of the type of embedded instances has another
value. -/
def filterInstance : (n : ℕ) → INSTData (NestedValue R n) → List ByteStr →
    Option (INSTData (NestedValue R n))
  | n, toFilter, [] => some (cloneInstance n toFilter)
  | 0, toFilter, prop :: props =>
    let keep := propsToKeep toFilter.owningClassName (prop :: props)
    setProperties (cloneInstance 0 toFilter) (toFilter.properties.filter fun p =>
      toLowerCase p.name ∈ keep ∨ text "*" ∈ keep)
  | n + 1, toFilter, prop :: props => do
    let keep := propsToKeep toFilter.owningClassName (prop :: props)
    let kept ← (toFilter.properties.filter fun p =>
      toLowerCase p.name ∈ keep ∨ text "*" ∈ keep).mapM fun p =>
        if p.propertyDataType.type = ValueType.embeddedInstance.code then
          match p.cimValue with
          | none => some p
          | some (ValueOf.single .embeddedInstance embed) => do
            let filtered ← filterInstance n embed (embeddedProps keep p.name)
            some { p with cimValue := some (ValueOf.single .embeddedInstance filtered) }
          | some _ => none
        else some p
    setProperties (cloneInstance (n + 1) toFilter) kept

end Filter

/-! ### Processing an indication -/

/-- An indication; the name of its class is an identifier, so it has no colon. -/
structure Indication (R : Type) (n : ℕ) where
  inst : INSTData (ValueOf R (NestedValue R n))
  noColon : 58 ∉ inst.owningClassName

/-- `NotifyTrans`; the export provider is that of the class of the handler. -/
structure NotifyTrans (R : Type) (n : ℕ) where
  indicationNS : ByteStr
  indication : INSTData (ValueOf R (NestedValue R n))
  handler : INSTData (ValueOf R (NestedValue R n))
  subNS : ByteStr
  subscription : INSTData (ValueOf R (NestedValue R n))

/-- What the processing of an indication asks the rest of the system for: texts, the classes of the
namespace, the instances of handlers, and whether the pool of notifiers has room for a
subscription. -/
structure ProcessEnv (R : Type) (n : ℕ) where
  texts : Texts R
  classes : ClassTable
  getInstance : ByteStr → OPData (NestedValue R n) →
    Except Failure (INSTData (ValueOf R (NestedValue R n)))
  tryAddWork : ℕ → Bool

/-- The classes from a class upwards, until there is no superclass or `getClass` throws. -/
def classChain (C : ClassTable) : ℕ → ByteStr → List ByteStr
  | 0, _ => []
  | fuel + 1, c =>
    if c = [] then []
    else c :: match C.superClass c with
      | some p => classChain C fuel p
      | none => []

section Process

variable {R P : Type} {n : ℕ}

/-- The class of the source instance of an indication, if there is one. There is no result if it is
an array of instances: then an exception is thrown. -/
def sourceClass (ind : INSTData (ValueOf R (NestedValue R n))) : Option (Option ByteStr) :=
  match ind.getProperty (text "SourceInstance") with
  | some p =>
    match p.cimValue with
    | some (.single .embeddedInstance embed) => some (some embed.owningClassName)
    | some (.array .embeddedInstance _) => none
    | _ => some none
  | none => some none

variable (env : ProcessEnv R n) (exportClasses : List ByteStr)

/-- The handler of a subscription, if there is an export provider for it. -/
def findHandler (instNS : ByteStr) (sub : Subscription R (NestedValue R n) P) :
    Except Failure (Option (INSTData (ValueOf R (NestedValue R n)))) := do
  let key := sub.sub.keys.find? fun p => equalsIgnoreCase p.name (text "Handler")
  let handlerCOP ← valueOfProperty key >>= toCIMObjectPath
  let handlerNS := if handlerCOP.nameSpace.nameSpace = [] then instNS
    else handlerCOP.nameSpace.nameSpace
  let handler ← env.getInstance handlerNS handlerCOP
  if exportClasses.any fun c => equalsIgnoreCase c handler.owningClassName then return some handler
  else return none

/-- What is handed to the notifiers for a subscription that matches. There is none if an exception
is thrown, there is no export provider for the handler, or the pool of notifiers is full. -/
def exportTo (ind : Indication R n) (instNS : ByteStr) (sub : Subscription R (NestedValue R n) P) :
    Option (NotifyTrans R n) := do
  let filtered ← filterInstance (n + 1) ind.inst sub.selectStmt.selectPropertyNames
  match findHandler env exportClasses instNS sub with
  | .ok (some handler) =>
    if env.tryAddWork sub.id then some ⟨instNS, filtered, handler, sub.nameSpace, sub.sub⟩ else none
  | _ => none

/-- One subscription in `_processIndicationRange`: what is handed to the notifiers. -/
def deliver (ind : Indication R n) (instNS : ByteStr) (sub : Subscription R (NestedValue R n) P) :
    Option (NotifyTrans R n) :=
  match getValueT sub.filter (text "QueryLanguage") with
  | .error _ => none
  | .ok _ =>
    if equalsIgnoreCase sub.filterSourceNameSpace instNS ∧
        evaluate env.texts.toReals (instanceSource env.classes env.texts (n := n + 1) ind.inst)
          sub.compiledStmt = some true then
      exportTo env exportClasses ind instNS sub
    else none

/-- `_processIndicationRange`, for the subscriptions under a key: what is handed to the notifiers,
with the numbers of the subscriptions. -/
def processRange (st : ServerState R (NestedValue R n) P) (ind : Indication R n)
    (instNS key : ByteStr) :
    List (ℕ × NotifyTrans R n) :=
  (st.subscriptions.filter fun e => e.1 = key).filterMap fun e =>
    (deliver env st.exportClasses ind instNS e.2).map fun trans => (e.2.id, trans)

/-- The loop of `_processIndication`, over the classes from that of the indication upwards. -/
def processClasses (st : ServerState R (NestedValue R n) P) (ind : Indication R n)
    (instNS : ByteStr) :
    List ByteStr → List (ℕ × NotifyTrans R n)
  | [] => []
  | c :: cs =>
    processRange env st ind instNS (toLowerCase c) ++
      match sourceClass ind.inst with
      | none => []
      | some none => processClasses st ind instNS cs
      | some (some e) =>
        processRange env st ind instNS (toLowerCase (toLowerCase c ++ 58 :: e)) ++
          processClasses st ind instNS cs

/-- The classes of an indication, from its own upwards. -/
def indicationClasses (ind : Indication R n) : List ByteStr :=
  classChain env.classes (env.classes.rank ind.inst.owningClassName + 1) ind.inst.owningClassName

/-- `_processIndication`: what is handed to the notifiers, one after the other. -/
def processIndication (st : ServerState R (NestedValue R n) P) (ind : Indication R n)
    (instNS : ByteStr) : List (ℕ × NotifyTrans R n) :=
  processClasses env st ind instNS (indicationClasses env ind)

end Process

end OpenWbem.Indications
