import OpenWbem.Indications.Polling
import OpenWbem.Wql.InstanceSource

/-!
# The indication server: subscriptions

The class `IndicationServerImplThread`, and how it creates subscriptions. A subscription is a filter
with a handler. When it is created, its query is compiled, the providers of indications that are
concerned are asked for their authorization, asked whether they must be polled, and activated. The
subscription is filed under keys that are made of the class of the query and of the classes in its
`ISA` terms.

What the server asks the rest of the system for is an environment. Providers may throw, and the
thread may be cancelled while they run.

## Main definitions

* `Env`, `ServerState` — the environment and the state of the server.
* `prepare` — `createSubscription`, up to the authorization by the providers.
* `createSubscription` — `createSubscription`.
-/

namespace OpenWbem.Indications

open Wql

/-! ### Data -/

/-- Exceptions. -/
inductive Failure where
  /-- `Exception`, with its message. -/
  | exception (message : ByteStr)
  /-- `ThreadCancelledException` -/
  | cancelled
deriving DecidableEq

/-- `WQLSelectStatement`; the name of the class is an identifier, so it has no colon. -/
structure SelectStatement (R : Type) where
  className : ByteStr
  selectPropertyNames : List ByteStr
  operStack : List (OperandOrOperation R)
  noColon : 58 ∉ className

/-- `IndicationServerImplThread::Subscription`; `id` tells the objects apart. The path of the
subscription is that of the instance in the namespace. -/
structure Subscription (R W P : Type) where
  id : ℕ
  nameSpace : ByteStr
  sub : INSTData (ValueOf R W)
  providers : List P
  filter : INSTData (ValueOf R W)
  selectStmt : SelectStatement R
  compiledStmt : List (List (TermEl R))
  classes : List ByteStr
  filterSourceNameSpace : ByteStr
  isPolled : List Bool

/-- What the server keeps. -/
structure ServerState (R W P : Type) where
  /-- `m_subscriptions` -/
  subscriptions : List (ByteStr × Subscription R W P)
  /-- `m_activations` -/
  activations : P → UInt32
  /-- `m_pollers` -/
  pollers : ByteStr → Option (LifecyclePoller (INSTData (ValueOf R W)))
  /-- The classes in `m_providers`. -/
  exportClasses : List ByteStr
  /-- The number of the next object. -/
  nextId : ℕ

/-- What providers are called with. -/
structure FilterCall (R : Type) where
  selectStmt : SelectStatement R
  nameSpace : ByteStr
  classes : List ByteStr

/-- What the server asks the rest of the system for. -/
structure Env (R W P : Type) where
  /-- `CIMValue::toString` -/
  valueText : ValueOf R W → ByteStr
  /-- `getInstance` of the repository. -/
  getInstance : ByteStr → OPData W → Except Failure (INSTData (ValueOf R W))
  supportsQueryLanguage : ByteStr → Bool
  createSelectStatement : ByteStr → Except Failure (SelectStatement R)
  /-- A bound for the loops of the compiler. -/
  fuel : ℕ
  prepareNamespace : ByteStr → ByteStr
  /-- `enumClassNames` of the repository: the names of all subclasses. -/
  enumClassNames : ByteStr → ByteStr → Except Failure (List ByteStr)
  getIndicationProviders : ByteStr → ByteStr → List ByteStr → Except Failure (List P)
  /-- No array of providers is so long that its elements cannot be counted by a `UInt32`. -/
  providers_lt : ∀ {ns className classes ps},
    getIndicationProviders ns className classes = .ok ps → ps.length < 2 ^ 32
  authorizeFilter : P → FilterCall R → ByteStr → Except Failure Unit
  mustPoll : P → FilterCall R → Except Failure Int32
  activateFilter : P → FilterCall R → Bool → Except Failure Unit

/-! ### Instances -/

/-- `String::toLowerCase` -/
def toLowerCase (s : ByteStr) : ByteStr := s.map lowerByte

section Instances

variable {R W P : Type}

/-- `getValueT` of a property that may be missing. -/
def valueOfProperty {V : Type} : Option (PROPData V) → Except Failure V
  | none => .error (.exception (text "no such property"))
  | some p =>
    match p.cimValue with
    | none => .error (.exception (text "NULL value"))
    | some v => .ok v

/-- `getPropertyT(name).getValueT()` -/
def getValueT {V : Type} (ci : INSTData V) (name : ByteStr) : Except Failure V :=
  valueOfProperty (ci.getProperty name)

/-- `CIMValue::toCIMObjectPath` -/
def toCIMObjectPath : ValueOf R W → Except Failure (OPData W)
  | .single .reference path => .ok path
  | _ => .error (.exception (text "not a reference"))

/-- `getSourceNameSpace` -/
def getSourceNameSpace (env : Env R W P) (inst : INSTData (ValueOf R W)) : ByteStr :=
  match getValueT inst (text "SourceNamespace") with
  | .ok v => env.prepareNamespace (env.valueText v)
  | .error _ => []

end Instances

/-! ### Creating a subscription -/

section Create

variable {R W P : Type}

/-- The class of an `ISA` term about the source instance. -/
def isaClassName (t : TermEl R) : Option ByteStr :=
  if t.op = .isa then
    match t.opn1, t.opn2 with
    | .propertyName x, .propertyName c =>
      if equalsIgnoreCase x (text "SourceInstance") then some c else none
    | .propertyName x, .value (.string c) =>
      if equalsIgnoreCase x (text "SourceInstance") then some c else none
    | _, _ => none
  else none

/-- The classes in the `ISA` terms of a tableau. -/
def isaClassNames (tableau : List (List (TermEl R))) : List ByteStr :=
  tableau.flatMap fun row => row.filterMap isaClassName

/-- The order of names. -/
def nameLE (x y : ByteStr) : Bool := (compare (toLowerCase x) (toLowerCase y)).isLE

/-- `std::unique` -/
def uniqueNames : List ByteStr → List ByteStr
  | [] => []
  | x :: l =>
    match uniqueNames l with
    | [] => [x]
    | y :: ys => if equalsIgnoreCase x y then x :: ys else x :: y :: ys

/-- `std::sort`, and then duplicates are removed. -/
def sortNames (l : List ByteStr) : List ByteStr := uniqueNames (l.mergeSort nameLE)

/-- What has been found out before any provider is called for more than its authorization. -/
structure Prepared (R W P : Type) where
  filterInst : INSTData (ValueOf R W)
  selectStmt : SelectStatement R
  tableau : List (List (TermEl R))
  classes : List ByteStr
  filterSourceNameSpace : ByteStr
  providers : List P

/-- What the providers of a subscription are called with. -/
def Prepared.call (q : Prepared R W P) (ns : ByteStr) : FilterCall R :=
  ⟨q.selectStmt, ns, q.classes⟩

variable [DecidableEq R] (env : Env R W P)

/-- The query of a filter is parsed, if its language is supported. -/
def parseFilter (filterInst : INSTData (ValueOf R W)) : Except Failure (SelectStatement R) := do
  let filterQuery ← getValueT filterInst (text "Query")
  let queryLanguage ← getValueT filterInst (text "QueryLanguage")
  if env.supportsQueryLanguage (env.valueText queryLanguage) then
    env.createSelectStatement (env.valueText filterQuery)
  else
    throw (.exception (text "Filter uses queryLanguage " ++ env.valueText queryLanguage ++
      text ", which is not supported"))

/-- The query is compiled. -/
def compileStmt (selectStmt : SelectStatement R) : Except Failure (List (List (TermEl R))) :=
  match compile env.fuel selectStmt.operStack with
  | some tableau => pure tableau
  | none => throw (.exception (text "assertion failed"))

/-- The classes of the `ISA` terms and their subclasses. -/
def collectClasses (nameSpace : ByteStr) (tableau : List (List (TermEl R))) :
    Except Failure (List ByteStr) := do
  let subClasses ← (isaClassNames tableau).mapM (env.enumClassNames nameSpace)
  pure (sortNames (isaClassNames tableau ++ subClasses.flatten))

/-- The providers for a query; there must be one. -/
def findProviders (nameSpace className : ByteStr) (classes : List ByteStr) :
    Except Failure (List P) := do
  let providers ← env.getIndicationProviders nameSpace className classes
  if providers.isEmpty
    then throw (.exception (text "No indication provider found for this subscription"))
  else pure providers

/-- There must be an export provider for the handler of a subscription. -/
def checkHandler (st : ServerState R W P) (subInst : INSTData (ValueOf R W)) :
    Except Failure Unit := do
  let handlerPath ← getValueT subInst (text "Handler") >>= toCIMObjectPath
  if st.exportClasses.any fun c => equalsIgnoreCase c handlerPath.objectName then pure ()
  else
    throw (.exception
      (text "No indication export provider found for the subscription's handler class: " ++
      handlerPath.objectName))

/-- `createSubscription`, up to the authorization by the providers. Nothing is changed. -/
def prepare (st : ServerState R W P) (ns : ByteStr) (subInst : INSTData (ValueOf R W))
    (username : ByteStr) : Except Failure (Prepared R W P) := do
  let filterPath ← getValueT subInst (text "Filter") >>= toCIMObjectPath
  let filterNS := if filterPath.nameSpace.nameSpace = [] then ns else filterPath.nameSpace.nameSpace
  let filterInst ← env.getInstance filterNS filterPath
  let selectStmt ← parseFilter env filterInst
  let tableau ← compileStmt env selectStmt
  let source := getSourceNameSpace env filterInst
  let filterSourceNameSpace := if source = [] then filterNS else source
  let classes ← collectClasses env filterSourceNameSpace tableau
  let providers ← findProviders env filterSourceNameSpace selectStmt.className classes
  checkHandler st subInst
  providers.forM fun p => env.authorizeFilter p ⟨selectStmt, ns, classes⟩ username
  pure ⟨filterInst, selectStmt, tableau, classes, filterSourceNameSpace, providers⟩

/-- The operations that a poller has to do for a query. -/
def pollOps (className : ByteStr) : List PollOp :=
  if equalsIgnoreCase className (text "CIM_InstCreation") then [.creation]
  else if equalsIgnoreCase className (text "CIM_InstModification") then [.modification]
  else if equalsIgnoreCase className (text "CIM_InstDeletion") then [.deletion]
  else if equalsIgnoreCase className (text "CIM_InstIndication") ||
      equalsIgnoreCase className (text "CIM_Indication") then
    [.creation, .modification, .deletion]
  else []

/-- `makePollerMapKey` -/
def makePollerMapKey (nameSpace className : ByteStr) : ByteStr :=
  nameSpace ++ 58 :: toLowerCase className

/-- A class is polled. -/
def addPoller {I : Type} (nameSpace queryClass : ByteStr) (interval : UInt32)
    (h : 0 < interval.toInt32) (pollers : ByteStr → Option (LifecyclePoller I))
    (className : ByteStr) : ByteStr → Option (LifecyclePoller I) :=
  let key := makePollerMapKey nameSpace className
  let p := (pollers key).getD (.new nameSpace className interval h)
  let p := (pollOps queryClass).foldl LifecyclePoller.addPollOp p
  Function.update pollers key (some (p.addPollInterval interval h))

/-- `mustPoll` of one provider. -/
def pollProvider (q : Prepared R W P) (ns : ByteStr) (p : P) :
    Prog (ServerState R W P) Failure Bool :=
  match env.mustPoll p (q.call ns) with
  | .error .cancelled => throw .cancelled
  | .error _ => pure false
  | .ok pollInterval =>
    if h : 0 < pollInterval then do
      let add := addPoller q.filterSourceNameSpace q.selectStmt.className pollInterval.toUInt32 h
      modify fun st => { st with pollers := q.classes.foldl add st.pollers }
      pure true
    else pure false

/-- The keys that a subscription is filed under. -/
def subKeys (className : ByteStr) (classes : List ByteStr) : List ByteStr :=
  if classes = [] then [toLowerCase className]
  else classes.map fun c => toLowerCase (className ++ 58 :: c)

/-- The new subscription. -/
def Prepared.subscription (q : Prepared R W P) (ns : ByteStr) (subInst : INSTData (ValueOf R W))
    (isPolled : List Bool) (id : ℕ) : Subscription R W P :=
  ⟨id, ns, subInst, q.providers, q.filterInst, q.selectStmt, q.tableau, q.classes,
    q.filterSourceNameSpace, isPolled⟩

/-- The state after a subscription is put into `m_subscriptions`. -/
def ServerState.filed (st : ServerState R W P) (sub : Subscription R W P) : ServerState R W P :=
  { st with
    nextId := st.nextId + 1
    subscriptions := st.subscriptions ++
      (subKeys sub.selectStmt.className sub.classes).map fun key => (key, sub) }

/-- The subscription is put into `m_subscriptions`. -/
def fileSubscription (q : Prepared R W P) (ns : ByteStr) (subInst : INSTData (ValueOf R W))
    (isPolled : List Bool) : Prog (ServerState R W P) Failure Unit :=
  modify fun st => st.filed (q.subscription ns subInst isPolled st.nextId)

variable [DecidableEq P]

/-- `activateFilterOnProvider` and `activateFilter` of one provider. -/
def activateProvider (q : Prepared R W P) (ns : ByteStr) (p : P) :
    Prog (ServerState R W P) Failure Bool := do
  modify fun st =>
    { st with activations := Function.update st.activations p (st.activations p + 1) }
  let st ← get
  match env.activateFilter p (q.call ns) (st.activations p = 1) with
  | .ok _ => pure true
  | .error .cancelled => throw .cancelled
  | .error _ => pure false

/-- `m_subscriptions.erase(subKey)`, for all keys. -/
def eraseKeys (keys : List ByteStr) : Prog (ServerState R W P) Failure Unit :=
  modify fun st => { st with subscriptions := st.subscriptions.filter fun e => e.1 ∉ keys }

/-- `createSubscription`, from the calls of `activateFilter` on. -/
def activate (q : Prepared R W P) (ns : ByteStr) : Prog (ServerState R W P) Failure Unit := do
  let activated ← q.providers.mapM (activateProvider env q ns)
  if !activated.any id then
    eraseKeys (subKeys q.selectStmt.className q.classes)
    throw (.exception (text "activateFilter failed for all providers"))

/-- `createSubscription` -/
def createSubscription (ns : ByteStr) (subInst : INSTData (ValueOf R W)) (username : ByteStr) :
    Prog (ServerState R W P) Failure Unit := do
  let st ← get
  match prepare env st ns subInst username with
  | .error e => throw e
  | .ok q =>
    let isPolled ← q.providers.mapM (pollProvider env q ns)
    fileSubscription q ns subInst isPolled
    activate env q ns

end Create

end OpenWbem.Indications
