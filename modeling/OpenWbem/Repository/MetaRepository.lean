import OpenWbem.Cim.Inheritance
import OpenWbem.Repository.Cache
import OpenWbem.Repository.Store

/-!
# The schema store

The class `MetaRepository`: the qualifier types and the classes of all namespaces, in one database,
with a cache for each of the two.

The qualifier types of a namespace are the children of a container node. The classes of a namespace
form a hierarchy below another container node: the parent of the node of a class is the node of its
superclass. A node keeps what its class declares; `resolveClass` adds what the class inherits. The
class cache has classes with all that they inherit.

Two functions follow the hierarchy without a bound, upwards (`_resolveClass`) and
downwards (`_getClassNodes`). Here they have a bound, and reaching it is the exception `diverge`.

## Main definitions

* `MetaRepository` — the store and the two caches.
* `makeQualPath`, `makeClassPath` — the keys of the nodes.
* `MetaRepository.getQualifierType`, `MetaRepository.getCIMClass`, `MetaRepository.createNameSpace`
  and their companions — qualifier types, classes and namespaces.
-/

namespace OpenWbem

open Prog GenericHDBRepository Store

variable {V : Type} [CIMValue V]

/-! ### The state -/

/-- The objects of the schema store. -/
inductive MetaObj (V : Type) where
  | cls (c : CIMClass V)
  | qual (q : CIMQualifierType V)
  deriving DecidableEq

namespace MetaObj

omit [CIMValue V] in
/-- The class, if the object is one. -/
def class? : MetaObj V → Option (CIMClass V)
  | cls c => some c
  | qual _ => none

omit [CIMValue V] in
/-- The qualifier type, if the object is one. -/
def qual? : MetaObj V → Option (CIMQualifierType V)
  | cls _ => none
  | qual q => some q

end MetaObj

/-- The schema store with its caches. -/
structure MetaRepository (V : Type) where
  nodes : Store (MetaObj V)
  classCache : Cache Str (CIMClass V)
  qualCache : Cache Str (CIMQualifierType V)

/-- Programs on the schema store. -/
abbrev MetaM (V : Type) := Prog (MetaRepository V) CIMException

/-! ### Keys -/

/-- `QUAL_CONTAINER + NS_SEPARATOR_C + ns` -/
def qualContainer (ns : Str) : Str := 'q' :: ':' :: ns

/-- `CLASS_CONTAINER + NS_SEPARATOR_C + ns` -/
def classContainer (ns : Str) : Str := 'c' :: ':' :: ns

/-- The key of the node below which the qualifier types of a namespace are stored. -/
def qualHome (ns : Str) : Str := if ns = [] then ['q'] else qualContainer ns

/-- `MetaRepository::_makeQualPath` -/
def makeQualPath (ns : Str) (qualName : CIMName) : Str :=
  if qualName = [] then qualContainer ns else qualContainer ns ++ ':' :: Str.lower qualName

/-- `MetaRepository::_makeClassPath` -/
def makeClassPath (ns : Str) (className : CIMName) : Str :=
  classContainer ns ++ ':' :: Str.lower className

/-- The namespace in a key, if it has no separator. -/
def nsOf (key : Str) : Str := (key.drop 2).takeWhile (· ≠ ':')

section Keys

variable {ns : Str}

/-- The text up to a colon. -/
private lemma takeWhile_append_sep (hns : ':' ∉ ns) (l : Str) (hl : l.head? ∈ [none, some ':']) :
    (ns ++ l).takeWhile (· ≠ ':') = ns := by
  have hpos : ∀ c ∈ ns, decide (c ≠ ':') := by
    intro c hc
    exact decide_eq_true fun h => hns (h ▸ hc)
  rw [List.takeWhile_append_of_pos hpos]
  rcases l with _ | ⟨c, l⟩
  · exact List.append_nil ns
  · have hc : c = ':' := by simpa using hl
    simp [hc]

/-- The namespace of a container. -/
lemma nsOf_qualContainer (hns : ':' ∉ ns) : nsOf (qualContainer ns) = ns := by
  have h := takeWhile_append_sep hns [] (by simp)
  rwa [List.append_nil] at h

/-- The namespace of a qualifier. -/
lemma nsOf_makeQualPath (hns : ':' ∉ ns) (qualName : CIMName) :
    nsOf (makeQualPath ns qualName) = ns := by
  rw [makeQualPath]
  split_ifs
  · exact nsOf_qualContainer hns
  · exact takeWhile_append_sep hns _ (by simp)

/-- The namespace of a class. -/
lemma nsOf_makeClassPath (hns : ':' ∉ ns) (className : CIMName) :
    nsOf (makeClassPath ns className) = ns := takeWhile_append_sep hns _ (by simp)

end Keys

namespace MetaRepository

/-- The store as a part of the repository. -/
def store : Lens (MetaRepository V) (Store (MetaObj V)) :=
  ⟨nodes, fun t s => { s with nodes := t }, fun _ _ => rfl, fun _ => rfl⟩

/-- The class cache as a part of the repository. -/
def clsCache : Lens (MetaRepository V) (Cache Str (CIMClass V)) :=
  ⟨classCache, fun c s => { s with classCache := c }, fun _ _ => rfl, fun _ => rfl⟩

/-- The qualifier cache as a part of the repository. -/
def qltCache : Lens (MetaRepository V) (Cache Str (CIMQualifierType V)) :=
  ⟨qualCache, fun c s => { s with qualCache := c }, fun _ _ => rfl, fun _ => rfl⟩

/-- A lookup in a cache. -/
def lookup {T : Type} (key : Str) : Prog (Cache Str T) CIMException (Option T) := do
  let c ← get
  set (c.getFromCache key).2
  pure (c.getFromCache key).1

/-- The repository that `MetaRepository::open` makes out of an empty database. -/
def fresh (maxClassCacheSize maxQualCacheSize : ℕ) : MetaRepository V where
  nodes :=
    [classContainer ['r', 'o', 'o', 't'], qualContainer ['r', 'o', 'o', 't'], ['q'], ['c']].map
      fun key => ⟨key, none, nsNodeFlag, none⟩
  classCache := .empty maxClassCacheSize
  qualCache := .empty maxQualCacheSize

/-! ### Qualifier types -/

/-- The qualifier type of a node. -/
def nodeToQualifierType (node : Option (Node (MetaObj V))) :
    MetaM V (Option (CIMQualifierType V)) :=
  zoom store (nodeToCIMObject MetaObj.qual? node)

/-- `MetaRepository::getQualifierType` -/
def getQualifierType (ns : Str) (qualName : CIMName) : MetaM V (CIMQualifierType V) := do
  let qkey := makeQualPath ns qualName
  match ← zoom qltCache (lookup qkey) with
  | some qualType => pure qualType
  | none => do
    let s ← get
    match ← nodeToQualifierType (getNode s.nodes qkey) with
    | none =>
      if nameSpaceExists s.nodes (qualContainer ns) then
        throw (.cim .notFound ("CIM QualifierType \"".toList ++ qualName ++
          "\" not found in namespace: ".toList ++ ns))
      else throw (.cim .invalidNamespace ns)
    | some qualType => do
      zoom qltCache (modify fun c => c.addToCache qualType qkey)
      pure qualType

/-- `MetaRepository::deleteQualifierType` -/
def deleteQualifierType (ns : Str) (qualName : CIMName) : MetaM V Bool := do
  let qkey := makeQualPath ns qualName
  let s ← get
  match getNode s.nodes qkey with
  | none => pure false
  | some node => do
    let _ ← nodeToQualifierType (some node)
    zoom store (modify fun t => removeNode t node)
    zoom qltCache (modify fun c => c.removeFromCache qkey)
    pure true

/-- `MetaRepository::_getQualContainer` -/
def getQualContainer (ns : Str) : MetaM V (Option (Node (MetaObj V))) :=
  zoom store (getNameSpaceNode (qualHome ns))

/-- `MetaRepository::_addQualifierType`, for a qualifier type that is not null. -/
def addQualifierType (ns : Str) (qt : CIMQualifierType V) : MetaM V Unit := do
  let qkey := makeQualPath ns qt.name
  let s ← get
  match getNode s.nodes qkey with
  | some _ =>
    throw (.cim .alreadyExists (if ns = [] then qt.name else ns ++ '/' :: qt.name))
  | none => do
    match ← getQualContainer ns with
    | none => throw (.cim .invalidNamespace ns)
    | some pnode => do
      zoom store (addCIMObject (.qual qt) qkey pnode 0)
      zoom qltCache (modify fun c => c.addToCache qt qkey)

/-- `MetaRepository::setQualifierType` -/
def setQualifierType (ns : Str) (qt : CIMQualifierType V) : MetaM V Unit := do
  let qkey := makeQualPath ns qt.name
  let s ← get
  match getNode s.nodes qkey with
  | none => addQualifierType ns qt
  | some node => do
    zoom store (updateCIMObject (.qual qt) node none)
    zoom qltCache (modify fun c => (c.removeFromCache qkey).addToCache qt qkey)

/-! ### Reading classes -/

/-- The class of a node. -/
def nodeToClass (node : Node (MetaObj V)) : MetaM V (CIMClass V) := do
  match ← zoom store (nodeToCIMObject MetaObj.class? (some node)) with
  | none => throw .badSignature
  | some c => pure c

/-- `MetaRepository::_resolveClass`, for at most a number of superclasses. -/
def resolveClass (ns : Str) : ℕ → CIMClass V → Node (MetaObj V) → MetaM V (CIMClass V)
  | 0, _, _ => throw .diverge
  | n + 1, child, node =>
    let child := child.markKeyed
    if child.superClass = [] then pure child
    else do
      let pkey := makeClassPath ns child.superClass
      match ← zoom clsCache (lookup pkey) with
      | some parentClass => pure (child.inherit parentClass)
      | none => do
        let s ← get
        match getParent s.nodes node with
        | none => pure child
        | some pnode =>
          if pnode.areAllFlagsOn nsNodeFlag then pure child
          else do
            let parentClass ← nodeToClass pnode
            let parentClass ← resolveClass ns n parentClass pnode
            zoom clsCache (modify fun c => c.addToCache parentClass pkey)
            pure (child.inherit parentClass)

/-- `MetaRepository::_getClassFromNode`. A way up that visits more nodes than there are does not
end. -/
def getClassFromNode (ns : Str) (node : Node (MetaObj V)) : MetaM V (CIMClass V) := do
  let theClass ← nodeToClass node
  let s ← get
  resolveClass ns (s.nodes.length + 1) theClass node

/-- What a client asks for with a class. -/
structure ClassRequest where
  localOnly : Bool
  includeQualifiers : Bool
  includeClassOrigin : Bool
  propertyList : Option (List CIMName)
  deriving DecidableEq

/-- A request for the whole class. -/
def ClassRequest.whole : ClassRequest := ⟨false, true, true, none⟩

/-- The part of a class that is asked for. -/
def ClassRequest.filter (req : ClassRequest) (cc : CIMClass V) : CIMClass V :=
  if req.propertyList.isSome || req.localOnly || !req.includeQualifiers ||
      !req.includeClassOrigin then
    cc.clone
      { localOnly := req.localOnly
        includeQualifiers := req.includeQualifiers
        includeClassOrigin := req.includeClassOrigin
        propertyList := req.propertyList.getD []
        noProps := req.propertyList = some [] }
  else cc

/-- `MetaRepository::getCIMClass`; the result `none` is `NOT_FOUND`. -/
def getCIMClass (ns : Str) (className : CIMName) (req : ClassRequest) :
    MetaM V (Option (CIMClass V)) := do
  let ckey := makeClassPath ns className
  match ← zoom clsCache (lookup ckey) with
  | some cc => pure (some (req.filter cc))
  | none => do
    let s ← get
    match getNode s.nodes ckey with
    | none => pure none
    | some node => do
      let cc ← getClassFromNode ns node
      zoom clsCache (modify fun c => c.addToCache cc ckey)
      pure (some (req.filter cc))

/-! ### Writing classes -/

/-- `MetaRepository::deleteClass` -/
def deleteClass (ns : Str) (className : CIMName) : MetaM V Bool := do
  let ckey := makeClassPath ns className
  let s ← get
  match getNode s.nodes ckey with
  | none => pure false
  | some node => do
    let _ ← nodeToClass node
    zoom clsCache (modify fun c => c.removeFromCache ckey)
    zoom store (modify fun t => removeNode t node)
    pure true

/-- The class of a refusal. -/
def refuse {α : Type} : Except Refusal α → MetaM V α
  | .ok v => pure v
  | .error msg => throw (.cim .invalidParameter msg)

/-- `MetaRepository::adjustClass`: the class as it is stored, and the node of its superclass. -/
def adjustClass (ns : Str) (childClass : CIMClass V) :
    MetaM V (CIMClass V × Option (Node (MetaObj V))) :=
  if childClass.superClass = [] then pure (childClass.adjustBase, none)
  else do
    let s ← get
    match getNode s.nodes (makeClassPath ns childClass.superClass) with
    | none => throw (.cim .invalidSuperclass childClass.superClass)
    | some parentNode => do
      let parentClass ← getClassFromNode ns parentNode
      let childClass ← refuse (childClass.adjust parentClass)
      pure (childClass, some parentNode)

/-- `MetaRepository::_resolveQualifiers`: the flavors come from the qualifier types. -/
def resolveQualifiers (ns : Str) : List (CIMQualifier V) → MetaM V (List (CIMQualifier V))
  | [] => pure []
  | q :: quals => do
    let qt ← getQualifierType ns q.name
    let quals ← resolveQualifiers ns quals
    pure (qt.flavors.foldl CIMQualifier.addFlavor q :: quals)

/-- The node of the superclass, or else the container of the namespace. -/
def parentOrContainer (ns : Str) (pnode : Option (Node (MetaObj V))) :
    MetaM V (Node (MetaObj V)) := do
  match pnode with
  | some pnode => pure pnode
  | none => do
    match ← zoom store (getNameSpaceNode (classContainer ns)) with
    | none => throw (.cim .invalidNamespace ns)
    | some pnode => pure pnode

/-- `MetaRepository::createClass`; the result is the class as it is stored. -/
def createClass (ns : Str) (cimClass : CIMClass V) : MetaM V (CIMClass V) := do
  let quals ← resolveQualifiers ns cimClass.quals
  let (cimClass, pnode) ← adjustClass ns { cimClass with quals }
  let pnode ← parentOrContainer ns pnode
  let ckey := makeClassPath ns cimClass.name
  let s ← get
  match getNode s.nodes ckey with
  | some _ => throw (.cim .alreadyExists ckey)
  | none => do
    let flags := if cimClass.isAssociation then clsAssocNodeFlag else 0
    zoom store (addCIMObject (.cls cimClass) ckey pnode flags)
    pure cimClass

/-- `MetaRepository::modifyClass` -/
def modifyClass (ns : Str) (cimClass : CIMClass V) : MetaM V Unit := do
  let (cimClass, parentNode) ← adjustClass ns cimClass
  let parentNode ← parentOrContainer ns parentNode
  let ckey := makeClassPath ns cimClass.name
  let s ← get
  match getNode s.nodes ckey with
  | none => throw (.cim .notFound ckey)
  | some node => do
    let _ ← nodeToClass node
    zoom clsCache (modify fun c => c.removeFromCache ckey)
    zoom store (updateCIMObject (.cls cimClass) node (some parentNode))

/-! ### Namespaces -/

omit [CIMValue V] in
/-- `MetaRepository::createNameSpace` -/
def createNameSpace (ns : Str) : MetaM V Int := do
  let r ← zoom store (GenericHDBRepository.createNameSpace (classContainer ns))
  if r = -1 then pure (-1)
  else zoom store (GenericHDBRepository.createNameSpace (qualContainer ns))

omit [CIMValue V] in
/-- `MetaRepository::deleteNameSpace`. The qualifier cache is left as it is. -/
def deleteNameSpace (ns : Str) : MetaM V Unit := do
  zoom store (GenericHDBRepository.deleteNameSpace (qualContainer ns))
  zoom store (GenericHDBRepository.deleteNameSpace (classContainer ns))
  zoom clsCache (modify Cache.clearCache)

/-! ### Enumerating classes -/

section Enumeration

/-! The handler may change the repository, and more than it. The programs of this section work on a
state of which the schema store is a part. -/

variable {σ : Type} (L : Lens σ (MetaRepository V))

/-- A step of the walk: the node that a node object leads to, in the store as it is now. -/
def follow (next : Store (MetaObj V) → Node (MetaObj V) → Option (Node (MetaObj V)))
    (node : Node (MetaObj V)) : Prog σ CIMException (Option (Node (MetaObj V))) := do
  let s ← get
  pure (next (L.get s).nodes node)

mutual

/-- `MetaRepository::_getClassNodes`, with a bound on the length of the walk. -/
def getClassNodes (ns : Str) (result : CIMClass V → Prog σ CIMException Unit) (deep : Bool)
    (f : CIMClass.Filter) : ℕ → Node (MetaObj V) → Prog σ CIMException Unit
  | 0, _ => throw .diverge
  | n + 1, node => do
    let cimCls ← zoom L (getClassFromNode ns node)
    result (cimCls.clone f)
    when (deep) do
      let child ← follow L getFirstChild node
      getSiblingNodes ns result deep f n child

/-- The loop of `MetaRepository::_getClassNodes`: a node and its following siblings. -/
def getSiblingNodes (ns : Str) (result : CIMClass V → Prog σ CIMException Unit) (deep : Bool)
    (f : CIMClass.Filter) : ℕ → Option (Node (MetaObj V)) → Prog σ CIMException Unit
  | _, none => pure ⟨⟩
  | 0, some _ => throw .diverge
  | n + 1, some node => do
    getClassNodes ns result deep f n node
    let sibling ← follow L getNextSibling node
    getSiblingNodes ns result deep f n sibling

end

/-- The loop of `MetaRepository::enumClass`, which skips namespaces. -/
def enumNodes (ns : Str) (result : CIMClass V → Prog σ CIMException Unit) (deep : Bool)
    (f : CIMClass.Filter) (bound : ℕ) : ℕ → Option (Node (MetaObj V)) → Prog σ CIMException Unit
  | _, none => pure ⟨⟩
  | 0, some _ => throw .diverge
  | n + 1, some pnode => do
    when (¬ pnode.areAllFlagsOn nsNodeFlag) (getClassNodes L ns result deep f bound pnode)
    let sibling ← follow L getNextSibling pnode
    enumNodes ns result deep f bound n sibling

/-- The node at which `MetaRepository::enumClass` begins. -/
def enumRoot (ns : Str) (className : CIMName) : MetaM V (Node (MetaObj V)) := do
  let container : MetaM V (Option (Node (MetaObj V))) :=
    zoom store (getNameSpaceNode (classContainer ns))
  if className = [] then do
    match ← container with
    | none => throw (.cim .invalidNamespace ns)
    | some pnode => pure pnode
  else do
    let s ← get
    match getNode s.nodes (makeClassPath ns className) with
    | some pnode => pure pnode
    | none => do
      match ← container with
      | none => throw (.cim .invalidNamespace ns)
      | some _ => throw (.cim .invalidClass className)

/-- `MetaRepository::enumClass`. A walk through a hierarchy takes at most two steps for a node. -/
def enumClass (ns : Str) (className : CIMName) (result : CIMClass V → Prog σ CIMException Unit)
    (deep : Bool) (f : CIMClass.Filter) : Prog σ CIMException Unit := do
  let pnode ← zoom L (enumRoot ns className)
  let s ← get
  let bound := 2 * (L.get s).nodes.length + 2
  let child ← follow L getFirstChild pnode
  enumNodes L ns result deep f bound bound child

end Enumeration

end MetaRepository

end OpenWbem
