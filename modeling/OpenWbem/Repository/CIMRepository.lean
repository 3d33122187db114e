import OpenWbem.Assoc.Entries
import OpenWbem.Repository.InstanceRepository
import OpenWbem.Repository.MetaRepository

/-!
# The repository

The class `CIMRepository`: the namespaces, the schema store, the store of the instances and the two
association databases. A class is in three of them: its definition is in the schema store, its
instances are below its node in the store of the instances, and an association class has entries in
the association database of the classes.

An operation on a class is a sequence of operations on these stores. If one of them throws, the
effects of those before it stay.

## Main definitions

* `CIMRepository` — the state.
* `CIMRepository.createClass` and its companions — the operations on classes and on the schema.
* `CIMRepository.staticAssociatorsClass`, `CIMRepository.staticReferencesClass` — questions about a
  class and all its superclasses.
-/

namespace OpenWbem

open Prog MetaRepository

/-- The repository. -/
structure CIMRepository (V : Type) where
  nStore : Store Unit
  iStore : Store (CIMInstance V)
  mStore : MetaRepository V
  classAssocDb : AssocMap (CIMObjectPath V)
  instAssocDb : AssocMap (CIMObjectPath V)

/-- Programs on the repository. -/
abbrev RepoM (V : Type) := Prog (CIMRepository V) CIMException

namespace CIMRepository

variable {V : Type}

/-! ### The parts -/

/-- The namespaces. -/
def names : Lens (CIMRepository V) (Store Unit) :=
  ⟨nStore, fun x s => { s with nStore := x }, fun _ _ => rfl, fun _ => rfl⟩

/-- The store of the instances. -/
def instances : Lens (CIMRepository V) (Store (CIMInstance V)) :=
  ⟨iStore, fun x s => { s with iStore := x }, fun _ _ => rfl, fun _ => rfl⟩

/-- The schema store. -/
def schema : Lens (CIMRepository V) (MetaRepository V) :=
  ⟨mStore, fun x s => { s with mStore := x }, fun _ _ => rfl, fun _ => rfl⟩

/-- The association database of the classes. -/
def classAssoc : Lens (CIMRepository V) (AssocMap (CIMObjectPath V)) :=
  ⟨classAssocDb, fun x s => { s with classAssocDb := x }, fun _ _ => rfl, fun _ => rfl⟩

/-- The repository that is opened on an empty directory. -/
def fresh (maxClassCacheSize maxQualCacheSize : ℕ) : CIMRepository V where
  nStore := [⟨['r', 'o', 'o', 't'], none, nsNodeFlag, none⟩]
  iStore := [⟨['r', 'o', 'o', 't'], none, nsNodeFlag, none⟩]
  mStore := .fresh maxClassCacheSize maxQualCacheSize
  classAssocDb := .empty
  instAssocDb := .empty

/-- What clients see of exceptions of the database and of files. -/
def translate {α : Type} (x : RepoM V α) : RepoM V α :=
  tryCatch x fun
    | .hdb msg => throw (.cim .failed msg)
    | .io msg => throw (.cim .failed msg)
    | .badSignature => throw (.cim .failed [])
    | e => throw e

/-! ### Namespaces and qualifier types -/

/-- `CIMRepository::createNameSpace` -/
def createNameSpace (ns : Str) : RepoM V Unit :=
  if ns = [] then throw (.cim .invalidParameter [])
  else if ':' ∈ ns then
    throw (.cim .failed ("Invalid namespace (".toList ++ ns ++ "). : is not allowed".toList))
  else do
    let r ← zoom names (GenericHDBRepository.createNameSpace ns)
    if r = -1 then throw (.cim .alreadyExists ns)
    else do
      let r ← zoom instances (GenericHDBRepository.createNameSpace ns)
      if r = -1 then do
        zoom names (GenericHDBRepository.deleteNameSpace ns)
        throw (.cim .failed ("Failed to create namespace ".toList ++ ns))
      else do
        let r ← zoom schema (MetaRepository.createNameSpace ns)
        if r = -1 then do
          zoom names (GenericHDBRepository.deleteNameSpace ns)
          zoom instances (GenericHDBRepository.deleteNameSpace ns)
          throw (.cim .failed ("Failed to create namespace ".toList ++ ns))
        else pure ⟨⟩

/-- `CIMRepository::deleteNameSpace` -/
def deleteNameSpace (ns : Str) : RepoM V Unit :=
  if ns = [] then throw (.cim .invalidParameter [])
  else do
    zoom names (GenericHDBRepository.deleteNameSpace ns)
    zoom instances (GenericHDBRepository.deleteNameSpace ns)
    zoom schema (MetaRepository.deleteNameSpace ns)

/-- `CIMRepository::setQualifierType` -/
def setQualifierType (ns : Str) (qt : CIMQualifierType V) : RepoM V Unit :=
  zoom schema (MetaRepository.setQualifierType ns qt)

/-- `CIMRepository::deleteQualifierType` -/
def deleteQualifierType (ns : Str) (qualName : CIMName) : RepoM V Unit := do
  let found ← zoom schema (MetaRepository.deleteQualifierType ns qualName)
  if found then pure ⟨⟩
  else do
    let s ← get
    if GenericHDBRepository.nameSpaceExists s.nStore ns then
      throw (.cim .notFound (ns ++ '/' :: qualName))
    else throw (.cim .invalidNamespace (ns ++ '/' :: qualName))

/-! ### Reading classes -/

variable [CIMValue V]

/-- `CIMRepository::checkGetClassRvalAndThrow` -/
def checkGetClass (ns : Str) (className : CIMName) : Option (CIMClass V) → RepoM V (CIMClass V)
  | some c => pure c
  | none => do
    let s ← get
    if GenericHDBRepository.nameSpaceExists s.nStore ns then
      throw (.cim .notFound (CIMObjectPath.classText className ns))
    else throw (.cim .invalidNamespace ns)

/-- `CIMRepository::_getClass` -/
def getWholeClass (ns : Str) (className : CIMName) : RepoM V (CIMClass V) := do
  let c ← zoom schema (getCIMClass ns className .whole)
  checkGetClass ns className c

/-- `CIMRepository::getClass` -/
def getClass (ns : Str) (className : CIMName) (req : MetaRepository.ClassRequest) :
    RepoM V (CIMClass V) :=
  translate do
    let c ← zoom schema (getCIMClass ns className req)
    checkGetClass ns className c

/-- `CIMRepository::enumClasses` -/
def enumClasses (ns : Str) (className : CIMName) (result : CIMClass V → RepoM V Unit) (deep : Bool)
    (f : CIMClass.Filter) : RepoM V Unit :=
  translate (enumClass schema ns className result deep f)

/-! ### Writing classes -/

/-- The classes of the references of a new class have to exist. -/
def checkReferences (ns : Str) : List (CIMProperty V) → RepoM V Unit
  | [] => pure ⟨⟩
  | prop :: props => do
    match prop.dataType with
    | .other _ => checkReferences ns props
    | .reference refClassName => do
      tryCatch (do let _ ← getWholeClass ns refClassName; pure ⟨⟩) fun
        | .cim .notFound _ =>
          throw (.cim .invalidParameter ("Class ".toList ++ refClassName ++
            " referenced by reference property ".toList ++ prop.name ++
            " doesn't exist in namespace ".toList ++ ns))
        | e => throw e
      checkReferences ns props

/-- `CIMRepository::createClass` -/
def createClass (ns : Str) (cimClass : CIMClass V) : RepoM V Unit :=
  translate do
    checkReferences ns cimClass.properties
    let cimClass ← zoom schema (MetaRepository.createClass ns cimClass)
    zoom instances (InstanceRepository.createClass ns cimClass.name)
    let cimClass ← getWholeClass ns cimClass.name
    when (cimClass.isAssociation)
      (zoom classAssoc ((classEntries ns cimClass).forM AssocMap.addEntry))

/-- `CIMRepository::modifyClass` -/
def modifyClass (ns : Str) (cc : CIMClass V) : RepoM V (CIMClass V) :=
  translate do
    let origClass ← getWholeClass ns cc.name
    if cc.superClass = [] ∧ origClass.superClass ≠ [] then
      throw (.cim .failed "Removing a superclass is not allowed".toList)
    else do
      zoom schema (MetaRepository.modifyClass ns cc)
      pure origClass

/-- `CIMClassDeleter::doHandle` -/
def classDeleter (ns : Str) (c : CIMClass V) : RepoM V Unit := do
  let found ← zoom schema (deleteClass ns c.name)
  if found then do
    zoom instances (InstanceRepository.deleteClass ns c.name)
    when (c.isAssociation)
      (zoom classAssoc ((classEntries ns c).forM AssocMap.deleteEntry))
  else throw (.cim .notFound [])

/-- What `CIMRepository::deleteClass` asks for when it enumerates the subclasses: the elements that
a class declares itself. -/
def localFilter : CIMClass.Filter where
  localOnly := true
  includeQualifiers := false
  includeClassOrigin := false
  propertyList := []
  noProps := false

/-- `CIMRepository::deleteClass` -/
def deleteClass (ns : Str) (className : CIMName) : RepoM V (CIMClass V) :=
  translate do
    let cc ← getWholeClass ns className
    enumClasses ns className (classDeleter ns) true localFilter
    classDeleter ns cc
    pure cc

/-! ### Superclasses -/

/-- The loop of `_staticAssociatorsClass` and `_staticReferencesClass`: ask for a class and all its
superclasses, with a bound on their number. -/
def forSuperclasses (ns : Str) (query : CIMName → RepoM V Unit) : ℕ → CIMName → RepoM V Unit
  | n, curClsName =>
    if curClsName = [] then pure ⟨⟩
    else
      match n with
      | 0 => throw .diverge
      | n + 1 => do
        query curClsName
        let theClass ← getWholeClass ns curClsName
        forSuperclasses ns query n theClass.superClass

/-- A question to the association database of the classes. -/
def queryClassAssoc (ns : Str) (assocClasses resultClasses : Option (List CIMName))
    (role resultRole : CIMName) (result : AssocEntry (CIMObjectPath V) → RepoM V Unit)
    (className : CIMName) : RepoM V Unit := do
  let s ← get
  let entries ← liftExcept (AssocMap.getAllEntries s.classAssocDb ⟨ns, className, []⟩ assocClasses
    resultClasses role resultRole)
  entries.forM result

/-- The number of steps after which a way up through superclasses has visited more classes than
there are. -/
def superclassBound (s : CIMRepository V) : ℕ := s.mStore.nodes.length + 1

/-- `CIMRepository::_staticAssociatorsClass` -/
def staticAssociatorsClass (ns : Str) (className : CIMName)
    (assocClasses resultClasses : Option (List CIMName)) (role resultRole : CIMName)
    (result : AssocEntry (CIMObjectPath V) → RepoM V Unit) : RepoM V Unit := do
  let s ← get
  forSuperclasses ns (queryClassAssoc ns assocClasses resultClasses role resultRole result)
    s.superclassBound className

/-- `CIMRepository::_staticReferencesClass` -/
def staticReferencesClass (ns : Str) (className : CIMName)
    (resultClasses : Option (List CIMName)) (role : CIMName)
    (result : AssocEntry (CIMObjectPath V) → RepoM V Unit) : RepoM V Unit := do
  let s ← get
  forSuperclasses ns (queryClassAssoc ns resultClasses none role [] result)
    s.superclassBound className

end CIMRepository

end OpenWbem
