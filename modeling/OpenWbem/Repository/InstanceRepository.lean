import OpenWbem.Repository.Store

/-!
# The store of the instances

The class `InstanceRepository`. Every namespace is a root of the database; the classes of the
namespace are nodes below it, and the instances of a class are below the node of the class. A node
of a class has the text of its key and no object.

The key of the node of a class is in lower case as a whole, so that namespaces that differ in case
only share the nodes of their classes.

## Main definitions

* `InstanceRepository.makeClassKey` — the key of the node of a class.
* `InstanceRepository.createClass`, `InstanceRepository.deleteClass` — classes.
-/

namespace OpenWbem

open Prog

/-- Programs on the store of the instances. -/
abbrev InstM (V : Type) := StoreM (CIMInstance V)

namespace InstanceRepository

variable {V : Type}

/-- `InstanceRepository::makeClassKey` -/
def makeClassKey (ns : Str) (className : CIMName) : Str := Str.lower (ns ++ ':' :: className)

/-- Within a namespace, the key tells the names of classes apart, up to case. -/
lemma makeClassKey_eq_iff {ns : Str} {name name' : CIMName} :
    makeClassKey ns name = makeClassKey ns name' ↔ Str.lower name = Str.lower name' := by
  simp [makeClassKey, Str.lower]

/-- `InstanceRepository::createClass` -/
def createClass (ns : Str) (className : CIMName) : InstM V Unit := do
  match ← GenericHDBRepository.getNameSpaceNode ns with
  | none => throw (.cim .invalidNamespace ns)
  | some pnode => do
    let ckey := makeClassKey ns className
    let t ← get
    match Store.getNode t ckey with
    | some _ => throw (.cim .alreadyExists ckey)
    | none => set (Store.addChild t pnode ckey ⟨nsNodeFlag ||| clsNodeFlag, none⟩)

/-- `InstanceRepository::deleteClass`: the node of the class with all instances. -/
def deleteClass (ns : Str) (className : CIMName) : InstM V Unit := do
  let t ← get
  match Store.getNode t (makeClassKey ns className) with
  | none => pure ⟨⟩
  | some node =>
    if node.areAllFlagsOn clsNodeFlag then set (Store.removeNode t node)
    else throw (.io "Expected class name node for instances".toList)

end InstanceRepository

end OpenWbem
