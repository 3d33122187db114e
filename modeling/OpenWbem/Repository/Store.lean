import OpenWbem.Base.Hierarchy
import OpenWbem.Base.Prog
import OpenWbem.Cim.Objects

/-!
# Stores

A repository keeps its objects in a hierarchical database. What the repository sees of a database is
a hierarchy of nodes with keys, flags and data, and this file has the operations on it that the
repository uses. `Hdb.shows_of_reaches` is the reason why a database can be replaced by a hierarchy.

A node object that a caller holds is a row of the hierarchy. The functions that work on it read it
again first; a node that has been removed is null from then on.

The data of a node are an object, not its bytes. Some nodes, such as namespaces, have the text of
their key in the place of an object.

## Main definitions

* `Store`, `StoreNode` — a hierarchy of nodes with flags and objects.
* `Store.getNode`, `Store.getParent`, `Store.getFirstChild`, `Store.getNextSibling` — reading.
* `Store.addRootNode`, `Store.addChild`, `Store.removeNode`, `Store.updateNode` — writing.
* `CIMException` — what the repository throws.
* `GenericHDBRepository.createNameSpace` and its companions — the class `GenericHDBRepository`.
-/

namespace OpenWbem

open Hierarchy

/-! ### Exceptions -/

/-- The error codes of `CIMException` that the repository uses. -/
inductive ErrNo where
  | failed
  | invalidNamespace
  | invalidParameter
  | invalidClass
  | notFound
  | alreadyExists
  | invalidSuperclass
  deriving DecidableEq

/-- What the repository throws. -/
inductive CIMException where
  /-- `CIMException`, with its error code and message. -/
  | cim (errNo : ErrNo) (msg : Str)
  /-- `IOException` -/
  | io (msg : Str)
  /-- `HDBException` -/
  | hdb (msg : Str)
  /-- Data that are not those of an object of the expected kind. -/
  | badSignature
  /-- A loop or recursion that does not end. -/
  | diverge
  deriving DecidableEq

/-! ### Nodes -/

/-- `HDBNSNODE_FLAG`: the node is a namespace. -/
def nsNodeFlag : UInt32 := 0x40000000

/-- `HDBCLSNODE_FLAG`: the node is a class, in the store of the instances. -/
def clsNodeFlag : UInt32 := 0x20000000

/-- `HDBCLSASSOCNODE_FLAG`: the node is an association class. -/
def clsAssocNodeFlag : UInt32 := 0x08000000

/-- The flags and the object of a node; there is no object in a node with the text of its key. -/
structure StoreNode (D : Type) where
  flags : UInt32
  obj : Option D
  deriving DecidableEq

/-- A hierarchy of nodes. -/
abbrev Store (D : Type) := Table Str (StoreNode D)

/-- A node object. -/
abbrev Node (D : Type) := Row Str (StoreNode D)

/-- `HDBNode::areAllFlagsOn` -/
def Node.areAllFlagsOn {D : Type} (node : Node D) (flags : UInt32) : Bool :=
  node.val.flags &&& flags = flags

/-- The flags of a node. -/
lemma Node.areAllFlagsOn_eq {D : Type} {node : Node D} (fl : UInt32) (h : node.val.flags = fl)
    (flags : UInt32) : node.areAllFlagsOn flags = decide (fl &&& flags = flags) := by
  rw [areAllFlagsOn, h]

/-- The element that follows `k` in a list. -/
def nextOf {K : Type} [DecidableEq K] (l : List K) (k : K) : Option K :=
  (l.dropWhile (· ≠ k)).tail.head?

namespace Store

variable {D : Type}

/-- `HDBHandle::getNode` -/
def getNode (t : Store D) (key : Str) : Option (Node D) := if key = [] then none else row? t key

/-- Reading a node object again. -/
def reload (t : Store D) (node : Node D) : Option (Node D) := row? t node.key

/-- `HDBHandle::getParent` -/
def getParent (t : Store D) (node : Node D) : Option (Node D) :=
  (reload t node).bind fun node => node.parent.bind (row? t)

/-- `HDBHandle::getFirstChild` -/
def getFirstChild (t : Store D) (node : Node D) : Option (Node D) :=
  (reload t node).bind fun node => (kids t (some node.key)).head?.bind (row? t)

/-- `HDBHandle::getNextSibling` -/
def getNextSibling (t : Store D) (node : Node D) : Option (Node D) :=
  (reload t node).bind fun node => (nextOf (kids t node.parent) node.key).bind (row? t)

/-- `HDBHandle::addRootNode`, for a node with a key that is not in the index. -/
def addRootNode (t : Store D) (key : Str) (val : StoreNode D) : Store D := add t key none val

/-- `HDBHandle::addChild`, for a node with a key that is not in the index; nothing is added if the
parent has been removed. -/
def addChild (t : Store D) (parent : Node D) (key : Str) (val : StoreNode D) : Store D :=
  match reload t parent with
  | none => t
  | some parent => add t key (some parent.key) val

/-- `HDBHandle::removeNode`: the node and everything below it. -/
def removeNode (t : Store D) (node : Node D) : Store D :=
  match reload t node with
  | none => t
  | some node => remove t node.key

/-- `HDBHandle::updateNode`: another object, and another parent if one is given. -/
def updateNode (t : Store D) (node : Node D) (newParent : Option (Node D)) (obj : D) : Store D :=
  let t' := modify t node.key fun v => { v with obj := some obj }
  match newParent with
  | none => t'
  | some parent => adopt t' node.key parent.key

variable {t : Store D} {k : Str} {node : Node D}

/-- The row is there. -/
lemma mem_of_row? {r : Node D} (h : row? t k = some r) : r ∈ t := List.mem_of_find?_eq_some h

/-- It has the key. -/
lemma key_of_row? {r : Node D} (h : row? t k = some r) : r.key = k := by
  simpa using List.find?_some h

/-- The row of a node. -/
lemma row?_of_getNode (h : getNode t k = some node) : row? t k = some node := by
  rw [getNode] at h
  split_ifs at h
  exact h

/-- The key of a node. -/
lemma key_of_getNode (h : getNode t k = some node) : node.key = k := key_of_row? (row?_of_getNode h)

/-- No node, no row. -/
lemma row?_eq_none_of_getNode (hk : k ≠ []) (h : getNode t k = none) : row? t k = none := by
  rwa [getNode, if_neg hk] at h

end Store

/-! ### The repository -/

/-- Programs on a store. -/
abbrev StoreM (D : Type) := Prog (Store D) CIMException

namespace GenericHDBRepository

variable {D : Type}

/-- `GenericHDBRepository::getNameSpaceNode` -/
def getNameSpaceNode (ck : Str) : StoreM D (Option (Node D)) := do
  let t ← get
  match Store.getNode t ck with
  | none => pure none
  | some node =>
    if node.areAllFlagsOn nsNodeFlag then pure (some node)
    else throw (.io "logic error. Expected namespace node".toList)

open Prog in
/-- The node of a namespace. -/
lemma exec_getNameSpaceNode (ck : Str) (t : Store D) :
    (∃ p, Store.getNode t ck = some p ∧ p.areAllFlagsOn nsNodeFlag ∧
        exec (getNameSpaceNode ck) t = (.ok (some p), t)) ∨
      (Store.getNode t ck = none ∧ exec (getNameSpaceNode ck) t = (.ok none, t)) ∨
      ∃ p msg, Store.getNode t ck = some p ∧ p.areAllFlagsOn nsNodeFlag = false ∧
        exec (getNameSpaceNode ck) t = (.error (.io msg), t) := by
  rw [getNameSpaceNode, exec_get_bind]
  rcases Store.getNode t ck with _ | p
  · exact .inr (.inl ⟨rfl, rfl⟩)
  · cases hp : p.areAllFlagsOn nsNodeFlag with
    | true => exact .inl ⟨p, rfl, hp, by simp only [hp, if_true]; rfl⟩
    | false => exact .inr (.inr ⟨p, _, rfl, hp, by simp only [hp]; rfl⟩)

/-- `GenericHDBRepository::createNameSpace` -/
def createNameSpace (ns : Str) : StoreM D Int :=
  if ns = [] then pure (-1)
  else do
    let t ← get
    match Store.getNode t ns with
    | none => do
      set (Store.addRootNode t ns ⟨nsNodeFlag, none⟩)
      pure 0
    | some node =>
      if node.areAllFlagsOn nsNodeFlag then pure (-1)
      else throw (.io "logic error. read namespace node that is not a namespace".toList)

/-- `GenericHDBRepository::deleteNameSpace` -/
def deleteNameSpace (key : Str) : StoreM D Unit :=
  if key = ['r', 'o', 'o', 't'] then throw (.cim .failed "cannot delete root namespace".toList)
  else do
    let t ← get
    match Store.getNode t key with
    | none => throw (.cim .failed ("Unable to delete namespace ".toList ++ key))
    | some node =>
      if node.areAllFlagsOn nsNodeFlag then set (Store.removeNode t node)
      else throw (.io "logic error. deleting non-namespace node".toList)

/-- `GenericHDBRepository::nameSpaceExists` -/
def nameSpaceExists (t : Store D) (key : Str) : Bool :=
  match Store.getNode t key with
  | none => false
  | some node => node.areAllFlagsOn nsNodeFlag

/-- `GenericHDBRepository::nodeToCIMObject`, for objects of one kind: the null node gives the null
object, and data of another kind are refused. -/
def nodeToCIMObject {α : Type} (read : D → Option α) : Option (Node D) → StoreM D (Option α)
  | none => pure none
  | some node =>
    match node.val.obj.bind read with
    | none => throw .badSignature
    | some x => pure (some x)

/-- `GenericHDBRepository::updateCIMObject` -/
def updateCIMObject (cimObj : D) (node : Node D) (parentNode : Option (Node D)) :
    StoreM D Unit := do
  let t ← get
  match Store.reload t node with
  | none => throw (.hdb "Failed to update repository node".toList)
  | some node => set (Store.updateNode t node parentNode cimObj)

/-- `GenericHDBRepository::addCIMObject` -/
def addCIMObject (cimObj : D) (key : Str) (parentNode : Node D) (nodeFlags : UInt32) :
    StoreM D Unit := do
  let t ← get
  set (Store.addChild t parentNode key ⟨nodeFlags, some cimObj⟩)

end GenericHDBRepository

end OpenWbem
