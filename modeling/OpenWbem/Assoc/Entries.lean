import Mathlib.Data.Char
import OpenWbem.Base.OrderedIndex
import OpenWbem.Repository.Store

/-!
# Association entries

An association database answers which objects are associated with an object. It keeps, under a key
that is made of the path of an object and two roles, a record with a list of entries. An entry names
the association, the class and the path of the associated object.

This file has the entries, the keys, and the operations on the database as a map from keys to
records. The way a record is found is that of the source: a cursor is put on the first key that is
not less than the wanted one, and what it stands on is compared with the wanted key.

## Main definitions

* `AssocPath` — what the database needs of object paths.
* `AssocEntry`, `AssocDbEntry` — entries, and records with their keys.
* `AssocMap` — the database as a map.
* `AssocMap.addEntry`, `AssocMap.deleteEntry` — adding and deleting an entry.
* `classEntries` — the entries of an association class.
-/

namespace OpenWbem

open Prog

/-- What an association database does with object paths. -/
class AssocPath (P : Type) where
  /-- The text of a path in a key. -/
  pathKey : P → Except CIMException Str
  /-- `CIMObjectPath::equals` -/
  equals : P → P → Bool

/-! ### The paths of the repository -/

section Paths

variable {V : Type} [CIMValue V]

/-- `HDBUtilKeyArray`: the keys are ordered by name. -/
def sortedKeys (keys : List (CIMProperty V)) : List (CIMProperty V) :=
  keys.mergeSort fun x y => decide (Str.lower x.name ≤ Str.lower y.name)

/-- `HDBUtilKeyArray::toString`, for the keys from the position `i` on. -/
def keysText : (first : Bool) → List (CIMProperty V) → Except CIMException Str
  | _, [] => .ok []
  | first, p :: keys =>
    match p.value with
    | none => .error (.hdb "NULL value not allowed in a key property".toList)
    | some v => do
      let rest ← keysText false keys
      .ok ((if first then '.' else ',') :: Str.lower p.name ++ '=' ::
        CIMValue.asKeyString v ++ rest)

/-- `makeClassKey` and `makeInstanceKey` of the association database: the class in lower case, the
namespace as it is. -/
instance : AssocPath (CIMObjectPath V) where
  pathKey path :=
    let classKey := path.nameSpace ++ ':' :: Str.lower path.className
    if path.isClassPath then .ok classKey
    else do
      let keys ← keysText true (sortedKeys path.keys)
      .ok (classKey ++ keys)
  equals := CIMObjectPath.equals

end Paths

/-! ### Entries and records -/

variable {P : Type} [AssocPath P]

/-- `AssocDbEntry::entry` -/
structure AssocEntry (P : Type) where
  assocClass : CIMName
  resultClass : CIMName
  associatedObject : P
  associationPath : P
  deriving DecidableEq

/-- `operator==` on entries. -/
def AssocEntry.same (x y : AssocEntry P) : Bool :=
  sameName x.assocClass y.assocClass && sameName x.resultClass y.resultClass &&
    AssocPath.equals x.associatedObject y.associatedObject &&
    AssocPath.equals x.associationPath y.associationPath

/-- `AssocDbEntry`: a record. -/
structure AssocDbEntry (P : Type) where
  objectName : P
  role : CIMName
  resultRole : CIMName
  entries : List (AssocEntry P)
  deriving DecidableEq

/-- `AssocDbEntry::makeKey` -/
def makeAssocKey (objectName : P) (role resultRole : CIMName) : Except CIMException Str := do
  let key ← AssocPath.pathKey objectName
  .ok (key ++ '#' :: Str.lower role ++ '#' :: Str.lower resultRole)

/-- The key of a record. -/
def AssocDbEntry.makeKey (r : AssocDbEntry P) : Except CIMException Str :=
  makeAssocKey r.objectName r.role r.resultRole

/-- An entry together with what its key is made of: the arguments of `addEntry` and
`deleteEntry`. -/
structure AssocArgs (P : Type) where
  objectName : P
  role : CIMName
  resultRole : CIMName
  entry : AssocEntry P
  deriving DecidableEq

/-! ### The map -/

/-- The database as a map from keys to records. -/
abbrev AssocMap (P : Type) := OrderedIndex Str (AssocDbEntry P)

/-- Programs on an association database. -/
abbrev AssocM (P : Type) := Prog (AssocMap P) CIMException

/-- An exception or a value. -/
def liftExcept {σ α : Type} : Except CIMException α → Prog σ CIMException α
  | .ok v => pure v
  | .error e => throw e

namespace AssocMap

/-- `AssocDb::findEntry` -/
def findEntry (m : AssocMap P) (key : Str) : Option (AssocDbEntry P) :=
  match m.lowerBound key with
  | some (k, r) => if k = key then some r else none
  | none => none

/-- `AssocDb::addEntry` -/
def addEntry (a : AssocArgs P) : AssocM P Unit := do
  let key ← liftExcept (makeAssocKey a.objectName a.role a.resultRole)
  let m ← get
  let r := (findEntry m key).getD ⟨a.objectName, a.role, a.resultRole, []⟩
  set (m.put key { r with entries := r.entries ++ [a.entry] })

/-- `AssocDb::deleteEntry`. If no key is greater than or equal to the one of the entry, there is
nothing but a line in the log. -/
def deleteEntry (a : AssocArgs P) : AssocM P Unit := do
  let key ← liftExcept (makeAssocKey a.objectName a.role a.resultRole)
  let m ← get
  match m.lowerBound key with
  | none => pure ⟨⟩
  | some (_, r) => do
    let rkey ← liftExcept r.makeKey
    if rkey ≠ key then
      throw (.hdb ("entry key = ".toList ++ key ++ ", db entry key = ".toList ++ rkey))
    else if r.entries.any a.entry.same then
      let entries := r.entries.eraseP a.entry.same
      if entries.isEmpty then set (m.remove key) else set (m.put key { r with entries })
    else throw (.hdb "not found".toList)

/-- `AssocDbHandle::getAllEntries`, for sets of classes; an empty set admits nothing. -/
def getAllEntries (m : AssocMap P) (objectName : P)
    (assocClasses resultClasses : Option (List CIMName))
    (role resultRole : CIMName) : Except CIMException (List (AssocEntry P)) :=
  if assocClasses = some [] ∨ resultClasses = some [] then .ok []
  else do
    let key ← makeAssocKey objectName role resultRole
    match findEntry m key with
    | none => .ok []
    | some r =>
      .ok (r.entries.filter fun e =>
        (assocClasses.all fun l => l.any (sameName e.assocClass)) &&
          (resultClasses.all fun l => l.any (sameName e.resultClass)))

end AssocMap

/-! ### The entries of an association -/

/-- The four entries for a pair of references: with and without the two roles. -/
def pairEntries (objectName : P) (role resultRole : CIMName) (entry : AssocEntry P) :
    List (AssocArgs P) :=
  [⟨objectName, role, resultRole, entry⟩, ⟨objectName, [], resultRole, entry⟩,
    ⟨objectName, role, [], entry⟩, ⟨objectName, [], [], entry⟩]

/-- All ordered pairs of elements at different positions. -/
def orderedPairs {α : Type} (l : List α) : List (α × α) :=
  l.zipIdx.flatMap fun x => (l.zipIdx.filter fun y => y.2 ≠ x.2).map fun y => (x.1, y.1)

/-- `AssocDbHandle::addOrDeleteEntries` for a class: the entries of an association class. -/
def classEntries {V : Type} (ns : Str) (assocClass : CIMClass V) :
    List (AssocArgs (CIMObjectPath V)) :=
  (orderedPairs assocClass.properties).flatMap fun (p1, p2) =>
    match p1.dataType, p2.dataType with
    | .reference refClass, .reference resultClass =>
      pairEntries (.ofClass refClass ns) p1.name p2.name
        ⟨assocClass.name, resultClass, .ofClass resultClass ns, .ofClass assocClass.name ns⟩
    | _, _ => []

end OpenWbem
