import OpenWbem.Assoc.Index

/-!
# The entries of association instances

An association instance refers to objects. For every two of its references the instance association
database gets four entries, under the path of one object and with the path of the other one. A
reference need not have a namespace. Then the object is in the namespace of the association.

`AssocDbHandle::addOrDeleteEntries` completes the first path of a pair twice, and the second one
never: if the second path has no namespace, it is the first path that gets the namespace of the
association.

## Main definitions

* `instanceEntries` — the entries of an association instance.
* `CIMObjectPath.resolve` — a path with the namespace that it has, or else with a given one.
* `ResolvesApart` — each path of an entry is completed for itself.

## Main results

* `resolvesApart_iff` — **when each path is completed for itself.**
-/

namespace OpenWbem

open Prog CIMObjectPath

variable {V : Type} [CIMValue V]

/-- `CIMObjectPath::setNameSpace` -/
def CIMObjectPath.setNameSpace (ns : Str) (path : CIMObjectPath V) : CIMObjectPath V :=
  { path with nameSpace := normalizeNs ns }

/-- The path that a property refers to, if its value is a reference. -/
def CIMProperty.refPath? (p : CIMProperty V) : Option (CIMObjectPath V) :=
  p.value.bind CIMValue.objectPath?

/-- `CIMObjectPath::setKeys` of an instance: the keys are without qualifiers. -/
def CIMInstance.path (ns : Str) (ci : CIMInstance V) : CIMObjectPath V :=
  ⟨normalizeNs ns, ci.className, ci.keys.map fun p => { p with quals := [] }⟩

/-- The object name of the entries of a pair of references. The second test is on the other path. -/
def pairObjectName (ns : Str) (objectName associatedObject : CIMObjectPath V) : CIMObjectPath V :=
  let objectName := if objectName.nameSpace.isEmpty then objectName.setNameSpace ns else objectName
  if associatedObject.nameSpace.isEmpty then objectName.setNameSpace ns else objectName

/-- The entries for two properties of an association instance, if both are references. -/
def instancePairEntries (ns : Str) (assocInstance : CIMInstance V) (p1 p2 : CIMProperty V) :
    List (AssocArgs (CIMObjectPath V)) :=
  match p1.refPath?, p2.refPath? with
  | some objectName, some associatedObject =>
    pairEntries (pairObjectName ns objectName associatedObject) p1.name p2.name
      ⟨assocInstance.className, associatedObject.className, associatedObject, assocInstance.path ns⟩
  | _, _ => []

/-- `AssocDbHandle::addOrDeleteEntries` for an instance: the entries of an association instance. -/
def instanceEntries (ns : Str) (assocInstance : CIMInstance V) :
    List (AssocArgs (CIMObjectPath V)) :=
  (orderedPairs assocInstance.properties).flatMap fun (p1, p2) =>
    instancePairEntries ns assocInstance p1 p2

/-- A path with the namespace that it has, or else with a given one. -/
def CIMObjectPath.resolve (ns : Str) (path : CIMObjectPath V) : CIMObjectPath V :=
  if path.nameSpace = [] then path.setNameSpace ns else path

/-- **Each path is completed for itself**: an entry for two references is stored under the path of
the first one and records the path of the second one, each with its own namespace or else with that
of the association. -/
def ResolvesApart (ns : Str) (assocInstance : CIMInstance V) : Prop :=
  ∀ p q x y, (p, q) ∈ orderedPairs assocInstance.properties → p.refPath? = some x →
    q.refPath? = some y → ∀ a ∈ instancePairEntries ns assocInstance p q,
      a.objectName = x.resolve ns ∧ a.entry.associatedObject = y.resolve ns

omit [CIMValue V] in
/-- The first path is as it should be, unless it has a namespace that is replaced. -/
lemma pairObjectName_eq_iff (ns : Str) (x y : CIMObjectPath V) :
    pairObjectName ns x y = x.resolve ns ↔
      y.nameSpace ≠ [] ∨ x.nameSpace = [] ∨ normalizeNs ns = x.nameSpace := by
  rcases x with ⟨nsx, cx, kx⟩
  by_cases hy : y.nameSpace = [] <;> by_cases hx : nsx = [] <;>
    simp [pairObjectName, resolve, CIMObjectPath.setNameSpace, hx, hy]

omit [CIMValue V] in
/-- The second path is as it should be, unless it has no namespace. -/
lemma eq_resolve_iff (ns : Str) (y : CIMObjectPath V) :
    y = y.resolve ns ↔ y.nameSpace ≠ [] ∨ [] = normalizeNs ns := by
  rcases y with ⟨nsy, cy, ky⟩
  by_cases hy : nsy = [] <;>
    simp [resolve, CIMObjectPath.setNameSpace, hy]

/-- **When each path is completed for itself**: every reference that is the second one of a pair has
a namespace, or the association is in no namespace and neither is the first one.

**Proof sketch.** If the second path has a namespace, the code completes the first one only. If it
has none, then the recorded path is right only if there is nothing to complete it with, and the
first path loses the namespace that it has. -/
theorem resolvesApart_iff (ns : Str) (assocInstance : CIMInstance V) :
    ResolvesApart ns assocInstance ↔
      ∀ p q x y, (p, q) ∈ orderedPairs assocInstance.properties → p.refPath? = some x →
        q.refPath? = some y → y.nameSpace ≠ [] ∨ (normalizeNs ns = [] ∧ x.nameSpace = []) := by
  have hpair : ∀ (p q : CIMProperty V) (x y : CIMObjectPath V), p.refPath? = some x →
      q.refPath? = some y → ((∀ a ∈ instancePairEntries ns assocInstance p q,
        a.objectName = x.resolve ns ∧ a.entry.associatedObject = y.resolve ns) ↔
          y.nameSpace ≠ [] ∨ (normalizeNs ns = [] ∧ x.nameSpace = [])) := by
    intro p q x y hx hy
    simp only [instancePairEntries, hx, hy, pairEntries, List.forall_mem_cons,
      List.not_mem_nil, false_implies, implies_true, and_true, and_self]
    rw [pairObjectName_eq_iff, eq_resolve_iff]
    constructor
    · rintro ⟨hy | hx | hx, hy' | hns⟩
      · exact .inl hy
      · exact .inl hy
      · exact .inl hy'
      · exact .inr ⟨hns.symm, hx⟩
      · exact .inl hy'
      · exact .inr ⟨hns.symm, hx.symm.trans hns.symm⟩
    · rintro (hy | ⟨hns, hx⟩)
      · exact ⟨.inl hy, .inl hy⟩
      · exact ⟨.inr (.inl hx), .inr hns.symm⟩
  constructor
  · intro h p q x y hmem hx hy
    exact (hpair p q x y hx hy).1 (h p q x y hmem hx hy)
  · intro h p q x y hmem hx hy
    exact (hpair p q x y hx hy).2 (h p q x y hmem hx hy)

/-! ### A reference into another namespace -/

/-- A value that refers to a class. -/
structure ClassRef where
  nameSpace : Str
  className : CIMName
  deriving DecidableEq

instance : CIMValue ClassRef where
  boolean? _ := none
  equal := (· == ·)
  cloneEmbedded _ _ v := v
  toMOF p := p.name
  objectPath? v := some ⟨v.nameSpace, v.className, []⟩
  asKeyString v := v.nameSpace ++ v.className

/-- An association in `root` of an object in the namespace `a` with one that is given without a
namespace. -/
def mixedAssociation : CIMInstance ClassRef :=
  ⟨['L'], [], [⟨['p'], [], [], .reference ['X'], some ⟨['a'], ['X']⟩, false⟩,
    ⟨['q'], [], [], .reference ['Y'], some ⟨[], ['Y']⟩, false⟩], []⟩

/-- **The namespace of the wrong path is set**: the entry for the pair is stored under the path of
the first object in `root`, where it is not, and records the second one without a namespace. -/
theorem not_resolvesApart_mixedAssociation :
    (instanceEntries ['r', 'o', 'o', 't'] mixedAssociation).head?.map
        (fun a => (a.objectName, a.entry.associatedObject)) =
      some (⟨['r', 'o', 'o', 't'], ['X'], []⟩, ⟨[], ['Y'], []⟩) ∧
    ¬ ResolvesApart ['r', 'o', 'o', 't'] mixedAssociation := by
  refine ⟨by decide +kernel, fun h => ?_⟩
  have hpair := h ⟨['p'], [], [], .reference ['X'], some ⟨['a'], ['X']⟩, false⟩
    ⟨['q'], [], [], .reference ['Y'], some ⟨[], ['Y']⟩, false⟩ _ _ (by decide) rfl rfl _
    List.mem_cons_self
  exact absurd hpair.1 (by decide +kernel)

end OpenWbem
