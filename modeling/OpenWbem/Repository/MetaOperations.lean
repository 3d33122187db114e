import OpenWbem.Repository.MetaRepository

/-!
# Operations on the schema store

What the functions of the schema store can do to it. Reading a class or a qualifier type changes at
most a cache. The functions that write read first, and then change one node.

## Main definitions

* `MetaOp` — the operations of a client, and `MetaOp.step`, what they do.
* `Adjusted` — the class and the parent node that `MetaRepository::adjustClass` computes.
* `HomeOf` — the node below which a class is stored.

## Main results

* `MetaRepository.ensures_createClass`, `MetaRepository.ensures_modifyClass` — what creating and
  modifying a class can do.
-/

namespace OpenWbem

open Prog Hierarchy GenericHDBRepository Store CIMQualifier

/-! ### Objects in a store -/

/-- The object under a key. -/
def Store.objAt {D : Type} (t : Store D) (k : Str) : Option D := (val? t k).bind StoreNode.obj

namespace Store

variable {D : Type} {t : Store D} {k x : Str} {node : Node D}

/-- The object of a row. -/
lemma objAt_of_row? (h : row? t k = some node) : objAt t k = node.val.obj := by
  rw [objAt, val?, h]
  rfl

/-- Under a key with an object there is a node. -/
lemma exists_row?_of_objAt {obj : D} (h : objAt t k = some obj) :
    ∃ node, row? t k = some node ∧ node.val.obj = some obj := by
  rw [objAt, val?] at h
  rcases hr : row? t k with _ | node
  · rw [hr] at h
    cases h
  · rw [hr] at h
    exact ⟨node, rfl, h⟩

/-- Loading a node again. -/
lemma reload_of_row? (h : row? t k = some node) : reload t node = some node := by
  rw [reload, key_of_row? h, h]

/-- Removing a node. -/
lemma removeNode_of_getNode (h : getNode t k = some node) : removeNode t node = remove t k := by
  rw [removeNode, reload_of_row? (row?_of_getNode h), ← key_of_getNode h]

/-- Adding a child. -/
lemma addChild_of_row? (h : row? t k = some node) (x : Str) (val : StoreNode D) :
    addChild t node x val = add t x (some k) val := by
  rw [addChild, reload_of_row? h, ← key_of_row? h]

/-- Changing an object. -/
lemma exec_updateCIMObject (obj : D) (parentNode : Option (Node D)) (h : row? t k = some node) :
    exec (updateCIMObject obj node parentNode) t = (.ok ⟨⟩, updateNode t node parentNode obj) := by
  rw [updateCIMObject, exec_get_bind, reload_of_row? h]
  rfl

/-- Other objects stay. -/
lemma objAt_remove (hx : ¬ Below t k x) : objAt (remove t k) x = objAt t x := by
  rw [objAt, objAt, val?_remove, if_neg fun h => hx (below_of_mem h)]

end Store

namespace MetaRepository

variable {V : Type}

/-! ### Reading -/

/-- Looking into the class cache. -/
lemma exec_clsLookup (k : Str) (s : MetaRepository V) : exec (zoom clsCache (lookup k)) s =
      (.ok (s.classCache.get? k), { s with classCache := s.classCache.touch k }) := exec_zoom _ _ _

/-- Looking into the qualifier cache. -/
lemma exec_qltLookup (k : Str) (s : MetaRepository V) : exec (zoom qltCache (lookup k)) s =
      (.ok (s.qualCache.get? k), { s with qualCache := s.qualCache.touch k }) := exec_zoom _ _ _

/-- Changing the class cache. -/
lemma exec_clsModify (g : Cache Str (CIMClass V) → Cache Str (CIMClass V)) (s : MetaRepository V) :
    exec (zoom clsCache (modify g) : MetaM V PUnit) s =
      (.ok ⟨⟩, { s with classCache := g s.classCache }) :=
  exec_zoom _ _ _

/-- Changing the qualifier cache. -/
lemma exec_qltModify (g : Cache Str (CIMQualifierType V) → Cache Str (CIMQualifierType V))
    (s : MetaRepository V) :
    exec (zoom qltCache (modify g) : MetaM V PUnit) s =
      (.ok ⟨⟩, { s with qualCache := g s.qualCache }) :=
  exec_zoom _ _ _

/-- Changing the store. -/
lemma exec_storeModify (g : Store (MetaObj V) → Store (MetaObj V)) (s : MetaRepository V) :
    exec (zoom store (modify g) : MetaM V PUnit) s = (.ok ⟨⟩, { s with nodes := g s.nodes }) :=
  exec_zoom _ _ _

/-- Keys of classes are not empty. -/
lemma makeClassPath_ne_nil (ns : Str) (className : CIMName) : makeClassPath ns className ≠ [] := by
  simp [makeClassPath]

/-- Nor those of qualifiers. -/
lemma makeQualPath_ne_nil (ns : Str) (qualName : CIMName) : makeQualPath ns qualName ≠ [] := by
  rw [makeQualPath]
  split_ifs <;> simp [qualContainer]

/-- The class of a node. -/
lemma exec_nodeToClass {node : Node (MetaObj V)} {c : CIMClass V} (h : node.val.obj = some (.cls c))
    (s : MetaRepository V) : exec (nodeToClass node) s = (.ok c, s) := by
  have hread : exec (zoom store (nodeToCIMObject MetaObj.class? (some node))) s =
      (.ok (some c), s) := by
    rw [nodeToCIMObject, h]
    rfl
  rw [nodeToClass, exec_bind_of_ok hread]
  rfl

/-- Another node. -/
lemma exec_nodeToClass_of_ne {node : Node (MetaObj V)} (h : ∀ c, node.val.obj ≠ some (.cls c))
    (s : MetaRepository V) : exec (nodeToClass node) s = (.error .badSignature, s) := by
  have hread : exec (zoom store (nodeToCIMObject MetaObj.class? (some node))) s =
      (.error .badSignature, s) := by
    rw [nodeToCIMObject]
    rcases hobj : node.val.obj with _ | c | q
    · rfl
    · exact absurd hobj (h c)
    · rfl
  rw [nodeToClass, exec_bind_of_error hread]

/-- Any node. -/
lemma exec_nodeToClass_cases (node : Node (MetaObj V)) (s : MetaRepository V) :
    (∃ c, node.val.obj = some (.cls c) ∧ exec (nodeToClass node) s = (.ok c, s)) ∨
      exec (nodeToClass node) s = (.error .badSignature, s) := by
  by_cases h : ∃ c, node.val.obj = some (.cls c)
  · obtain ⟨c, hc⟩ := h
    exact .inl ⟨c, hc, exec_nodeToClass hc s⟩
  · exact .inr (exec_nodeToClass_of_ne (fun c hc => h ⟨c, hc⟩) s)

/-- Any node, for qualifiers. -/
lemma exec_nodeToQualifierType_cases (node : Node (MetaObj V)) (s : MetaRepository V) :
    (∃ q, node.val.obj.bind MetaObj.qual? = some q ∧
        exec (nodeToQualifierType (some node)) s = (.ok (some q), s)) ∨
      node.val.obj.bind MetaObj.qual? = none ∧
        exec (nodeToQualifierType (some node)) s = (.error .badSignature, s) := by
  rw [nodeToQualifierType, nodeToCIMObject]
  rcases node.val.obj.bind MetaObj.qual? with _ | q
  · exact .inr ⟨rfl, rfl⟩
  · exact .inl ⟨q, rfl, rfl⟩

/-- The node of a namespace. -/
lemma exec_getNameSpaceNode_cases (ck : Str) (s : MetaRepository V) :
    (∃ p, getNode s.nodes ck = some p ∧ p.areAllFlagsOn nsNodeFlag ∧
        exec (zoom store (getNameSpaceNode ck)) s = (.ok (some p), s)) ∨
      (getNode s.nodes ck = none ∧ exec (zoom store (getNameSpaceNode ck)) s = (.ok none, s)) ∨
      ∃ msg, exec (zoom store (getNameSpaceNode ck)) s = (.error (.io msg), s) := by
  rw [exec_zoom]
  rcases exec_getNameSpaceNode ck s.nodes with
    ⟨p, hp, hflag, hexec⟩ | ⟨hnone, hexec⟩ | ⟨p, msg, -, -, hexec⟩
  · exact .inl ⟨p, hp, hflag, by rw [show store.get s = s.nodes from rfl, hexec]; rfl⟩
  · exact .inr (.inl ⟨hnone, by rw [show store.get s = s.nodes from rfl, hexec]; rfl⟩)
  · exact .inr (.inr ⟨msg, by rw [show store.get s = s.nodes from rfl, hexec]; rfl⟩)

/-- Resolving a class. -/
lemma keeps_resolveClass [CIMValue V] {I : MetaRepository V → Prop}
    (hI : ∀ s x, I s → I { s with classCache := x }) (ns : Str) (n : ℕ) :
    ∀ (c : CIMClass V) (node : Node (MetaObj V)), Keeps I (resolveClass ns n c node) := by
  induction n with
  | zero => exact fun _ _ => .throw _
  | succ n ih =>
    intro c node s hs
    rw [resolveClass]
    split_ifs
    · exact hs
    rw [exec_bind_of_ok (exec_clsLookup _ s)]
    have hs1 := hI s (s.classCache.touch (makeClassPath ns c.markKeyed.superClass)) hs
    generalize s.classCache.get? (makeClassPath ns c.markKeyed.superClass) = found
    generalize { s with
      classCache := s.classCache.touch (makeClassPath ns c.markKeyed.superClass) } = s1 at hs1 ⊢
    rcases found with _ | pc
    · rw [exec_get_bind]
      rcases getParent s1.nodes node with _ | pnode
      · exact hs1
      dsimp only
      split_ifs
      · exact hs1
      rcases exec_nodeToClass_cases pnode s1 with ⟨pc, -, hread⟩ | hread
      · rw [exec_bind_of_ok hread]
        refine Keeps.bind (ih pc pnode) (fun pc => ?_) s1 hs1
        intro s2 hs2
        exact hI s2 _ hs2
      · rw [exec_bind_of_error hread]
        exact hs1
    · exact hs1

/-- Reading a class. -/
lemma keeps_getClassFromNode [CIMValue V] {I : MetaRepository V → Prop}
    (hI : ∀ s x, I s → I { s with classCache := x }) (ns : Str) (node : Node (MetaObj V)) :
    Keeps I (getClassFromNode ns node) := by
  intro s hs
  rw [getClassFromNode]
  rcases exec_nodeToClass_cases node s with ⟨c, -, hread⟩ | hread
  · rw [exec_bind_of_ok hread]
    exact keeps_resolveClass hI ns _ c node s hs
  · rw [exec_bind_of_error hread]
    exact hs

/-! ### Writing qualifier types -/

/-- Adding an object. -/
lemma exec_addCIMObject {obj : MetaObj V} {key k : Str} {pnode : Node (MetaObj V)} {flags : UInt32}
    {s : MetaRepository V} (h : row? s.nodes k = some pnode) :
    exec (zoom store (addCIMObject obj key pnode flags)) s =
      (.ok ⟨⟩, { s with nodes := add s.nodes key (some k) ⟨flags, some obj⟩ }) := by
  rw [exec_zoom, addCIMObject, exec_get_bind,
    show addChild (store.get s) pnode = _ from funext₂ (addChild_of_row? h)]
  rfl

/-- Changing an object. -/
lemma exec_updateCIMObject {obj : MetaObj V} {k : Str} {node : Node (MetaObj V)}
    {s : MetaRepository V}
    (h : row? s.nodes k = some node) : exec (zoom store (updateCIMObject obj node none)) s =
      (.ok ⟨⟩, { s with nodes := modify s.nodes k fun v => { v with obj := some obj } }) := by
  rw [exec_zoom, show exec _ (store.get s) = _ from Store.exec_updateCIMObject obj none h,
    updateNode, key_of_row? h]
  rfl

/-- **Setting a qualifier type** adds or changes at most its own node, and puts it in the cache. -/
lemma setQualifierType_cases (ns : Str) (qt : CIMQualifierType V) (s : MetaRepository V) :
    (exec (setQualifierType ns qt) s).2 = s ∨
      (∃ p : Node (MetaObj V), row? s.nodes (makeQualPath ns qt.name) = none ∧
        row? s.nodes (qualHome ns) = some p ∧ p.areAllFlagsOn nsNodeFlag ∧
        (exec (setQualifierType ns qt) s).2 = { s with
            nodes := add s.nodes (makeQualPath ns qt.name) (some (qualHome ns)) ⟨0, some (.qual qt)⟩
            qualCache := s.qualCache.addToCache qt (makeQualPath ns qt.name) }) ∨
      ∃ node, row? s.nodes (makeQualPath ns qt.name) = some node ∧
        (exec (setQualifierType ns qt) s).2 =
          { s with
            nodes := modify s.nodes (makeQualPath ns qt.name)
              fun v => { v with obj := some (.qual qt) }
            qualCache := (s.qualCache.removeFromCache (makeQualPath ns qt.name)).addToCache qt
              (makeQualPath ns qt.name) } := by
  rw [setQualifierType, exec_get_bind]
  rcases hn : getNode s.nodes (makeQualPath ns qt.name) with _ | node
  · have hfresh := row?_eq_none_of_getNode (makeQualPath_ne_nil ns qt.name) hn
    rw [addQualifierType, exec_get_bind, hn]
    rcases exec_getNameSpaceNode_cases (qualHome ns) s with ⟨p, hp, hflag, hread⟩ | ⟨-, hread⟩ |
      ⟨e, hread⟩
    · refine .inr (.inl ⟨p, hfresh, row?_of_getNode hp, hflag, ?_⟩)
      rw [getQualContainer, exec_bind_of_ok hread,
        exec_bind_of_ok (exec_addCIMObject (row?_of_getNode hp)), exec_qltModify]
    · refine .inl ?_
      rw [getQualContainer, exec_bind_of_ok hread]
      rfl
    · refine .inl ?_
      rw [getQualContainer, exec_bind_of_error hread]
  · refine .inr (.inr ⟨node, row?_of_getNode hn, ?_⟩)
    rw [exec_bind_of_ok (exec_updateCIMObject (row?_of_getNode hn)), exec_qltModify]

/-- **Deleting a qualifier type** removes at most its own node, with everything below it. -/
lemma deleteQualifierType_cases (ns : Str) (qualName : CIMName) (s : MetaRepository V) :
    (exec (deleteQualifierType ns qualName) s).2 = s ∨
      ∃ node, row? s.nodes (makeQualPath ns qualName) = some node ∧
        (exec (deleteQualifierType ns qualName) s).2 = { s with
            nodes := remove s.nodes (makeQualPath ns qualName)
            qualCache := s.qualCache.removeFromCache (makeQualPath ns qualName) } := by
  rw [deleteQualifierType, exec_get_bind]
  rcases hn : getNode s.nodes (makeQualPath ns qualName) with _ | node
  · exact .inl rfl
  rcases exec_nodeToQualifierType_cases node s with ⟨q, -, hread⟩ | ⟨-, hread⟩
  · refine .inr ⟨node, row?_of_getNode hn, ?_⟩
    rw [exec_bind_of_ok hread, exec_bind_of_ok (exec_storeModify _ s), removeNode_of_getNode hn]
    rfl
  · rw [exec_bind_of_error hread]
    exact .inl rfl

/-! ### Namespaces -/

/-- Creating a namespace node adds at most a root. -/
lemma createNameSpace_cases (ns : Str) (s : MetaRepository V) :
    (exec (zoom store (GenericHDBRepository.createNameSpace ns)) s).2 = s ∨
      getNode s.nodes ns = none ∧ ns ≠ [] ∧
      (exec (zoom store (GenericHDBRepository.createNameSpace ns)) s).2 =
        { s with nodes := add s.nodes ns none ⟨nsNodeFlag, none⟩ } := by
  rw [exec_zoom, GenericHDBRepository.createNameSpace]
  split_ifs with hns
  · exact .inl rfl
  rw [exec_get_bind]
  rcases hn : getNode s.nodes ns with _ | node
  · refine .inr ⟨rfl, hns, ?_⟩
    rw [show getNode (store.get s) ns = none from hn]
    rfl
  · rw [show getNode (store.get s) ns = some node from hn]
    dsimp only
    split_ifs <;> exact .inl rfl

/-- Creating a namespace. -/
lemma keeps_createNameSpace {I : MetaRepository V → Prop} {ns : Str}
    (hcls : Keeps I (zoom store (GenericHDBRepository.createNameSpace (classContainer ns))))
    (hqual : Keeps I (zoom store (GenericHDBRepository.createNameSpace (qualContainer ns)))) :
    Keeps I (MetaRepository.createNameSpace ns) := by
  refine hcls.bind fun r => ?_
  split_ifs
  · exact .pure _
  · exact hqual

/-- Deleting a namespace node removes at most a namespace and everything below it. -/
lemma deleteNameSpace_cases (key : Str) (s : MetaRepository V) :
    (∃ e, exec (zoom store (GenericHDBRepository.deleteNameSpace key)) s = (.error e, s)) ∨
      key ∈ keys s.nodes ∧ exec (zoom store (GenericHDBRepository.deleteNameSpace key)) s =
        (.ok ⟨⟩, { s with nodes := remove s.nodes key }) := by
  rw [exec_zoom, GenericHDBRepository.deleteNameSpace]
  split_ifs
  · exact .inl ⟨_, rfl⟩
  rw [exec_get_bind]
  rcases hn : getNode s.nodes key with _ | node
  · rw [show getNode (store.get s) key = none from hn]
    exact .inl ⟨_, rfl⟩
  · rw [show getNode (store.get s) key = some node from hn]
    dsimp only
    split_ifs
    · refine .inr ⟨mem_keys.2 ⟨_, mem_of_row? (row?_of_getNode hn),
        key_of_row? (row?_of_getNode hn)⟩, ?_⟩
      rw [show removeNode (store.get s) node = _ from removeNode_of_getNode hn]
      rfl
    · exact .inl ⟨_, rfl⟩

/-- **Deleting a namespace**: its part with the qualifier types is removed, then the one with the
classes, and the class cache is cleared. -/
lemma of_deleteNameSpace {P : MetaRepository V → Prop} {s : MetaRepository V} {ns : Str} (h : P s)
    (hqual : qualContainer ns ∈ keys s.nodes →
      P { s with nodes := remove s.nodes (qualContainer ns) })
    (hcls : ∀ s, P s → classContainer ns ∈ keys s.nodes → P { s with
      nodes := remove s.nodes (classContainer ns), classCache := s.classCache.clearCache }) :
    P (exec (MetaRepository.deleteNameSpace ns) s).2 := by
  rw [MetaRepository.deleteNameSpace]
  rcases deleteNameSpace_cases (qualContainer ns) s with ⟨e, heq⟩ | ⟨hk, heq⟩
  · rw [exec_bind_of_error heq]
    exact h
  rw [exec_bind_of_ok heq]
  rcases deleteNameSpace_cases (classContainer ns) _ with ⟨e, heq⟩ | ⟨hk', heq⟩
  · rw [exec_bind_of_error heq]
    exact hqual hk
  · rw [exec_bind_of_ok heq]
    exact hcls _ (hqual hk) hk'

/-! ### Writing classes -/

/-- What `MetaRepository::adjustClass` computes: a class with the same names, and the node of the
superclass, if there is one. -/
structure Adjusted (t : Store (MetaObj V)) (ns : Str) (c c' : CIMClass V)
    (p : Option (Node (MetaObj V))) : Prop where
  name : c'.name = c.name
  superClass : c'.superClass = c.superClass
  base : c.superClass = [] → p = none
  derived : c.superClass ≠ [] → ∃ pn pc, p = some pn ∧
    getNode t (makeClassPath ns c.superClass) = some pn ∧ pn.val.obj = some (.cls pc)

/-- How `MetaRepository::adjustClass` computes the class that is stored, from the given one and the
superclass that it reads. -/
def AdjustedFrom [CIMValue V] (P : Str → CIMClass V → Prop) (ns : Str) (c c' : CIMClass V) : Prop :=
  (c.superClass = [] → c' = c.adjustBase) ∧
    (c.superClass ≠ [] → ∃ pc, P (makeClassPath ns c.superClass) pc ∧ c.adjust pc = .ok c')

/-- The node below which a class is stored: the node of its superclass, or the container of the
namespace. -/
def HomeOf (t : Store (MetaObj V)) (ns : Str) (c : CIMClass V) (p : Node (MetaObj V)) : Prop :=
  if c.superClass = [] then
    getNode t (classContainer ns) = some p ∧ p.areAllFlagsOn nsNodeFlag
  else
    getNode t (makeClassPath ns c.superClass) = some p ∧ ∃ pc, p.val.obj = some (.cls pc)

/-- The key of the home. -/
lemma HomeOf.key {t : Store (MetaObj V)} {ns : Str} {c : CIMClass V} {p : Node (MetaObj V)}
    (h : HomeOf t ns c p) : row? t p.key = some p ∧ p.key.head? = some 'c' := by
  have hkey (k : Str) (hk : getNode t k = some p) (hc : k.head? = some 'c') :
      row? t p.key = some p ∧ p.key.head? = some 'c' := by
    rw [key_of_getNode hk]
    exact ⟨row?_of_getNode hk, hc⟩
  rw [HomeOf] at h
  split_ifs at h <;> exact hkey _ h.1 rfl

/-- Only the node of a class gives a class. -/
lemma obj_of_exec_getClassFromNode [CIMValue V] {ns : Str} {node : Node (MetaObj V)}
    {c : CIMClass V}
    {s s' : MetaRepository V} (h : exec (getClassFromNode ns node) s = (.ok c, s')) :
    ∃ pc, node.val.obj = some (.cls pc) := by
  rcases exec_nodeToClass_cases node s with ⟨pc, hpc, -⟩ | he
  · exact ⟨pc, hpc⟩
  · rw [getClassFromNode, exec_bind_of_error he] at h
    cases h

section Writing

variable {I : MetaRepository V → Prop} {P : Str → CIMClass V → Prop} {t : Store (MetaObj V)}
  {ns : Str} {c : CIMClass V}

/-- Reading the superclass of the class `c` keeps the invariant `I`, and gives a class with `P`. -/
def ReadsSuper [CIMValue V] (I : MetaRepository V → Prop) (P : Str → CIMClass V → Prop)
    (t : Store (MetaObj V)) (ns : Str) (c : CIMClass V) : Prop :=
  ∀ node, c.superClass ≠ [] → getNode t (makeClassPath ns c.superClass) = some node →
    Ensures I (getClassFromNode ns node) fun r s => I s ∧
      ∀ pc, r = .ok pc → P (makeClassPath ns c.superClass) pc

/-- `MetaRepository::adjustClass`, for an invariant that reading a class keeps. -/
lemma ensures_adjustClass [CIMValue V] (hI : ∀ s, I s → s.nodes = t)
    (hclass : ReadsSuper I P t ns c) :
    Ensures I (adjustClass ns c) fun r s => I s ∧
      ∀ out, r = .ok out → Adjusted t ns c out.1 out.2 ∧ AdjustedFrom P ns c out.1 := by
  rw [adjustClass]
  split_ifs with hsuper
  · refine .pure fun s hs => ⟨hs, ?_⟩
    rintro _ ⟨⟩
    exact ⟨⟨rfl, rfl, fun _ => rfl, fun h => absurd hsuper h⟩, fun _ => rfl,
      fun h => absurd hsuper h⟩
  · refine .get_bind fun s hs => ?_
    rw [hI s hs]
    rcases hn : getNode t (makeClassPath ns c.superClass) with _ | pn
    · exact ⟨hs, nofun⟩
    obtain ⟨hkeep, hpc⟩ := hclass pn hsuper hn s hs
    rcases hc : exec (getClassFromNode ns pn) s with ⟨_ | pc, s'⟩
    · rw [exec_bind_of_error hc]
      rw [hc] at hkeep
      exact ⟨hkeep, nofun⟩
    · rw [exec_bind_of_ok hc]
      rw [hc] at hkeep hpc
      rcases ha : c.adjust pc with msg | c'
      · exact ⟨hkeep, fun _ h => absurd h (by simp [refuse])⟩
      · refine ⟨hkeep, ?_⟩
        rintro _ ⟨⟩
        obtain ⟨pc', hpc'⟩ := obj_of_exec_getClassFromNode hc
        exact ⟨⟨(CIMClass.names_of_adjust ha).1, (CIMClass.names_of_adjust ha).2,
          fun h => absurd h hsuper, fun _ => ⟨pn, pc', rfl, hn, hpc'⟩⟩,
          fun h => absurd h hsuper, fun _ => ⟨pc, hpc pc rfl, ha⟩⟩

/-- The home of an adjusted class. -/
lemma ensures_parentOrContainer {c' : CIMClass V} {p : Option (Node (MetaObj V))}
    (hI : ∀ s, I s → s.nodes = t) (hadj : Adjusted t ns c c' p) :
    Ensures I (parentOrContainer ns p) fun r s => I s ∧ ∀ pn, r = .ok pn → HomeOf t ns c pn := by
  intro s hs
  unfold parentOrContainer
  by_cases hsuper : c.superClass = []
  · rw [hadj.base hsuper]
    rcases exec_getNameSpaceNode_cases (classContainer ns) s with ⟨p, hp, hns, h⟩ | ⟨-, h⟩ | ⟨e, h⟩
    · rw [exec_bind_of_ok h]
      refine ⟨hs, ?_⟩
      rintro _ ⟨⟩
      rw [hI s hs] at hp
      rw [HomeOf, if_pos hsuper]
      exact ⟨hp, hns⟩
    · rw [exec_bind_of_ok h]
      exact ⟨hs, nofun⟩
    · rw [exec_bind_of_error h]
      exact ⟨hs, nofun⟩
  · obtain ⟨pn, pc, rfl, hn, hpc⟩ := hadj.derived hsuper
    refine ⟨hs, ?_⟩
    rintro _ ⟨⟩
    rw [HomeOf, if_neg hsuper]
    exact ⟨hn, pc, hpc⟩

/-- Flavors do not change the name of a qualifier. -/
lemma name_foldl_addFlavor (flavors : List CIMFlavor) (q : CIMQualifier V) :
    (flavors.foldl addFlavor q).name = q.name := by
  induction flavors generalizing q with
  | nil => rfl
  | cons f flavors ih =>
    rw [List.foldl_cons, ih, addFlavor]
    split_ifs <;> rfl

/-- Qualifiers are resolved by reading, and keep their names. -/
lemma ensures_resolveQualifiers (hqual : ∀ q, Keeps I (getQualifierType ns q))
    (quals : List (CIMQualifier V)) : Ensures I (resolveQualifiers ns quals) fun r s => I s ∧
      ∀ out, r = .ok out → out.map name = quals.map name := by
  induction quals with
  | nil =>
    refine .pure fun s hs => ⟨hs, ?_⟩
    rintro _ ⟨⟩
    rfl
  | cons q quals ih =>
    refine Ensures.bind (hqual q.name) (fun qt => ?_) fun e _ h => ⟨h, nofun⟩
    refine ih.bind (fun out => .pull fun hout => ?_) fun e _ h => ⟨h.1, nofun⟩
    refine .pure fun s hs => ⟨hs, ?_⟩
    rintro _ ⟨⟩
    rw [List.map_cons, List.map_cons, name_foldl_addFlavor, hout _ rfl]

/-- **Deleting a class** removes at most a class and everything below it. -/
lemma deleteClass_cases (ns : Str) (className : CIMName) (s : MetaRepository V) :
    (exec (deleteClass ns className) s).2 = s ∨
      ∃ node c, row? s.nodes (makeClassPath ns className) = some node ∧
        node.val.obj = some (.cls c) ∧
        exec (deleteClass ns className) s = (.ok true, { s with
            classCache := s.classCache.removeFromCache (makeClassPath ns className)
            nodes := remove s.nodes (makeClassPath ns className) }) := by
  rw [deleteClass, exec_get_bind]
  rcases hn : getNode s.nodes (makeClassPath ns className) with _ | node
  · exact .inl rfl
  rcases exec_nodeToClass_cases node s with ⟨c, hc, hread⟩ | hread
  · refine .inr ⟨node, c, row?_of_getNode hn, hc, ?_⟩
    rw [exec_bind_of_ok hread, exec_bind_of_ok (exec_clsModify _ s),
      exec_bind_of_ok (exec_storeModify _ _), exec_pure, removeNode_of_getNode hn]
  · rw [exec_bind_of_error hread]
    exact .inl rfl

/-- The flags of the node of a class. -/
def classFlags (c : CIMClass V) : UInt32 := if c.isAssociation then clsAssocNodeFlag else 0

/-- The node of a class is not a namespace. -/
lemma areAllFlagsOn_classFlags {node : Node (MetaObj V)} (h : node.val.flags = classFlags c) :
    node.areAllFlagsOn nsNodeFlag = false := by
  rw [Node.areAllFlagsOn_eq _ h, classFlags]
  split_ifs <;> decide

/-- **Creating a class** adds at most a node for a class with the given names, below its home. -/
lemma ensures_createClass [CIMValue V] (hI : ∀ s, I s → s.nodes = t)
    (hqual : ∀ q, Keeps I (getQualifierType ns q)) (hclass : ReadsSuper I P t ns c) :
    Ensures I (createClass ns c) fun r s => (I s ∧ ∃ e, r = .error e) ∨
      ∃ s1 c' p, I s1 ∧ c'.name = c.name ∧ c'.superClass = c.superClass ∧ HomeOf t ns c p ∧
        (∃ quals, quals.map name = c.quals.map name ∧
          AdjustedFrom P ns { c with quals } c') ∧
        row? t (makeClassPath ns c.name) = none ∧ r = .ok c' ∧
        s = { s1 with
          nodes :=
            add t (makeClassPath ns c.name) (some p.key) ⟨classFlags c', some (.cls c')⟩ } := by
  rw [createClass]
  refine (ensures_resolveQualifiers hqual c.quals).bind (fun quals => .pull fun hquals => ?_)
    fun e _ h => .inl ⟨h.1, e, rfl⟩
  refine (ensures_adjustClass (c := { c with quals }) hI hclass).bind ?_ fun e _ h =>
    .inl ⟨h.1, e, rfl⟩
  rintro ⟨c', p⟩
  refine .pull fun hadj => ?_
  obtain ⟨hadj, hfrom⟩ := hadj _ rfl
  refine (ensures_parentOrContainer hI hadj).bind (fun pn => .pull fun hpn => ?_)
    fun e _ h => .inl ⟨h.1, e, rfl⟩
  have hhome := hpn _ rfl
  refine .get_bind fun s hs => ?_
  rw [hI s hs, hadj.name]
  rcases hn : getNode t (makeClassPath ns c.name) with _ | node
  · refine .inr ⟨s, c', pn, hs, hadj.name, hadj.superClass, hhome, ⟨quals, hquals _ rfl, hfrom⟩, ?_,
      rfl, ?_⟩
    · exact row?_eq_none_of_getNode (makeClassPath_ne_nil ns c.name) hn
    · have hadd :=
        addChild_of_row? hhome.key.1 (makeClassPath ns c.name) ⟨classFlags c', some (.cls c')⟩
      rw [← hadd, ← hI s hs]
      rfl
  · exact .inl ⟨hs, _, rfl⟩

/-- **Modifying a class** changes at most the node of the class: it gets a class with the given
names, and is adopted by its home. -/
lemma ensures_modifyClass [CIMValue V] (hI : ∀ s, I s → s.nodes = t)
    (hclass : ReadsSuper I P t ns c) :
    Ensures I (modifyClass ns c) fun _ s => I s ∨
      ∃ s1 c' p node c0, I s1 ∧ c'.name = c.name ∧ c'.superClass = c.superClass ∧ HomeOf t ns c p ∧
        AdjustedFrom P ns c c' ∧ row? t (makeClassPath ns c.name) = some node ∧
        node.val.obj = some (.cls c0) ∧
        s = { s1 with
          classCache := s1.classCache.removeFromCache (makeClassPath ns c.name)
          nodes := adopt (modify t (makeClassPath ns c.name)
            fun v => { v with obj := some (.cls c') }) (makeClassPath ns c.name) p.key } := by
  rw [modifyClass]
  refine (ensures_adjustClass hI hclass).bind ?_ fun _ _ h => .inl h.1
  rintro ⟨c', p⟩
  refine .pull fun hadj => ?_
  obtain ⟨hadj, hfrom⟩ := hadj _ rfl
  refine (ensures_parentOrContainer hI hadj).bind (fun pn => .pull fun hpn => ?_) fun _ _ h =>
    .inl h.1
  have hhome := hpn _ rfl
  refine .get_bind fun s hs => ?_
  rw [hI s hs, hadj.name]
  rcases hn : getNode t (makeClassPath ns c.name) with _ | node
  · exact .inl hs
  rcases exec_nodeToClass_cases node s with ⟨c0, hc0, hread⟩ | hread
  · rw [exec_bind_of_ok hread]
    refine .inr ⟨s, c', pn, node, c0, hs, hadj.name, hadj.superClass, hhome, hfrom,
      Store.row?_of_getNode hn, hc0, ?_⟩
    have hupd := Store.exec_updateCIMObject (MetaObj.cls c') (some pn) (Store.row?_of_getNode hn)
    rw [exec_bind_of_ok (exec_clsModify _ s), exec_zoom]
    rw [show ∀ x, store.get { s with classCache := x } = t from fun _ => hI s hs, hupd,
      updateNode, key_of_getNode hn]
    rfl
  · rw [exec_bind_of_error hread]
    exact .inl hs

end Writing

/-! ### Reading classes -/

section Reading

variable {t : Store (MetaObj V)} {ns : Str}

/-- Reading a class. -/
lemma keeps_getCIMClass [CIMValue V] {I : MetaRepository V → Prop} (hI : ∀ s, I s → s.nodes = t)
    (htouch : ∀ s k, I s → I { s with classCache := s.classCache.touch k })
    (hclass : ∀ name node, getNode t (makeClassPath ns name) = some node →
      Ensures I (getClassFromNode ns node) fun r s => I s ∧
        ∀ cc, r = .ok cc → I { s with classCache := s.classCache.addToCache cc node.key })
    (className : CIMName) (req : ClassRequest) : Keeps I (getCIMClass ns className req) := by
  intro s hs
  rw [getCIMClass, exec_bind_of_ok (exec_clsLookup _ s)]
  have hs1 := htouch s (makeClassPath ns className) hs
  generalize s.classCache.get? (makeClassPath ns className) = found
  generalize { s with classCache := s.classCache.touch (makeClassPath ns className) } = s1 at hs1 ⊢
  rcases found with _ | cc
  · rw [exec_get_bind, hI _ hs1]
    rcases hn : getNode t (makeClassPath ns className) with _ | node
    · exact hs1
    have hkey := key_of_getNode hn
    obtain ⟨hread, hadd⟩ := hclass _ node hn _ hs1
    rcases hc : exec (getClassFromNode ns node) s1 with ⟨_ | cc, s2⟩
    · rw [exec_bind_of_error hc]
      rwa [hc] at hread
    · rw [exec_bind_of_ok hc, ← hkey]
      rw [hc] at hadd
      exact hadd cc rfl
  · exact hs1

variable {σ : Type} {L : Lens σ (MetaRepository V)} {J : σ → Prop}
  {result : CIMClass V → Prog σ CIMException Unit}

/-- A node that is reached has a row. -/
lemma row?_of_bind {node x : Node (MetaObj V)} {f : Node (MetaObj V) → Option Str}
    (h : ((reload t node).bind fun n => (f n).bind (row? t)) = some x) :
    row? t x.key = some x := by
  rw [Option.bind_eq_some_iff] at h
  obtain ⟨_, -, h⟩ := h
  rw [Option.bind_eq_some_iff] at h
  obtain ⟨k, -, h⟩ := h
  rwa [key_of_row? h]

/-- A step of a walk over a store that does not change. -/
lemma ensures_follow (hJ : ∀ s, J s → (L.get s).nodes = t)
    (next : Store (MetaObj V) → Node (MetaObj V) → Option (Node (MetaObj V)))
    (node : Node (MetaObj V)) :
    Ensures J (follow L next node) fun r s => J s ∧ r = .ok (next t node) := by
  intro s hs
  rw [follow, exec_get_bind, hJ s hs]
  exact ⟨hs, rfl⟩

/-- Looking for the start. -/
lemma exec_enumRoot (ns : Str) (className : CIMName) (s : MetaRepository V) :
    (exec (enumRoot ns className) s).2 = s := by
  rw [enumRoot]
  rcases exec_getNameSpaceNode_cases (classContainer ns) s with ⟨p, -, -, h⟩ | ⟨-, h⟩ | ⟨e, h⟩
  all_goals
    split_ifs
    · simp [exec_bind, h]
    · rw [exec_get_bind]
      rcases getNode s.nodes (makeClassPath ns className) with _ | node
      · simp [exec_bind, h]
      · rfl

variable [CIMValue V] (hJ : ∀ s, J s → (L.get s).nodes = t)
  (hclass : ∀ node, row? t node.key = some node →
    Keeps J (zoom L (getClassFromNode ns node)))
  (hresult : ∀ c, Keeps J (result c))

include hJ hclass hresult

/-- A walk over a store that does not change keeps what reading a class and the handler keep. -/
lemma keeps_getClassNodes (deep : Bool) (f : CIMClass.Filter) (n : ℕ) :
    (∀ node, row? t node.key = some node → Keeps J (getClassNodes L ns result deep f n node)) ∧
      ∀ o : Option (Node (MetaObj V)), (∀ node, o = some node → row? t node.key = some node) →
        Keeps J (getSiblingNodes L ns result deep f n o) := by
  induction n with
  | zero =>
    refine ⟨fun node _ => ?_, fun o _ => ?_⟩
    · rw [getClassNodes]
      exact .throw _
    · rcases o with _ | node
      · rw [getSiblingNodes]
        exact .pure _
      · rw [getSiblingNodes]
        exact .throw _
  | succ n ih =>
    refine ⟨fun node hnode => ?_, fun o ho => ?_⟩
    · rw [getClassNodes]
      refine (hclass node hnode).bind fun c => (hresult _).bind fun _ => ?_
      refine Ensures.when (fun _ => ?_) fun _ _ hs => hs
      refine (ensures_follow hJ _ node).bind (fun o => .pull fun ho => ?_) fun _ _ h => h.1
      cases ho
      exact ih.2 _ fun x hx => row?_of_bind hx
    · rcases o with _ | node
      · rw [getSiblingNodes]
        exact .pure _
      · rw [getSiblingNodes]
        refine (ih.1 node (ho node rfl)).bind fun _ => ?_
        refine (ensures_follow hJ _ node).bind (fun o => .pull fun ho => ?_) fun _ _ h => h.1
        cases ho
        exact ih.2 _ fun x hx => row?_of_bind hx

/-- The loop of `MetaRepository::enumClass`, likewise. -/
lemma keeps_enumNodes (deep : Bool) (f : CIMClass.Filter) (bound n : ℕ) :
    ∀ o : Option (Node (MetaObj V)), (∀ node, o = some node → row? t node.key = some node) →
      Keeps J (enumNodes L ns result deep f bound n o) := by
  induction n with
  | zero =>
    intro o _
    rcases o with _ | node
    · rw [enumNodes]
      exact .pure _
    · rw [enumNodes]
      exact .throw _
  | succ n ih =>
    intro o ho
    rcases o with _ | node
    · rw [enumNodes]
      exact .pure _
    · rw [enumNodes]
      have hwalk := (keeps_getClassNodes hJ hclass hresult deep f bound).1 node (ho node rfl)
      refine Keeps.bind (Ensures.when (fun _ => hwalk) fun _ _ hs => hs) fun _ => ?_
      refine (ensures_follow hJ _ node).bind (fun o => .pull fun ho => ?_) fun _ _ h => h.1
      cases ho
      exact ih _ fun x hx => row?_of_bind hx

/-- Reading many classes. -/
lemma keeps_enumClass (className : CIMName) (deep : Bool) (f : CIMClass.Filter) :
    Keeps J (enumClass L ns className result deep f) := by
  rw [enumClass]
  have hroot : Keeps J (zoom L (enumRoot ns className)) := by
    intro s hs
    rw [exec_zoom, exec_enumRoot, L.set_get]
    exact hs
  refine hroot.bind fun pnode => .get_bind fun s hs => ?_
  refine (ensures_follow hJ _ pnode).bind (R := fun _ s => J s) (fun o => .pull fun ho => ?_)
    (fun _ _ h => h.1) s hs
  cases ho
  exact keeps_enumNodes hJ hclass hresult _ _ _ _ _ fun x hx => row?_of_bind hx

end Reading

/-! ### The operations -/

/-- What a client of the schema store can do. -/
inductive MetaOp (V : Type) where
  | getQualifierType (ns : Str) (qualName : CIMName)
  | setQualifierType (ns : Str) (qt : CIMQualifierType V)
  | deleteQualifierType (ns : Str) (qualName : CIMName)
  | getCIMClass (ns : Str) (className : CIMName) (req : ClassRequest)
  | enumClass (ns : Str) (className : CIMName) (deep : Bool) (f : CIMClass.Filter)
  | createClass (ns : Str) (cimClass : CIMClass V)
  | modifyClass (ns : Str) (cimClass : CIMClass V)
  | deleteClass (ns : Str) (className : CIMName)
  | createNameSpace (ns : Str)
  | deleteNameSpace (ns : Str)

namespace MetaOp

/-- The namespace of an operation. -/
def ns : MetaOp V → Str
  | getQualifierType ns _ | setQualifierType ns _ | deleteQualifierType ns _
  | getCIMClass ns _ _ | enumClass ns _ _ _ | createClass ns _ | modifyClass ns _
  | deleteClass ns _ | createNameSpace ns | deleteNameSpace ns => ns

/-- The state after an operation, which may have ended with an exception. -/
def step [CIMValue V] (op : MetaOp V) (s : MetaRepository V) : MetaRepository V :=
  match op with
  | getQualifierType ns qualName => (exec (MetaRepository.getQualifierType ns qualName) s).2
  | setQualifierType ns qt => (exec (MetaRepository.setQualifierType ns qt) s).2
  | deleteQualifierType ns qualName => (exec (MetaRepository.deleteQualifierType ns qualName) s).2
  | getCIMClass ns className req => (exec (MetaRepository.getCIMClass ns className req) s).2
  | enumClass ns className deep f =>
    (exec (MetaRepository.enumClass Lens.id ns className (fun _ => pure ⟨⟩) deep f) s).2
  | createClass ns cimClass => (exec (MetaRepository.createClass ns cimClass) s).2
  | modifyClass ns cimClass => (exec (MetaRepository.modifyClass ns cimClass) s).2
  | deleteClass ns className => (exec (MetaRepository.deleteClass ns className) s).2
  | createNameSpace ns => (exec (MetaRepository.createNameSpace ns) s).2
  | deleteNameSpace ns => (exec (MetaRepository.deleteNameSpace ns) s).2

end MetaOp

end MetaRepository

end OpenWbem
