import OpenWbem.Repository.SchemaShape

/-!
# The cache of qualifier types

A qualifier type that is asked for is taken from the cache if it is there, before the store and even
the namespace are looked at. So the cache must not have anything that the store does not have.

Setting and deleting a qualifier type keep the cache up to date. Deleting a namespace does not: it
removes the qualifier types of the namespace from the store and leaves them in the cache.

## Main definitions

* `QualCoherent` — the cache has only what the store has.
* `QualSafe` — the operation removes no qualifier type that stays in the cache.

## Main results

* `getQualifierType_of_reaches` — as long as all operations are safe, the answer is that of the
  store.
* `getQualifierType_deleted` — a qualifier type of a deleted namespace that is still answered.
-/

namespace OpenWbem

open Prog Hierarchy MetaRepository Store

variable {V : Type}

/-! ### What the store answers -/

/-- The qualifier type in the store, or the exception if there is none. -/
def storedQualifierType (t : Store (MetaObj V)) (ns : Str) (qualName : CIMName) :
    Except CIMException (CIMQualifierType V) :=
  match getNode t (makeQualPath ns qualName) with
  | none =>
    if GenericHDBRepository.nameSpaceExists t (qualContainer ns) then
      .error (.cim .notFound ("CIM QualifierType \"".toList ++ qualName ++
        "\" not found in namespace: ".toList ++ ns))
    else .error (.cim .invalidNamespace ns)
  | some node =>
    match node.val.obj.bind MetaObj.qual? with
    | none => .error .badSignature
    | some q => .ok q

section Lookup

variable {s : MetaRepository V} {ns : Str} {qualName : CIMName} {q : CIMQualifierType V}

/-- What is stored is read. -/
lemma storedQualifierType_of_objAt (h : objAt s.nodes (makeQualPath ns qualName) = some (.qual q)) :
    storedQualifierType s.nodes ns qualName = .ok q := by
  obtain ⟨r, hrow, hobj⟩ := exists_row?_of_objAt h
  rw [storedQualifierType, getNode, if_neg (makeQualPath_ne_nil ns qualName), hrow]
  dsimp only
  rw [hobj]
  rfl

/-- What is read is stored. -/
lemma objAt_of_storedQualifierType (h : storedQualifierType s.nodes ns qualName = .ok q) :
    objAt s.nodes (makeQualPath ns qualName) = some (.qual q) := by
  rw [storedQualifierType] at h
  rcases hn : getNode s.nodes (makeQualPath ns qualName) with _ | node
  · rw [hn] at h
    split_ifs at h
  · rw [hn] at h
    dsimp only at h
    rw [objAt_of_row? (row?_of_getNode hn)]
    rcases hobj : node.val.obj with _ | c | q'
    · rw [hobj] at h
      cases h
    · rw [hobj] at h
      cases h
    · rw [hobj] at h
      cases h
      rfl

/-- Reading from the cache. -/
lemma exec_getQualifierType_hit (h : s.qualCache.get? (makeQualPath ns qualName) = some q) :
    exec (getQualifierType ns qualName) s =
      (.ok q, { s with qualCache := s.qualCache.touch (makeQualPath ns qualName) }) := by
  rw [getQualifierType, exec_bind_of_ok (exec_qltLookup _ s), h]
  rfl

/-- A qualifier type that is not in the cache is the one in the store, and goes to the cache. -/
lemma exec_getQualifierType_miss (h : s.qualCache.get? (makeQualPath ns qualName) = none) :
    exec (getQualifierType ns qualName) s = (storedQualifierType s.nodes ns qualName,
        match storedQualifierType s.nodes ns qualName with
        | .error _ => { s with qualCache := s.qualCache.touch (makeQualPath ns qualName) }
        | .ok q =>
          { s with
            qualCache := (s.qualCache.touch (makeQualPath ns qualName)).addToCache q
              (makeQualPath ns qualName) }) := by
  rw [getQualifierType, exec_bind_of_ok (exec_qltLookup _ s), h]
  rw [exec_get_bind, storedQualifierType]
  rcases getNode s.nodes (makeQualPath ns qualName) with _ | node
  · split_ifs <;> rfl
  · dsimp only
    rcases exec_nodeToQualifierType_cases node _ with ⟨q, hobj, hread⟩ | ⟨hobj, hread⟩
    · rw [exec_bind_of_ok hread, hobj]
      rfl
    · rw [exec_bind_of_error hread, hobj]

/-- Reading keeps the store. -/
lemma nodes_getQualifierType (ns : Str) (qualName : CIMName) (s : MetaRepository V) :
    (exec (getQualifierType ns qualName) s).2.nodes = s.nodes := by
  rcases hq : s.qualCache.get? (makeQualPath ns qualName) with _ | q
  · rw [exec_getQualifierType_miss hq]
    rcases storedQualifierType s.nodes ns qualName with e | q <;> rfl
  · rw [exec_getQualifierType_hit hq]

end Lookup

/-! ### Coherence -/

/-- What the cache has is in the store. -/
structure QualCoherent (s : MetaRepository V) : Prop where
  shape : SchemaShape s.nodes
  stored : ∀ {k q}, s.qualCache.get? k = some q → objAt s.nodes k = some (.qual q)

namespace QualCoherent

variable {s : MetaRepository V} {ns : Str}

section

variable (h : QualCoherent s)

include h

/-- Coherence is about the store and the qualifier cache. -/
lemma withClassCache (x : Cache Str (CIMClass V)) :
    QualCoherent { s with classCache := x } := ⟨h.shape, h.stored⟩

/-- Using an entry. -/
lemma touch (k : Str) : QualCoherent { s with qualCache := s.qualCache.touch k } :=
  ⟨h.shape, fun hk => h.stored (by rwa [Cache.get?_touch] at hk)⟩

/-- Adding an entry. -/
lemma addToCache {k : Str} {q : CIMQualifierType V} (hk : objAt s.nodes k = some (.qual q)) :
    QualCoherent { s with qualCache := s.qualCache.addToCache q k } := by
  refine ⟨h.shape, fun hk' => ?_⟩
  rcases Cache.get?_addToCache hk' with hold | ⟨rfl, rfl⟩
  · exact h.stored hold
  · exact hk

/-- Removing an entry. -/
lemma removeFromCache (k : Str) :
    QualCoherent { s with qualCache := s.qualCache.removeFromCache k } := by
  refine ⟨h.shape, fun hk => h.stored ?_⟩
  rw [Cache.get?_removeFromCache] at hk
  split_ifs at hk
  exact hk

/-- Another store that has what is in the cache. -/
lemma withNodes {t : Store (MetaObj V)} (hshape : SchemaShape t)
    (hkept : ∀ k q, s.qualCache.get? k = some q → objAt s.nodes k = some (.qual q) →
      objAt t k = some (.qual q)) :
    QualCoherent { s with nodes := t } :=
  ⟨hshape, fun hk => hkept _ _ hk (h.stored hk)⟩

/-- **Reading a qualifier type.** -/
lemma getQualifierType (qualName : CIMName) :
    QualCoherent (exec (getQualifierType ns qualName) s).2 := by
  rcases hq : s.qualCache.get? (makeQualPath ns qualName) with _ | q
  · rw [exec_getQualifierType_miss hq]
    rcases hst : storedQualifierType s.nodes ns qualName with e | q
    · exact h.touch _
    · exact (h.touch _).addToCache (objAt_of_storedQualifierType hst)
  · rw [exec_getQualifierType_hit hq]
    exact h.touch _

/-- **Setting a qualifier type**: it is stored and goes to the cache. -/
lemma setQualifierType (hns : ':' ∉ ns) (qt : CIMQualifierType V) :
    QualCoherent (exec (setQualifierType ns qt) s).2 := by
  rcases setQualifierType_cases ns qt s with heq | ⟨p, hfresh, hp, hflag, heq⟩ | ⟨node, hrow, heq⟩
  · rw [heq]
    exact h
  · rw [heq]
    have hshape := h.shape.change (.addQualifier (M := fun _ _ => True) hns hfresh hp hflag)
    refine addToCache (h.withNodes hshape fun _ _ _ hq => objAt_add hfresh hq) ?_
    rw [objAt, val?_add (row?_eq_none.1 hfresh), if_pos rfl]
    rfl
  · rw [heq]
    have hupdated : QualCoherent { s with
          nodes := modify s.nodes (makeQualPath ns qt.name)
            fun v => { v with obj := some (.qual qt) }
          qualCache := s.qualCache.removeFromCache (makeQualPath ns qt.name) } := by
      refine ⟨h.shape.change (.setQualifier (M := fun _ _ => True) hrow), fun hk => ?_⟩
      rw [Cache.get?_removeFromCache] at hk
      split_ifs at hk with hne
      rw [objAt, val?_modify, if_neg hne]
      exact h.stored hk
    refine hupdated.addToCache ?_
    rw [objAt, val?_modify, if_pos rfl, val?, hrow]
    rfl

/-- Removing a subtree in which only the removed key is in the cache. -/
lemma removeNodes {k : Str} (hk : k ∈ keys s.nodes)
    (hbelow : ∀ x q, s.qualCache.get? x = some q → ¬ Below s.nodes k x) :
    QualCoherent { s with nodes := remove s.nodes k } :=
  h.withNodes (h.shape.remove hk) fun x q hx hq => by
    rw [objAt_remove (hbelow x q hx)]
    exact hq

/-- **Deleting a qualifier type** below which nothing else is in the cache. -/
lemma deleteQualifierType {qualName : CIMName}
    (hsafe : ∀ k, Below s.nodes (makeQualPath ns qualName) k → k ≠ makeQualPath ns qualName →
      s.qualCache.get? k = none) :
    QualCoherent (exec (deleteQualifierType ns qualName) s).2 := by
  rcases deleteQualifierType_cases ns qualName s with heq | ⟨node, hrow, heq⟩
  · rw [heq]
    exact h
  · rw [heq]
    refine (h.removeFromCache _).removeNodes (mem_keys_of_row? hrow) fun x q hx hb => ?_
    rw [Cache.get?_removeFromCache] at hx
    split_ifs at hx with hne
    rw [hsafe x hb hne] at hx
    cases hx

/-- **Creating a namespace.** -/
lemma createNode {key : Str} (hkey : IsContainer key) :
    QualCoherent (exec (zoom store (GenericHDBRepository.createNameSpace key)) s).2 := by
  rcases createNameSpace_cases key s with heq | ⟨hn, hne, heq⟩
  · rw [heq]
    exact h
  · rw [heq]
    have hfresh := row?_eq_none_of_getNode hne hn
    exact h.withNodes (h.shape.change (.addNameSpace (M := fun _ _ => True) hkey hfresh))
      fun _ _ _ hq => objAt_add hfresh hq

/-- Creating a namespace. -/
lemma createNameSpace (hns : ':' ∉ ns) : QualCoherent (exec (createNameSpace ns) s).2 :=
  keeps_createNameSpace (fun _ h => h.createNode (.cls hns)) (fun _ h =>
    h.createNode (.qual hns)) s h

/-- **Deleting a namespace** without qualifier types in the cache. -/
lemma deleteNameSpace (hsafe : ∀ k, Below s.nodes (qualContainer ns) k →
    s.qualCache.get? k = none) :
    QualCoherent (exec (deleteNameSpace ns) s).2 := by
  refine of_deleteNameSpace h (fun hk => h.removeNodes hk fun x q hx hb => ?_) fun s1 h1 hk =>
    (h1.removeNodes hk fun x q hx => ?_).withClassCache _
  · rw [hsafe x hb] at hx
    cases hx
  · exact h1.shape.not_below_of_qual rfl (h1.stored hx)

end

/-- What the functions that write classes may assume. -/
private def Fixed (t : Store (MetaObj V)) (s : MetaRepository V) : Prop :=
  s.nodes = t ∧ QualCoherent s

/-- Reading a class. -/
private lemma keeps_class [CIMValue V] (t : Store (MetaObj V)) (node : Node (MetaObj V)) :
    Keeps (Fixed t) (getClassFromNode ns node) :=
  keeps_getClassFromNode (fun _ _ hs => ⟨hs.1, hs.2.withClassCache _⟩) ns node

/-- Any class. -/
private lemma ensures_class [CIMValue V] (t : Store (MetaObj V)) (node : Node (MetaObj V)) :
    Ensures (Fixed t) (getClassFromNode ns node) fun r s => Fixed t s ∧ ∀ pc, r = .ok pc → True :=
  (keeps_class t node).weaken (fun _ h => h) fun _ _ h => ⟨h, fun _ _ => trivial⟩

/-- **Creating a class.** -/
lemma createClass [CIMValue V] (h : QualCoherent s) (c : CIMClass V) :
    QualCoherent (exec (createClass ns c) s).2 := by
  have hI : ∀ s', Fixed s.nodes s' → s'.nodes = s.nodes := fun _ hs => hs.1
  have hqual : ∀ q, Keeps (Fixed s.nodes) (MetaRepository.getQualifierType ns q) := fun q s' hs =>
    ⟨(nodes_getQualifierType ns q s').trans hs.1, hs.2.getQualifierType q⟩
  rcases ensures_createClass (P := fun _ _ => True) hI hqual
    (fun node _ _ => ensures_class s.nodes node) s ⟨rfl, h⟩ with ⟨hs, -⟩ |
    ⟨s1, c', p, hs1, -, -, hhome, -, hfresh, -, heq⟩
  · exact hs.2
  · rw [heq]
    refine hs1.2.withNodes (h.shape.add (row?_eq_none.1 hfresh)
      (.cls rfl (areAllFlagsOn_classFlags rfl) rfl rfl hhome.key.2)) fun _ _ _ hq => ?_
    rw [hs1.1] at hq
    exact objAt_add hfresh hq

/-- **Modifying a class.** -/
lemma modifyClass [CIMValue V] (h : QualCoherent s) (c : CIMClass V) :
    QualCoherent (exec (modifyClass ns c) s).2 := by
  have hI : ∀ s', Fixed s.nodes s' → s'.nodes = s.nodes := fun _ hs => hs.1
  rcases ensures_modifyClass (P := fun _ _ => True) hI
    (fun node _ _ => ensures_class s.nodes node) s ⟨rfl, h⟩ with hs |
    ⟨s1, c', p, node, c0, hs1, -, -, hhome, -, hrow, hobj, heq⟩
  · exact hs.2
  · rw [heq]
    have hshape := h.shape.modify_cls hrow hobj c'
    have hkey : node.key = makeClassPath ns c.name := key_of_row? hrow
    have hadopted := hshape.adopt hhome.key.2
      ⟨_, mem_modify.2 ⟨node, mem_of_row? hrow, (if_pos hkey).symm⟩, hkey, c', rfl⟩
    refine withClassCache (s := { s1 with nodes := _ })
      (hs1.2.withNodes hadopted fun k q _ hq => ?_) _
    rw [hs1.1] at hq
    have hne : k ≠ makeClassPath ns c.name := by
      rintro rfl
      rw [objAt_of_row? hrow, hobj] at hq
      cases hq
    rw [objAt, val?_adopt hshape.nodup, val?_modify, if_neg hne]
    exact hq

/-- **Deleting a class**: there are no qualifier types below it. -/
lemma deleteClass (h : QualCoherent s) (className : CIMName) :
    QualCoherent (exec (deleteClass ns className) s).2 := by
  rcases deleteClass_cases ns className s with heq | ⟨node, c, hrow, -, heq⟩
  · rw [heq]
    exact h
  · rw [heq]
    refine withClassCache (s := { s with nodes := _ })
      (h.removeNodes (mem_keys_of_row? hrow) fun x q hx => ?_) _
    exact h.shape.not_below_of_qual rfl (h.stored hx)

/-- **Reading a class.** -/
lemma getCIMClass [CIMValue V] (h : QualCoherent s) (className : CIMName) (req : ClassRequest) :
    QualCoherent (exec (getCIMClass ns className req) s).2 := by
  refine (keeps_getCIMClass (I := Fixed s.nodes) (fun _ hs => hs.1)
    (fun _ _ hs => ⟨hs.1, hs.2.withClassCache _⟩) (fun _ node _ => ?_) className req s ⟨rfl, h⟩).2
  exact (keeps_class s.nodes node).weaken (fun _ hs => hs)
    fun _ _ hs => ⟨hs, fun _ _ => ⟨hs.1, hs.2.withClassCache _⟩⟩

/-- **Enumerating classes.** -/
lemma enumClass [CIMValue V] (h : QualCoherent s) (className : CIMName) (deep : Bool)
    (f : CIMClass.Filter) :
    QualCoherent (exec (enumClass Lens.id ns className (fun _ => pure ⟨⟩) deep f) s).2 := by
  refine (keeps_enumClass (L := Lens.id) (J := Fixed s.nodes) (fun _ hs => hs.1) (fun node _ => ?_)
    (fun _ => .pure _) className deep f s ⟨rfl, h⟩).2
  intro s' hs
  rw [exec_zoom]
  exact keeps_class s.nodes node s' hs

end QualCoherent

/-! ### Runs -/

/-- The names of namespaces have no separator, and what is removed from the store is not left in the
cache: an operation that removes a namespace or a qualifier type removes nothing else that is in the
cache. -/
def QualSafe (op : MetaOp V) (s : MetaRepository V) : Prop :=
  ':' ∉ op.ns ∧
    match op with
    | .deleteNameSpace ns => ∀ k, Below s.nodes (qualContainer ns) k → s.qualCache.get? k = none
    | .deleteQualifierType ns qualName =>
      ∀ k, Below s.nodes (makeQualPath ns qualName) k → k ≠ makeQualPath ns qualName →
        s.qualCache.get? k = none
    | _ => True

/-- **A safe operation keeps the cache coherent.** -/
theorem QualCoherent.step [CIMValue V] {s : MetaRepository V} (h : QualCoherent s) {op : MetaOp V}
    (hsafe : QualSafe op s) : QualCoherent (op.step s) := by
  cases op with
  | getQualifierType ns qualName => exact h.getQualifierType qualName
  | setQualifierType ns qt => exact h.setQualifierType hsafe.1 qt
  | deleteQualifierType ns qualName => exact h.deleteQualifierType hsafe.2
  | getCIMClass ns className req => exact h.getCIMClass className req
  | enumClass ns className deep f => exact h.enumClass className deep f
  | createClass ns c => exact h.createClass c
  | modifyClass ns c => exact h.modifyClass c
  | deleteClass ns className => exact h.deleteClass className
  | createNameSpace ns => exact h.createNameSpace hsafe.1
  | deleteNameSpace ns => exact h.deleteNameSpace hsafe.2

/-- A new repository. -/
lemma qualCoherent_fresh (m n : ℕ) : QualCoherent (fresh m n : MetaRepository V) := by
  refine ⟨⟨?_, fun r hr => ?_⟩, fun h => absurd h (by simp [fresh])⟩
  · simp [fresh, keys, classContainer, qualContainer]
  simp only [fresh, List.map_cons, List.map_nil, List.mem_cons, List.not_mem_nil, or_false] at hr
  rcases hr with rfl | rfl | rfl | rfl
  all_goals
    refine .nameSpace ?_ rfl ?_ (.inl rfl)
    · rw [Node.areAllFlagsOn_eq nsNodeFlag rfl]
      decide
  · exact .cls (by decide)
  · exact .qual (by decide)
  · exact .qualRoot
  · exact .classRoot

/-- The namespace of a qualifier type that is stored. -/
lemma SchemaShape.exists_nameSpace {t : Store (MetaObj V)} (hshape : SchemaShape t) {ns : Str}
    {qualName : CIMName} {q : CIMQualifierType V} (hns : ':' ∉ ns)
    (h : objAt t (makeQualPath ns qualName) = some (.qual q)) :
    ∃ p : Node (MetaObj V), p ∈ t ∧ p.areAllFlagsOn nsNodeFlag ∧
      (p.key = qualHome ns ∨ p.key = qualContainer ns) := by
  obtain ⟨r, hrow, hobj⟩ := exists_row?_of_objAt h
  have hkey := key_of_row? hrow
  rcases hshape.placed r (mem_of_row? hrow) with ⟨hflag, -, hcont, -⟩ | ⟨hobj', -, -, -, -⟩ |
    @⟨_, ns', name', -, -, hns', hkey', -, p, hp, hpkey, hpflag⟩
  · refine ⟨r, mem_of_row? hrow, hflag, .inr ?_⟩
    exact hcont.eq_qualContainer hns hkey
  · rw [hobj'] at hobj
    cases hobj
  · have heq : ns' = ns := by
      rw [← nsOf_makeQualPath hns' name', ← hkey', hkey, nsOf_makeQualPath hns]
    exact ⟨p, hp, hpflag, .inl (heq ▸ hpkey)⟩

/-- **Coherence of the qualifier cache.** After every run of safe operations, the answer to a
request for a qualifier type is that of the store, which is also the answer of a repository with an
empty cache. In a namespace that does not exist, it is an exception.

**Proof sketch.** What the cache has is in the store (`QualCoherent`), in every state of the run. -/
theorem getQualifierType_of_reaches [CIMValue V] {m n : ℕ} {ops : List (MetaOp V)}
    {s : MetaRepository V}
    (h : Reaches MetaOp.step QualSafe (fresh m n) ops s) (ns : Str) (qualName : CIMName) :
    (exec (getQualifierType ns qualName) s).1 = storedQualifierType s.nodes ns qualName ∧
      (exec (getQualifierType ns qualName) s).1 = (exec (getQualifierType ns qualName)
          { s with qualCache := .empty s.qualCache.maxCacheSize }).1 ∧
      (':' ∉ ns → (¬ ∃ p : Node (MetaObj V), p ∈ s.nodes ∧ p.areAllFlagsOn nsNodeFlag ∧
          (p.key = qualHome ns ∨ p.key = qualContainer ns)) →
        ∃ e, (exec (getQualifierType ns qualName) s).1 = .error e) := by
  have hcoh : QualCoherent s := h.keeps (qualCoherent_fresh m n) QualCoherent.step
  have hstored : (exec (getQualifierType ns qualName) s).1 =
      storedQualifierType s.nodes ns qualName := by
    rcases hq : s.qualCache.get? (makeQualPath ns qualName) with _ | q
    · rw [exec_getQualifierType_miss hq]
    · rw [exec_getQualifierType_hit hq, storedQualifierType_of_objAt (hcoh.stored hq)]
  refine ⟨hstored, ?_, fun hns hnone => ?_⟩
  · rw [hstored, exec_getQualifierType_miss rfl]
  · rw [hstored]
    rcases hst : storedQualifierType s.nodes ns qualName with e | q
    · exact ⟨e, rfl⟩
    · exact absurd (hcoh.shape.exists_nameSpace hns (objAt_of_storedQualifierType hst)) hnone

/-- A qualifier type. -/
def sampleQualifier : CIMQualifierType Bool := ⟨['d'], [], none⟩

/-- A qualifier type with the same name. -/
def changedQualifier : CIMQualifierType Bool := ⟨['d'], [], some true⟩

/-- In a new namespace, a qualifier type is set, read, and set again. -/
def setTwice : List (MetaOp Bool) :=
  [.createNameSpace ['a'], .setQualifierType ['a'] sampleQualifier, .getQualifierType ['a'] ['D'],
    .setQualifierType ['a'] changedQualifier]

/-- The repository afterwards. -/
def changedRepository : MetaRepository Bool :=
  setTwice.foldl (fun s op => op.step s) (fresh 10 10)

/-- The cache has the qualifier type that was set last, and so has the store. -/
theorem getQualifierType_changed :
    Reaches MetaOp.step QualSafe (fresh 10 10) setTwice changedRepository ∧
      changedRepository.qualCache.get? (makeQualPath ['a'] ['d']) = some changedQualifier ∧
      storedQualifierType changedRepository.nodes ['a'] ['d'] = .ok changedQualifier ∧
      (exec (getQualifierType ['a'] ['d']) changedRepository).1 =
        storedQualifierType changedRepository.nodes ['a'] ['d'] := by
  have hreaches : Reaches MetaOp.step QualSafe (fresh 10 10) setTwice changedRepository :=
    .snoc (l := [_, _, _]) (.snoc (l := [_, _]) (.snoc (l := [_]) (.snoc .nil ⟨by decide, trivial⟩)
      ⟨by decide, trivial⟩) ⟨by decide, trivial⟩) ⟨by decide, trivial⟩
  exact ⟨hreaches, by decide +kernel, by decide +kernel,
    (getQualifierType_of_reaches hreaches _ _).1⟩

/-- A namespace is created, gets a qualifier type, and is deleted. -/
def deletedNameSpace : MetaRepository Bool :=
  (MetaOp.deleteNameSpace ['a']).step ((MetaOp.setQualifierType ['a'] sampleQualifier).step
    ((MetaOp.createNameSpace ['a']).step (fresh 10 10)))

/-- **A qualifier type of a deleted namespace is still answered.** The store has nothing, and not
even the namespace. -/
theorem getQualifierType_deleted : Reaches MetaOp.step (fun _ _ => True) (fresh 10 10)
        [.createNameSpace ['a'], .setQualifierType ['a'] sampleQualifier, .deleteNameSpace ['a']]
        deletedNameSpace ∧
      storedQualifierType deletedNameSpace.nodes ['a'] ['d'] =
        .error (.cim .invalidNamespace ['a']) ∧
      (exec (getQualifierType ['a'] ['d']) deletedNameSpace).1 = .ok sampleQualifier := by
  refine ⟨?_, by decide +kernel, by decide +kernel⟩
  have hcreate : Reaches MetaOp.step (fun _ _ => True) (fresh 10 10 : MetaRepository Bool)
      [.createNameSpace ['a']] _ := .snoc .nil trivial
  exact .snoc (.snoc hcreate trivial) trivial

end OpenWbem
