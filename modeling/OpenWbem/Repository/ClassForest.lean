import OpenWbem.Repository.QualifierCache

/-!
# The class hierarchy

The nodes of the classes form a forest: the parent of the node of a class is the node of its
superclass, or the container of the namespace if it has none. Creating a class adds a leaf.
Modifying a class moves its node below the new superclass, whatever that is; if the new superclass
is the class itself or one of its subclasses, there is a cycle afterwards.

## Main definitions

* `classHome` — the key of the node below which a class belongs.
* `ClassForest` — every class is below its home, and there are no cycles.

## Main results

* `ClassForest.change` — every change of the schema store that moves no class below itself keeps the
  forest.
-/

namespace OpenWbem

open Prog Hierarchy MetaRepository Store

variable {V : Type}

/-! ### Keys -/

section Keys

variable {ns ns' : Str} {name name' : CIMName}

/-- The key of a class determines the namespace, and the name up to case. -/
lemma makeClassPath_inj (hns : ':' ∉ ns) (hns' : ':' ∉ ns')
    (h : makeClassPath ns name = makeClassPath ns' name') :
    ns = ns' ∧ Str.lower name = Str.lower name' := by
  have heq : ns = ns' := by
    rw [← nsOf_makeClassPath hns name, h, nsOf_makeClassPath hns']
  subst heq
  exact ⟨rfl, List.tail_eq_of_cons_eq (List.append_cancel_left h)⟩

/-- Names that differ in case only. -/
lemma makeClassPath_congr (h : Str.lower name = Str.lower name') :
    makeClassPath ns name = makeClassPath ns name' := by
  rw [makeClassPath, makeClassPath, h]

/-- A container is no class. -/
lemma IsContainer.ne_makeClassPath {key : Str} (h : IsContainer key) :
    key ≠ makeClassPath ns name := by
  have hmem : ':' ∈ (makeClassPath ns name).drop 2 := by simp [makeClassPath, classContainer]
  intro heq
  rw [← heq] at hmem
  cases h with
  | qualRoot => simp at hmem
  | classRoot => simp at hmem
  | qual hns => exact hns hmem
  | cls hns => exact hns hmem

end Keys

/-! ### The forest -/

/-- The key of the node below which a class belongs. -/
def classHome (ns : Str) (c : CIMClass V) : Str :=
  if c.superClass = [] then classContainer ns else makeClassPath ns c.superClass

variable {p : Node (MetaObj V)}

/-- The key of the home. -/
lemma MetaRepository.HomeOf.key_eq {t : Store (MetaObj V)} {ns : Str} {c : CIMClass V}
    (h : HomeOf t ns c p) : p.key = classHome ns c := by
  rw [HomeOf] at h
  rw [classHome]
  split_ifs at h ⊢ <;> exact key_of_getNode h.1

/-- **The class hierarchy**: every class has its own key and is below its home, and there are no
cycles. -/
structure ClassForest (t : Store (MetaObj V)) : Prop where
  shape : SchemaShape t
  forest : IsForest t
  housed : ∀ r ∈ t, ∀ c, r.val.obj = some (.cls c) → ∃ ns, ':' ∉ ns ∧
    r.key = makeClassPath ns c.name ∧ r.parent = some (classHome ns c)

namespace ClassForest

variable {t t' : Store (MetaObj V)} {ns : Str} {c : CIMClass V} {r node : Node (MetaObj V)}

variable (h : ClassForest t)

include h

/-- The node of a class in a namespace. -/
lemma parent_of_cls (hns : ':' ∉ ns) {name : CIMName}
    (hrow : row? t (makeClassPath ns name) = some r) (hobj : r.val.obj = some (.cls c)) :
    Str.lower c.name = Str.lower name ∧ r.parent = some (classHome ns c) := by
  obtain ⟨ns', hns', hkey, hparent⟩ := h.housed r (mem_of_row? hrow) c hobj
  rw [key_of_row? hrow] at hkey
  obtain ⟨rfl, hname⟩ := makeClassPath_inj hns hns' hkey
  exact ⟨hname.symm, hparent⟩

/-- A node with the key of a class has a class. -/
lemma cls_of_key {name : CIMName} (hr : r ∈ t) (hkey : r.key = makeClassPath ns name) :
    ∃ c, r.val.obj = some (.cls c) ∧ r.areAllFlagsOn nsNodeFlag = false := by
  rcases h.shape.placed r hr with ⟨-, -, hcont, -⟩ | ⟨hobj, hflag, -, -, -⟩ | ⟨-, -, -, hqual, -, -⟩
  · exact absurd hkey hcont.ne_makeClassPath
  · exact ⟨_, hobj, hflag⟩
  · have hhead := head?_makeQualPath _ _ ▸ congrArg List.head? hqual
    rw [hkey] at hhead
    exact absurd hhead (by simp [head?_makeClassPath])

/-- The parent is there. -/
lemma exists_parent {p : Str} (hr : r ∈ t) (hparent : r.parent = some p) :
    ∃ pr, row? t p = some pr := by
  have hp := h.forest.closed (mem_kids.2 ⟨r, hr, rfl, hparent⟩)
  obtain ⟨pr, hpr, hkey⟩ := mem_keys.1 hp
  exact ⟨pr, (row?_eq_some h.shape.nodup).2 ⟨hpr, hkey⟩⟩

/-- The superclass of a class is stored, and is the parent of its node. -/
lemma exists_superclass {p : Str} (hr : r ∈ t)
    (hobj : r.val.obj = some (.cls c)) (hsuper : c.superClass ≠ []) (hparent : r.parent = some p) :
    ∃ (pr : Node (MetaObj V)) (pc : CIMClass V), row? t p = some pr ∧
      pr.val.obj = some (.cls pc) ∧ pr.areAllFlagsOn nsNodeFlag = false := by
  obtain ⟨ns', -, -, hparent'⟩ := h.housed r hr c hobj
  rw [hparent, classHome, if_neg hsuper, Option.some.injEq] at hparent'
  obtain ⟨pr, hpr⟩ := h.exists_parent hr hparent
  obtain ⟨pc, hpc, hflag⟩ := h.cls_of_key (mem_of_row? hpr) ((key_of_row? hpr).trans hparent')
  exact ⟨pr, pc, hpr, hpc, hflag⟩

/-- The parent of the node of a class is its home. -/
lemma homeOf (hns : ':' ∉ ns)
    (hp : row? t (classHome ns c) = some p) : HomeOf t ns c p := by
  have hkey := key_of_row? hp
  rw [HomeOf]
  rw [classHome] at hp hkey
  split_ifs at hp hkey ⊢ with hsuper
  · refine ⟨by rwa [getNode, if_neg (by simp [classContainer])], ?_⟩
    rcases h.shape.placed p (mem_of_row? hp) with ⟨hflag, -, -, -⟩ | ⟨hobj, -, -, -, -⟩ |
      ⟨-, -, -, hqual, -, -⟩
    · exact hflag
    · obtain ⟨ns', -, hkey', -⟩ := h.housed p (mem_of_row? hp) _ hobj
      exact absurd (hkey.symm.trans hkey') (IsContainer.cls hns).ne_makeClassPath
    · have hhead := head?_makeQualPath _ _ ▸ congrArg List.head? hqual
      rw [hkey] at hhead
      exact absurd hhead (by simp [classContainer])
  · refine ⟨by rwa [getNode, if_neg (makeClassPath_ne_nil _ _)], ?_⟩
    obtain ⟨pc, hpc, -⟩ := h.cls_of_key (mem_of_row? hp) hkey
    exact ⟨pc, hpc⟩

variable {k : Str} {c0 : CIMClass V}

/-- A class is not above a namespace. -/
lemma not_below_of_flag (hr : r ∈ t)
    (hflag : r.areAllFlagsOn nsNodeFlag) (hk : r.key ≠ k) : ¬ Below t k r.key := by
  intro hb
  cases hb with
  | refl => exact hk rfl
  | step _ hkid =>
    have hroot := kids_of_mem hr
    rw [h.shape.root_of_flag hr hflag] at hroot
    exact absurd (kids_unique h.shape.nodup hkid hroot) (by simp)

/-- **A new node.** -/
lemma add {q : Option Str} {v : StoreNode (MetaObj V)}
    (hshape : SchemaShape (add t k q v)) (hk : row? t k = none)
    (hq : ∀ p, q = some p → p ∈ keys t)
    (hcls : ∀ c, v.obj = some (.cls c) → ∃ ns, ':' ∉ ns ∧ k = makeClassPath ns c.name ∧
      q = some (classHome ns c)) :
    ClassForest (add t k q v) where
  shape := hshape
  forest := h.forest.add (row?_eq_none.1 hk) hq
  housed := by
    intro r hr c hobj
    rcases List.mem_append.1 hr with hr | hr
    · exact h.housed r hr c hobj
    · obtain rfl := List.mem_singleton.1 hr
      exact hcls c hobj

/-- **A node that gets another object.** -/
lemma modify {obj : MetaObj V}
    (hshape : SchemaShape (Hierarchy.modify t k fun v => { v with obj := some obj }))
    (hcls : ∀ r ∈ t, r.key = k → ∀ c, obj = .cls c → ∃ ns, ':' ∉ ns ∧ k = makeClassPath ns c.name ∧
      r.parent = some (classHome ns c)) :
    ClassForest (Hierarchy.modify t k fun v => { v with obj := some obj }) where
  shape := hshape
  forest := h.forest.modify _
  housed := by
    intro r hr c hobj
    obtain ⟨r0, hr0, rfl⟩ := mem_modify.1 hr
    split_ifs at hobj ⊢ with hkey
    · obtain ⟨ns, hns, hk, hparent⟩ := hcls r0 hr0 hkey c (by simpa using hobj)
      exact ⟨ns, hns, hkey.trans hk, hparent⟩
    · exact h.housed r0 hr0 c hobj

/-- **A class that changes** and is adopted by its home, which is not below it. -/
lemma setClass (hns : ':' ∉ ns)
    (hhome : HomeOf t ns c p) (hrow : row? t (makeClassPath ns c.name) = some node)
    (hobj : node.val.obj = some (.cls c0)) (hmove : ¬ Below t (makeClassPath ns c.name) p.key) :
    ClassForest (adopt (Hierarchy.modify t (makeClassPath ns c.name)
      fun v => { v with obj := some (.cls c) }) (makeClassPath ns c.name) p.key) := by
  have hshape := h.shape.change (.setClass (M := fun _ _ => True) hns hhome hrow hobj trivial)
  have hkey : node.key = makeClassPath ns c.name := key_of_row? hrow
  generalize hf : (fun v : StoreNode (MetaObj V) => { v with obj := some (MetaObj.cls c) }) = f
    at hshape ⊢
  have hnode : row? (Hierarchy.modify t (makeClassPath ns c.name) f) (makeClassPath ns c.name) =
      some { node with val := f node.val } :=
    (row?_eq_some (by rw [keys_modify]; exact h.shape.nodup)).2
      ⟨mem_modify.2 ⟨node, mem_of_row? hrow, (if_pos hkey).symm⟩, hkey⟩
  refine ⟨hshape, (h.forest.modify f).adopt ?_ ?_ fun hb => hmove ?_, fun r hr c' hobj' => ?_⟩
  · rw [keys_modify]
    exact mem_keys_of_row? hrow
  · rw [keys_modify]
    exact mem_keys_of_row? hhome.key.1
  · exact hb.congr fun q => (kids_modify f).symm
  · rcases (mem_adopt (by rw [keys_modify]; exact h.shape.nodup) hnode).1 hr with ⟨hr, hne⟩ | rfl
    · obtain ⟨r0, hr0, rfl⟩ := mem_modify.1 hr
      split_ifs at hne hobj' ⊢ with hk
      · exact absurd hk hne
      · exact h.housed r0 hr0 c' hobj'
    · subst hf
      obtain rfl : c = c' := by simpa using hobj'
      exact ⟨ns, hns, hkey, by rw [← hhome.key_eq]⟩

/-- **A class that is modified**, with a new superclass that is not below it. -/
lemma setClass_of_modify {c' : CIMClass V} (hns : ':' ∉ ns) (hname : c'.name = c.name)
    (hsuper : c'.superClass = c.superClass) (hhome : HomeOf t ns c p)
    (hrow : row? t (makeClassPath ns c.name) = some node) (hobj : node.val.obj = some (.cls c0))
    (hup : c.superClass ≠ [] →
      ¬ Below t (makeClassPath ns c.name) (makeClassPath ns c.superClass)) :
    ClassForest (adopt (Hierarchy.modify t (makeClassPath ns c.name)
      fun v => { v with obj := some (.cls c') }) (makeClassPath ns c.name) p.key) := by
  have hhome' : HomeOf t ns c' p := by rwa [HomeOf, hsuper]
  have hmove : ¬ Below t (makeClassPath ns c.name) p.key := by
    rw [HomeOf] at hhome
    split_ifs at hhome with hs
    · refine h.not_below_of_flag (mem_of_row? (row?_of_getNode hhome.1)) hhome.2 ?_
      rw [key_of_getNode hhome.1]
      exact (IsContainer.cls hns).ne_makeClassPath
    · rw [key_of_getNode hhome.1]
      exact hup hs
  have hF := h.setClass hns hhome' (hname.symm ▸ hrow) hobj (hname.symm ▸ hmove)
  rwa [hname] at hF

/-- Removing a node. -/
lemma remove (hk : k ∈ keys t) : ClassForest (remove t k) where
  shape := h.shape.remove hk
  forest := h.forest.remove hk
  housed r hr := h.housed r (mem_remove.1 hr).1

/-- **Every change that moves no class below itself keeps the forest.** -/
lemma change (hc : SchemaChange (fun k p => ¬ Below t k p) t t') : ClassForest t' := by
  have hshape := h.shape.change hc
  cases hc with
  | addNameSpace hkey hfresh =>
    exact h.add hshape hfresh (nofun) nofun
  | addQualifier hns hfresh hp hflag =>
    refine h.add hshape hfresh (fun p hp' => ?_) nofun
    rw [← Option.some.inj hp']
    exact mem_keys_of_row? hp
  | setQualifier hrow => exact h.modify hshape nofun
  | addClass hns hhome hfresh =>
    refine h.add hshape hfresh (fun p hp => ?_) fun c hc => ?_
    · rw [← Option.some.inj hp]
      exact mem_keys_of_row? hhome.key.1
    · obtain rfl : _ = c := by simpa using hc
      exact ⟨_, hns, rfl, by rw [hhome.key_eq]⟩
  | setClass hns hhome hrow hobj hmove => exact h.setClass hns hhome hrow hobj hmove
  | removeSubtree hk => exact h.remove hk

end ClassForest

end OpenWbem
