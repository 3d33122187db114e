import OpenWbem.Repository.MetaOperations

/-!
# The shape of the schema store

Where the nodes of the schema store are, and in which ways the operations change them. Whatever an
operation does to the store is one of the changes of `SchemaChange`, so an invariant of the store
has to be checked against these only.

## Main definitions

* `IsContainer` — the keys of the namespaces.
* `Placed`, `SchemaShape` — where the nodes of the schema store are.
* `SchemaChange` — the changes of the schema store.

## Main results

* `SchemaShape.change` — every change keeps the shape.
-/

namespace OpenWbem

open Prog Hierarchy MetaRepository List Store

variable {V : Type}

/-! ### The shape of the schema store -/

/-- The keys of the namespaces. -/
inductive IsContainer : Str → Prop
  | qualRoot : IsContainer ['q']
  | classRoot : IsContainer ['c']
  | qual {ns : Str} (hns : ':' ∉ ns) : IsContainer (qualContainer ns)
  | cls {ns : Str} (hns : ':' ∉ ns) : IsContainer (classContainer ns)

/-- Where a node of the schema store is: a namespace is a root, a class is below a node of the class
part, and a qualifier type is below its namespace. -/
inductive Placed (t : Store (MetaObj V)) (r : Node (MetaObj V)) : Prop
  | nameSpace (hflag : r.areAllFlagsOn nsNodeFlag) (hparent : r.parent = none)
      (hkey : IsContainer r.key)
      (hobj : r.val.obj = none ∨ r.key.head? = some 'q' ∧ ∃ q, r.val.obj = some (.qual q))
  | cls {c : CIMClass V} {p : Str} (hobj : r.val.obj = some (.cls c))
      (hflag : r.areAllFlagsOn nsNodeFlag = false) (hkey : r.key.head? = some 'c')
      (hparent : r.parent = some p) (hp : p.head? = some 'c')
  | qual {q : CIMQualifierType V} {ns : Str} {name : CIMName} (hobj : r.val.obj = some (.qual q))
      (hflag : r.areAllFlagsOn nsNodeFlag = false) (hns : ':' ∉ ns)
      (hkey : r.key = makeQualPath ns name) (hparent : r.parent = some (qualHome ns))
      (hhome : ∃ p : Node (MetaObj V), p ∈ t ∧ p.key = qualHome ns ∧
        p.areAllFlagsOn nsNodeFlag)

/-- Every node has its place. -/
structure SchemaShape (t : Store (MetaObj V)) : Prop where
  nodup : (keys t).Nodup
  placed : ∀ r ∈ t, Placed t r

variable {r : Node (MetaObj V)} {k : Str} {v : StoreNode (MetaObj V)} {obj : MetaObj V}
  {p : Option Str}

/-- A node keeps its place as long as the namespaces stay. -/
lemma Placed.mono {t t' : Store (MetaObj V)} (h : Placed t r)
    (hhome : ∀ p : Node (MetaObj V), p ∈ t → r.parent = some p.key → p.areAllFlagsOn nsNodeFlag →
      ∃ p' : Node (MetaObj V), p' ∈ t' ∧ p'.key = p.key ∧ p'.areAllFlagsOn nsNodeFlag) :
    Placed t' r := by
  rcases h with ⟨hflag, hparent, hkey, hobj⟩ | ⟨hobj, hflag, hkey, hparent, hp⟩ |
    ⟨hobj, hflag, hns, hkey, hparent, p, hp, hpkey, hpflag⟩
  · exact .nameSpace hflag hparent hkey hobj
  · exact .cls hobj hflag hkey hparent hp
  · obtain ⟨p', hp', hkey', hflag'⟩ := hhome p hp (by rw [hparent, hpkey]) hpflag
    exact .qual hobj hflag hns hkey hparent ⟨p', hp', hkey'.trans hpkey, hflag'⟩

section Keys

/-- Containers of qualifiers. -/
lemma head?_qualHome (ns : Str) : (qualHome ns).head? = some 'q' := by
  rw [qualHome]
  split_ifs <;> rfl

/-- Keys of qualifiers. -/
lemma head?_makeQualPath (ns : Str) (name : CIMName) : (makeQualPath ns name).head? = some 'q' := by
  rw [makeQualPath]
  split_ifs <;> rfl

/-- Keys of classes. -/
lemma head?_makeClassPath (ns : Str) (name : CIMName) :
    (makeClassPath ns name).head? = some 'c' := rfl

end Keys

/-- The only container among the keys of qualifier types. -/
lemma IsContainer.eq_qualContainer {ns key : Str} {name : CIMName} (h : IsContainer key)
    (hns : ':' ∉ ns) (hkey : key = makeQualPath ns name) : key = qualContainer ns := by
  have hhead : key.take 2 = ['q', ':'] := by
    rw [hkey, makeQualPath]
    split_ifs <;> rfl
  cases h with
  | qualRoot => exact absurd hhead (by decide)
  | classRoot => exact absurd hhead (by decide)
  | qual hns' => rw [← nsOf_qualContainer hns', hkey, nsOf_makeQualPath hns]
  | cls _ => exact absurd hhead (by simp [classContainer])

namespace SchemaShape

variable {t : Store (MetaObj V)} {x y : Str}

section

variable (hshape : SchemaShape t)

include hshape

/-- Below a node of the class part there are only classes. -/
lemma cls_of_below (hx : x.head? = some 'c') (h : Below t x y) :
    y = x ∨ y.head? = some 'c' ∧ ∃ r ∈ t, r.key = y ∧ ∃ c, r.val.obj = some (.cls c) := by
  induction h with
  | refl => exact .inl rfl
  | @step p y hp hy ih =>
    have hhead : p.head? = some 'c' := by
      rcases ih with rfl | ⟨h, -⟩
      · exact hx
      · exact h
    obtain ⟨r, hr, rfl, hparent⟩ := mem_kids.1 hy
    rcases hshape.placed r hr with ⟨-, hroot, -, -⟩ | ⟨hobj, -, hkey, -, -⟩ | ⟨-, -, -, -, hhome, -⟩
    · rw [hroot] at hparent
      cases hparent
    · exact .inr ⟨hkey, r, hr, rfl, _, hobj⟩
    · rw [hhome] at hparent
      cases hparent
      rw [head?_qualHome] at hhead
      cases hhead

/-- Namespaces are roots. -/
lemma root_of_flag (hr : r ∈ t)
    (hflag : r.areAllFlagsOn nsNodeFlag) : r.parent = none := by
  rcases hshape.placed r hr with ⟨-, hparent, -, -⟩ | ⟨-, hflag', -, -, -⟩ | ⟨-, hflag', -, -, -, -⟩
  · exact hparent
  · rw [hflag'] at hflag
    cases hflag
  · rw [hflag'] at hflag
    cases hflag

variable {q : CIMQualifierType V}

/-- The keys of qualifier types. -/
lemma head?_of_qual (h : objAt t y = some (.qual q)) : y.head? = some 'q' := by
  obtain ⟨r, hrow, hobj⟩ := exists_row?_of_objAt h
  have hkey := key_of_row? hrow
  subst hkey
  rcases hshape.placed r (mem_of_row? hrow) with ⟨-, -, -, hobj'⟩ | ⟨hobj', -, -, -, -⟩ |
    ⟨-, -, -, hkey, -, -⟩
  · rcases hobj' with hnone | ⟨h, -⟩
    · rw [hnone] at hobj
      cases hobj
    · exact h
  · rw [hobj'] at hobj
    cases hobj
  · rw [hkey]
    exact head?_makeQualPath _ _

/-- A qualifier type is not below a node of the class part. -/
lemma not_below_of_qual (hx : x.head? = some 'c')
    (h : objAt t y = some (.qual q)) : ¬ Below t x y := by
  intro hbelow
  have hhead := hshape.head?_of_qual h
  rcases hshape.cls_of_below hx hbelow with rfl | ⟨h', -⟩
  · rw [hx] at hhead
    cases hhead
  · rw [h'] at hhead
    cases hhead

/-- Adding a node. -/
lemma add {q : Option Str} (hk : k ∉ keys t)
    (hnew : Placed (add t k q v) ⟨k, q, v⟩) : SchemaShape (add t k q v) where
  nodup := by
    rw [keys_add]
    exact hshape.nodup.append (nodup_singleton _) (by simpa using hk)
  placed := by
    intro r hr
    rcases mem_append.1 hr with hr | hr
    · exact (hshape.placed r hr).mono fun p hp _ hflag => ⟨p, mem_append.2 (.inl hp), rfl, hflag⟩
    · rw [mem_singleton.1 hr]
      exact hnew

end

/-- A store in which every node of the old store is still there, with the same flags. -/
lemma of_kept {t' : Store (MetaObj V)} (hnodup : (keys t').Nodup)
    (hkept : ∀ r ∈ t, ∃ r' ∈ t', r'.key = r.key ∧ r'.val.flags = r.val.flags)
    (hplaced : ∀ r ∈ t', Placed t r) : SchemaShape t' where
  nodup := hnodup
  placed := by
    intro r hr
    refine (hplaced r hr).mono fun p hp _ hflag => ?_
    obtain ⟨p', hp', hkey, hflags⟩ := hkept p hp
    refine ⟨p', hp', hkey, ?_⟩
    rw [Node.areAllFlagsOn] at hflag ⊢
    rwa [hflags]

/-- Changing an object. -/
lemma modify (hshape : SchemaShape t)
    (hnew : ∀ r ∈ t, r.key = k → Placed t { r with val := { r.val with obj := some obj } }) :
    SchemaShape (Hierarchy.modify t k fun v => { v with obj := some obj }) := by
  refine of_kept (t := t) ?_ (fun r hr => ?_) fun r hr => ?_
  · rw [keys_modify]
    exact hshape.nodup
  · refine ⟨_, mem_modify.2 ⟨r, hr, rfl⟩, ?_, ?_⟩
    · split_ifs <;> rfl
    · split_ifs <;> rfl
  · obtain ⟨r0, hr0, rfl⟩ := mem_modify.1 hr
    split_ifs with hk
    · exact hnew r0 hr0 hk
    · exact hshape.placed r0 hr0

/-- A class that is moved to another node of the class part. -/
lemma adopt {p : Str} (hshape : SchemaShape t) (hp : p.head? = some 'c')
    (hk : ∃ r ∈ t, r.key = k ∧ ∃ c, r.val.obj = some (.cls c)) : SchemaShape (adopt t k p) := by
  obtain ⟨r, hr, rfl, c, hc⟩ := hk
  have hrow := (row?_eq_some hshape.nodup).2 ⟨hr, rfl⟩
  have hkeys : r.key ∈ keys t := mem_keys.2 ⟨r, hr, rfl⟩
  rw [adopt]
  split_ifs with hkid
  · exact hshape
  refine of_kept (t := t) ?_ (fun x hx => ?_) fun x hx => ?_
  · exact nodup_keys_move hshape.nodup hkeys
  · rw [move_eq hrow]
    by_cases hxk : x.key = r.key
    · rw [row_unique hshape.nodup hx hr hxk]
      exact ⟨_, mem_append.2 (.inr (mem_singleton.2 rfl)), rfl, rfl⟩
    · exact ⟨x, mem_append.2 (.inl (mem_filter.2 ⟨hx, by simpa using hxk⟩)), rfl, rfl⟩
  · rw [move_eq hrow] at hx
    rcases mem_append.1 hx with hx | hx
    · exact hshape.placed x (mem_filter.1 hx).1
    · rw [mem_singleton.1 hx]
      rcases hshape.placed r hr with ⟨-, -, -, hobj⟩ | ⟨hobj, hflag, hkey, -, -⟩
        | ⟨hobj, -, -, -, -, -⟩
      · rcases hobj with hnone | ⟨-, q, hq⟩
        · rw [hnone] at hc
          cases hc
        · rw [hq] at hc
          cases hc
      · exact .cls hobj hflag hkey rfl hp
      · rw [hobj] at hc
        cases hc

/-- A subtree that is removed. A node of which the namespace is removed is removed with it. -/
lemma remove (hshape : SchemaShape t) (hk : k ∈ keys t) : SchemaShape (remove t k) where
  nodup := by
    rw [keys_remove]
    exact hshape.nodup.filter _
  placed := by
    intro r hr
    obtain ⟨hr, hstays⟩ := mem_remove.1 hr
    refine (hshape.placed r hr).mono fun p hp hparent hflag => ⟨p, ?_, rfl, hflag⟩
    refine mem_remove.2 ⟨hp, fun hgone => hstays ?_⟩
    -- a namespace is a root, so it is removed only if it is `k` itself
    have hpk : p.key = k := by
      cases below_of_mem hgone with
      | refl => rfl
      | step _ hkid =>
        have := kids_unique hshape.nodup hkid (kids_of_mem hp)
        rw [hshape.root_of_flag hp hflag] at this
        cases this
    rw [hpk] at hparent
    exact mem_below_of_kids (hparent ▸ kids_of_mem hr) (length_pos_of_mem hp)

end SchemaShape

/-! ### Changes -/

/-- A row has a key. -/
lemma mem_keys_of_row? {t : Store (MetaObj V)} (h : row? t k = some r) : k ∈ keys t :=
  mem_keys.2 ⟨r, mem_of_row? h, key_of_row? h⟩

/-- Rows with objects stay. -/
lemma row?_add_of_objAt {t : Store (MetaObj V)} {x : Str} (hk : row? t k = none)
    (hx : objAt t x = some obj) : row? (add t k p v) x = row? t x := by
  refine row?_add_of_ne fun hxk => ?_
  rw [hxk, objAt, val?, hk] at hx
  cases hx

/-- Objects stay. -/
lemma objAt_add {t : Store (MetaObj V)} {x : Str} (hk : row? t k = none)
    (hx : objAt t x = some obj) :
    objAt (add t k p v) x = some obj := by
  rw [objAt, val?, row?_add_of_objAt hk hx]
  exact hx

/-- A change of the schema store. Where the class with a key may be moved to is a parameter. -/
inductive SchemaChange (M : Str → Str → Prop) (t : Store (MetaObj V)) :
    Store (MetaObj V) → Prop
  | addNameSpace {key : Str} (hkey : IsContainer key) (hfresh : row? t key = none) :
      SchemaChange M t (add t key none ⟨nsNodeFlag, none⟩)
  | addQualifier {ns : Str} {qt : CIMQualifierType V} {p : Node (MetaObj V)} (hns : ':' ∉ ns)
      (hfresh : row? t (makeQualPath ns qt.name) = none) (hp : row? t (qualHome ns) = some p)
      (hflag : p.areAllFlagsOn nsNodeFlag) :
      SchemaChange M t
        (add t (makeQualPath ns qt.name) (some (qualHome ns)) ⟨0, some (.qual qt)⟩)
  | setQualifier {ns : Str} {qt : CIMQualifierType V} {node : Node (MetaObj V)}
      (hrow : row? t (makeQualPath ns qt.name) = some node) :
      SchemaChange M t
        (modify t (makeQualPath ns qt.name) fun v => { v with obj := some (.qual qt) })
  | addClass {ns : Str} {c : CIMClass V} {p : Node (MetaObj V)} (hns : ':' ∉ ns)
      (hhome : HomeOf t ns c p) (hfresh : row? t (makeClassPath ns c.name) = none) :
      SchemaChange M t
        (add t (makeClassPath ns c.name) (some p.key) ⟨classFlags c, some (.cls c)⟩)
  | setClass {ns : Str} {c c₀ : CIMClass V} {p node : Node (MetaObj V)} (hns : ':' ∉ ns)
      (hhome : HomeOf t ns c p) (hrow : row? t (makeClassPath ns c.name) = some node)
      (hobj : node.val.obj = some (.cls c₀)) (hmove : M (makeClassPath ns c.name) p.key) :
      SchemaChange M t
        (adopt (modify t (makeClassPath ns c.name) fun v => { v with obj := some (.cls c) })
          (makeClassPath ns c.name) p.key)
  | removeSubtree {k : Str} (hk : k ∈ keys t) : SchemaChange M t (remove t k)

namespace SchemaShape

variable {t t' : Store (MetaObj V)}

/-- The node of a class keeps its place when the class changes. -/
lemma modify_cls (hshape : SchemaShape t) {c₀ : CIMClass V} {node : Node (MetaObj V)}
    (hrow : row? t k = some node) (hobj : node.val.obj = some (.cls c₀)) (c : CIMClass V) :
    SchemaShape (Hierarchy.modify t k fun v => { v with obj := some (.cls c) }) := by
  refine hshape.modify fun r hr hk => ?_
  have hr' : r = node := row_unique hshape.nodup hr (mem_of_row? hrow)
    (hk.trans (key_of_row? hrow).symm)
  rcases hshape.placed r hr with ⟨-, -, -, hobj'⟩ | ⟨-, hflag, hkey, hparent, hp⟩ |
    ⟨hobj', -, -, -, -, -⟩
  · rw [hr', hobj] at hobj'
    rcases hobj' with hnone | ⟨-, q, hq⟩
    · cases hnone
    · cases hq
  · exact .cls rfl hflag hkey hparent hp
  · rw [hr', hobj] at hobj'
    cases hobj'

/-- **Every change keeps the shape.** -/
lemma change {M : Str → Str → Prop} (hshape : SchemaShape t) (hc : SchemaChange M t t') :
    SchemaShape t' := by
  cases hc with
  | addNameSpace hkey hfresh =>
    refine hshape.add (row?_eq_none.1 hfresh) (.nameSpace ?_ rfl hkey (.inl rfl))
    rw [Node.areAllFlagsOn_eq nsNodeFlag rfl]
    decide
  | addQualifier hns hfresh hp hflag =>
    refine hshape.add (row?_eq_none.1 hfresh)
      (.qual rfl ?_ hns rfl rfl ⟨_, ?_, key_of_row? hp, hflag⟩)
    · rw [Node.areAllFlagsOn_eq 0 rfl]
      decide
    · exact mem_append.2 (.inl (mem_of_row? hp))
  | setQualifier hrow =>
    refine hshape.modify fun r hr hk => ?_
    rcases hshape.placed r hr with ⟨hflag, hroot, hkey, -⟩ | ⟨-, -, hhead, -, -⟩ |
      ⟨-, hflag, hns, hkey, hparent, hhome⟩
    · exact .nameSpace hflag hroot hkey (.inr ⟨by rw [hk]; exact head?_makeQualPath _ _, _, rfl⟩)
    · rw [hk, head?_makeQualPath] at hhead
      cases hhead
    · exact .qual rfl hflag hns hkey hparent hhome
  | addClass hns hhome hfresh =>
    exact hshape.add (row?_eq_none.1 hfresh)
      (.cls rfl (areAllFlagsOn_classFlags rfl) rfl rfl hhome.key.2)
  | setClass hns hhome hrow hobj _ =>
    have hkey := key_of_row? hrow
    refine (hshape.modify_cls hrow hobj _).adopt hhome.key.2
      ⟨_, mem_modify.2 ⟨_, mem_of_row? hrow, (if_pos hkey).symm⟩, hkey, _, rfl⟩
  | removeSubtree hk => exact hshape.remove hk

end SchemaShape

end OpenWbem
