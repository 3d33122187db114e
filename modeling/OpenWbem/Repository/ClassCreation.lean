import OpenWbem.Repository.ClassDeletion

/-!
# Creating a class that cannot be created

A class is put into the schema store first, then it gets a node among the instances, and last its
entries in the association database. Each store has its own opinion on what is there already. When
the second step throws, the first one is not undone, and the class is in the schema store although
its creation has failed.

## Main definitions

* `SchemaAccepts` — the schema store takes the class.
* `InstancesAccept` — the store of the instances has a place for the node of the class.
* `AllOrNothing` — a creation that throws leaves everything as it was.

## Main results

* `createClass_allOrNothing_iff` — **when creating a class is all or nothing.**
-/

namespace OpenWbem

open Prog Hierarchy MetaRepository CIMRepository List InstanceRepository AssocMap

variable {V : Type} [CIMValue V] {s s' : CIMRepository V} {ns : Str} {c : CIMClass V}

/-- The classes of the references are there, and the schema store takes the class. -/
def SchemaAccepts (s : CIMRepository V) (ns : Str) (c : CIMClass V) : Prop :=
  ∃ s₁ c' s₂, exec (checkReferences ns c.properties) s = (.ok ⟨⟩, s₁) ∧
    exec (zoom schema (MetaRepository.createClass ns c)) s₁ = (.ok c', s₂)

omit [CIMValue V] in
/-- The store of the instances has a node for the namespace and none for the class. -/
def InstancesAccept (s : CIMRepository V) (ns : Str) (c : CIMClass V) : Prop :=
  ∃ p, Store.getNode s.iStore ns = some p ∧ p.areAllFlagsOn nsNodeFlag ∧
    Store.getNode s.iStore (makeClassKey ns c.name) = none

/-- **All or nothing**: a creation that throws leaves the stores, the association database of the
classes and the answers on classes as they were. -/
def AllOrNothing (s : CIMRepository V) (ns : Str) (c : CIMClass V) : Prop :=
  ∀ e s', exec (CIMRepository.createClass ns c) s = (.error e, s') →
    s'.mStore.nodes = s.mStore.nodes ∧ s'.iStore = s.iStore ∧ s'.classAssocDb = s.classAssocDb ∧
      ∀ ns' className req, ':' ∉ ns' →
        (exec (getClass ns' className req) s').1 =
          (exec (getClass ns' className req) s).1

/-! ### The answers -/

variable {className : CIMName}

/-- What a client is told depends on the answer of the schema store and on the namespaces. -/
lemma exec_getClass_congr {req : ClassRequest}
    (hanswer : (exec (getCIMClass ns className req) s'.mStore).1 =
      (exec (getCIMClass ns className req) s.mStore).1) (hnames : s'.nStore = s.nStore) :
    (exec (getClass ns className req) s').1 =
      (exec (getClass ns className req) s).1 := by
  rw [getClass, CIMRepository.translate, exec_tryCatch, exec_tryCatch, exec_bind, exec_bind,
    exec_zoom, exec_zoom, show schema.get s = s.mStore from rfl,
      show schema.get s' = s'.mStore from rfl]
  rcases hx : exec (getCIMClass ns className req) s.mStore with ⟨r, m⟩
  rcases hx' : exec (getCIMClass ns className req) s'.mStore with ⟨r', m'⟩
  rw [hx, hx'] at hanswer
  obtain rfl : r' = r := hanswer
  rcases r' with e | _ | cc
  · cases e <;> rfl
  · dsimp only
    rw [checkGetClass, exec_get_bind, exec_get_bind, show (schema.set m' s').nStore =
      s.nStore from hnames,
      show (schema.set m s).nStore = s.nStore from rfl]
    split_ifs <;> rfl
  · rfl

/-! ### The first steps -/

/-- Nothing has changed but the caches, which are coherent. -/
structure OnlyRead (s₀ s : CIMRepository V) : Prop where
  reading : Reading s₀.mStore.nodes (Resolved s₀.mStore.nodes) s.mStore
  names : s.nStore = s₀.nStore
  instances : s.iStore = s₀.iStore
  classAssoc : s.classAssocDb = s₀.classAssocDb

/-- The check of the references. -/
lemma onlyRead_checkReferences (h : Coherent .resolved s.mStore) (hns : ':' ∉ ns)
    (props : List (CIMProperty V)) : OnlyRead s (exec (checkReferences ns props) s).2 := by
  refine keeps_checkReferences (fun className s₁ hs1 => ?_) props s ⟨h.reading, rfl, rfl, rfl⟩
  rw [exec_zoom]
  exact ⟨(ensures_getCIMClass h.forest (Resolved.resolvesBy _) hns className trivial .whole
    s₁.mStore
    hs1.reading).1, hs1.names, hs1.instances, hs1.classAssoc⟩

/-- **All or nothing up to the schema store**: what only reads leaves everything as it was. -/
lemma OnlyRead.kept (h : OnlyRead s s') (hcoh : Coherent .resolved s.mStore) :
    s'.mStore.nodes = s.mStore.nodes ∧ s'.iStore = s.iStore ∧ s'.classAssocDb = s.classAssocDb ∧
      ∀ ns' className req, ':' ∉ ns' → (exec (getClass ns' className req) s').1 =
          (exec (getClass ns' className req) s).1 := by
  refine ⟨h.reading.nodes, h.instances, h.classAssoc, fun ns' className req hns' => ?_⟩
  exact exec_getClass_congr
    (hcoh.answer_congr (.of_reading hcoh.forest h.reading) h.reading.nodes hns'
    className req) h.names

omit [CIMValue V] in
/-- The node of the class among the instances. -/
lemma exec_instCreateClass (t : Store (CIMInstance V)) (ns : Str) (className : CIMName) :
    if ∃ p, Store.getNode t ns = some p ∧ p.areAllFlagsOn nsNodeFlag ∧
        Store.getNode t (makeClassKey ns className) = none then
      ∃ t', exec (InstanceRepository.createClass ns className) t = (.ok ⟨⟩, t')
    else ∃ e, exec (InstanceRepository.createClass ns className) t = (.error e, t) := by
  rw [InstanceRepository.createClass]
  rcases GenericHDBRepository.exec_getNameSpaceNode ns t with
    ⟨p, hp, hflag, hexec⟩ | ⟨hnone, hexec⟩ | ⟨p, msg, hp, hflag, hexec⟩
  · rw [exec_bind_of_ok hexec]
    rw [exec_get_bind]
    rcases Store.getNode t (makeClassKey ns className) with _ | node
    · rw [if_pos ⟨p, hp, hflag, rfl⟩]
      exact ⟨_, rfl⟩
    · rw [if_neg (by rintro ⟨_, -, -, ⟨⟩⟩)]
      exact ⟨_, rfl⟩
  · rw [exec_bind_of_ok hexec, if_neg (by rintro ⟨_, hp, -⟩; rw [hnone] at hp; cases hp)]
    exact ⟨_, rfl⟩
  · rw [exec_bind_of_error hexec, if_neg ?_]
    · exact ⟨_, rfl⟩
    · rintro ⟨p', hp', hflag', -⟩
      rw [hp] at hp'
      cases hp'
      rw [hflag] at hflag'
      cases hflag'

/-- Adding the entries of a class does not throw: its paths are those of classes. -/
lemma exists_addEntries (ns : Str) (cc : CIMClass V) (m : AssocMap (CIMObjectPath V)) :
    ∃ m', exec ((classEntries ns cc).forM addEntry) m = (.ok ⟨⟩, m') := by
  have hkey : ∀ a ∈ classEntries ns cc, ∃ key, makeAssocKey a.objectName a.role a.resultRole =
      .ok key := by
    intro a ha
    rw [classEntries, mem_flatMap] at ha
    obtain ⟨⟨p1, p2⟩, -, ha⟩ := ha
    dsimp only at ha
    split at ha
    · simp only [pairEntries, mem_cons, not_mem_nil, or_false] at ha
      rcases ha with rfl | rfl | rfl | rfl <;> exact ⟨_, rfl⟩
    · cases ha
  generalize classEntries ns cc = l at hkey ⊢
  induction l generalizing m with
  | nil => exact ⟨m, rfl⟩
  | cons a l ih =>
    obtain ⟨key, hk⟩ := hkey a mem_cons_self
    change ∃ m', exec (addEntry a >>= fun _ => l.forM addEntry) m = _
    rw [addEntry, hk]
    exact ih _ fun b hb => hkey b (mem_cons_of_mem _ hb)

/-! ### All steps -/

omit [CIMValue V] in
/-- A translated program throws if the program does, in the same state. -/
lemma exec_translate_error {α : Type} {x : RepoM V α} {e : CIMException}
    {P : CIMRepository V → Prop} (h : exec x s = (.error e, s')) (hP : P s') :
    ∃ e' s', exec (translate x) s = (.error e', s') ∧ P s' := by
  rw [CIMRepository.translate, exec_tryCatch, h]
  cases e <;> exact ⟨_, s', rfl, hP⟩

/-- A class that is stored can be read. -/
lemma exists_getWholeClass (h : Coherent .resolved s.mStore) (hns : ':' ∉ ns)
    (hmem : makeClassPath ns className ∈ keys s.mStore.nodes) :
    ∃ cc s', exec (getWholeClass ns className) s = (.ok cc, s') := by
  rw [getWholeClass, exec_bind, exec_zoom]
  rcases h.answer hns className .whole with ⟨hout, -⟩ | ⟨cc, -, hr⟩
  · exact absurd hmem hout
  · rcases hx : exec (getCIMClass ns className .whole) s.mStore with ⟨r, m⟩
    rw [hx] at hr
    obtain rfl : r = .ok (some (ClassRequest.whole.filter cc)) := hr
    rw [show schema.get s = s.mStore from rfl, hx]
    exact ⟨_, _, rfl⟩

/-- The last two steps do not throw: reading the class that has been stored, and adding its
entries. -/
lemma exists_addClassEntries (h : Coherent .resolved s.mStore) (hns : ':' ∉ ns)
    (hmem : makeClassPath ns className ∈ keys s.mStore.nodes) :
    ∃ s', exec (do
      let cimClass ← getWholeClass ns className
      when (cimClass.isAssociation)
        (zoom classAssoc ((classEntries ns cimClass).forM addEntry))) s = (.ok ⟨⟩, s') := by
  obtain ⟨cc, s₁, hget⟩ := exists_getWholeClass h hns hmem
  rw [exec_bind_of_ok hget, when]
  split_ifs
  · obtain ⟨d, hd⟩ := exists_addEntries ns cc (classAssoc.get s₁)
    rw [exec_zoom, hd]
    exact ⟨_, rfl⟩
  · exact ⟨_, rfl⟩

/-- **What the steps do.** Either the schema store refuses the class, and nothing has been done but
reading. Or the class is in the schema store: and then there is an exception iff the store of the
instances does not take the class.

**Proof sketch.** A class that has just been stored can be read, as its superclasses can, and the
keys of its entries are those of paths of classes. -/
lemma createClass_error_cases (h : Coherent .resolved s.mStore) (hns : ':' ∉ ns) :
    (¬ SchemaAccepts s ns c ∧ ∃ e s', exec (CIMRepository.createClass ns c) s = (.error e, s') ∧
        OnlyRead s s') ∨
      (SchemaAccepts s ns c ∧ InstancesAccept s ns c ∧
        ∃ s', exec (CIMRepository.createClass ns c) s = (.ok ⟨⟩, s')) ∨
      (SchemaAccepts s ns c ∧ ¬ InstancesAccept s ns c ∧
        ∃ e s', exec (CIMRepository.createClass ns c) s = (.error e, s') ∧
          s'.mStore.nodes ≠ s.mStore.nodes) := by
  have hread := onlyRead_checkReferences h hns c.properties
  rw [CIMRepository.createClass]
  rcases hrefs : exec (checkReferences ns c.properties) s with ⟨e | u, s₁⟩ <;> rw [hrefs] at hread
  · refine .inl ⟨?_, ?_⟩
    · rintro ⟨_, _, _, hok, -⟩
      rw [hrefs] at hok
      cases hok
    · exact exec_translate_error (exec_bind_of_error hrefs) hread
  have hcoh1 : Coherent .resolved s₁.mStore := .of_reading h.forest hread.reading
  have hnodes1 : s₁.mStore.nodes = s.mStore.nodes := hread.reading.nodes
  have hcoh2 := hcoh1.createClass hns c
  rcases hcreate : exec (MetaRepository.createClass ns c) s₁.mStore with ⟨r, m2⟩
  have hzoom : exec (zoom schema (MetaRepository.createClass ns c)) s₁ = (r, schema.set m2 s₁) := by
    rw [exec_zoom, show schema.get s₁ = s₁.mStore from rfl, hcreate]
  rcases hcoh1.createClass_cases hns c with ⟨hre, e, herr⟩ |
    ⟨m0, c', p, hm0, hname, -, -, -, hfresh, hok, hstate⟩
  · -- the schema store refuses the class
    rw [hcreate] at hre herr
    obtain rfl : r = .error e := herr
    refine .inl ⟨?_, ?_⟩
    · rintro ⟨_, _, _, hok1, hok2⟩
      rw [hrefs] at hok1
      cases hok1
      rw [hzoom] at hok2
      cases hok2
    · rw [hnodes1] at hre
      exact exec_translate_error ((exec_bind_of_ok hrefs).trans (exec_bind_of_error hzoom))
        ⟨hre, hread.names, hread.instances, hread.classAssoc⟩
  · rw [hcreate] at hok hstate hcoh2
    obtain rfl : r = .ok c' := hok
    have hacc : SchemaAccepts s ns c := ⟨s₁, c', _, hrefs, hzoom⟩
    have hadd : m2.nodes = add s.mStore.nodes (makeClassPath ns c.name) (some p.key)
        ⟨classFlags c', some (.cls c')⟩ := by
      rw [show m2 = _ from hstate, hnodes1, hname]
    have hinst := exec_instCreateClass s.iStore ns c.name
    rw [← hread.instances] at hinst
    by_cases hplace : InstancesAccept s ns c
    · -- the instances take it, and the rest does not throw
      rw [if_pos (by rw [hread.instances]; exact hplace)] at hinst
      obtain ⟨t', ht'⟩ := hinst
      have hmem : makeClassPath ns c'.name ∈ keys m2.nodes := by
        rw [hadd, hname]
        simp [Hierarchy.keys, add]
      obtain ⟨s', hs'⟩ := exists_addClassEntries
        (s := instances.set t' (schema.set m2 s₁)) hcoh2 hns hmem
      refine .inr (.inl ⟨hacc, hplace, s', ?_⟩)
      have hzoom' : exec (zoom instances (InstanceRepository.createClass ns c'.name))
          (schema.set m2 s₁) = (.ok ⟨⟩, instances.set t' (schema.set m2 s₁)) := by
        rw [exec_zoom, hname, show instances.get (schema.set m2 s₁) = s₁.iStore from rfl, ht']
      rw [CIMRepository.translate, exec_tryCatch, exec_bind_of_ok hrefs, exec_bind_of_ok hzoom,
        exec_bind_of_ok hzoom', hs']
    · rw [if_neg (by rw [hread.instances]; exact hplace)] at hinst
      obtain ⟨e, he⟩ := hinst
      have hzoom' : exec (zoom instances (InstanceRepository.createClass ns c'.name))
          (schema.set m2 s₁) = (.error e, schema.set m2 s₁) := by
        rw [exec_zoom, hname, show instances.get (schema.set m2 s₁) = s₁.iStore from rfl, he]
        rfl
      refine .inr (.inr ⟨hacc, hplace, exec_translate_error ((exec_bind_of_ok hrefs).trans
        ((exec_bind_of_ok hzoom).trans (exec_bind_of_error hzoom'))) fun heq => ?_⟩)
      have hlen := congrArg length (hadd.symm.trans heq)
      simp [add] at hlen

/-- **When creating a class is all or nothing**: if the schema store takes the class, then the store
of the instances does too.

**Proof sketch.** A class that the schema store takes is there to stay. -/
theorem createClass_allOrNothing_iff (h : Coherent .resolved s.mStore) (hns : ':' ∉ ns) :
    AllOrNothing s ns c ↔ (SchemaAccepts s ns c → InstancesAccept s ns c) := by
  rcases createClass_error_cases h hns with ⟨hnot, e, s', hexec, hread⟩ |
    ⟨-, hinst, s', hexec⟩ | ⟨hacc, hinst, e, s', hexec, hne⟩
  · refine ⟨fun _ hacc => absurd hacc hnot, fun _ e1 s₁ h1 => ?_⟩
    rw [hexec] at h1
    cases h1
    exact hread.kept h
  · refine ⟨fun _ _ => hinst, fun _ e1 s₁ h1 => ?_⟩
    rw [hexec] at h1
    cases h1
  · refine ⟨fun hall => absurd (hall e s' hexec).1 hne, fun himp => absurd (himp hacc) hinst⟩

/-- Creating a class that is there already is refused by the schema store, and changes nothing. -/
theorem allOrNothing_oneSubclass :
    (exec (CIMRepository.createClass rootNs (bareClass ['B'] [])) (withSubclasses [['B']])).1 =
        .error (.cim .alreadyExists (makeClassPath rootNs ['B'])) ∧
      AllOrNothing (withSubclasses [['B']]) rootNs (bareClass ['B'] []) := by
  refine ⟨by decide +kernel, (createClass_allOrNothing_iff fitsTogether_oneSubclass.coherent
    (by decide)).2 ?_⟩
  rintro ⟨s₁, c', s₂, hrefs, hcreate⟩
  cases hrefs
  have hrefused : (exec (zoom schema (MetaRepository.createClass rootNs (bareClass ['B'] [])))
      (withSubclasses [['B']])).1 = .error (.cim .alreadyExists (makeClassPath rootNs ['B'])) := by
    decide +kernel
  rw [hcreate] at hrefused
  cases hrefused

/-- The repository after a class with two direct subclasses has been deleted, opened again with
empty caches. -/
def afterDeletion : CIMRepository Bool :=
  let s := (RepoOp.deleteClass rootNs ['A']).step (withSubclasses [['B'], ['C']])
  { s with mStore := ⟨s.mStore.nodes, .empty 10, .empty 10⟩ }

/-- **A class that cannot be created and is there**: the second subclass still has its node among
the instances. Creating it again throws, and afterwards the schema store has it and a client gets
it. -/
theorem not_allOrNothing_afterDeletion :
    (exec (getClass rootNs ['C'] .whole) afterDeletion).1 =
        .error (.cim .notFound (CIMObjectPath.classText ['C'] rootNs)) ∧
      (exec (CIMRepository.createClass rootNs (bareClass ['C'] [])) afterDeletion).1 =
        .error (.cim .alreadyExists (makeClassKey rootNs ['C'])) ∧
      (exec (getClass rootNs ['C'] .whole)
          (exec (CIMRepository.createClass rootNs (bareClass ['C'] [])) afterDeletion).2).1 =
        .ok (bareClass ['C'] []) ∧
      ¬ AllOrNothing afterDeletion rootNs (bareClass ['C'] []) := by
  have herror : (exec (CIMRepository.createClass rootNs (bareClass ['C'] [])) afterDeletion).1 =
      .error (.cim .alreadyExists (makeClassKey rootNs ['C'])) := by decide +kernel
  have hbefore : (exec (getClass rootNs ['C'] .whole) afterDeletion).1 =
      .error (.cim .notFound (CIMObjectPath.classText ['C'] rootNs)) := by decide +kernel
  have hafter : (exec (getClass rootNs ['C'] .whole)
      (exec (CIMRepository.createClass rootNs (bareClass ['C'] [])) afterDeletion).2).1 =
        .ok (bareClass ['C'] []) := by decide +kernel
  refine ⟨hbefore, herror, hafter, fun h => ?_⟩
  rcases hrun : exec (CIMRepository.createClass rootNs (bareClass ['C'] [])) afterDeletion
    with ⟨r, s'⟩
  rw [hrun] at herror hafter
  obtain rfl : r = .error _ := herror
  have hsame := (h _ s' hrun).2.2.2 rootNs ['C'] .whole (by decide)
  rw [hbefore, hafter] at hsame
  cases hsame

end OpenWbem
