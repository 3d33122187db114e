import OpenWbem.Assoc.Index
import OpenWbem.Repository.ClassCache
import OpenWbem.Repository.RepositoryOperations

/-!
# Deleting a class

`CIMRepository::deleteClass` enumerates the subclasses of a class with a handler that deletes each
of them, and then deletes the class itself. But the enumeration walks over the nodes that are being
deleted. Once the handler has deleted the first direct subclass, with all nodes below it, the walk
finds neither a child nor a sibling of the node that it stands on, and ends.

So there are at most two classes for which everything is done: the first direct subclass, and the
class itself. Of all the others only the nodes in the schema store go.

## Main definitions

* `FitsTogether` — a repository whose parts fit together.
* `DeletedBy`, `DeletionEffect` — the classes that are handed to the deleter, and what becomes of
  the rest.
* `ClassGone`, `ClassKept` — a class that is nowhere in the repository, and one that is unchanged.
* `DeletesAll` — when deleting a class deletes all of the subtree.

## Main results

* `deletionEffect_of_deleteClass` — what deleting a class does.
* `deleteClass_removes_iff` — everything of the subtree is deleted and nothing else, iff
  `DeletesAll`.
-/

namespace OpenWbem

open Prog Hierarchy MetaRepository CIMRepository InstanceRepository List Store Str AssocMap

variable {V : Type} [CIMValue V]

/-! ### The deleter -/

omit [CIMValue V] in
/-- A translated program that returns has not thrown. -/
lemma exec_translate_ok {α : Type} {x : RepoM V α} {s s' : CIMRepository V} {v : α}
    (h : exec (translate x) s = (.ok v, s')) : exec x s = (.ok v, s') := by
  refine exec_tryCatch_ok (fun e s => ?_) h
  cases e <;> exact ⟨_, rfl⟩

/-- What `CIMClassDeleter` does for a class, when it does not throw. -/
structure ClassDeleted (ns : Str) (c : CIMClass V) (s s' : CIMRepository V) : Prop where
  stored : makeClassPath ns c.name ∈ keys s.mStore.nodes
  nodes : s'.mStore.nodes = remove s.mStore.nodes (makeClassPath ns c.name)
  cache : s'.mStore.classCache = s.mStore.classCache.removeFromCache (makeClassPath ns c.name)
  instances : makeClassKey ns c.name ∈ keys s.iStore →
    s'.iStore = remove s.iStore (makeClassKey ns c.name)
  index : exec ((assocEntries ns c).forM deleteEntry) s.classAssocDb =
    (.ok ⟨⟩, s'.classAssocDb)

omit [CIMValue V] in
/-- The instances of a class are deleted with its node. -/
lemma exec_instDeleteClass {ns : Str} {name : CIMName} {t t' : Store (CIMInstance V)}
    (h : exec (InstanceRepository.deleteClass ns name) t = (.ok ⟨⟩, t'))
    (hmem : makeClassKey ns name ∈ keys t) :
    t' = remove t (makeClassKey ns name) := by
  rw [InstanceRepository.deleteClass, exec_get_bind] at h
  rcases hn : getNode t (makeClassKey ns name) with _ | node <;> rw [hn] at h
  · have hne : makeClassKey ns name ≠ [] := by
      simp [makeClassKey, lower]
    exact absurd hmem (row?_eq_none.1 (row?_eq_none_of_getNode hne hn))
  · dsimp only at h
    split_ifs at h
    · cases h
      exact removeNode_of_getNode hn
    · cases h

omit [CIMValue V] in
/-- A class that was found is removed with everything below it. -/
lemma deleteClass_of_found {ns : Str} {name : CIMName} {m m' : MetaRepository V}
    (h : exec (MetaRepository.deleteClass ns name) m = (.ok true, m')) :
    makeClassPath ns name ∈ keys m.nodes ∧ m' = { m with
      classCache := m.classCache.removeFromCache (makeClassPath ns name)
      nodes := remove m.nodes (makeClassPath ns name) } := by
  rw [MetaRepository.deleteClass, exec_get_bind] at h
  rcases hn : getNode m.nodes (makeClassPath ns name) with _ | node <;> rw [hn] at h
  · cases h
  rcases exec_nodeToClass_cases node m with ⟨c, -, hread⟩ | hread
  · rw [exec_bind_of_ok hread, exec_bind_of_ok (exec_clsModify _ m),
      exec_bind_of_ok (exec_storeModify _ _), removeNode_of_getNode hn] at h
    cases h
    exact ⟨mem_keys_of_row? (row?_of_getNode hn), rfl⟩
  · rw [exec_bind_of_error hread] at h
    cases h

/-- **The deleter.** -/
lemma classDeleted_of_exec {ns : Str} {c : CIMClass V} {s s' : CIMRepository V}
    (h : exec (classDeleter ns c) s = (.ok ⟨⟩, s')) : ClassDeleted ns c s s' := by
  obtain ⟨found, _, hzoom, h⟩ := exec_bind_ok h
  obtain ⟨m1, hdel, rfl⟩ := exec_zoom_ok hzoom
  cases found
  · cases h
  obtain ⟨u, _, hzoom, h⟩ := exec_bind_ok h
  obtain ⟨t1, hinst, rfl⟩ := exec_zoom_ok hzoom
  have hindex : exec ((assocEntries ns c).forM deleteEntry) s.classAssocDb =
      (.ok ⟨⟩, s'.classAssocDb) ∧ s'.mStore = m1 ∧ s'.iStore = t1 := by
    rw [when] at h
    rw [assocEntries]
    split_ifs at h ⊢
    · obtain ⟨d, hidx, rfl⟩ := exec_zoom_ok h
      exact ⟨hidx, rfl, rfl⟩
    · cases h
      exact ⟨rfl, rfl, rfl⟩
  obtain ⟨hidx, rfl, rfl⟩ := hindex
  obtain ⟨hmem, hstore⟩ := deleteClass_of_found hdel
  exact ⟨hmem, by rw [hstore]; rfl, by
    rw [hstore]; rfl, fun hmem => exec_instDeleteClass hinst hmem, hidx⟩

/-! ### The walk over the nodes that are being deleted -/

section Walk

variable {t : Store (MetaObj V)} {U : Str → Prop} {P : Str → CIMClass V → Prop} {ns : Str}
  {className : CIMName} {s s' : CIMRepository V}

/-- The key of the node at which the enumeration begins. -/
def startKey (ns : Str) (className : CIMName) : Str :=
  if className = [] then classContainer ns else makeClassPath ns className

omit [CIMValue V] in
/-- Where an enumeration starts. -/
lemma enumRoot_ok {m m' : MetaRepository V} {p : Node (MetaObj V)}
    (h : exec (enumRoot ns className) m = (.ok p, m')) :
    m' = m ∧ row? m.nodes (startKey ns className) = some p := by
  rw [enumRoot] at h
  rw [startKey]
  split_ifs at h ⊢
  · rcases exec_getNameSpaceNode_cases (classContainer ns) m with ⟨p', hp, -, hx⟩ | ⟨-, hx⟩
      | ⟨e, hx⟩
    · rw [exec_bind_of_ok hx] at h
      cases h
      exact ⟨rfl, row?_of_getNode hp⟩
    · rw [exec_bind_of_ok hx] at h
      cases h
    · rw [exec_bind_of_error hx] at h
      cases h
  · rw [exec_get_bind] at h
    rcases hn : getNode m.nodes (makeClassPath ns className) with _ | p' <;> rw [hn] at h <;>
      dsimp only at h
    · rcases exec_getNameSpaceNode_cases (classContainer ns) m with ⟨p', hp, -, hx⟩ | ⟨-, hx⟩
        | ⟨e, hx⟩
      · rw [exec_bind_of_ok hx] at h
        cases h
      · rw [exec_bind_of_ok hx] at h
        cases h
      · rw [exec_bind_of_error hx] at h
        cases h
    · cases h
      exact ⟨rfl, row?_of_getNode hn⟩

/-- **The walk at a node that its handler deletes** ends there: in the store as it is afterwards the
node has neither a child nor a sibling. -/
lemma getClassNodes_delete (hF : ClassForest t) (hP : ResolvesBy t U P)
    (hres : ∀ k c, P k c → Resolved t k c) (hns : ':' ∉ ns) (hread : Reading t P s.mStore)
    {name : CIMName} {node : Node (MetaObj V)} {n : ℕ}
    (hrow : row? t (makeClassPath ns name) = some node) (hU : U (makeClassPath ns name))
    (hrun : exec (getClassNodes schema ns (classDeleter ns) true localFilter n node) s =
      (.ok ⟨⟩, s')) :
    reload s'.mStore.nodes node = none ∧ ∃ cd m, Resolved t (makeClassPath ns name) cd ∧
      Reading t P m ∧ ClassDeleted ns (cd.clone localFilter) (schema.set m s) s' := by
  obtain ⟨n, rfl⟩ : ∃ n', n = n' + 1 := by
    cases n with
    | zero => cases hrun
    | succ n => exact ⟨n, rfl⟩
  obtain ⟨hread', cd, hcd, hPcd⟩ := ensures_getClassFromNode hF hP hns hrow hU s.mStore hread
  rcases hx : exec (getClassFromNode ns node) s.mStore with ⟨r, m⟩
  rw [hx] at hread' hcd
  cases hcd
  have hzoom : exec (zoom schema (getClassFromNode ns node)) s = (.ok cd, schema.set m s) := by
    rw [exec_zoom, show schema.get s = s.mStore from rfl, hx]
  rw [getClassNodes, exec_bind_of_ok hzoom] at hrun
  obtain ⟨u, s2, hdel, hrun⟩ := exec_bind_ok hrun
  have hdeleted := classDeleted_of_exec hdel
  have hname : makeClassPath ns (cd.clone localFilter).name = makeClassPath ns name :=
    makeClassPath_congr ((hres _ cd hPcd).lower_name hF hns rfl)
  have hgone : row? s2.mStore.nodes node.key = none := by
    rw [hdeleted.nodes, hname, show (schema.set m s).mStore.nodes = t from hread'.nodes,
      key_of_row? hrow, row?_eq_none, mem_keys_remove hF.forest (mem_keys_of_row? hrow)]
    exact fun h => h.2 .refl
  have hchild : getFirstChild (schema.get s2).nodes node = none := by
    rw [getFirstChild, reload, show (schema.get s2).nodes = s2.mStore.nodes from rfl, hgone]
    rfl
  rw [when, if_pos rfl, follow, bind_assoc, exec_get_bind, pure_bind, hchild,
    getSiblingNodes] at hrun
  cases hrun
  exact ⟨hgone, cd, m, hres _ cd hPcd, hread', hdeleted⟩

/-- **The walk over the subclasses deletes at most one of them**, the first. -/
lemma enumClass_delete (hF : ClassForest t) (hP : ResolvesBy t U P)
    (hres : ∀ k c, P k c → Resolved t k c) (hns : ':' ∉ ns) (hread : Reading t P s.mStore)
    (hU : ∀ k, (kids t (some (startKey ns className))).head? = some k → U k)
    (hrun : exec (enumClass schema ns className (classDeleter ns) true localFilter) s =
      (.ok ⟨⟩, s')) :
    (kids t (some (startKey ns className)) = [] ∧ s' = s) ∨
      ∃ name l cd m, kids t (some (startKey ns className)) = makeClassPath ns name :: l ∧
        Resolved t (makeClassPath ns name) cd ∧ Reading t P m ∧
        ClassDeleted ns (cd.clone localFilter) (schema.set m s) s' := by
  obtain ⟨p, _, hzoom, hrun⟩ := exec_bind_ok hrun
  obtain ⟨m, hroot, rfl⟩ := exec_zoom_ok hzoom
  obtain ⟨rfl, hp⟩ := enumRoot_ok hroot
  rw [show (schema.get s).nodes = t from hread.nodes] at hp
  have hfirst : getFirstChild t p = (kids t (some (startKey ns className))).head?.bind
      (row? t) := by
    rw [getFirstChild, reload_of_row? hp, Option.bind_some, key_of_row? hp]
  rw [schema.set_get, exec_get_bind, follow, bind_assoc,
    exec_get_bind, pure_bind, show (schema.get s).nodes = t from hread.nodes,
    hfirst] at hrun
  have hstart : startKey ns className = classContainer ns ∨
      ∃ name, startKey ns className = makeClassPath ns name := by
    rw [startKey]
    split_ifs
    · exact .inl rfl
    · exact .inr ⟨className, rfl⟩
  rcases hkids : kids t (some (startKey ns className)) with _ | ⟨d, l⟩
  · rw [hkids, head?_nil] at hrun
    cases hrun
    exact .inl ⟨rfl, rfl⟩
  refine .inr ?_
  have hd : d ∈ kids t (some (startKey ns className)) := by simp [hkids]
  obtain ⟨name, node, rfl, hrow, hflag⟩ := hF.key_of_kid hns hstart hd
  rw [hkids, head?_cons, Option.bind_some, hrow, enumNodes, exec_bind, when,
    if_pos (by simp [hflag])] at hrun
  rcases hwalk : exec (getClassNodes schema ns (classDeleter ns) true localFilter
    (2 * t.length + 2) node) s with ⟨e | u, s2⟩ <;> rw [hwalk] at hrun
  · cases hrun
  obtain ⟨hgone, cd, m, hcd, hm, hdeleted⟩ := getClassNodes_delete hF hP hres hns hread hrow
    (hU _ (by rw [hkids, head?_cons])) hwalk
  have hsibling : getNextSibling (schema.get s2).nodes node = none := by
    rw [getNextSibling, show (schema.get s2).nodes = s2.mStore.nodes from rfl, hgone]
    rfl
  dsimp only at hrun
  rw [follow, bind_assoc, exec_get_bind, hsibling] at hrun
  cases hrun
  exact ⟨name, l, cd, m, rfl, hcd, hm, hdeleted⟩

end Walk

/-! ### The effect -/

/-- The parts of the repository fit together: what is cached is right, every class has a node below
a namespace in the store of the instances, and the records of the association database are under
their keys. -/
structure FitsTogether (s : CIMRepository V) : Prop where
  coherent : Coherent .resolved s.mStore
  forest : IsForest s.iStore
  housed : ∀ {ns name}, ':' ∉ ns → makeClassPath ns name ∈ keys s.mStore.nodes →
    Depth s.iStore (makeClassKey ns name) 1
  keyed : s.classAssocDb.Keyed

/-- The classes that the deleter is given: the first direct subclass, as far as it is declared in
that class itself, and the class. -/
inductive DeletedBy (t : Store (MetaObj V)) (ns : Str) (className : CIMName) :
    List (CIMClass V) → Prop
  | alone {cc : CIMClass V} (hcc : Resolved t (makeClassPath ns className) cc)
      (hkids : kids t (some (startKey ns className)) = []) : DeletedBy t ns className [cc]
  | first {cc cd : CIMClass V} {name : CIMName} {l : List Str}
      (hcc : Resolved t (makeClassPath ns className) cc)
      (hkids : kids t (some (startKey ns className)) = makeClassPath ns name :: l)
      (hcd : Resolved t (makeClassPath ns name) cd) :
      DeletedBy t ns className [cd.clone localFilter, cc]

/-- What becomes of the parts of the repository, when the deleter is given some classes. What is
cached has the property `P`. -/
structure DeletionEffect (P : Str → CIMClass V → Prop) (ns : Str) (dels : List (CIMClass V))
    (s s' : CIMRepository V) : Prop where
  distinct : dels.Pairwise fun c d => lower c.name ≠ lower d.name
  forest : ClassForest s'.mStore.nodes
  nodes : Removed s.mStore.nodes s'.mStore.nodes (dels.map fun c => makeClassPath ns c.name)
  instances : IsForest s.iStore →
    (∀ c ∈ dels, Depth s.iStore (makeClassKey ns c.name) 1) →
    Removed s.iStore s'.iStore (dels.map fun c => makeClassKey ns c.name)
  cache : ∀ k c, s'.mStore.classCache.get? k = some c →
    P k c ∧ ∀ d ∈ dels, k ≠ makeClassPath ns d.name
  index : exec ((dels.flatMap (assocEntries ns)).forM deleteEntry) s.classAssocDb =
    (.ok ⟨⟩, s'.classAssocDb)

section Effect

variable {t : Store (MetaObj V)} {U : Str → Prop} {P : Str → CIMClass V → Prop} {ns : Str}
  {className : CIMName} {s s' : CIMRepository V} {cc : CIMClass V}

/-- The class that is read. -/
lemma getWholeClass_ok (hF : ClassForest t) (hP : ResolvesBy t U P) (hns : ':' ∉ ns)
    (hU : U (makeClassPath ns className)) (hread : Reading t P s.mStore)
    (hrun : exec (getWholeClass ns className) s = (.ok cc, s')) :
    P (makeClassPath ns className) cc ∧ ∃ m, Reading t P m ∧ s' = schema.set m s := by
  obtain ⟨hread', hanswer⟩ := ensures_getCIMClass hF hP hns className hU .whole s.mStore hread
  rw [getWholeClass, exec_bind, exec_zoom] at hrun
  rcases hx : exec (getCIMClass ns className .whole) s.mStore with ⟨r, m⟩
  rw [hx] at hread' hanswer
  rw [show schema.get s = s.mStore from rfl, hx] at hrun
  rcases hanswer with ⟨-, rfl⟩ | ⟨c, rfl, hc⟩
  · -- a class that is not found is reported as such
    dsimp only at hrun
    rw [checkGetClass, exec_get_bind] at hrun
    split_ifs at hrun <;> cases hrun
  · cases hrun
    exact ⟨hc, m, hread', rfl⟩

/-- **What deleting a class does.**

**Proof sketch.** The class is read, the walk deletes the first direct subclass, and the class
itself is deleted. Its node is not below that of its subclass. -/
lemma deletionEffect_of_deleteClass (hF : ClassForest s.mStore.nodes)
    (hP : ResolvesBy s.mStore.nodes U P)
    (hres : ∀ k c, P k c → Resolved s.mStore.nodes k c) (hns : ':' ∉ ns)
    (hread : Reading s.mStore.nodes P s.mStore) (hU : U (makeClassPath ns className))
    (hU' : ∀ k, (kids s.mStore.nodes (some (startKey ns className))).head? = some k → U k)
    (hrun : exec (CIMRepository.deleteClass ns className) s = (.ok cc, s')) :
    ∃ dels, DeletedBy s.mStore.nodes ns className dels ∧ DeletionEffect P ns dels s s' := by
  obtain ⟨c, s1, hget, hrun⟩ := exec_bind_ok (exec_translate_ok hrun)
  obtain ⟨hPc, m1, hm1, rfl⟩ := getWholeClass_ok hF hP hns hU hread hget
  obtain ⟨u, s2, henum, hrun⟩ := exec_bind_ok hrun
  obtain ⟨u, s3, hdel, hrun⟩ := exec_bind_ok hrun
  cases hrun
  have hlast := classDeleted_of_exec hdel
  have hc := hres _ cc hPc
  have hcname := hc.lower_name hF hns rfl
  have hcpath : makeClassPath ns cc.name = makeClassPath ns className := makeClassPath_congr hcname
  obtain ⟨r, c0, hrow, -⟩ := hc.exists_row?
  have hstored := mem_keys_of_row? hrow
  rcases enumClass_delete hF hP hres hns hm1 hU' (exec_translate_ok henum) with
    ⟨hkids, rfl⟩ | ⟨name, l, cd, m2, hkids, hcd, hm2, hfirst⟩
  · refine ⟨[cc], .alone hc hkids, ⟨pairwise_singleton _ _, ?_, ?_, fun hI hhouse => ?_, ?_, ?_⟩⟩
    · rw [hlast.nodes, show (schema.set m1 s).mStore.nodes = _ from hm1.nodes]
      exact hF.remove (hcpath ▸ hstored)
    · rw [hlast.nodes, show (schema.set m1 s).mStore.nodes = _ from hm1.nodes]
      exact removed_one hF.forest (hcpath ▸ hstored)
    · have hmem := (hhouse cc mem_cons_self).mem_keys
      rw [hlast.instances hmem]
      exact removed_one hI hmem
    · intro k c hk
      rw [hlast.cache, Cache.get?_removeFromCache] at hk
      split_ifs at hk with hne
      exact ⟨hm1.cached k c hk, forall_mem_singleton.2 hne⟩
    · rw [flatMap_singleton]
      exact hlast.index
  · have hdname := hcd.lower_name hF hns rfl
    have hdpath : makeClassPath ns cd.name = makeClassPath ns name := makeClassPath_congr hdname
    have hdstored : makeClassPath ns cd.name ∈ keys s.mStore.nodes :=
      hdpath ▸ mem_keys_of_kids (q := some (startKey ns className)) (by simp [hkids])
    have hnodes2 : s2.mStore.nodes = remove s.mStore.nodes (makeClassPath ns cd.name) := by
      rw [hfirst.nodes, show (schema.set m2 (schema.set m1 s)).mStore.nodes = _ from hm2.nodes]
      rfl
    have hlower : lower cd.name ≠ lower cc.name := by
      intro heq
      have hmem := hlast.stored
      rw [hnodes2, mem_keys_remove hF.forest hdstored, makeClassPath_congr heq] at hmem
      exact hmem.2 .refl
    refine ⟨[cd.clone localFilter, cc], .first hc hkids hcd,
      ⟨?_, ?_, ?_, fun hI hhouse => ?_, ?_, ?_⟩⟩
    · rw [pairwise_pair]
      exact hlower
    · rw [hlast.nodes, hnodes2]
      exact (hF.remove hdstored).remove (hnodes2 ▸ hlast.stored)
    · rw [hlast.nodes, hnodes2]
      exact removed_two hF.forest (hF.forest.remove hdstored) hdstored (hnodes2 ▸ hlast.stored)
    · -- among the instances the two nodes are on the same level
      have hd : Depth s.iStore (makeClassKey ns cd.name) 1 :=
        hhouse (cd.clone localFilter) mem_cons_self
      have hc' := hhouse cc (mem_cons_of_mem _ mem_cons_self)
      have hinst2 : s2.iStore = remove s.iStore (makeClassKey ns cd.name) :=
        hfirst.instances hd.mem_keys
      have hmem2 : makeClassKey ns cc.name ∈ keys s2.iStore := by
        rw [hinst2, mem_keys_remove hI hd.mem_keys]
        exact ⟨hc'.mem_keys, fun hb => hlower (makeClassKey_eq_iff.1
          (eq_of_below_of_depth hI.nodup hd hc' hb .refl))⟩
      rw [hlast.instances hmem2, hinst2]
      exact removed_two hI (hI.remove hd.mem_keys) hd.mem_keys (hinst2 ▸ hmem2)
    · intro k c hk
      rw [hlast.cache, Cache.get?_removeFromCache] at hk
      split_ifs at hk with hne
      rw [hfirst.cache, Cache.get?_removeFromCache] at hk
      split_ifs at hk with hne'
      refine ⟨hm2.cached k c hk, ?_⟩
      rw [forall_mem_cons, forall_mem_singleton]
      exact ⟨hne', hne⟩
    · rw [flatMap_cons, flatMap_singleton]
      exact (exec_forM_append hfirst.index).trans hlast.index

/-- The classes that are deleted are those of the run. -/
lemma DeletedBy.unique {dels dels' : List (CIMClass V)}
    (h : DeletedBy t ns className dels) (h' : DeletedBy t ns className dels') : dels = dels' := by
  cases h with
  | alone hcc hkids =>
    cases h' with
    | alone hcc' _ => rw [hcc.unique hcc']
    | first _ hkids' _ => cases hkids.symm.trans hkids'
  | first hcc hkids hcd =>
    cases h' with
    | alone _ hkids' => cases hkids.symm.trans hkids'
    | first hcc' hkids' hcd' =>
      rw [(cons.inj (hkids.symm.trans hkids')).1] at hcd
      rw [hcc.unique hcc', hcd.unique hcd']

/-- There was such a class. -/
lemma DeletedBy.exists_resolved {dels : List (CIMClass V)}
    (h : DeletedBy t ns className dels) : ∃ cc, Resolved t (makeClassPath ns className) cc := by
  cases h with
  | alone hcc _ => exact ⟨_, hcc⟩
  | first hcc _ _ => exact ⟨_, hcc⟩

/-- The classes that are deleted are stored. -/
lemma DeletedBy.stored {dels : List (CIMClass V)} (hF : ClassForest t)
    (hns : ':' ∉ ns) (h : DeletedBy t ns className dels) {c : CIMClass V} (hc : c ∈ dels) :
    makeClassPath ns c.name ∈ keys t := by
  have hmem : ∀ {name : CIMName} {d : CIMClass V}, Resolved t (makeClassPath ns name) d →
      makeClassPath ns d.name ∈ keys t := by
    intro name d hd
    obtain ⟨r, c0, hrow, -⟩ := hd.exists_row?
    have hpath : makeClassPath ns d.name = makeClassPath ns name :=
      makeClassPath_congr (hd.lower_name hF hns rfl)
    exact hpath ▸ mem_keys_of_row? hrow
  cases h with
  | alone hcc _ =>
    rw [mem_singleton.1 hc]
    exact hmem hcc
  | first hcc _ hcd =>
    rcases mem_pair.1 hc with rfl | rfl
    · have hd := hmem hcd
      exact hd
    · exact hmem hcc

end Effect

/-! ### When everything is deleted, and nothing else -/

/-- Of a class and its instances, nothing is left. -/
structure ClassGone (ns : Str) (name : CIMName) (s s' : CIMRepository V) : Prop where
  schema : makeClassPath ns name ∉ keys s'.mStore.nodes
  instances : ∀ x, Below s.iStore (makeClassKey ns name) x → x ∉ keys s'.iStore
  index : ∀ K, ∀ e ∈ s'.classAssocDb.entriesAt K, entryOf ns name e = false
  cache : s'.mStore.classCache.get? (makeClassPath ns name) = none
  notFound : ∀ req, (exec (getCIMClass ns name req) s'.mStore).1 = .ok none

/-- A class and its instances are as they were; if there is a copy of the class, it is right. -/
structure ClassKept (ns : Str) (name : CIMName) (s s' : CIMRepository V) : Prop where
  schema : row? s'.mStore.nodes (makeClassPath ns name) =
    row? s.mStore.nodes (makeClassPath ns name)
  instances : ∀ x, Below s.iStore (makeClassKey ns name) x →
    row? s'.iStore x = row? s.iStore x
  index : ∀ K, (s'.classAssocDb.entriesAt K).filter (entryOf ns name) =
    (s.classAssocDb.entriesAt K).filter (entryOf ns name)
  cache : ∀ c, s'.mStore.classCache.get? (makeClassPath ns name) = some c →
    Resolved s.mStore.nodes (makeClassPath ns name) c

/-- A class, of any namespace, that is not one of a subtree. -/
structure Outside (t : Store (MetaObj V)) (k : Str) (ns : Str) (name : CIMName) : Prop where
  ns_ok : ':' ∉ ns
  stored : makeClassPath ns name ∈ keys t
  not_below : ¬ Below t k (makeClassPath ns name)

/-- The classes for which everything is done are those of the subtree, the database has no more
entries of them than are deleted, and no class outside shares the node for the instances or an entry
with one of them. -/
def DeletesAll (s : CIMRepository V) (ns : Str) (className : CIMName) : Prop :=
  ∃ dels, DeletedBy s.mStore.nodes ns className dels ∧
    (∀ name, Below s.mStore.nodes (makeClassPath ns className) (makeClassPath ns name) ↔
      ∃ c ∈ dels, lower c.name = lower name) ∧
    (∀ c ∈ dels, ∀ K, (s.classAssocDb.entriesAt K).countP (entryOf ns c.name) ≤
      (argsAt K (assocEntries ns c)).length) ∧
    ∀ c ∈ dels, ∀ ns' name', Outside s.mStore.nodes (makeClassPath ns className) ns' name' →
      makeClassKey ns c.name ≠ makeClassKey ns' name' ∧
        ∀ K, ∀ e ∈ s.classAssocDb.entriesAt K, entryOf ns c.name e →
          entryOf ns' name' e = false

section Removal

variable {P : Str → CIMClass V → Prop} {ns : Str} {className : CIMName} {s s' : CIMRepository V}
  {dels : List (CIMClass V)} {c : CIMClass V}

/-- A class that is neither stored nor cached is not found. -/
lemma getCIMClass_notFound {m : MetaRepository V} {name : CIMName}
    (hstored : makeClassPath ns name ∉ keys m.nodes)
    (hcache : m.classCache.get? (makeClassPath ns name) = none) (req : ClassRequest) :
    (exec (getCIMClass ns name req) m).1 = .ok none := by
  have hnode : getNode m.nodes (makeClassPath ns name) = none := by
    rw [getNode, if_neg (makeClassPath_ne_nil ns name), row?_eq_none]
    exact hstored
  rw [getCIMClass, exec_bind_of_ok (exec_clsLookup _ m), hcache]
  rw [exec_get_bind]
  rw [hnode]
  rfl

omit [CIMValue V] in
/-- Which of the entries that are deleted belong to one of the classes. -/
lemma filter_assocEntries (hd : dels.Pairwise fun c d => lower c.name ≠ lower d.name)
    (hc : c ∈ dels) :
    (dels.flatMap (assocEntries ns)).filter (fun a => entryOf ns c.name a.entry) =
      assocEntries ns c := by
  have hown : ∀ d : CIMClass V, (assocEntries ns d).filter (fun a => entryOf ns c.name a.entry) =
      if lower d.name = lower c.name then assocEntries ns d else [] := by
    intro d
    have hentry : ∀ a ∈ assocEntries ns d,
        entryOf ns c.name a.entry = decide (lower d.name = lower c.name) := by
      intro a ha
      rw [entryOf, associationPath_of_mem ha, Bool.eq_iff_iff]
      simp [CIMObjectPath.ofClass, sameName_iff]
    split_ifs with heq
    · exact filter_eq_self.2 fun a ha => (hentry a ha).trans (decide_eq_true heq)
    · exact filter_eq_nil_iff.2 fun a ha => by simp [hentry a ha, heq]
  rw [filter_flatMap]
  simp only [hown]
  induction dels with
  | nil => cases hc
  | cons d dels ih =>
    rw [pairwise_cons] at hd
    rw [flatMap_cons]
    rcases mem_cons.1 hc with rfl | hc
    · rw [if_pos rfl, flatMap_eq_nil_iff.2, append_nil]
      exact fun d hmem => if_neg (hd.1 d hmem).symm
    · rw [if_neg (hd.1 c hc), nil_append, ih hd.2 hc]

/-- The entries of a class that are left. -/
lemma DeletionEffect.countP (he : DeletionEffect P ns dels s s') (hk : s.classAssocDb.Keyed)
    (hc : c ∈ dels) (K : Str) : (s'.classAssocDb.entriesAt K).countP (entryOf ns c.name) =
      (s.classAssocDb.entriesAt K).countP (entryOf ns c.name) -
        (argsAt K (assocEntries ns c)).length := by
  rw [← filter_assocEntries he.distinct hc]
  exact countP_deleteEntries hk he.index (fun a _ x hx => entryOf_of_same hx) K

/-- The nodes for the instances of two classes are next to each other or the same. -/
lemma FitsTogether.eq_of_below (h : FitsTogether s) {ns' : Str} {name name' : CIMName} {x : Str}
    (hns : ':' ∉ ns) (hstored : makeClassPath ns name ∈ keys s.mStore.nodes) (hns' : ':' ∉ ns')
    (hstored' : makeClassPath ns' name' ∈ keys s.mStore.nodes)
    (hx : Below s.iStore (makeClassKey ns name) x)
    (hx' : Below s.iStore (makeClassKey ns' name') x) :
    makeClassKey ns name = makeClassKey ns' name' :=
  eq_of_below_of_depth h.forest.nodup (h.housed hns hstored) (h.housed hns' hstored') hx hx'

/-- The nodes for the instances. -/
lemma DeletionEffect.removed (he : DeletionEffect P ns dels s s') (h : FitsTogether s)
    (hns : ':' ∉ ns) (hdels : ∀ c ∈ dels, makeClassPath ns c.name ∈ keys s.mStore.nodes) :
    Removed s.iStore s'.iStore (dels.map fun c => makeClassKey ns c.name) :=
  he.instances h.forest fun c hc => h.housed hns (hdels c hc)

/-- A class for which everything is done is gone, if the entries that are deleted are all that there
are. -/
lemma classGone_of_effect (h : FitsTogether s) (hns : ':' ∉ ns) (he : DeletionEffect P ns dels s s')
    (hdels : ∀ c ∈ dels, makeClassPath ns c.name ∈ keys s.mStore.nodes)
    (hcount : ∀ K, (s.classAssocDb.entriesAt K).countP (entryOf ns c.name) ≤
      (argsAt K (assocEntries ns c)).length) (hc : c ∈ dels) {name : CIMName}
    (hname : lower c.name = lower name) : ClassGone ns name s s' := by
  have hpath : makeClassPath ns c.name = makeClassPath ns name := makeClassPath_congr hname
  have hkey : makeClassKey ns c.name = makeClassKey ns name := makeClassKey_eq_iff.2 hname
  have hstored : makeClassPath ns name ∉ keys s'.mStore.nodes := by
    rw [he.nodes.keys]
    exact fun hmem => hmem.2 _ (mem_map_of_mem hc) (hpath ▸ .refl)
  have hcache : s'.mStore.classCache.get? (makeClassPath ns name) = none := by
    rcases hget : s'.mStore.classCache.get? (makeClassPath ns name) with _ | d
    · rfl
    · exact absurd hpath.symm ((he.cache _ d hget).2 c hc)
  refine ⟨hstored, fun x hx => ?_, fun K e he' => ?_, hcache, getCIMClass_notFound hstored hcache⟩
  · rw [(he.removed h hns hdels).keys]
    exact fun hmem => hmem.2 _ (mem_map_of_mem hc) (hkey ▸ hx)
  · have hzero : (s'.classAssocDb.entriesAt K).countP (entryOf ns c.name) = 0 := by
      rw [he.countP h.keyed hc]
      exact Nat.sub_eq_zero_of_le (hcount K)
    have hfalse := countP_eq_zero.1 hzero e he'
    rw [entryOf_congr ⟨rfl, hname⟩] at hfalse
    simpa using hfalse

/-- A class is kept, if its nodes are not among those that are deleted and its entries are not among
those of the classes that are deleted. -/
lemma classKept_of_effect (h : FitsTogether s) (hns : ':' ∉ ns)
    (he : DeletionEffect (Resolved s.mStore.nodes) ns dels s s')
    (hdels : ∀ c ∈ dels, makeClassPath ns c.name ∈ keys s.mStore.nodes) {ns' : Str}
    {name' : CIMName} (hns' : ':' ∉ ns') (hstored : makeClassPath ns' name' ∈ keys s.mStore.nodes)
    (hbelow : ∀ c ∈ dels,
      ¬ Below s.mStore.nodes (makeClassPath ns c.name) (makeClassPath ns' name'))
    (hkey : ∀ c ∈ dels, makeClassKey ns c.name ≠ makeClassKey ns' name')
    (hentry : ∀ c ∈ dels, ∀ K, ∀ e ∈ s.classAssocDb.entriesAt K, entryOf ns c.name e →
      entryOf ns' name' e = false) : ClassKept ns' name' s s' where
  schema := he.nodes.rows _ (forall_mem_map.2 hbelow)
  instances x hx := (he.removed h hns hdels).rows _ <| forall_mem_map.2 fun c hc hb =>
    hkey c hc (h.eq_of_below hns (hdels c hc) hns' hstored hb hx)
  cache c hc := (he.cache _ c hc).1
  index := by
    by_cases hsame : ∃ c ∈ dels, sameIndex ns c.name ns' name'
    · -- there are no entries of this kind, and there will be none
      obtain ⟨c, hc, hsame⟩ := hsame
      have heq := entryOf_congr (V := V) hsame
      intro K
      have hnone : (s.classAssocDb.entriesAt K).countP (entryOf ns c.name) = 0 := by
        refine countP_eq_zero.2 fun e hmem htrue => ?_
        have hfalse := hentry c hc K e hmem htrue
        rw [← heq, htrue] at hfalse
        cases hfalse
      have hnone' := he.countP h.keyed hc K
      rw [hnone, Nat.zero_sub] at hnone'
      rw [← heq, filter_eq_nil_iff.2 (countP_eq_zero.1 hnone'),
        filter_eq_nil_iff.2 (countP_eq_zero.1 hnone)]
    · refine (filter_deleteEntries h.keyed he.index fun a ha x hx => ?_).2
      obtain ⟨c, hc, hac⟩ := mem_flatMap.1 ha
      rw [entryOf_of_mem hac hx, Bool.eq_false_iff]
      intro heq
      simp only [Bool.and_eq_true, decide_eq_true_eq, sameName_iff] at heq
      exact hsame ⟨c, hc, heq⟩

/-- **Deleting a class deletes everything of its subtree and nothing else, iff** the subtree is made
of the classes for which the deleter is called, and these share nothing.

**Proof sketch.** For a class of the subtree that is not one of them, the node for the instances
stays. For one of them, as many entries go as its definition gives. -/
theorem deleteClass_removes_iff (h : FitsTogether s) (hns : ':' ∉ ns)
    (hrun : exec (CIMRepository.deleteClass ns className) s = (.ok c, s')) :
    ((∀ name, Below s.mStore.nodes (makeClassPath ns className) (makeClassPath ns name) →
        ClassGone ns name s s') ∧
      ∀ ns' name', Outside s.mStore.nodes (makeClassPath ns className) ns' name' →
        ClassKept ns' name' s s') ↔
      DeletesAll s ns className := by
  obtain ⟨dels, hby, he⟩ := deletionEffect_of_deleteClass h.coherent.forest
    (Resolved.resolvesBy _) (fun _ _ hc => hc) hns h.coherent.reading trivial
    (fun _ _ => trivial) hrun
  have hdels : ∀ c ∈ dels, makeClassPath ns c.name ∈ keys s.mStore.nodes :=
    fun c hc => hby.stored h.coherent.forest hns hc
  constructor
  · rintro ⟨hgone, hkept⟩
    -- the classes for which everything is done are in the subtree
    have hin : ∀ c ∈ dels,
        Below s.mStore.nodes (makeClassPath ns className) (makeClassPath ns c.name) := by
      intro c hc
      by_contra hout
      have hrow := (hkept ns c.name ⟨hns, hdels c hc, hout⟩).schema
      have hmem : makeClassPath ns c.name ∈ keys s'.mStore.nodes := by
        by_contra hnot
        rw [row?_eq_none.2 hnot] at hrow
        exact row?_eq_none.1 hrow.symm (hdels c hc)
      exact ((he.nodes.keys _).1 hmem).2 _ (mem_map_of_mem hc) .refl
    refine ⟨dels, hby, fun name => ⟨fun hb => ?_, ?_⟩, fun c hc K => ?_,
      fun c hc ns' name' hout => ?_⟩
    · -- the node for the instances of a class of the subtree is gone
      obtain ⟨cc, hcc⟩ := hby.exists_resolved
      obtain ⟨r, c0, hrow, -⟩ := hcc.exists_row?
      have hstored := hb.mem_keys (mem_keys_of_row? hrow)
      have hnot := (hgone name hb).instances _ .refl
      rw [(he.removed h hns hdels).keys] at hnot
      simp only [not_and, not_forall, not_not, forall_mem_map] at hnot
      obtain ⟨c, hc, hbc⟩ := hnot (h.housed hns hstored).mem_keys
      exact ⟨c, hc, makeClassKey_eq_iff.1 (h.eq_of_below hns (hdels c hc) hns hstored hbc .refl)⟩
    · rintro ⟨c, hc, hname⟩
      have hpath : makeClassPath ns c.name = makeClassPath ns name := makeClassPath_congr hname
      exact hpath ▸ hin c hc
    · have hzero : (s'.classAssocDb.entriesAt K).countP (entryOf ns c.name) = 0 :=
        countP_eq_zero.2 fun e hmem => by simp [(hgone _ (hin c hc)).index K e hmem]
      rw [he.countP h.keyed hc] at hzero
      exact Nat.sub_eq_zero_iff_le.1 hzero
    · have hk := hkept ns' name' hout
      refine ⟨fun heq => ?_, fun K e hmem htrue => ?_⟩
      · have hrow := hk.instances _ .refl
        have hgone' := (hgone _ (hin c hc)).instances _ .refl
        rw [heq] at hgone'
        rw [row?_eq_none.2 hgone'] at hrow
        exact row?_eq_none.1 hrow.symm (h.housed hout.ns_ok hout.stored).mem_keys
      · by_contra hne
        have hmem' : e ∈ (s'.classAssocDb.entriesAt K).filter (entryOf ns' name') := by
          rw [hk.index K]
          exact mem_filter.2 ⟨hmem, by simpa using hne⟩
        have hfalse := (hgone _ (hin c hc)).index K e (mem_filter.1 hmem').1
        rw [htrue] at hfalse
        cases hfalse
  · rintro ⟨dels', hby', hin, hcount, hout⟩
    obtain rfl := hby.unique hby'
    refine ⟨fun name hb => ?_, fun ns' name' ho => ?_⟩
    · obtain ⟨c, hc, hname⟩ := (hin name).1 hb
      exact classGone_of_effect h hns he hdels (hcount c hc) hc hname
    · refine classKept_of_effect h hns he hdels ho.ns_ok ho.stored (fun c hc hb => ?_)
        (fun c hc => (hout c hc ns' name' ho).1) fun c hc => (hout c hc ns' name' ho).2
      exact ho.not_below (((hin c.name).2 ⟨c, hc, rfl⟩).trans hb)

end Removal

/-! ### Two repositories -/

/-- A repository with a class `A` and some direct subclasses. -/
def withSubclasses (names : List CIMName) : CIMRepository Bool :=
  names.foldl (fun s name => (RepoOp.createClass rootNs (bareClass name ['A'])).step s)
    ((RepoOp.createClass rootNs (bareClass ['A'] [])).step (fresh 10 10))

/-- The keys of the sample. -/
lemma keys_oneSubclass : keys (withSubclasses [['B']]).mStore.nodes =
    [classContainer rootNs, qualContainer rootNs, ['q'], ['c'], makeClassPath rootNs ['A'],
      makeClassPath rootNs ['B']] := by decide +kernel

/-- Its classes. -/
lemma stored_oneSubclass {ns : Str} {name : CIMName} (hns : ':' ∉ ns)
    (h : makeClassPath ns name ∈ keys (withSubclasses [['B']]).mStore.nodes) :
    ns = rootNs ∧ (lower name = lower ['A'] ∨ lower name = lower ['B']) := by
  have hroot : ':' ∉ rootNs := by decide
  rw [keys_oneSubclass] at h
  simp only [mem_cons, not_mem_nil, or_false] at h
  rcases h with h | h | h | h | h | h
  · exact absurd h.symm (IsContainer.cls hroot).ne_makeClassPath
  · exact absurd h.symm (IsContainer.qual hroot).ne_makeClassPath
  · exact absurd h.symm IsContainer.qualRoot.ne_makeClassPath
  · exact absurd h.symm IsContainer.classRoot.ne_makeClassPath
  · exact ⟨(makeClassPath_inj hns hroot h).1, .inl (makeClassPath_inj hns hroot h).2⟩
  · exact ⟨(makeClassPath_inj hns hroot h).1, .inr (makeClassPath_inj hns hroot h).2⟩

/-- Its parts fit together. -/
lemma fitsTogether_oneSubclass : FitsTogether (withSubclasses [['B']]) where
  coherent := by
    have hcreate : ∀ c : CIMClass Bool, Keeps
        (fun s : CIMRepository Bool => Coherent .resolved s.mStore) (createClass rootNs c) :=
      fun c => keeps_createClass
        (fun className s hs => hs.getCIMClass (by decide) className .whole)
        fun s hs => hs.createClass (by decide) c
    exact hcreate _ _ (hcreate _ _ (coherent_fresh _ _ _))
  forest := by
    have hadd : (withSubclasses [['B']]).iStore = add (add (add [] rootNs none ⟨nsNodeFlag, none⟩)
        (makeClassKey rootNs ['A']) (some rootNs)
        ⟨nsNodeFlag ||| clsNodeFlag, none⟩) (makeClassKey rootNs ['B'])
        (some rootNs) ⟨nsNodeFlag ||| clsNodeFlag, none⟩ := by decide +kernel
    rw [hadd]
    refine ((IsForest.nil.add ?_ ?_).add ?_ ?_).add ?_ ?_ <;> simp [rootNs] <;> decide
  housed := by
    intro ns name hns hmem
    obtain ⟨rfl, hname⟩ := stored_oneSubclass hns hmem
    have hroot : Depth (withSubclasses [['B']]).iStore rootNs 0 := .root (by decide +kernel)
    refine .child ?_ hroot
    rcases hname with hname | hname <;> rw [makeClassKey_eq_iff.2 hname] <;>
      decide +kernel
  keyed := fun K r h => absurd (OrderedIndex.find_eq_some_iff.1 h) (by
    exact not_mem_nil)

/-- Everything is done for the class and its subclass. -/
lemma deletesAll_oneSubclass : DeletesAll (withSubclasses [['B']]) rootNs ['A'] := by
  have hA : Resolved (withSubclasses [['B']]).mStore.nodes (makeClassPath rootNs ['A'])
      (bareClass ['A'] []) := .base (c := bareClass ['A'] []) (by decide +kernel) rfl
  have hB : Resolved (withSubclasses [['B']]).mStore.nodes (makeClassPath rootNs ['B'])
      (bareClass ['B'] ['A']) :=
    .derived (r := ⟨makeClassPath rootNs ['B'], some (makeClassPath rootNs ['A']), 0,
      some (.cls (bareClass ['B'] ['A']))⟩) (by decide +kernel) rfl (by decide) rfl hA
  have hkid : Below (withSubclasses [['B']]).mStore.nodes (makeClassPath rootNs ['A'])
      (makeClassPath rootNs ['B']) := .step .refl (by decide +kernel)
  -- every class that is stored is in the subtree
  have hstored : ∀ {ns name}, ':' ∉ ns →
      makeClassPath ns name ∈ keys (withSubclasses [['B']]).mStore.nodes →
      Below (withSubclasses [['B']]).mStore.nodes (makeClassPath rootNs ['A'])
        (makeClassPath ns name) := by
    intro ns name hns hmem
    obtain ⟨rfl, hname | hname⟩ := stored_oneSubclass hns hmem
    · rw [makeClassPath_congr hname]
      exact .refl
    · rw [makeClassPath_congr hname]
      exact hkid
  have hempty : ∀ K, (withSubclasses [['B']]).classAssocDb.entriesAt K = [] := by
    intro K
    rw [entriesAt]
    rfl
  refine ⟨[(bareClass ['B'] ['A']).clone localFilter, bareClass ['A'] []],
    .first (l := []) hA (by decide +kernel) hB, fun name => ⟨fun hb => ?_, ?_⟩, ?_, ?_⟩
  · rcases (stored_oneSubclass (by decide) (hb.mem_keys (by decide +kernel))).2 with hname | hname
    · exact ⟨_, mem_cons_of_mem _ mem_cons_self, hname.symm⟩
    · exact ⟨_, mem_cons_self, hname.symm⟩
  · rintro ⟨c, hc, hname⟩
    rw [← makeClassPath_congr hname]
    rcases mem_pair.1 hc with rfl | rfl
    · exact hkid
    · exact .refl
  · intro c _ K
    rw [hempty]
    exact Nat.zero_le _
  · intro c _ ns' name' hout
    exact absurd (hstored hout.ns_ok hout.stored) hout.not_below

/-- **A class with a subclass**: both go. -/
theorem deleteClass_removes_oneSubclass :
    (exec (CIMRepository.deleteClass rootNs ['A']) (withSubclasses [['B']])).1 =
      .ok (bareClass ['A'] []) ∧
    ClassGone rootNs ['B'] (withSubclasses [['B']])
      (exec (CIMRepository.deleteClass rootNs ['A']) (withSubclasses [['B']])).2 := by
  have hok : (exec (CIMRepository.deleteClass rootNs ['A']) (withSubclasses [['B']])).1 =
    .ok (bareClass ['A'] []) := by decide +kernel
  refine ⟨hok, ((deleteClass_removes_iff fitsTogether_oneSubclass (by decide)
    (Prod.ext hok rfl)).2 deletesAll_oneSubclass).1 _ (.step .refl (by decide +kernel))⟩

/-- **A subclass that is not deleted everywhere**: of two direct subclasses, the second keeps its
node among the instances. -/
theorem deleteClass_leaves_secondSubclass :
    Below (withSubclasses [['B'], ['C']]).mStore.nodes (makeClassPath rootNs ['A'])
      (makeClassPath rootNs ['C']) ∧
    (exec (CIMRepository.deleteClass rootNs ['A']) (withSubclasses [['B'], ['C']])).1 =
      .ok (bareClass ['A'] []) ∧
    makeClassKey rootNs ['C'] ∈ keys
      (exec (CIMRepository.deleteClass rootNs ['A']) (withSubclasses [['B'], ['C']])).2.iStore ∧
    ¬ ClassGone rootNs ['C'] (withSubclasses [['B'], ['C']])
      (exec (CIMRepository.deleteClass rootNs ['A']) (withSubclasses [['B'], ['C']])).2 := by
  have hleft : makeClassKey rootNs ['C'] ∈ keys
      (exec (CIMRepository.deleteClass rootNs ['A']) (withSubclasses [['B'], ['C']])).2.iStore := by
    decide +kernel
  exact ⟨.step .refl (by decide +kernel), by decide +kernel, hleft,
    fun hgone => hgone.instances _ .refl hleft⟩

end OpenWbem
