import OpenWbem.Repository.ClassResolution

/-!
# What is known of cached classes

A cached class has been read at some time before. What can still be said about it depends on what
has happened to the store since then. The lemmas of this file are about any fact of that kind: what
the operations have to look out for so that it stays true of all that is in the cache.

## Main definitions

* `ClassFact` — a fact about classes under their keys, which depends on the nodes above them only.
* `Coherent` — the fact is true of all cached classes.
* `SameClasses` — stores that differ in other nodes than those of classes.

## Main results

* `Coherent.createClass`, `Coherent.modifyClass`, `Coherent.deleteClass` and so on — the operations.
-/

namespace OpenWbem

open Prog Hierarchy MetaRepository Store

variable {V : Type} [CIMValue V]

/-- A fact about classes under their keys: it goes from the superclass to the class, and depends on
the node of the class and the nodes above it only. -/
structure ClassFact (V : Type) [CIMValue V] where
  holds : Store (MetaObj V) → Str → CIMClass V → Prop
  resolves : ∀ t, ResolvesBy t (fun _ => True) (holds t)
  congr : ∀ {t t' k c}, holds t k c →
    (∀ x, Below t x k → (∃ c, objAt t x = some (.cls c)) → row? t' x = row? t x) →
    holds t' k c

/-- The classes form a forest, and the fact is true of all cached classes. -/
structure Coherent (F : ClassFact V) (s : MetaRepository V) : Prop where
  forest : ClassForest s.nodes
  cached : ∀ k c, s.classCache.get? k = some c → F.holds s.nodes k c

omit [CIMValue V] in
/-- What is below a node of the qualifier part is in the qualifier part. -/
lemma SchemaShape.head?_of_below {t : Store (MetaObj V)} (hshape : SchemaShape t) {x y : Str}
    (h : Below t x y) (hy : y.head? = some 'c') : x.head? = some 'c' := by
  induction h with
  | refl => exact hy
  | step _ hkid ih =>
    obtain ⟨r, hr, rfl, hparent⟩ := mem_kids.1 hkid
    rcases hshape.placed r hr with ⟨-, hroot, -, -⟩ | ⟨-, -, -, hp, hhead⟩ | ⟨-, -, -, hkey, -, -⟩
    · rw [hparent] at hroot
      cases hroot
    · rw [hparent] at hp
      exact ih (Option.some.inj hp ▸ hhead)
    · rw [hkey, head?_makeQualPath] at hy
      cases hy

omit [CIMValue V] in
/-- Classes are in the class part. -/
lemma SchemaShape.head?_of_cls {t : Store (MetaObj V)} (hshape : SchemaShape t) {k : Str}
    {c : CIMClass V} (h : objAt t k = some (.cls c)) : k.head? = some 'c' := by
  obtain ⟨r, hrow, hobj⟩ := exists_row?_of_objAt h
  rw [← key_of_row? hrow]
  rcases hshape.placed r (mem_of_row? hrow) with ⟨-, -, -, hobj'⟩ | ⟨-, -, hhead, -, -⟩ |
    ⟨hobj', -, -, -, -, -⟩
  · rw [hobj] at hobj'
    rcases hobj' with h | ⟨-, q, h⟩ <;> exact absurd h (by simp)
  · exact hhead
  · rw [hobj] at hobj'
    cases hobj'

/-! ### Stores with the same classes -/

section Same

variable {t t' : Store (MetaObj V)} {k : Str} {r : Node (MetaObj V)} {c cc : CIMClass V}

/-- The classes of a store are as before, and there are no new ones. -/
structure SameClasses (t t' : Store (MetaObj V)) : Prop where
  old : ∀ x c, objAt t x = some (.cls c) → row? t' x = row? t x
  new : ∀ x r c, row? t' x = some r → r.val.obj = some (.cls c) → row? t x = some r

/-- A superclass that is resolved in a store in which all classes are as before. -/
lemma Resolved.of_old (hF : ClassForest t) (hrow : row? t k = some r)
    (hobj : r.val.obj = some (.cls c))
    (hold : ∀ x c, objAt t x = some (.cls c) → row? t' x = row? t x) (h : Resolved t' k cc) :
    Resolved t k cc := by
  obtain ⟨d, hd⟩ := hF.forest.rooted (mem_keys_of_row? hrow)
  obtain ⟨cc', hcc'⟩ := hF.exists_resolved hd ((objAt_of_row? hrow).trans hobj)
  have h' : Resolved t' k cc' := hcc'.congr fun x _ ⟨c, hc⟩ => hold x c hc
  rwa [h.unique h']

namespace SameClasses

omit [CIMValue V]

/-- Nothing has changed. -/
lemma refl (t : Store (MetaObj V)) : SameClasses t t := ⟨fun _ _ _ => rfl, fun _ _ _ h _ => h⟩

/-- One change after the other. -/
lemma trans {t'' : Store (MetaObj V)} (h : SameClasses t t') (h' : SameClasses t' t'') :
    SameClasses t t'' := by
  refine ⟨fun x c hx => ?_, fun x r c hx hc => h.new x r c (h'.new x r c hx hc) hc⟩
  rw [← h.old x c hx]
  refine h'.old x c ?_
  rw [objAt, val?, h.old x c hx]
  exact hx

/-- A node without class that is added. -/
lemma add {q : Option Str} {v : StoreNode (MetaObj V)} (hfresh : row? t k = none)
    (hv : ∀ c, v.obj ≠ some (.cls c)) : SameClasses t (add t k q v) := by
  refine ⟨fun x c hx => row?_add_of_objAt hfresh hx, fun x r c hx hc => ?_⟩
  by_cases hxk : x = k
  · rw [hxk, row?_add_self hfresh] at hx
    obtain rfl := Option.some.inj hx
    exact absurd hc (hv c)
  · rwa [row?_add_of_ne hxk] at hx

/-- A qualifier type that changes. -/
lemma setQualifier {f : StoreNode (MetaObj V) → StoreNode (MetaObj V)} (hF : ClassForest t)
    (hk : k.head? = some 'q') (hf : ∀ v c, (f v).obj ≠ some (.cls c)) :
    SameClasses t (modify t k f) := by
  refine ⟨fun x c hx => row?_modify_of_ne (fun hxk => ?_) f, fun x r c hx hc => ?_⟩
  · have hhead := hF.shape.head?_of_cls hx
    rw [hxk, hk] at hhead
    cases hhead
  · by_cases hxk : x = k
    · obtain ⟨r0, -, rfl⟩ := mem_modify.1 (mem_of_row? hx)
      have hkey := key_of_row? hx
      split_ifs at hc hkey with hr0
      · exact absurd hc (hf _ c)
      · exact absurd (hkey.trans hxk) hr0
    · rwa [row?_modify_of_ne hxk] at hx

/-- A part of the qualifiers that is removed. -/
lemma removeQualifiers (hF : ClassForest t) (hk : k.head? = some 'q') :
    SameClasses t (remove t k) := by
  refine ⟨fun x c hx => row?_remove_of_not_below fun hb => ?_, fun x r c hx _ => ?_⟩
  · have hhead := hF.shape.head?_of_below hb (hF.shape.head?_of_cls hx)
    rw [hk] at hhead
    cases hhead
  · have hr := (mem_remove.1 (mem_of_row? hx)).1
    exact (row?_eq_some hF.shape.nodup).2 ⟨hr, key_of_row? hx⟩

/-- Creating a container. -/
lemma createContainer (key : Str) (s : MetaRepository V) :
    SameClasses s.nodes (exec (zoom store (GenericHDBRepository.createNameSpace key))
      s).2.nodes := by
  rcases createNameSpace_cases key s with heq | ⟨hn, hne, heq⟩ <;> rw [heq]
  · exact refl _
  · exact add (row?_eq_none_of_getNode hne hn) fun c => by simp

/-- Creating a namespace. -/
lemma createNameSpace (ns : Str) (s : MetaRepository V) :
    SameClasses s.nodes (exec (createNameSpace ns) s).2.nodes :=
  keeps_createNameSpace (I := fun s' => SameClasses s.nodes s'.nodes)
    (fun _ h => h.trans (createContainer _ _)) (fun _ h => h.trans (createContainer _ _)) s (refl _)

/-- Setting a qualifier type. -/
lemma setQualifierType {s : MetaRepository V} (hF : ClassForest s.nodes) (ns : Str)
    (qt : CIMQualifierType V) : SameClasses s.nodes (exec (setQualifierType ns qt) s).2.nodes := by
  rcases setQualifierType_cases ns qt s with heq | ⟨p, hfresh, -, -, heq⟩ | ⟨node, -, heq⟩ <;>
    rw [heq]
  · exact refl _
  · exact add hfresh fun c => by simp
  · dsimp only
    exact setQualifier hF (head?_makeQualPath ns qt.name) fun v c => by simp

/-- Deleting a qualifier type. -/
lemma deleteQualifierType {s : MetaRepository V} (hF : ClassForest s.nodes) (ns : Str)
    (qualName : CIMName) :
    SameClasses s.nodes (exec (deleteQualifierType ns qualName) s).2.nodes := by
  rcases deleteQualifierType_cases ns qualName s with heq | ⟨node, -, heq⟩ <;> rw [heq]
  · exact refl _
  · exact removeQualifiers hF (head?_makeQualPath _ _)

end SameClasses

end Same

namespace Coherent

variable {F : ClassFact V} {s s' : MetaRepository V} {ns : Str}

/-- The state while classes are read. -/
lemma reading (h : Coherent F s) : Reading s.nodes (F.holds s.nodes) s := ⟨rfl, h.cached⟩

/-- And after that. -/
lemma of_reading {t : Store (MetaObj V)} (hF : ClassForest t) (h : Reading t (F.holds t) s) :
    Coherent F s := by
  obtain ⟨rfl, hcached⟩ := h
  exact ⟨hF, hcached⟩

section

variable (h : Coherent F s)

include h

/-- Another store, in which the nodes above the cached classes are as before. -/
lemma withNodes (hF : ClassForest s'.nodes)
    (hcache : ∀ k c, s'.classCache.get? k = some c → s.classCache.get? k = some c)
    (hrows : ∀ k x, (s'.classCache.get? k).isSome → Below s.nodes x k →
      (∃ c, objAt s.nodes x = some (.cls c)) → row? s'.nodes x = row? s.nodes x) :
    Coherent F s' :=
  ⟨hF, fun k c hk => F.congr (h.cached k c (hcache k c hk)) fun x hx hcls =>
    hrows k x (by rw [hk]; rfl) hx hcls⟩

/-! ### Namespaces and qualifier types -/

/-- A change of no class. -/
lemma withSame (hF : ClassForest s'.nodes) (hsame : SameClasses s.nodes s'.nodes)
    (hcache : s'.classCache = s.classCache) : Coherent F s' :=
  h.withNodes hF (fun _ _ hk => hcache ▸ hk) fun _ x _ _ ⟨c, hc⟩ => hsame.old x c hc

/-- Creating a container. -/
lemma createContainer {key : Str} (hkey : IsContainer key) :
    Coherent F (exec (zoom store (GenericHDBRepository.createNameSpace key)) s).2 := by
  have hsame := SameClasses.createContainer key s
  rcases createNameSpace_cases key s with heq | ⟨hn, hne, heq⟩ <;> rw [heq] at hsame ⊢
  · exact h
  · exact h.withSame (h.forest.change (.addNameSpace hkey (row?_eq_none_of_getNode hne hn)))
      hsame rfl

/-- **Creating a namespace.** -/
lemma createNameSpace (hns : ':' ∉ ns) : Coherent F (exec (createNameSpace ns) s).2 :=
  keeps_createNameSpace (fun _ h => h.createContainer (.cls hns))
    (fun _ h => h.createContainer (.qual hns)) s h

/-- A subtree of the qualifier part that is removed. -/
lemma removeQualifiers {k : Str} (hk : k ∈ keys s.nodes)
    (hhead : k.head? = some 'q') (x : Cache Str (CIMQualifierType V)) :
    Coherent F { s with nodes := remove s.nodes k, qualCache := x } :=
  h.withSame (h.forest.remove hk) (.removeQualifiers h.forest hhead) rfl

/-- **Deleting a namespace**: the cache is cleared. -/
lemma deleteNameSpace : Coherent F (exec (deleteNameSpace ns) s).2 :=
  of_deleteNameSpace h (fun hk => h.removeQualifiers hk rfl s.qualCache) fun _ h hk =>
    ⟨h.forest.remove hk, nofun⟩

/-- Reading a qualifier type. -/
lemma getQualifierType (qualName : CIMName) :
    Coherent F (exec (getQualifierType ns qualName) s).2 := by
  rcases hq : s.qualCache.get? (makeQualPath ns qualName) with _ | q
  · rw [exec_getQualifierType_miss hq]
    rcases storedQualifierType s.nodes ns qualName with e | q <;> exact ⟨h.forest, h.cached⟩
  · rw [exec_getQualifierType_hit hq]
    exact ⟨h.forest, h.cached⟩

/-- **Setting a qualifier type.** -/
lemma setQualifierType (hns : ':' ∉ ns) (qt : CIMQualifierType V) :
    Coherent F (exec (setQualifierType ns qt) s).2 := by
  have hsame := SameClasses.setQualifierType h.forest ns qt
  rcases setQualifierType_cases ns qt s with heq | ⟨p, hfresh, hp, hflag, heq⟩
    | ⟨node, hrow, heq⟩ <;>
    rw [heq] at hsame ⊢
  · exact h
  · exact h.withSame (h.forest.change (.addQualifier hns hfresh hp hflag)) hsame rfl
  · exact h.withSame (h.forest.change (.setQualifier hrow)) hsame rfl

/-- **Deleting a qualifier type.** -/
lemma deleteQualifierType (qualName : CIMName) :
    Coherent F (exec (deleteQualifierType ns qualName) s).2 := by
  rcases deleteQualifierType_cases ns qualName s with heq | ⟨node, hrow, heq⟩ <;> rw [heq]
  · exact h
  · exact h.removeQualifiers (mem_keys_of_row? hrow) (head?_makeQualPath _ _) _

end

/-! ### Classes -/

/-- Reading a class of which the superclasses belong to `U`. -/
lemma ensures_class {t : Store (MetaObj V)} {U : Str → Prop} {P : Str → CIMClass V → Prop}
    (hF : ClassForest t) (hP : ResolvesBy t U P) (hns : ':' ∉ ns) {name : CIMName}
    {node : Node (MetaObj V)}
    (hU : U (makeClassPath ns name)) (hn : getNode t (makeClassPath ns name) = some node) :
    Ensures (Reading t P) (getClassFromNode ns node) fun r s => Reading t P s ∧
      ∀ pc, r = .ok pc → P (makeClassPath ns name) pc := by
  refine (ensures_getClassFromNode hF hP hns (row?_of_getNode hn) hU).weaken (fun _ h => h) ?_
  rintro r s ⟨hs, cc, rfl, hcc⟩
  refine ⟨hs, ?_⟩
  rintro _ ⟨⟩
  exact hcc

variable (h : Coherent F s)

include h

/-- Reading a class. -/
lemma reading_getCIMClass (hns : ':' ∉ ns) (className : CIMName)
    (req : ClassRequest) :
    Reading s.nodes (F.holds s.nodes) (exec (getCIMClass ns className req) s).2 :=
  (ensures_getCIMClass h.forest (F.resolves _) hns className trivial req s h.reading).1

/-- **Asking for a class.** -/
lemma getCIMClass (hns : ':' ∉ ns) (className : CIMName) (req : ClassRequest) :
    Coherent F (exec (getCIMClass ns className req) s).2 :=
  of_reading h.forest (h.reading_getCIMClass hns className req)

/-- The class that is read. -/
lemma answer (hns : ':' ∉ ns) (className : CIMName) (req : ClassRequest) :
    (makeClassPath ns className ∉ keys s.nodes ∧
      (exec (MetaRepository.getCIMClass ns className req) s).1 = .ok none) ∨
    ∃ cc, F.holds s.nodes (makeClassPath ns className) cc ∧
      (exec (MetaRepository.getCIMClass ns className req) s).1 = .ok (some (req.filter cc)) := by
  rcases (ensures_getCIMClass h.forest (F.resolves _) hns className trivial req s
    h.reading).2 with hnone | ⟨cc, hr, hcc⟩
  · exact .inl hnone
  · exact .inr ⟨cc, hcc, hr⟩

/-- Reading many classes. -/
lemma reading_enumClass (hns : ':' ∉ ns) (className : CIMName) (deep : Bool)
    (f : CIMClass.Filter) : Reading s.nodes (F.holds s.nodes)
      (exec (enumClass Lens.id ns className (fun _ => pure ⟨⟩) deep f) s).2 := by
  refine (ensures_enumClass
    h.forest hns ⟨fun _ hs => hs.nodes, fun hrow s' hs' => ?_⟩ className s h.reading).1
  obtain ⟨hread, cc, hcc, -⟩ :=
    ensures_getClassFromNode h.forest (F.resolves _) hns hrow trivial s' hs'
  rw [exec_zoom]
  exact ⟨hread, cc, hcc, .pure fun _ hs => ⟨hs, by simp⟩⟩

/-- **Enumerating classes.** -/
lemma enumClass (hns : ':' ∉ ns) (className : CIMName) (deep : Bool)
    (f : CIMClass.Filter) :
    Coherent F (exec (enumClass Lens.id ns className (fun _ => pure ⟨⟩) deep f) s).2 :=
  of_reading h.forest (h.reading_enumClass hns className deep f)

/-- What creating a class does: nothing to the store, or it adds a class that has been adjusted to a
superclass of which the fact is true. -/
lemma createClass_cases (hns : ':' ∉ ns) (c : CIMClass V) :
    (Reading s.nodes (F.holds s.nodes) (exec (createClass ns c) s).2 ∧
        ∃ e, (exec (createClass ns c) s).1 = .error e) ∨
      ∃ s1 c' p, Reading s.nodes (F.holds s.nodes) s1 ∧ c'.name = c.name ∧
        c'.superClass = c.superClass ∧ HomeOf s.nodes ns c' p ∧
        (∃ quals, quals.map CIMQualifier.name = c.quals.map CIMQualifier.name ∧
          AdjustedFrom (F.holds s.nodes) ns { c with quals } c') ∧
        row? s.nodes (makeClassPath ns c'.name) = none ∧
        (exec (createClass ns c) s).1 = .ok c' ∧
        (exec (createClass ns c) s).2 = { s1 with
          nodes := add s.nodes (makeClassPath ns c'.name) (some p.key)
            ⟨classFlags c', some (.cls c')⟩ } := by
  have hqual :
      ∀ q, Keeps (Reading s.nodes (F.holds s.nodes)) (MetaRepository.getQualifierType ns q) := by
    intro q s' hs'
    have hcoh : Coherent F (exec (MetaRepository.getQualifierType ns q) s').2 :=
      (of_reading h.forest hs').getQualifierType q
    have hnodes := nodes_getQualifierType ns q s'
    rw [hs'.nodes] at hnodes
    exact ⟨hnodes, hnodes ▸ hcoh.cached⟩
  rcases ensures_createClass (fun _ hs => hs.nodes) hqual
    (fun _ _ hn => ensures_class h.forest (F.resolves _) hns trivial hn) s h.reading with hs |
    ⟨s1, c', p, hs1, hname, hsuper, hhome, hadj, hfresh, hres, heq⟩
  · exact .inl hs
  · rw [← hname] at hfresh heq
    exact .inr ⟨s1, c', p, hs1, hname, hsuper, by rwa [HomeOf, hsuper], hadj, hfresh, hres, heq⟩

/-- **Creating a class** adds a leaf. -/
lemma createClass (hns : ':' ∉ ns) (c : CIMClass V) :
    Coherent F (exec (createClass ns c) s).2 := by
  rcases h.createClass_cases hns c with ⟨hs, -⟩ |
    ⟨s1, c', p, hs1, -, -, hhome, -, hfresh, -, heq⟩
  · exact of_reading h.forest hs
  · rw [heq]
    have hF := h.forest.change (.addClass hns hhome hfresh)
    refine (of_reading h.forest hs1).withNodes hF (fun _ _ hk => hk) ?_
    rw [hs1.nodes]
    exact fun _ x _ _ ⟨c1, hc1⟩ => row?_add_of_objAt hfresh hc1

/-- **Modifying a class** that has no subclass in the cache, with a superclass that is not the class
itself or one of its subclasses.

**Proof sketch.** The superclasses that are read on the way are not below the class either, and the
class itself is removed from the cache. -/
lemma modifyClass (hns : ':' ∉ ns) {c : CIMClass V} (hup : c.superClass ≠ [] →
      ¬ Below s.nodes (makeClassPath ns c.name) (makeClassPath ns c.superClass))
    (hsub : ∀ k, Below s.nodes (makeClassPath ns c.name) k → k ≠ makeClassPath ns c.name →
      s.classCache.get? k = none) :
    Coherent F (exec (modifyClass ns c) s).2 := by
  set key := makeClassPath ns c.name with hkey
  let P : Str → CIMClass V → Prop := fun k cc =>
    F.holds s.nodes k cc ∧ (Below s.nodes key k → k = key)
  have hP : ResolvesBy s.nodes (fun k => ¬ Below s.nodes key k) P :=
    ⟨fun hkid hk hp => hk (hp.step hkid),
      fun hk hobj hsuper => ⟨(F.resolves _).base trivial hobj hsuper, fun hb => absurd hb hk⟩,
      fun hk hrow hobj hsuper hparent hp =>
        ⟨(F.resolves _).derived trivial hrow hobj hsuper hparent hp.1, fun hb => absurd hb hk⟩⟩
  have hread : Reading s.nodes P s := by
    refine ⟨rfl, fun k cc hk => ⟨h.cached k cc hk, fun hb => ?_⟩⟩
    by_contra hne
    rw [hsub k hb hne] at hk
    cases hk
  rcases ensures_modifyClass (fun _ hs => hs.nodes) (fun node hsuper hn =>
    ensures_class h.forest hP hns (hup hsuper) hn) s hread with hs |
    ⟨s1, c', p, node, c0, hs1, hname, hsuper, hhome, -, hrow, hobj, heq⟩
  · exact of_reading h.forest (hs.mono fun _ _ h => h.1)
  · rw [heq]
    have hF := h.forest.setClass_of_modify hns hname hsuper hhome hrow hobj hup
    refine (of_reading h.forest (hs1.mono fun _ _ h => h.1)).withNodes hF (fun k cc hk => ?_) ?_
    · rw [Cache.get?_removeFromCache] at hk
      split_ifs at hk
      exact hk
    · rw [hs1.nodes]
      rintro k x hk hx -
      have hne : x ≠ key := by
        rintro rfl
        rw [Cache.get?_removeFromCache] at hk
        split_ifs at hk with hkey'
        · cases hk
        · obtain ⟨cc, hcc⟩ := Option.isSome_iff_exists.1 hk
          exact hkey' ((hs1.cached k cc hcc).2 hx)
      have hnd := h.forest.shape.nodup
      rw [← keys_modify (k := key) (fun v => { v with obj := some (.cls c') })] at hnd
      dsimp only
      rw [row?_adopt_of_ne hnd (by rw [keys_modify]; exact mem_keys_of_row? hrow) hne,
        row?_modify_of_ne hne]

/-- **Deleting a class** that has no subclass in the cache. -/
lemma deleteClass {className : CIMName}
    (hsub : ∀ k, Below s.nodes (makeClassPath ns className) k → k ≠ makeClassPath ns className →
      s.classCache.get? k = none) :
    Coherent F (exec (deleteClass ns className) s).2 := by
  rcases deleteClass_cases ns className s with heq | ⟨node, c, hrow, -, heq⟩ <;> rw [heq]
  · exact h
  · refine h.withNodes (h.forest.remove (mem_keys_of_row? hrow)) (fun k cc hk => ?_) ?_
    · rw [Cache.get?_removeFromCache] at hk
      split_ifs at hk
      exact hk
    · rintro k x hk hx -
      refine row?_remove_of_not_below fun hb => ?_
      rw [Cache.get?_removeFromCache] at hk
      split_ifs at hk with hne
      · cases hk
      · rw [hsub k (hb.trans hx) hne] at hk
        cases hk

end Coherent

omit [CIMValue V] in
/-- A new schema store is a forest of four namespaces. -/
lemma classForest_fresh (m n : ℕ) : ClassForest (fresh m n : MetaRepository V).nodes where
  shape := (qualCoherent_fresh m n).shape
  forest := by
    have hadd : ∀ {t : Store (MetaObj V)} (k : Str), IsForest t → k ∉ keys t →
        IsForest (add t k none ⟨nsNodeFlag, none⟩) :=
      fun k ht hk => ht.add hk nofun
    exact hadd ['c'] (hadd ['q'] (hadd (qualContainer ['r', 'o', 'o', 't'])
      (hadd (classContainer ['r', 'o', 'o', 't']) .nil (by simp [keys]))
      (by simp [keys, add, qualContainer, classContainer]))
      (by simp [keys, add, qualContainer, classContainer]))
      (by simp [keys, add, qualContainer, classContainer])
  housed := by
    intro r hr c hobj
    obtain ⟨k, -, rfl⟩ := List.mem_map.1 hr
    cases hobj

/-- A new repository. -/
lemma coherent_fresh (F : ClassFact V) (m n : ℕ) : Coherent F (fresh m n) :=
  ⟨classForest_fresh m n, fun k c hk => absurd hk (by simp [fresh])⟩

end OpenWbem
