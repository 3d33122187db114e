import OpenWbem.Repository.ClassCache
import OpenWbem.Repository.RepositoryOperations

/-!
# Superclasses

Following superclass links ends, and so do all functions that follow them, as long as no class is
modified so that it gets itself or one of its subclasses as superclass. Nothing prevents that.

The walks of the associations follow the superclass links of the classes that they are answered,
which may come from the cache. A cached class may have inherited from classes as they were, but its
own superclass is the one of the stored class.

## Main definitions

* `ClassFact.superclass` — a class has the superclass that the stored class has.
* `SuperChain` — following superclass links ends.
* `LinkSafe` — the operation makes no class a subclass of itself.

## Main results

* `superclasses_of_reaches` — in runs of safe operations, all walks end.
* `resolveClass_diverges` — a cycle.
-/

namespace OpenWbem

open Prog Hierarchy MetaRepository CIMRepository Store CIMClass

variable {V : Type} [CIMValue V]

/-- A class has the names of the stored class. -/
def ClassFact.superclass : ClassFact V where
  holds t k c := ∃ c₀, objAt t k = some (.cls c₀) ∧ c.name = c₀.name ∧
    c.superClass = c₀.superClass
  resolves t :=
    { up := fun _ _ => trivial
      base := fun {_ c} _ hobj _ => ⟨c, hobj, names_markKeyed c⟩
      derived := fun {_ _ _ c pc} _ hrow hobj _ _ _ => by
        refine ⟨c, (objAt_of_row? hrow).trans hobj, ?_⟩
        rw [(names_inherit _ pc).1, (names_inherit _ pc).2]
        exact names_markKeyed c }
  congr := fun ⟨c₀, hobj, hnames⟩ hrows => by
    refine ⟨c₀, ?_, hnames⟩
    rw [objAt, val?, hrows _ .refl ⟨c₀, hobj⟩]
    exact hobj

variable {c : CIMClass V}

namespace Coherent

variable {s : MetaRepository V} {ns : Str}

/-- **Modifying a class** leaves the superclasses of the other cached classes as they are, whatever
they have inherited. -/
lemma modifyClass_superclass (h : Coherent .superclass s) (hns : ':' ∉ ns)
    (hup : c.superClass ≠ [] →
      ¬ Below s.nodes (makeClassPath ns c.name) (makeClassPath ns c.superClass)) :
    Coherent .superclass (exec (MetaRepository.modifyClass ns c) s).2 := by
  rcases ensures_modifyClass (fun _ hs => hs.nodes) (fun _ _ hn =>
    ensures_class h.forest (ClassFact.superclass.resolves _) hns trivial hn) s h.reading with hs |
    ⟨s1, c', p, node, c₀, hs1, hname, hsuper, hhome, -, hrow, hobj, heq⟩
  · exact of_reading h.forest hs
  · rw [heq]
    have hF := h.forest.setClass_of_modify hns hname hsuper hhome hrow hobj hup
    refine ⟨hF, fun k cc hk => ?_⟩
    rw [Cache.get?_removeFromCache] at hk
    split_ifs at hk with hne
    obtain ⟨c1, hc1, hnames⟩ := hs1.cached k cc hk
    refine ⟨c1, ?_, hnames⟩
    have hnd := h.forest.shape.nodup
    rw [← keys_modify (fun v => { v with obj := some (.cls c') })]
      at hnd
    rw [objAt, val?_adopt hnd, val?_modify, if_neg hne]
    exact hc1

end Coherent

/-! ### Following superclass links -/

/-- Following the superclass links from a class ends after a number of steps. -/
inductive SuperChain (t : Store (MetaObj V)) (ns : Str) : CIMName → ℕ → Prop
  | top {name : CIMName} {c : CIMClass V}
      (hobj : objAt t (makeClassPath ns name) = some (.cls c)) (hsuper : c.superClass = []) :
      SuperChain t ns name 0
  | up {name : CIMName} {c : CIMClass V} {n : ℕ}
      (hobj : objAt t (makeClassPath ns name) = some (.cls c)) (hsuper : c.superClass ≠ [])
      (hup : SuperChain t ns c.superClass n) : SuperChain t ns name (n + 1)

section Walks

variable {t : Store (MetaObj V)} {ns : Str}

omit [CIMValue V] in
/-- The home of a class is one step nearer to the root. -/
lemma ClassForest.depth_classHome (hF : ClassForest t) (hns : ':' ∉ ns) {name : CIMName} {d : ℕ}
    (hobj : objAt t (makeClassPath ns name) = some (.cls c))
    (hd : Depth t (makeClassPath ns name) d) : ∃ d', d = d' + 1 ∧ Depth t (classHome ns c) d' := by
  obtain ⟨r, hrow, hr⟩ := exists_row?_of_objAt hobj
  have hkid : makeClassPath ns name ∈ kids t (some (classHome ns c)) :=
    mem_kids.2 ⟨r, mem_of_row? hrow, key_of_row? hrow, (hF.parent_of_cls hns hrow hr).2⟩
  exact hd.parent hF.shape.nodup hkid

omit [CIMValue V] in
/-- The superclass of a class is stored. -/
lemma ClassForest.objAt_superclass (hF : ClassForest t) (hns : ':' ∉ ns) {name : CIMName}
    (hobj : objAt t (makeClassPath ns name) = some (.cls c)) (hsuper : c.superClass ≠ []) :
    ∃ pc, objAt t (makeClassPath ns c.superClass) = some (.cls pc) := by
  obtain ⟨r, hrow, hr⟩ := exists_row?_of_objAt hobj
  have hparent := (hF.parent_of_cls hns hrow hr).2
  rw [classHome, if_neg hsuper] at hparent
  obtain ⟨pr, pc, hpr, hpc, -⟩ := hF.exists_superclass (mem_of_row? hrow) hr hsuper hparent
  exact ⟨pc, (objAt_of_row? hpr).trans hpc⟩

omit [CIMValue V] in
/-- **In a forest, superclass links end.** -/
lemma ClassForest.exists_superChain (hF : ClassForest t) (hns : ':' ∉ ns) (d : ℕ) :
    ∀ {name : CIMName} {c : CIMClass V}, objAt t (makeClassPath ns name) = some (.cls c) →
      Depth t (makeClassPath ns name) d → ∃ n, SuperChain t ns name n := by
  induction d with
  | zero =>
    intro name c hobj hd
    obtain ⟨d', hd', -⟩ := hF.depth_classHome hns hobj hd
    exact absurd hd' (Nat.succ_ne_zero d').symm
  | succ d ih =>
    intro name c hobj hd
    by_cases hsuper : c.superClass = []
    · exact ⟨0, .top hobj hsuper⟩
    · obtain ⟨d', heq, hd'⟩ := hF.depth_classHome hns hobj hd
      obtain rfl := Nat.succ.inj heq
      obtain ⟨pc, hpc⟩ := hF.objAt_superclass hns hobj hsuper
      rw [classHome, if_neg hsuper] at hd'
      obtain ⟨n, hn⟩ := ih hpc hd'
      exact ⟨n + 1, .up hobj hsuper hn⟩

/-- A program on the repository that leaves the classes alone, and is not caught in a cycle. -/
def Quiet (t : Store (MetaObj V)) (x : RepoM V Unit) : Prop :=
  Ensures (fun s => Reading t (ClassFact.superclass.holds t) s.mStore) x
    fun r s => Reading t (ClassFact.superclass.holds t) s.mStore ∧ r ≠ .error .diverge

variable (hF : ClassForest t) (hns : ':' ∉ ns)

include hF hns in
/-- Asking for a class: what is answered has the superclass that is stored. -/
lemma ensures_checkGetClass (className : CIMName) (req : ClassRequest) :
    Ensures (fun s : CIMRepository V => Reading t (ClassFact.superclass.holds t) s.mStore)
      (zoom schema (getCIMClass ns className req) >>= checkGetClass ns className) fun r s =>
        (Reading t (ClassFact.superclass.holds t) s.mStore ∧ r ≠ .error .diverge) ∧
          ∀ c, r = .ok c → ∃ cc, c = req.filter cc ∧
            ClassFact.superclass.holds t (makeClassPath ns className) cc := by
  refine (ensures_schema (ensures_getCIMClass hF (ClassFact.superclass.resolves t) hns
    className trivial req)).bind ?_ ?_
  · rintro (_ | c)
    · rw [checkGetClass]
      refine .get_bind fun s hs => ?_
      split_ifs <;> exact ⟨⟨hs.1, by simp⟩, by simp⟩
    · refine .pure ?_
      rintro s ⟨hs, hc⟩
      refine ⟨⟨hs, by simp⟩, ?_⟩
      rintro _ ⟨⟩
      rcases hc with ⟨-, h⟩ | ⟨cc, h, hcc⟩
      · cases h
      · exact ⟨cc, by simpa using h, hcc⟩
  · rintro e s ⟨-, ⟨-, h⟩ | ⟨cc, h, -⟩⟩ <;> exact absurd h (by simp)

include hF hns in
/-- **The walk through the superclasses ends**, by induction on the depth of the class: the
superclass that is answered is the one that is stored. -/
lemma quiet_forSuperclasses {query : CIMName → RepoM V Unit} (hquery : ∀ name, Quiet t (query name))
    (n : ℕ) :
    ∀ {name : CIMName}, (name = [] ∨ 1 ≤ n ∧ ∀ d, Depth t (makeClassPath ns name) d → d ≤ n) →
      Quiet t (forSuperclasses ns query n name) := by
  induction n with
  | zero =>
    rintro name (rfl | ⟨h, -⟩)
    · rw [forSuperclasses]
      exact .pure fun s hs => ⟨hs, by simp⟩
    · exact absurd h (by omega)
  | succ n ih =>
    intro name hname
    rw [forSuperclasses]
    split_ifs with hnil
    · exact .pure fun s hs => ⟨hs, by simp⟩
    have hdepth := (hname.resolve_left hnil).2
    refine (hquery name).bind (fun _ => .pull fun _ => ?_) fun _ _ h => ⟨h.1, by simpa using h.2⟩
    refine (ensures_checkGetClass hF hns name .whole).bind (fun cc => .pull fun hcc =>
      .pull fun _ => ?_)
      fun _ _ h => ⟨h.1.1, by simpa using h.1.2⟩
    obtain ⟨_, rfl, c₀, hobj, -, hsuper⟩ := hcc cc rfl
    refine ih ?_
    by_cases htop : cc.superClass = []
    · exact .inl htop
    · rw [hsuper] at htop ⊢
      obtain ⟨d, hd⟩ :=
        hF.forest.rooted (mem_keys_of_row? (exists_row?_of_objAt hobj).choose_spec.1)
      obtain ⟨d', rfl, hd'⟩ := hF.depth_classHome hns hobj hd
      rw [classHome, if_neg htop] at hd'
      obtain ⟨pc, hpc⟩ := hF.objAt_superclass hns hobj htop
      obtain ⟨d'', rfl, -⟩ := hF.depth_classHome hns hpc hd'
      have hle := hdepth _ hd
      refine .inr ⟨by omega, fun e he => ?_⟩
      rw [he.unique hF.shape.nodup hd']
      omega

omit hF hns in
/-- A question to the index. -/
lemma quiet_queryClassAssoc {assocClasses resultClasses : Option (List CIMName)}
    {role resultRole : CIMName} {result : AssocEntry (CIMObjectPath V) → RepoM V Unit}
    (hresult : ∀ e, Quiet t (result e)) (className : CIMName) :
    Quiet t (queryClassAssoc ns assocClasses resultClasses role resultRole result className) := by
  have hforM : ∀ entries : List (AssocEntry (CIMObjectPath V)), Quiet t (entries.forM result) := by
    intro entries
    induction entries with
    | nil => exact .pure fun s hs => ⟨hs, by simp⟩
    | cons e entries ih =>
      exact (hresult e).bind (fun _ => .pull fun _ => ih) fun _ _ h => ⟨h.1, by simpa using h.2⟩
  rw [queryClassAssoc]
  refine .get_bind fun s hs => ?_
  obtain ⟨entries, hentries⟩ : ∃ entries, AssocMap.getAllEntries s.classAssocDb
      (⟨ns, className, []⟩ : CIMObjectPath V) assocClasses resultClasses role resultRole =
        .ok entries := by
    rw [AssocMap.getAllEntries]
    split_ifs
    · exact ⟨_, rfl⟩
    · obtain ⟨key, hkey⟩ : ∃ key, makeAssocKey (⟨ns, className, []⟩ : CIMObjectPath V) role
          resultRole = .ok key := ⟨_, rfl⟩
      rw [hkey]
      simp only [bind, Except.bind]
      rcases AssocMap.findEntry s.classAssocDb key with _ | r <;> exact ⟨_, rfl⟩
  rw [hentries]
  exact hforM entries s hs

include hF hns in
/-- **Associators and references of a class**: the walk through the superclasses ends. -/
lemma quiet_staticAssociatorsClass {className : CIMName}
    {assocClasses resultClasses : Option (List CIMName)} {role resultRole : CIMName}
    {result : AssocEntry (CIMObjectPath V) → RepoM V Unit} (hresult : ∀ e, Quiet t (result e)) :
    Quiet t (staticAssociatorsClass ns className assocClasses resultClasses role resultRole
      result) := by
  rw [staticAssociatorsClass]
  refine .get_bind fun s hs => ?_
  refine quiet_forSuperclasses hF hns (quiet_queryClassAssoc hresult) _
    (.inr ⟨?_, fun d hd => ?_⟩) s hs
  · exact Nat.succ_pos _
  · have hlt := hd.lt_length hF.shape.nodup
    rw [superclassBound, hs.nodes]
    omega

include hF hns in
/-- References of a class. -/
lemma quiet_staticReferencesClass {className : CIMName} {resultClasses : Option (List CIMName)}
    {role : CIMName} {result : AssocEntry (CIMObjectPath V) → RepoM V Unit}
    (hresult : ∀ e, Quiet t (result e)) :
    Quiet t (staticReferencesClass ns className resultClasses role result) := by
  have h : Quiet t (staticAssociatorsClass ns className resultClasses none role []
    result) := quiet_staticAssociatorsClass hF hns hresult
  exact h

include hF hns in
/-- **Enumerating classes** ends. -/
lemma quiet_enumClass (className : CIMName) {result : CIMClass V → RepoM V Unit}
    (hresult : ∀ c, Quiet t (result c)) (deep : Bool) (f : CIMClass.Filter) :
    Quiet t (enumClass schema ns className result deep f) := by
  refine ensures_enumClass hF hns ⟨fun _ hs => hs.nodes, fun {name node} hrow => ?_⟩ className
  have hread := ensures_schema
    (ensures_getClassFromNode hF (ClassFact.superclass.resolves t) hns hrow trivial)
  exact hread.weaken (fun _ h => h) fun r s ⟨hs, cc, hcc, _⟩ => ⟨hs, cc, hcc, hresult _⟩

end Walks

omit [CIMValue V] in
/-- The translation of exceptions neither ends nor begins a cycle. -/
lemma translate_ne_diverge {α : Type} {x : RepoM V α} {s : CIMRepository V}
    (h : (exec x s).1 ≠ .error .diverge) : (exec (translate x) s).1 ≠ .error .diverge := by
  rw [CIMRepository.translate, exec_tryCatch]
  rcases hx : exec x s with ⟨e | v, t⟩ <;> rw [hx] at h
  · cases e with
    | diverge => exact absurd rfl h
    | _ => simp
  · exact h

/-! ### Runs -/

omit [CIMValue V] in
/-- The names of namespaces have no separator, no class is deleted, and no class gets itself or one
of its subclasses as superclass. -/
def LinkSafe (op : RepoOp V) (s : CIMRepository V) : Prop :=
  ':' ∉ op.ns ∧
    match op with
    | .modifyClass ns c => c.superClass ≠ [] →
      ¬ Below s.mStore.nodes (makeClassPath ns c.name) (makeClassPath ns c.superClass)
    | .deleteClass _ _ => False
    | _ => True

/-- **One operation** keeps the class hierarchy a forest. -/
lemma superclass_step {s : CIMRepository V} (h : Coherent .superclass s.mStore) {op : RepoOp V}
    (hsafe : LinkSafe op s) : Coherent .superclass (op.step s).mStore := by
  obtain ⟨hns, hop⟩ := hsafe
  have hkeep : ∀ {α : Type} {x : RepoM V α},
      Keeps (fun s : CIMRepository V => Coherent .superclass s.mStore) x →
      Coherent .superclass (exec x s).2.mStore := fun hx => hx s h
  have hread : ∀ className req, Keeps (Coherent .superclass (V := V))
      (getCIMClass op.ns className req) :=
    fun className req s' hs' => hs'.getCIMClass hns className req
  cases op with
  | createNameSpace ns =>
    exact hkeep (keeps_createNameSpace indifferent_schema fun hns =>
      ensures_schema fun s' hs' => hs'.createNameSpace hns)
  | deleteNameSpace ns =>
    exact hkeep (keeps_deleteNameSpace indifferent_schema
      (ensures_schema fun s' hs' => hs'.deleteNameSpace))
  | setQualifierType ns qt =>
    exact hkeep (ensures_schema fun s' hs' => hs'.setQualifierType hns qt)
  | deleteQualifierType ns qualName =>
    exact hkeep (keeps_deleteQualifierType (ensures_schema fun s' hs' =>
      hs'.deleteQualifierType qualName))
  | getClass ns className req =>
    exact hkeep (keeps_getClass (ensures_schema (hread className req)))
  | enumClasses ns className deep f =>
    have hpure : Quiet s.mStore.nodes (pure ⟨⟩) := .pure fun _ hs => ⟨hs, by simp⟩
    have hq := quiet_enumClass h.forest hns className (fun _ => hpure) deep f
    exact .of_reading h.forest (ensures_translate (P := fun s' => Reading s.mStore.nodes
      (ClassFact.superclass.holds s.mStore.nodes) s'.mStore)
        (hq.weaken (fun _ h => h) fun _ _ h => h.1)
      s h.reading)
  | createClass ns c =>
    exact hkeep (keeps_createClass (fun className => hread className .whole)
      fun s' hs' => hs'.createClass hns c)
  | modifyClass ns c =>
    refine ensures_modifyClass (I := Reading s.mStore.nodes
      (ClassFact.superclass.holds s.mStore.nodes)) (fun _ hs =>
        .of_reading h.forest hs) ?_ ?_ s h.reading
    · exact (ensures_getCIMClass h.forest (ClassFact.superclass.resolves _) hns c.name trivial
        .whole).weaken (fun _ h => h) fun _ _ h => h.1
    · intro s' hs'
      refine (Coherent.of_reading h.forest hs').modifyClass_superclass hns ?_
      rwa [hs'.nodes]
  | deleteClass ns className => exact hop.elim

/-- **The class hierarchy stays a forest in runs of safe operations.** From every stored class the
superclass links lead to a class without superclass. The parent of the node of a class is the node
of its superclass, or the container of the namespace. Asking for a class, enumerating classes and
the walks of associators and references through the superclasses end, for all classes and all
handlers that only read.

**Proof sketch.** The classes form a forest, and the cached classes have the superclasses of the
stored ones (`ClassFact.superclass`), in every state of the run. All walks are bounded by the depth
or the size of the forest. -/
theorem superclasses_of_reaches {m n : ℕ} {ops : List (RepoOp V)} {s : CIMRepository V}
    (h : Reaches RepoOp.step LinkSafe (fresh m n) ops s) :
    (∀ r ∈ s.mStore.nodes, ∀ c, r.val.obj = some (.cls c) → ∃ ns, ':' ∉ ns ∧
      r.key = makeClassPath ns c.name ∧ (∃ d, SuperChain s.mStore.nodes ns c.name d) ∧
      (∃ p : Node (MetaObj V), r.parent = some p.key ∧ HomeOf s.mStore.nodes ns c p)) ∧
    ∀ ns, ':' ∉ ns → ∀ className,
      (∀ req, (exec (getClass ns className req) s).1 ≠ .error .diverge) ∧
      (∀ result deep f, (∀ c, Quiet s.mStore.nodes (result c)) →
        (exec (enumClasses ns className result deep f) s).1 ≠ .error .diverge) ∧
      ∀ assocClasses resultClasses role resultRole result, (∀ e, Quiet s.mStore.nodes (result e)) →
        (exec (staticAssociatorsClass ns className assocClasses resultClasses role
          resultRole result) s).1 ≠ .error .diverge ∧
        (exec (staticReferencesClass ns className resultClasses role result) s).1 ≠
          .error .diverge := by
  have hcoh : Coherent .superclass s.mStore := h.keeps (coherent_fresh _ m n) superclass_step
  have hF := hcoh.forest
  refine ⟨fun r hr c hobj => ?_, fun ns hns className =>
    ⟨fun req => ?_, fun result deep f hresult => ?_,
    fun _ _ _ _ _ hresult => ⟨?_, ?_⟩⟩⟩
  · obtain ⟨ns, hns, hkey, hparent⟩ := hF.housed r hr c hobj
    have hrow : row? s.mStore.nodes (makeClassPath ns c.name) = some r :=
      (row?_eq_some hF.shape.nodup).2 ⟨hr, hkey⟩
    obtain ⟨d, hd⟩ := hF.forest.rooted (mem_keys_of_row? hrow)
    refine ⟨ns, hns, hkey, hF.exists_superChain hns d ((objAt_of_row? hrow).trans hobj) hd, ?_⟩
    obtain ⟨p, hp⟩ := hF.exists_parent hr hparent
    exact ⟨p, by rw [hparent, key_of_row? hp], hF.homeOf hns hp⟩
  · exact translate_ne_diverge (ensures_checkGetClass hF hns className req s hcoh.reading).1.2
  · exact translate_ne_diverge (quiet_enumClass hF hns className hresult deep f s hcoh.reading).2
  · exact (quiet_staticAssociatorsClass hF hns hresult s hcoh.reading).2
  · exact (quiet_staticReferencesClass hF hns hresult s hcoh.reading).2

/-- A repository with a class and its subclass. -/
def twoClasses : CIMRepository Bool :=
  (RepoOp.createClass rootNs (bareClass ['B'] ['A'])).step
    ((RepoOp.createClass rootNs (bareClass ['A'] [])).step (fresh 1 10))

/-- The run of the sample. -/
lemma reaches_twoClasses (ok : RepoOp Bool → CIMRepository Bool → Prop)
    (hok : ∀ s c, ok (.createClass rootNs c) s) :
    Reaches RepoOp.step ok (fresh 1 10) [.createClass rootNs (bareClass ['A'] []),
      .createClass rootNs (bareClass ['B'] ['A'])] twoClasses :=
  .snoc (.snoc .nil (hok _ _)) (hok _ _)

/-- **Two classes**: the question ends. -/
theorem superclasses_twoClasses :
    (∃ r ∈ twoClasses.mStore.nodes, r.val.obj = some (.cls (bareClass ['B'] ['A']))) ∧
      ∀ req, (exec (getClass rootNs ['B'] req) twoClasses).1 ≠ .error .diverge :=
  ⟨by decide +kernel, ((superclasses_of_reaches (reaches_twoClasses LinkSafe
    fun _ _ => ⟨(by decide : ':' ∉ rootNs), trivial⟩)).2 rootNs (by decide) ['B']).1⟩

/-- Two classes that are superclasses of each other cannot be resolved. -/
lemma exec_resolveClass_cycle {ns : Str} {a b : CIMClass V} {x y : Node (MetaObj V)}
    {t : Store (MetaObj V)}
    (ha : a.superClass ≠ []) (hb : b.superClass ≠ []) (hx : getParent t x = some y)
    (hy : getParent t y = some x) (hxa : x.val.obj = some (.cls a))
    (hyb : y.val.obj = some (.cls b))
    (hxflag : x.areAllFlagsOn nsNodeFlag = false) (hyflag : y.areAllFlagsOn nsNodeFlag = false)
    (n : ℕ) :
    ∀ s : MetaRepository V, s.nodes = t →
      s.classCache.get? (makeClassPath ns a.superClass) = none →
      s.classCache.get? (makeClassPath ns b.superClass) = none →
      (exec (resolveClass ns n a x) s).1 = .error .diverge ∧
        (exec (resolveClass ns n b y) s).1 = .error .diverge := by
  induction n with
  | zero => exact fun _ _ _ _ => ⟨rfl, rfl⟩
  | succ n ih =>
    -- one step up from a class, in a state in which its superclass is not cached
    have hstep : ∀ {c d : CIMClass V} {u w : Node (MetaObj V)} {s : MetaRepository V},
        c.superClass ≠ [] → getParent t u = some w → w.areAllFlagsOn nsNodeFlag = false →
        w.val.obj = some (.cls d) → s.nodes = t →
        s.classCache.get? (makeClassPath ns c.superClass) = none →
        (exec (resolveClass ns n d w)
          { s with classCache := s.classCache.touch (makeClassPath ns c.superClass) }).1 =
          .error .diverge →
        (exec (resolveClass ns (n + 1) c u) s).1 = .error .diverge := by
      intro c d u w s hc hu hw hd hs hmiss hrec
      rw [resolveClass, (names_markKeyed c).2]
      rw [if_neg hc, exec_bind_of_ok (exec_clsLookup _ s), hmiss]
      rw [exec_get_bind, hs, hu]
      dsimp only
      rw [if_neg (by simp [hw]), exec_bind_of_ok (exec_nodeToClass hd _), exec_bind]
      rw [← hs]
      rcases hx : exec (resolveClass ns n d w)
        { s with classCache := s.classCache.touch (makeClassPath ns c.superClass) }
          with ⟨e | v, s'⟩ <;>
        rw [hx] at hrec
      · cases hrec
        rfl
      · cases hrec
    intro s hs hma hmb
    have htouch :
      ∀ k, (exec (resolveClass ns n a x) { s with classCache := s.classCache.touch k }).1 =
          .error .diverge ∧
        (exec (resolveClass ns n b y) { s with classCache := s.classCache.touch k }).1 =
          .error .diverge :=
      fun k => ih { s with classCache := s.classCache.touch k } hs (by simpa using hma)
        (by simpa using hmb)
    exact ⟨hstep ha hx hyflag hyb hs hma (htouch _).2, hstep hb hy hxflag hxa hs hmb (htouch _).1⟩

/-- **A cycle.** Modifying a class so that its subclass becomes its superclass is accepted; after
that, no number of steps is enough to resolve the class. -/
theorem resolveClass_diverges :
    let op : RepoOp Bool := .modifyClass rootNs (bareClass ['A'] ['B'])
    let s := op.step twoClasses
    Reaches RepoOp.step (fun _ _ => True) (fresh 1 10)
        [.createClass rootNs (bareClass ['A'] []),
          .createClass rootNs (bareClass ['B'] ['A']), op] s ∧
      (exec (CIMRepository.modifyClass rootNs (bareClass ['A'] ['B'])) twoClasses).1.isOk ∧
      (exec (getClass rootNs ['A'] .whole) s).1 = .error .diverge ∧
      ∀ node, getNode s.mStore.nodes (makeClassPath rootNs ['A']) = some node →
        node.val.obj = some (.cls (bareClass ['A'] ['B'])) ∧
        ∀ n, (exec (resolveClass rootNs n (bareClass ['A'] ['B']) node) s.mStore).1 =
          .error .diverge := by
  refine ⟨.snoc (reaches_twoClasses _ fun _ _ => trivial) trivial, by decide +kernel, by
    decide +kernel, ?_⟩
  intro node hnode
  let s := (RepoOp.modifyClass rootNs (bareClass ['A'] ['B'])).step twoClasses
  let x : Node (MetaObj Bool) := ⟨makeClassPath rootNs ['A'], some (makeClassPath rootNs ['B']),
    ⟨0, some (.cls (bareClass ['A'] ['B']))⟩⟩
  let y : Node (MetaObj Bool) := ⟨makeClassPath rootNs ['B'], some (makeClassPath rootNs ['A']),
    ⟨0, some (.cls (bareClass ['B'] ['A']))⟩⟩
  have hx : getNode s.mStore.nodes (makeClassPath rootNs ['A']) = some x := by decide +kernel
  obtain rfl : x = node := Option.some.inj (hx.symm.trans hnode)
  refine ⟨rfl, fun n => ?_⟩
  exact (exec_resolveClass_cycle (x := x) (y := y)
    (by decide) (by decide) (by decide +kernel) (by decide +kernel) rfl rfl (by decide)
      (by decide) n
    s.mStore rfl (by decide +kernel) (by decide +kernel)).1

end OpenWbem
