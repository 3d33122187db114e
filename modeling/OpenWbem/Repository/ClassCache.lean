import OpenWbem.Repository.ClassCoherence

/-!
# The cache of classes

The class cache has classes with all that they inherit. Modifying or deleting a class removes the
class itself from the cache and leaves its subclasses there, with what they have inherited from the
class as it was.

## Main definitions

* `ClassFact.resolved` — a class is the stored one, resolved against its superclasses.
* `ClassSafe` — the operation changes no class that has a subclass in the cache.

## Main results

* `getCIMClass_of_reaches` — as long as all operations are safe, the cache makes no difference.
* `getCIMClass_stale` — a class that is answered as it was before its superclass was modified.
-/

namespace OpenWbem

open Prog Hierarchy MetaRepository

variable {V : Type} [CIMValue V]

/-- A class is the stored one, resolved against its superclasses. -/
def ClassFact.resolved : ClassFact V := ⟨Resolved, Resolved.resolvesBy, Resolved.congr⟩

/-! ### Runs -/

omit [CIMValue V] in
/-- The names of namespaces have no separator; a class that is modified or deleted has no subclass
in the cache, and gets no superclass that is the class itself or one of its subclasses. -/
def ClassSafe (op : MetaOp V) (s : MetaRepository V) : Prop :=
  ':' ∉ op.ns ∧
    match op with
    | .modifyClass ns c =>
      (c.superClass ≠ [] →
        ¬ Below s.nodes (makeClassPath ns c.name) (makeClassPath ns c.superClass)) ∧
      ∀ k, Below s.nodes (makeClassPath ns c.name) k → k ≠ makeClassPath ns c.name →
        s.classCache.get? k = none
    | .deleteClass ns className =>
      ∀ k, Below s.nodes (makeClassPath ns className) k → k ≠ makeClassPath ns className →
        s.classCache.get? k = none
    | _ => True

/-- **One operation** keeps the cache coherent. -/
lemma resolvedCoherent_step {s : MetaRepository V} (h : Coherent .resolved s) {op : MetaOp V}
    (hsafe : ClassSafe op s) : Coherent .resolved (op.step s) := by
  obtain ⟨hns, hop⟩ := hsafe
  cases op with
  | getQualifierType ns qualName => exact h.getQualifierType qualName
  | setQualifierType ns qt => exact h.setQualifierType hns qt
  | deleteQualifierType ns qualName => exact h.deleteQualifierType qualName
  | getCIMClass ns className req => exact h.getCIMClass hns className req
  | enumClass ns className deep f => exact h.enumClass hns className deep f
  | createClass ns c => exact h.createClass hns c
  | modifyClass ns c => exact h.modifyClass hns hop.1 hop.2
  | deleteClass ns className => exact h.deleteClass hop
  | createNameSpace ns => exact h.createNameSpace hns
  | deleteNameSpace ns => exact h.deleteNameSpace

/-- In every run of safe operations the cache is coherent. -/
lemma resolvedCoherent_of_reaches {m n : ℕ} {ops : List (MetaOp V)} {s : MetaRepository V}
    (h : Reaches MetaOp.step ClassSafe (fresh m n) ops s) : Coherent .resolved s :=
  h.keeps (coherent_fresh _ m n) resolvedCoherent_step

/-- The answers depend on the nodes only, if the caches are coherent. -/
lemma Coherent.answer_congr {s s' : MetaRepository V} (h : Coherent .resolved s)
    (h' : Coherent .resolved s') (hnodes : s'.nodes = s.nodes) {ns : Str} (hns : ':' ∉ ns)
    (className : CIMName) (req : ClassRequest) :
    (exec (MetaRepository.getCIMClass ns className req) s').1 =
      (exec (MetaRepository.getCIMClass ns className req) s).1 := by
  rcases h.answer hns className req with ⟨hout, hr⟩ | ⟨cc, hcc, hr⟩ <;>
    rcases h'.answer hns className req with ⟨hout', hr'⟩ | ⟨cc', hcc', hr'⟩ <;> rw [hr, hr']
  · obtain ⟨r, c0, hrow, -⟩ := hcc'.exists_row?
    rw [hnodes] at hrow
    exact absurd (mem_keys_of_row? hrow) hout
  · obtain ⟨r, c0, hrow, -⟩ := hcc.exists_row?
    rw [← hnodes] at hrow
    exact absurd (mem_keys_of_row? hrow) hout'
  · rw [hnodes] at hcc'
    rw [hcc.unique hcc']

/-- **The class cache is invisible in runs of safe operations.** For every size of the caches and
every class that is asked for, the answer is the stored class resolved against its superclasses,
which is what the same repository answers with an empty class cache.

**Proof sketch.** What is cached is resolved (`ClassFact.resolved`), in every state of the run, and
an empty cache is coherent in any case. -/
theorem getCIMClass_of_reaches {m n : ℕ} {ops : List (MetaOp V)} {s : MetaRepository V}
    (h : Reaches MetaOp.step ClassSafe (fresh m n) ops s) {ns : Str} (hns : ':' ∉ ns)
    (className : CIMName) (req : ClassRequest) :
    ((makeClassPath ns className ∉ keys s.nodes ∧
        (exec (getCIMClass ns className req) s).1 = .ok none) ∨
      ∃ cc, Resolved s.nodes (makeClassPath ns className) cc ∧
        (exec (getCIMClass ns className req) s).1 = .ok (some (req.filter cc))) ∧
    ∀ size, (exec (getCIMClass ns className req) s).1 =
      (exec (getCIMClass ns className req) { s with classCache := .empty size }).1 := by
  have hcoh := resolvedCoherent_of_reaches h
  refine ⟨hcoh.answer hns className req, fun size => ?_⟩
  have hempty : Coherent .resolved { s with classCache := .empty size } := ⟨hcoh.forest, nofun⟩
  exact hempty.answer_congr hcoh rfl hns className req

/-- A class without elements. -/
def bareClass (name superClass : CIMName) : CIMClass Bool :=
  ⟨name, superClass, [], [], [], false, false⟩

/-- The namespace of the examples. -/
def rootNs : Str := ['r', 'o', 'o', 't']

/-- A repository with a class `A` and its subclass `B`, which is in the cache. -/
def cachedSubclass : MetaRepository Bool :=
  (MetaOp.getCIMClass rootNs ['B'] .whole).step
    ((MetaOp.createClass rootNs (bareClass ['B'] ['A'])).step
      ((MetaOp.createClass rootNs (bareClass ['A'] [])).step (fresh 10 10)))

/-- The run of the sample. -/
lemma reaches_cachedSubclass (ok : MetaOp Bool → MetaRepository Bool → Prop)
    (hget : ∀ s, ok (.getCIMClass rootNs ['B'] .whole) s)
    (hcreate : ∀ s c, ok (.createClass rootNs c) s) :
    Reaches MetaOp.step ok (fresh 10 10) [.createClass rootNs (bareClass ['A'] []),
      .createClass rootNs (bareClass ['B'] ['A']),
        .getCIMClass rootNs ['B'] .whole] cachedSubclass :=
  .snoc (.snoc (l := [_]) (.snoc (l := []) .nil (hcreate _ _)) (hcreate _ _)) (hget _)

/-- **A cached class** is the stored one. -/
theorem getCIMClass_cachedSubclass : (exec (getCIMClass rootNs ['B'] .whole) cachedSubclass).1 =
      .ok (some (bareClass ['B'] ['A'])) ∧
    (exec (getCIMClass rootNs ['B'] .whole) cachedSubclass).1 =
      (exec (getCIMClass rootNs ['B'] .whole) { cachedSubclass with classCache := .empty 3 }).1 :=
  ⟨by decide +kernel, (getCIMClass_of_reaches (reaches_cachedSubclass ClassSafe
    (fun _ => ⟨(by decide : ':' ∉ rootNs), trivial⟩)
    fun _ _ => ⟨(by decide : ':' ∉ rootNs), trivial⟩) (by decide) _ _).2 3⟩

/-- **A stale class**: after its superclass has got a property, the class is answered without it. -/
theorem getCIMClass_stale :
    let p : CIMProperty Bool := ⟨['p'], [], [], .other 0, none, false⟩
    let op : MetaOp Bool := .modifyClass rootNs { bareClass ['A'] [] with properties := [p] }
    Reaches MetaOp.step (fun _ _ => True) (fresh 10 10) [.createClass rootNs (bareClass ['A'] []),
      .createClass rootNs (bareClass ['B'] ['A']), .getCIMClass rootNs ['B'] .whole, op]
      (op.step cachedSubclass) ∧
    (exec (getCIMClass rootNs ['B'] .whole) (op.step cachedSubclass)).1 =
      .ok (some (bareClass ['B'] ['A'])) ∧
    (exec (getCIMClass rootNs ['B'] .whole)
      { op.step cachedSubclass with classCache := .empty 10 }).1 =
      .ok (some { bareClass ['B'] ['A'] with
        properties := [{ p with originClass := ['A'], propagated := true }] }) := by
  refine ⟨.snoc (reaches_cachedSubclass _ (fun _ => trivial) fun _ _ => trivial)
    trivial, by decide +kernel, by decide +kernel⟩

end OpenWbem
