import Mathlib.Algebra.GroupWithZero.Nat
import OpenWbem.Repository.ClassForest

/-!
# Resolving classes

Reading a class adds what it inherits, from the cached copy of its superclass if there is one, and
from the store otherwise; superclasses that are read on the way go to the cache. In a forest this
always ends with a class.

What can be said about the class depends on what is in the cache. The lemmas of this file are about
any property that goes from the superclass to the class: if the cached classes have it, so has every
class that is read, and all that goes to the cache on the way.

## Main definitions

* `ResolvesBy` — a property that goes from the superclass to the class.
* `Resolved` — the class of a key with all that it inherits from the classes in the store.

## Main results

* `ensures_getClassFromNode`, `ensures_getCIMClass` — reading a class of a forest.
* `ensures_enumClass` — enumerating the classes of a forest.
-/

namespace OpenWbem

open Prog Hierarchy MetaRepository Store List Option

variable {V : Type} [CIMValue V]

/-- A property of classes under their keys that goes from the superclass to the class, for the
classes in `U`, to which the superclasses of its classes belong. -/
structure ResolvesBy (t : Store (MetaObj V)) (U : Str → Prop) (P : Str → CIMClass V → Prop) :
    Prop where
  up : ∀ {k p}, k ∈ kids t (some p) → U k → U p
  base : ∀ {k c}, U k → objAt t k = some (.cls c) → c.superClass = [] → P k c.markKeyed
  derived : ∀ {k p r c pc}, U k → row? t k = some r → r.val.obj = some (.cls c) →
    c.superClass ≠ [] → r.parent = some p → P p pc → P k (c.markKeyed.inherit pc)

omit [CIMValue V] in
/-- The store is `t`, and the cached classes have the property `P`. -/
structure Reading (t : Store (MetaObj V)) (P : Str → CIMClass V → Prop) (s : MetaRepository V) :
    Prop where
  nodes : s.nodes = t
  cached : ∀ k c, s.classCache.get? k = some c → P k c

namespace Reading

omit [CIMValue V]

variable {t : Store (MetaObj V)} {P : Str → CIMClass V → Prop} {s : MetaRepository V}

/-- Using an entry. -/
lemma touch (h : Reading t P s) (k : Str) :
    Reading t P { s with classCache := s.classCache.touch k } :=
  ⟨h.nodes, fun k' c hc => h.cached k' c (by rwa [Cache.get?_touch] at hc)⟩

/-- Adding an entry. -/
lemma addToCache (h : Reading t P s) {k : Str} {c : CIMClass V} (hc : P k c) :
    Reading t P { s with classCache := s.classCache.addToCache c k } := by
  refine ⟨h.nodes, fun k' c' hc' => ?_⟩
  rcases Cache.get?_addToCache hc' with hold | ⟨rfl, rfl⟩
  · exact h.cached k' c' hold
  · exact hc

/-- A weaker fact. -/
lemma mono {P' : Str → CIMClass V → Prop} (h : Reading t P s) (hP : ∀ k c, P k c → P' k c) :
    Reading t P' s := ⟨h.nodes, fun k c hc => hP k c (h.cached k c hc)⟩

end Reading

/-! ### Reading one class -/

variable {name : CIMName}

section Resolution

variable {t : Store (MetaObj V)} {U : Str → Prop} {P : Str → CIMClass V → Prop} {ns : Str}

/-- **Resolving a class of a forest** ends with a class that has the property.

**Proof sketch.** Induction on the bound, which is greater than the depth of the node. The parent of
the node is the node of the superclass, so what is found in the cache under the key of the
superclass is the superclass that the node leads to. -/
lemma ensures_resolveClass (hF : ClassForest t) (hP : ResolvesBy t U P) (hns : ':' ∉ ns) (n : ℕ) :
    ∀ {c : CIMClass V} {node : Node (MetaObj V)} {name : CIMName} {d : ℕ},
      row? t (makeClassPath ns name) = some node → node.val.obj = some (.cls c) →
      U (makeClassPath ns name) → Depth t (makeClassPath ns name) d → d < n →
      Ensures (Reading t P) (resolveClass ns n c node) fun r s => Reading t P s ∧
        ∃ cc, r = .ok cc ∧ P (makeClassPath ns name) cc := by
  induction n with
  | zero => exact fun _ _ _ _ h => absurd h (Nat.not_lt_zero _)
  | succ n ih =>
    intro c node name d hrow hobj hU hdepth hlt s hs
    have hparent := (hF.parent_of_cls hns hrow hobj).2
    rw [resolveClass, (CIMClass.names_markKeyed c).2]
    split_ifs with hsuper
    · exact ⟨hs, _, rfl, hP.base hU ((objAt_of_row? hrow).trans hobj) hsuper⟩
    rw [classHome, if_neg hsuper] at hparent
    have hderived : ∀ {pc}, P (makeClassPath ns c.superClass) pc →
        P (makeClassPath ns name) (c.markKeyed.inherit pc) := hP.derived hU hrow hobj hsuper hparent
    rw [exec_bind_of_ok (exec_clsLookup _ s)]
    have hs1 := hs.touch (makeClassPath ns c.superClass)
    rcases hfound : s.classCache.get? (makeClassPath ns c.superClass) with _ | pc
    · obtain ⟨pr, pc, hpr, hpobj, hflag⟩ :=
        hF.exists_superclass (mem_of_row? hrow) hobj hsuper hparent
      generalize { s with classCache := s.classCache.touch (makeClassPath ns c.superClass) } = s1
        at hs1 ⊢
      have hup : getParent s1.nodes node = some pr := by
        rw [hs1.nodes, getParent, reload_of_row? hrow, bind_some, hparent, bind_some, hpr]
      rw [exec_get_bind, hup]
      dsimp only
      rw [if_neg (by simp [hflag]), exec_bind_of_ok (exec_nodeToClass hpobj s1)]
      -- the node of the superclass is one step nearer to the root
      have hkid : makeClassPath ns name ∈ kids t (some (makeClassPath ns c.superClass)) :=
        mem_kids.2 ⟨node, mem_of_row? hrow, key_of_row? hrow, hparent⟩
      obtain ⟨d', rfl, hd'⟩ := hdepth.parent hF.shape.nodup hkid
      obtain ⟨hs2, pc', hres, hpc'⟩ := ih hpr hpobj (hP.up hkid hU) hd' (by omega) s1 hs1
      rcases hx : exec (resolveClass ns n pc pr) s1 with ⟨r, s2⟩
      rw [hx] at hres hs2
      cases hres
      rw [exec_bind_of_ok hx]
      exact ⟨hs2.addToCache hpc', _, rfl, hderived hpc'⟩
    · exact ⟨hs1, _, rfl, hderived (hs.cached _ _ hfound)⟩

/-- **Reading a class of a forest.** -/
lemma ensures_getClassFromNode (hF : ClassForest t) (hP : ResolvesBy t U P) (hns : ':' ∉ ns)
    {node : Node (MetaObj V)} (hrow : row? t (makeClassPath ns name) = some node)
    (hU : U (makeClassPath ns name)) :
    Ensures (Reading t P) (getClassFromNode ns node) fun r s => Reading t P s ∧
      ∃ cc, r = .ok cc ∧ P (makeClassPath ns name) cc := by
  intro s hs
  obtain ⟨c, hobj, -⟩ := hF.cls_of_key (mem_of_row? hrow) (key_of_row? hrow)
  obtain ⟨d, hd⟩ := hF.forest.rooted (mem_keys_of_row? hrow)
  have hlt := hd.lt_length hF.shape.nodup
  rw [getClassFromNode, exec_bind_of_ok (exec_nodeToClass hobj s)]
  exact ensures_resolveClass hF hP hns _ hrow hobj hU hd (by rw [hs.nodes]; omega) s hs

/-- **Asking for a class of a forest**: the class is found if it is stored, and has the property. -/
lemma ensures_getCIMClass (hF : ClassForest t) (hP : ResolvesBy t U P) (hns : ':' ∉ ns)
    (name : CIMName) (hU : U (makeClassPath ns name)) (req : ClassRequest) :
    Ensures (Reading t P) (getCIMClass ns name req) fun r s => Reading t P s ∧
      ((makeClassPath ns name ∉ keys t ∧ r = .ok none) ∨
        ∃ cc, r = .ok (some (req.filter cc)) ∧ P (makeClassPath ns name) cc) := by
  intro s hs
  rw [getCIMClass, exec_bind_of_ok (exec_clsLookup _ s)]
  have hs1 := hs.touch (makeClassPath ns name)
  rcases hfound : s.classCache.get? (makeClassPath ns name) with _ | cc
  · generalize { s with classCache := s.classCache.touch (makeClassPath ns name) } = s1 at hs1 ⊢
    rw [exec_get_bind, hs1.nodes]
    rcases hn : getNode t (makeClassPath ns name) with _ | node
    · exact ⟨hs1,
        .inl ⟨row?_eq_none.1 (row?_eq_none_of_getNode (makeClassPath_ne_nil ns name) hn), rfl⟩⟩
    · obtain ⟨hs2, cc, hres, hcc⟩ :=
        ensures_getClassFromNode hF hP hns (row?_of_getNode hn) hU s1 hs1
      rcases hx : exec (getClassFromNode ns node) s1 with ⟨r, s2⟩
      rw [hx] at hres hs2
      cases hres
      rw [exec_bind_of_ok hx]
      exact ⟨hs2.addToCache hcc, .inr ⟨cc, rfl, hcc⟩⟩
  · exact ⟨hs1, .inr ⟨cc, rfl, hs.cached _ _ hfound⟩⟩

end Resolution

/-! ### Enumerating classes -/

section Enumeration

variable {t : Store (MetaObj V)} {ns : Str} {node : Node (MetaObj V)}

omit [CIMValue V] in
/-- The nodes below a class or the container of the classes are classes of the namespace. -/
lemma ClassForest.key_of_kid (hF : ClassForest t) (hns : ':' ∉ ns) {p x : Str}
    (hp : p = classContainer ns ∨ ∃ name, p = makeClassPath ns name) (hx : x ∈ kids t (some p)) :
    ∃ (name : CIMName) (node : Node (MetaObj V)), x = makeClassPath ns name ∧
      row? t x = some node ∧ node.areAllFlagsOn nsNodeFlag = false := by
  obtain ⟨r, hr, rfl, hparent⟩ := mem_kids.1 hx
  have hrow : row? t r.key = some r := (row?_eq_some hF.shape.nodup).2 ⟨hr, rfl⟩
  have hhead : p.head? = some 'c' := by
    rcases hp with rfl | ⟨name, rfl⟩ <;> rfl
  rcases hF.shape.placed r hr with ⟨-, hroot, -, -⟩ | ⟨hobj, hflag, -, -, -⟩
    | ⟨-, -, -, -, hhome, -⟩
  · rw [hparent] at hroot
    cases hroot
  · obtain ⟨ns', hns', hkey, hhome⟩ := hF.housed r hr _ hobj
    rw [hparent, classHome, some.injEq] at hhome
    have heq : ns' = ns := by
      split_ifs at hhome
      · rcases hp with rfl | ⟨name, rfl⟩
        · simpa [classContainer] using hhome.symm
        · exact absurd hhome.symm (IsContainer.cls hns').ne_makeClassPath
      · rcases hp with rfl | ⟨name, rfl⟩
        · exact absurd hhome (IsContainer.cls hns).ne_makeClassPath
        · exact (makeClassPath_inj hns hns' hhome).1.symm
    exact ⟨_, r, heq ▸ hkey, hrow, hflag⟩
  · rw [hparent, some.injEq] at hhome
    rw [hhome, head?_qualHome] at hhead
    cases hhead

omit [CIMValue V] in
/-- The element after `k` in a list without repetitions. -/
lemma nextOf_append {u l : List Str} {k : Str} (hk : k ∉ u) : nextOf (u ++ k :: l) k = l.head? := by
  have hu : ∀ x ∈ u, decide (x ≠ k) := fun x hx => by
    simpa using fun h : x = k => hk (h ▸ hx)
  rw [nextOf, dropWhile_append_of_pos hu]
  simp

omit [CIMValue V] in
/-- The next child. -/
lemma getNextSibling_of_kids (hnd : (keys t).Nodup) {q : Option Str} {u l : List Str} {k : Str}
    (hrow : row? t k = some node) (hkids : kids t q = u ++ k :: l) :
    getNextSibling t node = l.head?.bind (row? t) := by
  have hmem : k ∈ kids t q := by simp [hkids]
  have hparent : node.parent = q :=
    kids_unique hnd (key_of_row? hrow ▸ kids_of_mem (mem_of_row? hrow)) hmem
  have hu : k ∉ u := by
    have := nodup_kids (q := q) hnd
    rw [hkids, nodup_append] at this
    exact fun h => this.2.2 k h k mem_cons_self rfl
  rw [getNextSibling, reload_of_row? hrow, bind_some, hparent, hkids,
    key_of_row? hrow, nextOf_append hu]

variable {σ : Type} {L : Lens σ (MetaRepository V)} {J : σ → Prop}
  {result : CIMClass V → Prog σ CIMException Unit} {f : CIMClass.Filter} {deep : Bool}

/-- What a walk over a store that does not change needs: reading the classes ends with a class, and
the handler is not caught in a cycle itself. -/
structure WalkReady (L : Lens σ (MetaRepository V)) (t : Store (MetaObj V)) (ns : Str)
    (f : CIMClass.Filter) (result : CIMClass V → Prog σ CIMException Unit) (J : σ → Prop) :
    Prop where
  nodes : ∀ s, J s → (L.get s).nodes = t
  read : ∀ {name node}, row? t (makeClassPath ns name) = some node →
    Ensures J (zoom L (getClassFromNode ns node)) fun r s => J s ∧
      ∃ cc, r = .ok cc ∧ Ensures J (result (cc.clone f)) fun r s => J s ∧ r ≠ .error .diverge

/-- A loop over the children of a node ends, if its body does within a number of steps for each
child. -/
lemma ensures_siblings (hF : ClassForest t) (hns : ':' ∉ ns) (hw : WalkReady L t ns f result J)
    {p : Str} (hp : p = classContainer ns ∨ ∃ name, p = makeClassPath ns name)
    {body : ℕ → Node (MetaObj V) → Prog σ CIMException Unit}
    {loop : ℕ → Option (Node (MetaObj V)) → Prog σ CIMException Unit} (m : ℕ) (size : Str → ℕ)
    (hend : ∀ n, loop n none = pure ⟨⟩) (hloop : ∀ n node, loop (n + 1) (some node) = do
      body n node
      loop n (← follow L getNextSibling node))
    (hsize : ∀ x, 0 < (m + 1) * size x)
    (hbody : ∀ {name node n}, makeClassPath ns name ∈ kids t (some p) →
      row? t (makeClassPath ns name) = some node → (m + 1) * size (makeClassPath ns name) ≤ n + 1 →
      Ensures J (body n node) fun r s => J s ∧ r ≠ .error .diverge)
    (l : List Str) : ∀ {u : List Str} {n : ℕ}, kids t (some p) = u ++ l →
    (m + 1) * (l.map size).sum ≤ n →
      Ensures J (loop n (l.head?.bind (row? t))) fun r s => J s ∧ r ≠ .error .diverge := by
  induction l with
  | nil =>
    intro u n _ _
    rw [head?_nil, bind_none, hend]
    exact .pure fun s hs => ⟨hs, by simp⟩
  | cons k l ih =>
    intro u n hkids hn
    have hk : k ∈ kids t (some p) := by simp [hkids]
    obtain ⟨name, node, rfl, hrow, -⟩ := hF.key_of_kid hns hp hk
    rw [map_cons, sum_cons, Nat.mul_add] at hn
    have hpos := hsize (makeClassPath ns name)
    obtain ⟨n, rfl⟩ : ∃ n', n = n' + 1 := ⟨n - 1, by omega⟩
    rw [head?_cons, bind_some, hrow, hloop]
    refine (hbody hk hrow (by omega)).bind (fun _ => .pull fun _ => ?_)
      fun _ _ h => ⟨h.1, by simpa using h.2⟩
    refine (ensures_follow hw.nodes _ node).bind (fun o => .pull fun ho => ?_)
      fun _ _ h => absurd h.2 (by simp)
    cases ho
    rw [getNextSibling_of_kids hF.shape.nodup hrow hkids]
    exact ih (u := u ++ [makeClassPath ns name]) (by simp [hkids]) (by omega)

/-- The walk through a subtree ends, if the loop over the children of its root does. -/
lemma ensures_getClassNodes_succ (hw : WalkReady L t ns f result J) {n : ℕ}
    (hrow : row? t (makeClassPath ns name) = some node)
    (hloop : Ensures J (getSiblingNodes L ns result deep f n
      ((kids t (some (makeClassPath ns name))).head?.bind (row? t)))
      fun r s => J s ∧ r ≠ .error .diverge) :
    Ensures J (getClassNodes L ns result deep f (n + 1) node) fun r s => J s ∧
    r ≠ .error .diverge := by
  have hfirst : getFirstChild t node =
      (kids t (some (makeClassPath ns name))).head?.bind (row? t) := by
    rw [getFirstChild, reload_of_row? hrow, bind_some, key_of_row? hrow]
  rw [getClassNodes]
  refine (hw.read hrow).bind (fun cc => .pull ?_) fun _ _ h => ?_
  · rintro ⟨_, ⟨⟩, hresult⟩
    refine hresult.bind (fun _ => .pull fun _ => ?_) fun _ _ h => ⟨h.1, by simpa using h.2⟩
    refine Ensures.when (fun _ => ?_) fun _ _ hs => ⟨hs, by simp⟩
    refine (ensures_follow hw.nodes _ node).bind (fun o => .pull fun ho => ?_)
      fun _ _ h => absurd h.2 (by simp)
    cases ho
    rw [hfirst]
    exact hloop
  · exact absurd h (by simp)

omit [CIMValue V] in
/-- A node is below itself. -/
lemma length_below_pos (m : ℕ) (x : Str) : 0 < (below t m x).length := by
  rw [below_eq_cons]
  exact Nat.succ_pos _

/-- **The walk through a subtree ends.** The bound is twice the number of nodes of the subtree: a
node takes one step itself and one in the loop over the children. -/
lemma ensures_getClassNodes (hF : ClassForest t) (hns : ':' ∉ ns) (hw : WalkReady L t ns f result J)
    (m : ℕ) : ∀ {name : CIMName} {node : Node (MetaObj V)} {d n : ℕ},
      row? t (makeClassPath ns name) = some node → Depth t (makeClassPath ns name) d →
      t.length ≤ m + d + 1 → 2 * (below t m (makeClassPath ns name)).length ≤ n + 1 →
      Ensures J (getClassNodes L ns result deep f n node) fun r s => J s ∧ r ≠ .error .diverge := by
  induction m with
  | zero =>
    intro name node d n hrow hd hm hn
    have hleaf : kids t (some (makeClassPath ns name)) = [] := by
      refine eq_nil_iff_forall_not_mem.2 fun x hx => ?_
      have := (Depth.child hx hd).lt_length hF.shape.nodup
      omega
    obtain ⟨n, rfl⟩ : ∃ n', n = n' + 1 := ⟨n - 1, by simp [below] at hn; omega⟩
    refine ensures_getClassNodes_succ hw hrow ?_
    rw [hleaf, head?_nil, bind_none, getSiblingNodes]
    exact .pure fun s hs => ⟨hs, by simp⟩
  | succ m ih =>
    intro name node d n hrow hd hm hn
    rw [below, length_cons, length_flatMap] at hn
    obtain ⟨n, rfl⟩ : ∃ n', n = n' + 1 := ⟨n - 1, by omega⟩
    refine ensures_getClassNodes_succ hw hrow ?_
    refine ensures_siblings hF hns hw (.inr ⟨name, rfl⟩) 1 _
      (fun _ => by rw [getSiblingNodes]) (fun _ _ => by rw [getSiblingNodes])
      (fun x => Nat.mul_pos Nat.two_pos (length_below_pos m x))
      (fun hkid hrow' hn' => ih hrow' (.child hkid hd) (by omega) hn') _ (u := []) rfl
      (by simpa using by omega)

/-- The loop of `MetaRepository::enumClass` over the children of a node ends. -/
lemma ensures_enumNodes (hF : ClassForest t) (hns : ':' ∉ ns) (hw : WalkReady L t ns f result J)
    {p : Str} (hp : p = classContainer ns ∨ ∃ name, p = makeClassPath ns name) (l : List Str) :
    ∀ {u : List Str} {n : ℕ}, kids t (some p) = u ++ l → l.length ≤ n →
      Ensures J (enumNodes L ns result deep f (2 * t.length + 2) n (l.head?.bind (row? t)))
        fun r s => J s ∧ r ≠ .error .diverge := by
  intro u n hkids hn
  refine ensures_siblings hF hns hw hp 0 (fun _ => 1) (fun _ => by rw [enumNodes])
    (fun _ _ => by rw [enumNodes]) (fun _ => Nat.one_pos) (fun {name node n} _ hrow _ => ?_) l hkids
    (by simpa using hn)
  obtain ⟨d, hd⟩ := hF.forest.rooted (mem_keys_of_row? hrow)
  refine Ensures.when (fun _ => ?_) fun _ _ hs => ⟨hs, by simp⟩
  refine ensures_getClassNodes hF hns hw t.length hrow hd (by omega) ?_
  have := length_below_le hF.forest (mem_keys_of_row? hrow) t.length
  omega

omit [CIMValue V] in
/-- The node at which an enumeration begins. -/
lemma enumRoot_cases (ns : Str) (className : CIMName) (s : MetaRepository V) :
    (∃ p, row? s.nodes p.key = some p ∧
      (p.key = classContainer ns ∨ ∃ name, p.key = makeClassPath ns name) ∧
      exec (enumRoot ns className) s = (.ok p, s)) ∨
    ∃ e, e ≠ .diverge ∧ exec (enumRoot ns className) s = (.error e, s) := by
  have hnode : ∀ {k p}, getNode s.nodes k = some p → row? s.nodes p.key = some p := by
    intro k p h
    rw [key_of_getNode h]
    exact row?_of_getNode h
  rw [enumRoot]
  split_ifs
  · rcases exec_getNameSpaceNode_cases (classContainer ns) s with ⟨p, hp, -, h⟩ | ⟨-, h⟩ | ⟨e, h⟩
    · exact .inl ⟨p, hnode hp, .inl (key_of_getNode hp), by rw [exec_bind_of_ok h]; rfl⟩
    · exact .inr ⟨.cim .invalidNamespace ns, by simp, by rw [exec_bind_of_ok h]; rfl⟩
    · exact .inr ⟨.io e, by simp, by rw [exec_bind_of_error h]⟩
  · rw [exec_get_bind]
    rcases hn : getNode s.nodes (makeClassPath ns className) with _ | p
    · refine .inr ?_
      rcases exec_getNameSpaceNode_cases (classContainer ns) s with ⟨p, hp, -, h⟩ | ⟨-, h⟩ | ⟨e, h⟩
      · exact ⟨.cim .invalidClass className, by simp, by dsimp only; rw [exec_bind_of_ok h]; rfl⟩
      · exact ⟨.cim .invalidNamespace ns, by simp, by dsimp only; rw [exec_bind_of_ok h]; rfl⟩
      · exact ⟨.io e, by simp, by dsimp only; rw [exec_bind_of_error h]⟩
    · exact .inl ⟨p, hnode hn, .inr ⟨className, key_of_getNode hn⟩, rfl⟩

/-- **Enumerating the classes of a forest ends**, for every class and with every handler that leaves
the store alone. -/
lemma ensures_enumClass (hF : ClassForest t) (hns : ':' ∉ ns) (hw : WalkReady L t ns f result J)
    (className : CIMName) :
    Ensures J (enumClass L ns className result deep f) fun r s => J s ∧ r ≠ .error .diverge := by
  intro s hs
  rw [enumClass]
  rcases enumRoot_cases ns className (L.get s) with ⟨p, hrow, hp, hroot⟩ | ⟨e, he, hroot⟩
  · have hzoom : exec (zoom L (enumRoot ns className)) s = (.ok p, s) := by
      rw [exec_zoom, hroot, L.set_get]
    rw [hw.nodes s hs] at hrow
    have hfirst : getFirstChild t p = (kids t (some p.key)).head?.bind (row? t) := by
      rw [getFirstChild, reload_of_row? hrow, bind_some]
    have hkids : (kids t (some p.key)).length ≤ 2 * t.length + 2 := by
      have : (kids t (some p.key)).length ≤ t.length := by
        rw [kids, length_map]
        exact length_filter_le _ _
      omega
    rw [exec_bind_of_ok hzoom, exec_get_bind, hw.nodes s hs]
    refine (ensures_follow hw.nodes _ p).bind (R := fun r s => J s ∧ r ≠ .error .diverge)
      (fun o => .pull fun ho => ?_) (fun _ _ h => absurd h.2 (by simp)) s hs
    cases ho
    rw [hfirst]
    exact ensures_enumNodes hF hns hw hp _ (u := []) rfl hkids
  · have hzoom : exec (zoom L (enumRoot ns className)) s = (.error e, s) := by
      rw [exec_zoom, hroot, L.set_get]
    rw [exec_bind_of_error hzoom]
    exact ⟨hs, by simpa using he⟩

end Enumeration

/-! ### What the store says -/

/-- **The resolved class**: what the class of a key declares, with all that it inherits from the
classes above it in the store. -/
inductive Resolved (t : Store (MetaObj V)) : Str → CIMClass V → Prop
  | base {k : Str} {c : CIMClass V} (hobj : objAt t k = some (.cls c))
      (hsuper : c.superClass = []) : Resolved t k c.markKeyed
  | derived {k p : Str} {r : Node (MetaObj V)} {c pc : CIMClass V} (hrow : row? t k = some r)
      (hobj : r.val.obj = some (.cls c)) (hsuper : c.superClass ≠ []) (hparent : r.parent = some p)
      (hp : Resolved t p pc) : Resolved t k (c.markKeyed.inherit pc)

namespace Resolved

variable {t t' : Store (MetaObj V)} {k : Str} {c c' : CIMClass V}

/-- Reading leads to resolved classes, if the cached ones are. -/
lemma resolvesBy (t : Store (MetaObj V)) : ResolvesBy t (fun _ => True) (Resolved t) :=
  ⟨fun _ _ => trivial, fun _ => .base, fun _ => .derived⟩

/-- The row of the class. -/
lemma exists_row? (h : Resolved t k c) :
    ∃ r c0, row? t k = some r ∧ r.val.obj = some (.cls c0) := by
  cases h with
  | base hobj _ =>
    obtain ⟨r, hrow, hr⟩ := exists_row?_of_objAt hobj
    exact ⟨r, _, hrow, hr⟩
  | derived hrow hobj _ _ _ => exact ⟨_, _, hrow, hobj⟩

/-- There is one such class. -/
lemma unique (h : Resolved t k c) : ∀ {c'}, Resolved t k c' → c = c' := by
  induction h with
  | base hobj hsuper =>
    intro c' h'
    cases h' with
    | base hobj' _ =>
      rw [hobj] at hobj'
      cases hobj'
      rfl
    | derived hrow' hobj' hsuper' _ _ =>
      rw [objAt_of_row? hrow', hobj'] at hobj
      cases hobj
      exact absurd hsuper hsuper'
  | derived hrow hobj hsuper hparent _ ih =>
    intro c' h'
    cases h' with
    | base hobj' hsuper' =>
      rw [objAt_of_row? hrow, hobj] at hobj'
      cases hobj'
      exact absurd hsuper' hsuper
    | derived hrow' hobj' _ hparent' hp' =>
      rw [hrow] at hrow'
      cases hrow'
      rw [hobj] at hobj'
      cases hobj'
      rw [hparent] at hparent'
      cases hparent'
      rw [ih hp']

/-- A resolved class stays as it is as long as its node and the nodes above it do. -/
lemma congr (h : Resolved t k c)
    (hrows : ∀ x, Below t x k → (∃ c, objAt t x = some (.cls c)) → row? t' x = row? t x) :
    Resolved t' k c := by
  induction h with
  | base hobj hsuper =>
    refine .base ?_ hsuper
    rw [objAt, val?, hrows _ .refl ⟨_, hobj⟩]
    exact hobj
  | derived hrow hobj hsuper hparent _ ih =>
    have hkid := mem_kids.2 ⟨_, mem_of_row? hrow, key_of_row? hrow, hparent⟩
    refine .derived ?_ hobj hsuper hparent (ih fun x hx hcls => ?_)
    · rw [hrows _ .refl ⟨_, (objAt_of_row? hrow).trans hobj⟩]
      exact hrow
    · exact hrows x (hx.step hkid) hcls

/-- It has the name. -/
lemma lower_name (h : Resolved t k c) (hF : ClassForest t) {ns : Str} (hns : ':' ∉ ns)
    (hk : k = makeClassPath ns name) : Str.lower c.name = Str.lower name := by
  subst hk
  cases h with
  | base hobj _ =>
    obtain ⟨r, hrow, hr⟩ := exists_row?_of_objAt hobj
    rw [(CIMClass.names_markKeyed _).1]
    exact (hF.parent_of_cls hns hrow hr).1
  | derived hrow hobj _ _ _ =>
    rw [(CIMClass.names_inherit _ _).1, (CIMClass.names_markKeyed _).1]
    exact (hF.parent_of_cls hns hrow hobj).1

end Resolved

/-- In a forest every stored class can be resolved. -/
lemma ClassForest.exists_resolved {t : Store (MetaObj V)} (hF : ClassForest t) {k : Str} {d : ℕ}
    (hd : Depth t k d) {c : CIMClass V} (hobj : objAt t k = some (.cls c)) :
    ∃ cc, Resolved t k cc := by
  induction d generalizing k c with
  | zero =>
    by_cases hsuper : c.superClass = []
    · exact ⟨_, .base hobj hsuper⟩
    · obtain ⟨r, hrow, hr⟩ := exists_row?_of_objAt hobj
      obtain ⟨ns, -, -, hparent⟩ := hF.housed r (mem_of_row? hrow) c hr
      cases hd with
      | root hroot =>
        have hkid := mem_kids.2 ⟨r, mem_of_row? hrow, key_of_row? hrow, hparent⟩
        exact absurd (kids_unique hF.shape.nodup hkid hroot) (by simp)
  | succ d ih =>
    by_cases hsuper : c.superClass = []
    · exact ⟨_, .base hobj hsuper⟩
    · obtain ⟨r, hrow, hr⟩ := exists_row?_of_objAt hobj
      cases hd with
      | child hkid hp =>
        obtain ⟨r', hr', hkey, hparent⟩ := mem_kids.1 hkid
        obtain rfl :=
          row_unique hF.shape.nodup (mem_of_row? hrow) hr' ((key_of_row? hrow).trans hkey.symm)
        obtain ⟨pr, pc, hpr, hpc, -⟩ := hF.exists_superclass (mem_of_row? hrow) hr hsuper hparent
        obtain ⟨cc, hcc⟩ := ih hp ((objAt_of_row? hpr).trans hpc)
        exact ⟨_, .derived hrow hr hsuper hparent hcc⟩

end OpenWbem
