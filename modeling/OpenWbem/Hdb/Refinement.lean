import OpenWbem.Hdb.Integrity

/-!
# A database is a hierarchy

What a caller sees of a database is what the functions that fetch nodes return: the data and the
flags of a key, and the children of a node one after the other. It is the hierarchy that is the
meaning of the operations so far.

## Main definitions

* `HDBHandle.children` — fetch the children of a node, or the root nodes, one after the other.
* `HDB.Shows` — a caller sees a hierarchy.
* `Op.Effect` — what an operation does to the values and the children in a hierarchy.

## Main results

* `HDB.Stores.shows` — a caller sees the hierarchy that is stored.
* `Op.effect_apply` — **the meaning of the operations**, key by key and child by child.
* `shows_of_reaches` — **every run** within the bounds refines the run of the meanings.
-/

namespace OpenWbem.Hdb

open Bytes Extents Prog Cells Hierarchy HDBHandle HDBNodeData
open DLinked (firstOf lastOf)

/-! ### What a caller sees -/

namespace HDBHandle

/-- The keys of a node and the siblings that follow it. -/
def siblingsFrom : ℕ → HDBNode → HDBM (List (List UInt8))
  | 0, _ => throw .diverge
  | _ + 1, none => pure []
  | n + 1, some nd => do
    let next ← getNextSibling (some nd)
    let rest ← siblingsFrom n next
    pure (nd.key :: rest)

/-- The keys of the root nodes (for `none`) or of the children of a node, as a caller finds them
with `getFirstRoot`, `getFirstChild` and `getNextSibling`. -/
def children (q : Option (List UInt8)) : HDBM (List (List UInt8)) := do
  let n ← stepBound
  match q with
  | none => do
    let first ← getFirstRoot
    siblingsFrom (n + 1) first
  | some key => do
    let node ← getNode key
    let first ← getFirstChild node
    siblingsFrom (n + 1) first

end HDBHandle

/-- The flags and the data of a node object. -/
def HDBNodeData.val (nd : HDBNodeData) : NodeVal := ⟨nd.blk.flags, nd.bfr⟩

/-- A caller sees the hierarchy `t`. -/
structure HDB.Shows (s : HDB) (t : NodeTable) : Prop where
  getNode : ∀ k, ∃ n s', exec (getNode k) s = (.ok n, s') ∧
    n.map val = val? t k ∧ ∀ nd ∈ n, nd.key = k
  children : ∀ q, (∀ p, q = some p → p ∈ keys t) →
    ∃ s', exec (children q) s = (.ok (kids t q), s')

variable {a : Cells} {s : HDB} {t : NodeTable} {L : List Int32} {c : Cell HDBBlock} {o x : Int32}
  {k : List UInt8} {q : Option (List UInt8)} {r : Row (List UInt8) NodeVal} {n : ℕ} {op : Op}
  {ops : List Op}

/-- **Fetching siblings**, from the middle of a list of children. -/
lemma runs_siblingsFrom (h : LiveInv a t) (hs : a.On s) (l : List (List UInt8)) :
    ∀ (n : ℕ) (pre : List (List UInt8)), kids t q = pre ++ l → l.length < n → Runs a.On (do
        let first ← nodeAt (firstOf (-1) (l.map a.loc))
        siblingsFrom n first) (.ok l) a.On := by
  induction l with
  | nil =>
    rintro (_ | n) pre - hlen
    · cases hlen
    · exact (Runs.pure none).bind (.pure _)
  | cons k l ih =>
    rintro (_ | n) pre hpre hlen
    · cases hlen
    have hk : k ∈ kids t q := by rw [hpre]; simp
    obtain ⟨c, v, hc, hn⟩ := h.heap_loc (mem_keys_of_kids hk)
    have hrest := ih n (pre ++ [k]) (by rw [hpre]; simp) (by simpa using hlen)
    have hread : Runs a.On (nodeAt (a.loc k)) (.ok (some (a.nodeObj (a.loc k) c k v))) a.On := by
      rw [nodeAt, if_neg (Int32.not_le.2 (hs.pos hc))]
      exact runs_readNode hc hn
    have hstep : Runs a.On
        (getNextSibling (some (a.nodeObj (a.loc k) c k v)) >>= siblingsFrom n)
        (.ok l) a.On := by
      rw [getNextSibling, onReloaded, bind_assoc]
      refine (runs_reload (.inr rfl)).bind ?_
      rwa [← h.nextSib_eq hpre hc] at hrest
    refine hread.bind ?_
    rw [siblingsFrom, ← bind_assoc]
    exact hstep.bind (.pure _)

/-- **Fetching all children** of a node, or all root nodes. -/
lemma runs_children (h : LiveInv a t) (hs : a.On s) (hq : IsPlace t q) :
    Runs a.On (children q) (.ok (kids t q)) a.On := by
  have hlen : (kids t q).length < a.len + 1 := by
    have := hs.length_le (L := a.sibs t q) h.nodup_sibs fun _ ho => h.heap_of_mem_sibs ho
    rw [sibs, List.length_map] at this
    omega
  have hwalk := runs_siblingsFrom h hs (kids t q) (a.len + 1) [] rfl hlen
  have hhead := h.head hq
  rw [sibs] at hhead
  rw [← hhead] at hwalk
  rw [children]
  refine runs_stepBound.bind ?_
  cases q with
  | none =>
    rw [getFirstRoot, bind_assoc]
    exact runs_getHdrBlock.bind hwalk
  | some p =>
    obtain ⟨r, hr, hrp⟩ := mem_keys.1 (hq p rfl)
    obtain ⟨c, hc, hn⟩ := h.cell hr
    rw [show a.headOf (some p) = c.hdr.firstChild by rw [← hrp]; exact field_eq hc] at hwalk
    rw [← hrp]
    refine (runs_getNode h hr hc hn).bind ?_
    rw [getFirstChild, onReloaded, bind_assoc]
    refine (runs_reload (.inr rfl)).bind ?_
    rw [hrp]
    exact hwalk

/-- **A caller sees the hierarchy that is stored.** -/
theorem HDB.Stores.shows (h : s.Stores t) : s.Shows t := by
  obtain ⟨a, L, hs, hinv⟩ := h
  refine ⟨fun k => ?_, fun q hq => ?_⟩
  · by_cases hk : k ∈ keys t
    · obtain ⟨r, hr, rfl⟩ := mem_keys.1 hk
      obtain ⟨c, hc, hn⟩ := hinv.live.cell hr
      obtain ⟨s', hexec, -⟩ := runs_getNode hinv.live hr hc hn s hs
      refine ⟨_, s', hexec, ?_, by rintro _ ⟨⟩; rfl⟩
      rw [val?_of_mem hinv.live.forest.nodup hr, Option.map_some, val]
      exact congrArg some (by rw [show (a.rowObj c r).blk.flags = _ from hn.flags]; rfl)
    · obtain ⟨s', hexec, -⟩ := runs_getNode_none hinv.live hk s hs
      exact ⟨none, s', hexec, (val?_eq_none.2 hk).symm, by simp⟩
  · obtain ⟨s', hexec, -⟩ := runs_children hinv.live hs hq s hs
    exact ⟨s', hexec⟩

/-! ### The meaning of the operations, key by key -/

namespace Op

/-- The key that an operation is about. -/
def key : Op → NodeKey
  | addRootNode key _ _ | addChild _ key _ _ | removeNode key | removeNodeByKey key
  | updateNode key _ _ | turnFlagsOn key _ | turnFlagsOff key _ => key

/-- What an operation makes of the value that is stored under its key. -/
def value (t : NodeTable) : Op → Option NodeVal → Option NodeVal
  | addRootNode _ data flags, old => some (old.getD ⟨flags, data⟩)
  | addChild parent _ data flags, old =>
    if parent.1 ∈ keys t then some (old.getD ⟨flags, data⟩) else old
  | removeNode _, _ | removeNodeByKey _, _ => none
  | updateNode _ _ u, old =>
    old.map fun v => { v with data := updatedBuffer v.data u.dataLen u.data }
  | turnFlagsOn _ flags, old => old.map fun v => { v with flags := flags ||| v.flags }
  | turnFlagsOff _ flags, old => old.map fun v => { v with flags := v.flags &&& ~~~flags }

/-- The keys that an operation removes: those of a subtree. -/
def Removes (t : NodeTable) : Op → List UInt8 → Prop
  | removeNode key, x | removeNodeByKey key, x => Below t key x
  | _, _ => False

/-- The place at which an operation attaches its node, if it does. -/
def attached (t : NodeTable) : Op → Option (Option (List UInt8))
  | addRootNode key _ _ => if key.1 ∈ keys t then none else some none
  | addChild parent key _ _ =>
    if parent.1 ∈ keys t ∧ key.1 ∉ keys t then some (some parent) else none
  | updateNode key (some parent) _ =>
    if (key.1 ∈ keys t ∧ parent.1 ∈ keys t) ∧ key.1 ∉ kids t (some parent.1) then some (some parent)
    else none
  | _ => none

/-- **The effect of an operation** on a hierarchy. -/
structure Effect (op : Op) (t t' : NodeTable) : Prop where
  value : val? t' op.key = op.value t (val? t op.key)
  removed : ∀ {x}, op.Removes t x → val? t' x = none
  frame : ∀ {x}, x ≠ op.key.1 → ¬ op.Removes t x → val? t' x = val? t x
  /-- A node that is attached comes last; the others stay in their order. -/
  children : ∀ q, ∃ l, kids t' q = l ++ (if op.attached t = some q then [op.key.1] else []) ∧
    l.Sublist (kids t q) ∧ ∀ x, x ∈ l ↔
      x ∈ kids t q ∧ ¬ op.Removes t x ∧ ¬ ((op.attached t).isSome ∧ x = op.key.1)

variable {key parent : NodeKey} {data : List UInt8} {flags : UInt32} {u : UpdateData}

/-- An operation that changes at most the value of its key. -/
private lemma effect_of_kids {t' : NodeTable} (hnone : op.attached t = none)
    (hrem : ∀ x, ¬ op.Removes t x) (hvalue : val? t' op.key = op.value t (val? t op.key))
    (hframe : ∀ x, x ≠ op.key.1 → val? t' x = val? t x) (hkids : ∀ q, kids t' q = kids t q) :
    op.Effect t t' where
  value := hvalue
  removed := fun h => absurd h (hrem _)
  frame := fun hx _ => hframe _ hx
  children := fun q => ⟨kids t q, by simp [hnone, hkids], .refl _, by simp [hnone, hrem]⟩

/-- An operation that adds its key. -/
private lemma effect_of_add (op : Op) {v : NodeVal} (hq : op.attached t = some q)
    (hk : op.key.1 ∉ keys t) (hrem : ∀ x, ¬ op.Removes t x) (hvalue : op.value t none = some v) :
    op.Effect t (add t op.key q v) where
  value := by rw [val?_add hk, if_pos rfl, val?_eq_none.2 hk, hvalue]
  removed := fun h => absurd h (hrem _)
  frame := fun hx _ => by rw [val?_add hk, if_neg hx]
  children := fun q' => by
    refine ⟨kids t q', by simp [kids_add, hq], .refl _, fun x => ?_⟩
    simp only [hrem, not_false_eq_true, true_and, hq, Option.isSome_some, iff_self_and]
    rintro hx rfl
    exact hk (mem_keys_of_kids hx)

/-- Adding a root. -/
lemma effect_addRootNode : (addRootNode key data flags).Effect t
    ((addRootNode key data flags).apply t) := by
  by_cases hk : key.1 ∈ keys t
  · rw [apply, if_pos hk]
    refine effect_of_kids (if_pos hk) (fun _ => id) ?_ (fun _ _ => rfl) fun _ => rfl
    obtain ⟨v, hv⟩ := Option.ne_none_iff_exists'.1 (mt val?_eq_none.1 (not_not.2 hk))
    simp only [Op.key, Op.value, hv, Option.getD_some]
  · rw [apply, if_neg hk]
    exact effect_of_add (addRootNode key data flags) (if_neg hk) hk (fun _ => id) rfl

/-- Adding a child. -/
lemma effect_addChild : (addChild parent key data flags).Effect t
    ((addChild parent key data flags).apply t) := by
  by_cases h : parent.1 ∈ keys t ∧ key.1 ∉ keys t
  · rw [apply, if_pos h]
    exact effect_of_add (addChild parent key data flags) (if_pos h) h.2 (fun _ => id) (if_pos h.1)
  · rw [apply, if_neg h]
    refine effect_of_kids (if_neg h) (fun _ => id) ?_ (fun _ _ => rfl) fun _ => rfl
    simp only [Op.key, Op.value]
    by_cases hp : parent.1 ∈ keys t
    · have hk : key.1 ∈ keys t := by tauto
      obtain ⟨v, hv⟩ := Option.ne_none_iff_exists'.1 (mt val?_eq_none.1 (not_not.2 hk))
      rw [if_pos hp, hv, Option.getD_some]
    · rw [if_neg hp]

/-- Nothing is below a missing key. -/
private lemma eq_of_below (hF : IsForest t) (hk : k ∉ keys t) {y : List UInt8} (h : Below t k y) :
    y = k := by
  rcases h.cases_head with heq | ⟨c, hc, -⟩
  · exact heq
  · exact absurd (hF.closed hc) hk

/-- An operation that removes the subtree of its key. -/
private lemma effect_of_remove (hF : IsForest t)
    (hop : op = removeNode key ∨ op = removeNodeByKey key) :
    op.Effect t (op.apply t) := by
  have hkey : op.key = key := by rcases hop with rfl | rfl <;> rfl
  have hrem : ∀ x, op.Removes t x ↔ Below t key x := by
    intro x
    rcases hop with rfl | rfl <;> rfl
  have happly : op.apply t = if key.1 ∈ keys t then remove t key else t := by
    rcases hop with rfl | rfl <;> rfl
  have hval : ∀ v, op.value t v = none := by
    intro v
    rcases hop with rfl | rfl <;> rfl
  have hatt : op.attached t = none := by rcases hop with rfl | rfl <;> rfl
  by_cases hk : key.1 ∈ keys t
  · have hv : ∀ x, Below t key x → val? (remove t key) x = none := fun x hx => by
      rw [val?_remove, if_pos ((mem_below hF hk).2 hx)]
    rw [happly, if_pos hk]
    refine ⟨?_, fun hx => hv _ ((hrem _).1 hx), fun _ hx => ?_, fun q => ?_⟩
    · rw [hkey, hval, hv _ .refl]
    · rw [val?_remove, if_neg fun hb => hx ((hrem _).2 ((mem_below hF hk).1 hb))]
    · refine ⟨kids (remove t key) q, by simp [hatt], ?_, fun x => ?_⟩
      · rw [kids_remove]
        exact List.filter_sublist
      · simp [mem_kids_remove hF hk, hrem, hatt]
  · have hv : ∀ x, Below t key x → val? t x = none := fun x hx => by
      rw [eq_of_below hF hk hx, val?_eq_none.2 hk]
    rw [happly, if_neg hk]
    refine ⟨?_, fun hx => hv _ ((hrem _).1 hx), fun _ _ => rfl, fun q => ?_⟩
    · rw [hkey, hval, hv _ .refl]
    · refine ⟨kids t q, by simp [hatt], .refl _, fun x => ?_⟩
      simp only [hrem, hatt, Option.isSome_none, Bool.false_eq_true, false_and, not_false_eq_true,
        and_true, iff_self_and]
      intro hx hb
      exact hk (eq_of_below hF hk hb ▸ mem_keys_of_kids hx)

/-- Updating a node. -/
lemma effect_updateNode (hF : IsForest t) (newParent : Option NodeKey) :
    (updateNode key newParent u).Effect t ((updateNode key newParent u).apply t) := by
  set t' := modify t key.1 fun v =>
    { v with data := updatedBuffer v.data u.dataLen u.data } with ht'
  have hkids : ∀ q, kids t' q = kids t q := fun q => by rw [ht', kids_modify]
  have hkeys : keys t' = keys t := by rw [ht', keys_modify]
  have hself : val? t' key = (val? t key).map fun v =>
      { v with data := updatedBuffer v.data u.dataLen u.data } := by
    rw [ht', val?_modify, if_pos rfl]
  have hother : ∀ x, x ≠ key.1 → val? t' x = val? t x := fun x hx => by
    rw [ht', val?_modify, if_neg hx]
  have hsame : (updateNode key newParent u).attached t = none →
      (updateNode key newParent u).Effect t t' := fun hnone =>
    effect_of_kids hnone (fun _ => id) hself hother hkids
  cases newParent with
  | none =>
    rw [apply, ← ht']
    exact hsame rfl
  | some parent =>
    by_cases h : key.1 ∈ keys t ∧ parent.1 ∈ keys t
    · simp only [apply, if_pos h]
      rw [← ht', adopt, hkids]
      by_cases hin : key.1 ∈ kids t (some parent.1)
      · rw [if_pos hin]
        exact hsame (if_neg fun hc => hc.2 hin)
      · have hatt : (updateNode key (some parent) u).attached t = some (some parent.1) :=
          if_pos ⟨h, hin⟩
        have hnd : (keys t').Nodup := hkeys ▸ hF.nodup
        rw [if_neg hin]
        refine ⟨?_, False.elim, fun hx _ => ?_, fun q => ?_⟩
        · rw [val?_move hnd]
          exact hself
        · rw [val?_move hnd, hother _ hx]
        · refine ⟨(kids t q).filter fun x => x ≠ key.1, ?_, List.filter_sublist, fun x => ?_⟩
          · rw [kids_move hnd (hkeys ▸ h.1), hkids, hatt]
            simp only [Option.some.injEq]
            rfl
          · simp [hatt, Removes, Op.key]
    · simp only [apply, if_neg h]
      rw [← ht']
      exact hsame (if_neg fun hc => h hc.1)

/-- Changing a value. -/
private lemma effect_of_modify (op : Op) {f : NodeVal → NodeVal} (hatt : op.attached t = none)
    (hrem : ∀ x, ¬ op.Removes t x) (hval : ∀ v, op.value t v = v.map f) :
    op.Effect t (modify t op.key f) := by
  refine effect_of_kids hatt hrem ?_ (fun x hx => ?_) fun _ => kids_modify _
  · rw [val?_modify, if_pos rfl, hval]
  · rw [val?_modify, if_neg hx]

/-- **The meaning of the operations**: an operation changes the value of its key, removes a subtree
or attaches a node, and leaves everything else as it is. -/
theorem effect_apply (hF : IsForest t) (op : Op) : op.Effect t (op.apply t) := by
  cases op with
  | addRootNode key data flags => exact effect_addRootNode
  | addChild parent key data flags => exact effect_addChild
  | removeNode key => exact effect_of_remove hF (.inl rfl)
  | removeNodeByKey key => exact effect_of_remove hF (.inr rfl)
  | updateNode key newParent u => exact effect_updateNode hF newParent
  | turnFlagsOn key flags =>
    exact effect_of_modify (turnFlagsOn key flags) rfl (fun _ => id) fun _ => rfl
  | turnFlagsOff key flags =>
    exact effect_of_modify (turnFlagsOff key flags) rfl (fun _ => id) fun _ => rfl

end Op

/-! ### Every run, and a run beyond the bounds -/

/-- What is stored is a forest. -/
lemma HDB.Stores.forest (h : s.Stores t) : IsForest t := by
  obtain ⟨a, L, -, hinv⟩ := h
  exact hinv.live.forest

/-- **Every run** within the bounds refines the run of the meanings: a caller sees the hierarchy
that is the meaning of the operations so far, and the next operation does to it what it means. -/
theorem shows_of_reaches {ops : List Op} {s : HDB}
    (h : Reaches Op.step (fun op s => op.Outside s ∧ op.HasRoom s) createFile ops s) :
    s.Shows (ops.foldl (fun t op => op.apply t) []) ∧
    ∀ op : Op, op.Outside s → op.HasRoom s →
      (exec op.run s).1 = op.result (ops.foldl (fun t op => op.apply t) []) ∧
      (op.step s).Shows (op.apply (ops.foldl (fun t op => op.apply t) [])) ∧
      op.Effect (ops.foldl (fun t op => op.apply t) [])
        (op.apply (ops.foldl (fun t op => op.apply t) [])) := by
  have hst := stores_of_reaches h
  refine ⟨hst.shows, fun op hout hroom => ?_⟩
  obtain ⟨hres, hnext⟩ := hst.step hout hroom
  exact ⟨hres, hnext.shows, op.effect_apply hst.forest⟩

/-- The run that adds two root nodes. -/
theorem twoRoots_shows : twoRoots.Shows [⟨[97], none, ⟨0, []⟩⟩, ⟨[98], none, ⟨0, [7]⟩⟩] :=
  (shows_of_reaches reaches_twoRoots).1

/-- A node that is read from zeros is empty. -/
lemma exec_readNode_zeros (hx : 0 < x)
    (hw : slice s.file.bytes x.toInt.toNat blockSize = List.replicate blockSize 0) :
    (exec (readNode x) s).1 = .ok (some ⟨zeroBlock, [], [], x, s.version⟩) := by
  rw [readNode, when, if_neg (Int32.not_le.2 hx), pure_bind,
    exec_bind_of_ok (exec_readBlock hx hw List.length_replicate decodeBlock_zeros)]
  rfl

/-- **A run beyond the bounds**: an update of the node `a` changes the data of the node `b`. -/
theorem overwritten_not_shows : Reaches Op.step (fun op s => op.Outside s) createFile
      [.addRootNode keyA [] 0, .addRootNode keyB [7] 0, .updateNode keyA none hugeUpdate]
      ((Op.updateNode keyA none hugeUpdate).step twoRoots) ∧
    (exec (getNode keyB) twoRoots).1.toOption.bind (Option.map bfr) = some [7] ∧
    (exec (getNode keyB) ((Op.updateNode keyA none hugeUpdate).step twoRoots)).1.toOption.bind
      (Option.map bfr) = some [] := by
  refine ⟨.snoc (.snoc (.snoc .nil trivial) trivial) trivial, by decide +kernel, ?_⟩
  have hover := twoRoots_overwritten
  have hindex : twoRoots.index.find [97] = some 32 := by decide +kernel
  have hfind : ((Op.updateNode keyA none hugeUpdate).step twoRoots).index.find [98] = some 78 := by
    rw [hover.index]
    decide +kernel
  have hread := exec_readNode_zeros (x := 78) (by decide)
    (hover.slice_behind hindex (by decide) (by decide) (by decide))
  rw [getNode, if_neg keyB.2.1, nodeOfKey, findIndexEntry, bind_assoc, exec_get_bind]
  rw [pure_bind, show keyB.1 = [98] from rfl, hfind]
  rw [hread]
  rfl

end OpenWbem.Hdb
