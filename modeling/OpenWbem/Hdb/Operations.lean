import OpenWbem.Hdb.NodeRemove

/-!
# Operations of a handle, and what they mean

One operation of a caller: nodes are fetched by their keys, and a function of `HDBHandle` is called
on them. The meaning of an operation is a change of the hierarchy of nodes. An operation on the file
does what it means, as long as the file has room for what it writes.

## Main definitions

* `Op`, `Op.run` — an operation, and the calls it makes.
* `Op.apply`, `Op.result` — its meaning.
* `Op.Allowed` — its demands: room in the file, and no node under itself.

## Main results

* `Op.runs` — **one operation** on a database with the link invariant.
-/

namespace OpenWbem.Hdb

open Bytes Extents Prog Cells Hierarchy

/-- A key: a C string that is not empty. A node with an empty key is a null node. -/
abbrev NodeKey := { k : List UInt8 // k ≠ [] ∧ (0 : UInt8) ∉ k }

/-- The data of an update: a length, and a buffer of that length or a null pointer. -/
structure UpdateData where
  dataLen : Int32
  data : Option (List UInt8)
  enough : ∀ d ∈ data, dataLen.toInt ≤ d.length

/-- What a caller does with a handle. Nodes are given by their keys, and fetched before the call. -/
inductive Op where
  | addRootNode (key : NodeKey) (data : List UInt8) (flags : UInt32)
  | addChild (parent key : NodeKey) (data : List UInt8) (flags : UInt32)
  | removeNode (key : NodeKey)
  | removeNodeByKey (key : NodeKey)
  | updateNode (key : NodeKey) (newParent : Option NodeKey) (data : UpdateData)
  | turnFlagsOn (key : NodeKey) (flags : UInt32)
  | turnFlagsOff (key : NodeKey) (flags : UInt32)

namespace Op

/-- The calls of an operation. -/
def run : Op → HDBM Bool
  | addRootNode key data flags => HDBHandle.addRootNode (newNode key data flags)
  | addChild parent key data flags => do
    let parentNode ← HDBHandle.getNode parent
    HDBHandle.addChild parentNode (newNode key data flags)
  | removeNode key => do
    let node ← HDBHandle.getNode key
    HDBHandle.removeNode node
  | removeNodeByKey key => HDBHandle.removeNodeByKey key
  | updateNode key none data => do
    let node ← HDBHandle.getNode key
    HDBHandle.updateNode node none data.dataLen data.data
  | updateNode key (some parent) data => do
    let node ← HDBHandle.getNode key
    let parentNode ← HDBHandle.getNode parent
    HDBHandle.updateNode node parentNode data.dataLen data.data
  | turnFlagsOn key flags => do
    let node ← HDBHandle.getNode key
    HDBHandle.turnFlagsOn node flags
    pure true
  | turnFlagsOff key flags => do
    let node ← HDBHandle.getNode key
    HDBHandle.turnFlagsOff node flags
    pure true

/-- The database after an operation, whether it returns or throws. -/
def step (op : Op) (s : HDB) : HDB := (exec op.run s).2

/-! ### The meaning of an operation -/

/-- The hierarchy after an operation. An operation on a key that does not exist, or that adds a key
that exists, changes nothing. -/
def apply : Op → NodeTable → NodeTable
  | addRootNode key data flags, t => if key.1 ∈ keys t then t else add t key none ⟨flags, data⟩
  | addChild parent key data flags, t =>
    if parent.1 ∈ keys t ∧ key.1 ∉ keys t then add t key (some parent) ⟨flags, data⟩ else t
  | removeNode key, t | removeNodeByKey key, t => if key.1 ∈ keys t then remove t key else t
  | updateNode key newParent data, t =>
    let t' := modify t key fun v => { v with data := updatedBuffer v.data data.dataLen data.data }
    match newParent with
    | none => t'
    | some parent => if key.1 ∈ keys t ∧ parent.1 ∈ keys t then adopt t' key parent else t'
  | turnFlagsOn key flags, t => modify t key fun v => { v with flags := flags ||| v.flags }
  | turnFlagsOff key flags, t => modify t key fun v => { v with flags := v.flags &&& ~~~flags }

/-- The result of an operation. -/
def result : Op → NodeTable → Except HDBException Bool
  | addRootNode key _ _, t =>
    if key.1 ∈ keys t then .error (.hdb "key for node is already in index") else .ok true
  | addChild parent key _ _, t =>
    if parent.1 ∉ keys t then .ok false
    else if key.1 ∈ keys t then .error (.hdb "key for node is already in index")
    else .ok true
  | removeNode key, t | updateNode key _ _, t => .ok (key.1 ∈ keys t)
  | removeNodeByKey _, _ | turnFlagsOn _ _, _ | turnFlagsOff _ _, _ => .ok true

/-- What an operation demands: room for a record that it writes to another place than before, and a
new parent that is not in the subtree of the node. -/
def Allowed (a : Cells) (t : NodeTable) (L : List Int32) : Op → Prop
  | addRootNode key data _ =>
    key.1 ∉ keys t → Fits a L (blockSize + (key.1.length + 1 + data.length))
  | addChild parent key data _ =>
    parent.1 ∈ keys t → key.1 ∉ keys t → Fits a L (blockSize + (key.1.length + 1 + data.length))
  | updateNode key newParent data =>
    (∀ r ∈ t, r.key = key → needAfter r data.dataLen data.data ≤ (a.size (a.loc key)).toNat ∨
      Fits a L (needAfter r data.dataLen data.data)) ∧
    ∀ p ∈ newParent, key.1 ∈ keys t → p.1 ∈ keys t → ¬ Below t key p
  | removeNode _ | removeNodeByKey _ | turnFlagsOn _ _ | turnFlagsOff _ _ => True

/-- The size of the record that an operation writes to another place than before, if it does. -/
def demand (a : Cells) (t : NodeTable) : Op → Option ℕ
  | addRootNode key data _ =>
    if key.1 ∈ keys t then none else some (blockSize + (key.1.length + 1 + data.length))
  | addChild parent key data _ =>
    if parent.1 ∈ keys t ∧ key.1 ∉ keys t then some (blockSize + (key.1.length + 1 + data.length))
    else none
  | updateNode key _ data =>
    (row? t key.1).bind fun r => a.demand key (needAfter r data.dataLen data.data)
  | removeNode _ | removeNodeByKey _ | turnFlagsOn _ _ | turnFlagsOff _ _ => none

end Op

/-! ### Fetching a node -/

variable {a : Cells} {s : HDB} {t : NodeTable} {L : List Int32} {c : Cell HDBBlock}
  {r : Row (List UInt8) NodeVal}

/-- The node of a key. -/
lemma runs_getNode (h : LiveInv a t) (hr : r ∈ t) (hc : a.heap (a.loc r.key) = some c)
    (hn : NodeCell r.key r.val c) :
    Runs a.On (HDBHandle.getNode r.key) (.ok (some (a.rowObj c r))) a.On := by
  have hk : r.key ∈ keys t := mem_keys.2 ⟨r, hr, rfl⟩
  rw [HDBHandle.getNode, if_neg (h.key hk).1]
  exact runs_nodeOfKey h hk hc hn

variable {k : List UInt8}

/-- No key, no node. -/
lemma runs_getNode_none (h : LiveInv a t) (hk : k ∉ keys t) :
    Runs a.On (HDBHandle.getNode k) (.ok none) a.On := by
  rw [HDBHandle.getNode]
  split_ifs
  · exact .pure _
  · exact runs_nodeOfKey_none h hk

/-! ### One operation -/

namespace Op

variable {key parent : NodeKey} {data : List UInt8} {flags : UInt32} {u : UpdateData}

/-- `Meets op a t L`: from the state `a` with the hierarchy `t` and the free list `L`, the operation
does what it means, and takes at most the block that it needs. -/
def Meets (op : Op) (a : Cells) (t : NodeTable) (L : List Int32) : Prop :=
  ∃ a' L', Runs a.On op.run (op.result t) a'.On ∧ DbInv a' (op.apply t) L' ∧
    Balance a t L (op.demand a t) a' (op.apply t) L'

/-- An operation that changes nothing. -/
private lemma meets_of_same {op : Op} (h : DbInv a t L) (hrun : Runs a.On op.run (op.result t) a.On)
    (happly : op.apply t = t) (hdemand : op.demand a t = none) : op.Meets a t L :=
  ⟨a, L, hrun, by rw [happly]; exact h, by rw [happly, hdemand]; exact .same .refl⟩

/-- The row and the block of a key. -/
private lemma exists_row (h : LiveInv a t) (hk : key.1 ∈ keys t) :
    ∃ r c, r ∈ t ∧ r.key = key.1 ∧ a.heap (a.loc r.key) = some c ∧ NodeCell r.key r.val c := by
  obtain ⟨r, hr, hrk⟩ := mem_keys.1 hk
  obtain ⟨c, hc, hn⟩ := h.cell hr
  exact ⟨r, c, hr, hrk, hc, hn⟩

/-- No key, no change. -/
private lemma modify_of_not_mem (hk : k ∉ keys t) (f : NodeVal → NodeVal) : modify t k f = t :=
  modify_id fun r hr hrk => absurd (mem_keys.2 ⟨r, hr, hrk⟩) hk

/-- Adding a root. -/
lemma meets_addRootNode (h : DbInv a t L) (hs : a.On s)
    (hok : Allowed a t L (addRootNode key data flags)) :
    (addRootNode key data flags).Meets a t L := by
  by_cases hk : key.1 ∈ keys t
  · refine meets_of_same h ?_ (if_pos hk) (if_pos hk)
    rw [result, if_pos hk]
    exact runs_addRootNode_dup h hk
  · obtain ⟨a', L', o, hrun, hinv, hblocks⟩ := runs_addRootNode h hs hk key.2 (hok hk)
    rw [Meets, result, apply, demand, if_neg hk, if_neg hk, if_neg hk]
    exact ⟨a', L', hrun, hinv, .taken hblocks⟩

/-- Adding a child. -/
lemma meets_addChild (h : DbInv a t L) (hs : a.On s)
    (hok : Allowed a t L (addChild parent key data flags)) :
    (addChild parent key data flags).Meets a t L := by
  by_cases hp : parent.1 ∈ keys t
  · obtain ⟨r, c, hr, hrk, hc, hn⟩ := exists_row h.live hp
    have hget := runs_getNode h.live hr hc hn
    by_cases hk : key.1 ∈ keys t
    · refine meets_of_same h ?_ (if_neg fun hc => hc.2 hk) (if_neg fun hc => hc.2 hk)
      rw [result, if_neg (not_not.2 hp), if_pos hk, run, ← hrk]
      exact hget.bind (runs_addChild_dup h hs (hrk ▸ hp) hk)
    · obtain ⟨a', L', o, hrun, hinv, hblocks⟩ :=
        runs_addChild h hs (hrk ▸ hp) hc hn hk key.2 (hok hp hk)
      rw [Meets, result, if_neg (not_not.2 hp), if_neg hk, apply, demand, if_pos ⟨hp, hk⟩,
        if_pos ⟨hp, hk⟩, run, ← hrk]
      exact ⟨a', L', hget.bind hrun, hinv, .taken hblocks⟩
  · refine meets_of_same h ?_ (if_neg fun hc => hp hc.1) (if_neg fun hc => hp hc.1)
    rw [result, if_pos hp]
    exact (runs_getNode_none h.live hp).bind (.pure _)

/-- Removing a node. -/
lemma meets_removeNode (h : DbInv a t L) (hs : a.On s) : (removeNode key).Meets a t L := by
  by_cases hk : key.1 ∈ keys t
  · obtain ⟨r, c, hr, hrk, hc, hn⟩ := exists_row h.live hk
    obtain ⟨a', L', hrun, hinv, hblocks⟩ := runs_removeNode h hs hr hc
    rw [Meets, result, decide_eq_true hk, apply, if_pos hk, run, ← hrk]
    exact ⟨a', L', (runs_getNode h.live hr hc hn).bind hrun, hinv, .same hblocks⟩
  · refine meets_of_same h ?_ (if_neg hk) rfl
    rw [result, decide_eq_false hk]
    exact (runs_getNode_none h.live hk).bind (.pure _)

/-- Removing a key. -/
lemma meets_removeNodeByKey (h : DbInv a t L) (hs : a.On s) :
    (removeNodeByKey key).Meets a t L := by
  by_cases hk : key.1 ∈ keys t
  · obtain ⟨a', L', hrun, hinv, hblocks⟩ := runs_removeNodeByKey h hs hk
    rw [Meets, apply, if_pos hk]
    exact ⟨a', L', hrun, hinv, .same hblocks⟩
  · refine meets_of_same h ?_ (if_neg hk) rfl
    rw [run, HDBHandle.removeNodeByKey, if_neg key.2.1]
    exact (runs_nodeOfKey_none h.live hk).bind (.pure _)

variable {newParent : Option NodeKey}

/-- The demand of an update on the room for the node, as a demand on its block. -/
private lemma fits_of_allowed (hok : Allowed a t L (updateNode key newParent u)) (hr : r ∈ t)
    (hrk : r.key = key.1) (hc : a.heap (a.loc r.key) = some c) :
    needAfter r u.dataLen u.data ≤ c.hdr.size.toNat ∨ Fits a L (needAfter r u.dataLen u.data) := by
  have hsize : a.size (a.loc key) = c.hdr.size := by rw [← hrk]; exact field_eq hc
  rw [← hsize]
  exact hok.1 r hr hrk

/-- What an update demands of the row of the node. -/
private lemma demand_updateNode (h : DbInv a t L) (hr : r ∈ t)
    (hrk : r.key = key.1) : (updateNode key newParent u).demand a t =
      a.demand r.key (needAfter r u.dataLen u.data) := by
  rw [demand, (row?_eq_some h.live.forest.nodup).2 ⟨hr, hrk⟩, hrk]
  rfl

/-- An update of a key that does not exist demands nothing. -/
private lemma demand_updateNode_none (hk : key.1 ∉ keys t) :
    (updateNode key newParent u).demand a t = none := by
  rw [demand, row?_eq_none.2 hk]
  rfl

/-- Updating a node. -/
lemma meets_updateNode (h : DbInv a t L) (hs : a.On s)
    (hok : Allowed a t L (updateNode key none u)) : (updateNode key none u).Meets a t L := by
  by_cases hk : key.1 ∈ keys t
  · obtain ⟨r, c, hr, hrk, hc, hn⟩ := exists_row h.live hk
    obtain ⟨a', L', hrun, hinv, hblocks⟩ :=
      runs_updateNode h hs hr hc hn (fits_of_allowed hok hr hrk hc)
    rw [Meets, demand_updateNode h hr hrk, result, decide_eq_true hk, run, apply, ← hrk]
    exact ⟨a', L', (runs_getNode h.live hr hc hn).bind hrun, hinv, hblocks⟩
  · refine meets_of_same h ?_ (by rw [apply]; exact modify_of_not_mem hk _)
      (demand_updateNode_none hk)
    rw [result, decide_eq_false hk]
    exact (runs_getNode_none h.live hk).bind (.pure _)

/-- A new parent that does not exist is no new parent. -/
lemma meets_updateNode_parent (h : DbInv a t L) (hs : a.On s)
    (hok : Allowed a t L (updateNode key (some parent) u)) :
    (updateNode key (some parent) u).Meets a t L := by
  by_cases hk : key.1 ∈ keys t
  · obtain ⟨r, c, hr, hrk, hc, hn⟩ := exists_row h.live hk
    have hfit := fits_of_allowed hok hr hrk hc
    have hget := runs_getNode h.live hr hc hn
    by_cases hp : parent.1 ∈ keys t
    · obtain ⟨rp, cp, hrp, hrpk, hcp, hnp⟩ := exists_row h.live hp
      have hout := hok.2 parent rfl hk hp
      rw [← hrk, ← hrpk] at hout
      obtain ⟨a', L', hrun, hinv, hblocks⟩ := runs_updateNode_parent h hs hr hc hn hrp hout hfit
      rw [Meets, demand_updateNode h hr hrk, result, run]
      simp only [apply, hk, hp]
      rw [← hrk, ← hrpk]
      exact ⟨a', L', hget.bind ((runs_getNode h.live hrp hcp hnp).bind hrun), hinv, hblocks⟩
    · obtain ⟨a', L', hrun, hinv, hblocks⟩ := runs_updateNode h hs hr hc hn hfit
      rw [Meets, demand_updateNode h hr hrk, result, decide_eq_true hk, run]
      simp only [apply, hp, and_false]
      rw [← hrk]
      exact ⟨a', L', hget.bind ((runs_getNode_none h.live hp).bind hrun), hinv, hblocks⟩
  · refine meets_of_same h ?_ ?_ (demand_updateNode_none hk)
    · rw [result, decide_eq_false hk]
      by_cases hp : parent.1 ∈ keys t
      · obtain ⟨rp, cp, hrp, hrpk, hcp, hnp⟩ := exists_row h.live hp
        rw [run, ← hrpk]
        exact (runs_getNode_none h.live hk).bind ((runs_getNode h.live hrp hcp hnp).bind (.pure _))
      · exact (runs_getNode_none h.live hk).bind ((runs_getNode_none h.live hp).bind (.pure _))
    · simp only [apply, hk, false_and, if_false]
      exact modify_of_not_mem hk _

/-- Changing flags. -/
lemma meets_turnFlags {op : Op} (g : UInt32 → UInt32) (h : DbInv a t L) (hs : a.On s)
    (hrun : op.run = do
      let node ← HDBHandle.getNode key
      HDBHandle.onReloaded node () fun nd => do
        let _ ← setFlags nd (g nd.blk.flags)
      pure true)
    (happly : op.apply t = modify t key fun v => { v with flags := g v.flags })
    (hresult : op.result t = .ok true) (hdemand : op.demand a t = none) : op.Meets a t L := by
  by_cases hk : key.1 ∈ keys t
  · obtain ⟨r, c, hr, hrk, hc, hn⟩ := exists_row h.live hk
    obtain ⟨a', L', hflags, hinv, hblocks⟩ := runs_turnFlags h hs hr hc hn g
    rw [Meets, hrun, happly, hresult, hdemand, ← hrk]
    exact ⟨a', L', (runs_getNode h.live hr hc hn).bind (hflags.bind (.pure _)), hinv, .same hblocks⟩
  · refine meets_of_same h ?_ (happly.trans (modify_of_not_mem hk _)) hdemand
    rw [hrun, hresult]
    exact (runs_getNode_none h.live hk).bind ((Runs.pure _).bind (.pure _))

/-- **One operation** does what it means, on a database with the link invariant. -/
theorem runs (op : Op) (h : DbInv a t L) (hs : a.On s) (hok : op.Allowed a t L) :
    op.Meets a t L := by
  cases op with
  | addRootNode key data flags => exact meets_addRootNode h hs hok
  | addChild parent key data flags => exact meets_addChild h hs hok
  | removeNode key => exact meets_removeNode h hs
  | removeNodeByKey key => exact meets_removeNodeByKey h hs
  | updateNode key newParent data =>
    cases newParent with
    | none => exact meets_updateNode h hs hok
    | some parent => exact meets_updateNode_parent h hs hok
  | turnFlagsOn key flags => exact meets_turnFlags (flags ||| ·) h hs rfl rfl rfl rfl
  | turnFlagsOff key flags => exact meets_turnFlags (· &&& ~~~flags) h hs rfl rfl rfl rfl

end Op

end OpenWbem.Hdb
