import OpenWbem.Hdb.Space

/-!
# Node objects that a caller holds

A caller keeps node objects between operations. Meanwhile the node can be removed, or be moved
because it has grown, so the block at its remembered offset can be free or belong to another node.

`updateNode` with a new parent writes the node, takes it out of the list of its old parent, and only
then reads the new parent again. If that has vanished, the node is left in no list at all.

## Main definitions

* `HDB.Holds` — an object that a caller holds.
* `HDB.Vanished` — a node that is no longer on file at its remembered offset.
* `HDB.FailsCleanly` — an update with a new parent fails, and the file is as consistent as before.

## Main results

* `LiveInv.not_consistent_unlinked` — a file is not consistent if a node has left its list, but not
  the index.
* `failsCleanly_iff` — **a vanished parent** is reported, and leaves the file consistent, only if
  the node has vanished too.
-/

namespace OpenWbem.Hdb

open Bytes Extents Prog Cells Hierarchy LiveInv HDBHandle

namespace HDB

/-- The node is on file at its remembered offset. -/
def OnFile (s : HDB) (nd : HDBNodeData) : Prop := s.index.find nd.key = some nd.offset

/-- There is a block at an offset: a free one, or the one of a node. -/
def IsBlock (s : HDB) (o : Int32) : Prop := s.OnFreeList o ∨ ∃ k, s.index.find k = some o

/-- The node is no longer on file at its remembered offset. -/
def Vanished (s : HDB) (nd : HDBNodeData) : Prop := s.IsBlock nd.offset ∧ ¬ s.OnFile nd

/-- What is known of an object that a caller holds: it has never been written, or there is a block
at its offset. If nothing was written since it was read, it is what can be read there. -/
structure Holds (s : HDB) (nd : HDBNodeData) : Prop where
  key : (0 : UInt8) ∉ nd.key
  place : nd.offset ≤ 0 ∨ s.IsBlock nd.offset
  sync : 0 < nd.offset → nd.version = s.version → (exec (readNode nd.offset) s).1 = .ok (some nd)

/-- The link of a node to its parent. -/
def parentOf (s : HDB) (k : List UInt8) : Option Int32 :=
  ((s.index.find k).bind s.block).map HDBBlock.parent

/-- An update with a new parent reports a failure, the links of the file are in order, and the node
has the parent that it had. -/
structure FailsCleanly (s : HDB) (nd pnd : HDBNodeData) (data : UpdateData) : Prop where
  fails : (exec (updateNode (some nd) (some pnd) data.dataLen data.data) s).1 ≠ .ok true
  consistent :
    (exec (updateNode (some nd) (some pnd) data.dataLen data.data) s).2.Consistent
  parent : (exec (updateNode (some nd) (some pnd) data.dataLen data.data) s).2.parentOf
    nd.key = s.parentOf nd.key

end HDB

variable {a a' : Cells} {s : HDB} {t : NodeTable} {L : List Int32} {o x : Int32} {c : Cell HDBBlock}
  {k : List UInt8} {q : Option (List UInt8)} {nd pnd : HDBNodeData} {data : UpdateData}
  {r : Row (List UInt8) NodeVal}

/-! ### Objects and blocks -/

/-- The index has the keys of the table. -/
lemma DbInv.find_iff (h : DbInv a t L) (hs : a.On s) :
    s.index.find k = some o ↔ k ∈ keys t ∧ a.loc k = o := by
  rw [hs.memory.index]
  by_cases hk : k ∈ keys t
  · rw [h.live.find_eq hk, Option.some.injEq]
    exact (and_iff_right hk).symm
  · rw [h.live.find_eq_none hk]
    exact iff_of_false (by simp) fun h' => hk h'.1

/-- Blocks are nodes or free. -/
lemma DbInv.isBlock_iff (h : DbInv a t L) (hs : a.On s) : s.IsBlock o ↔ Claimed a t L o := by
  rw [HDB.IsBlock, h.free.onFreeList_iff hs]
  exact or_congr_right (exists_congr fun k => h.find_iff hs)

/-- The block of an object is free, or belongs to another node. -/
lemma DbInv.cell_of_gone (h : DbInv a t L) (ho : Claimed a t L nd.offset)
    (hgone : ¬ (nd.key ∈ keys t ∧ a.loc nd.key = nd.offset)) : ∃ c, a.heap nd.offset = some c ∧
      (c.hdr.isFree ∨ ∃ k v, k ≠ nd.key ∧ (0 : UInt8) ∉ k ∧ NodeCell k v c) := by
  rcases ho with ho | ⟨k, hk, ho⟩
  · obtain ⟨c, hc, hfree⟩ := h.free.cell ho
    exact ⟨c, hc, .inl hfree⟩
  · obtain ⟨c, v, hc, hn⟩ := h.live.heap_loc hk
    refine ⟨c, ho ▸ hc, .inr ⟨k, v, ?_, (h.live.key hk).2, hn⟩⟩
    rintro rfl
    exact hgone ⟨hk, ho⟩

/-- An object that has been written, and that a caller holds. -/
structure Held (a : Cells) (t : NodeTable) (L : List Int32) (nd : HDBNodeData) : Prop where
  key : (0 : UInt8) ∉ nd.key
  place : Claimed a t L nd.offset
  sync : nd.version = a.version → nd.key ∈ keys t ∧ ∃ v, a.Current nd.key v nd

/-- An object of the code is held. -/
lemma HDB.Holds.held (hold : s.Holds nd) (h : DbInv a t L) (hs : a.On s) (hpos : 0 < nd.offset) :
    Held a t L nd := by
  have hplace := (h.isBlock_iff hs).1 (hold.place.resolve_left (Int32.not_le.2 hpos))
  refine ⟨hold.key, hplace, fun hver => ?_⟩
  have hread := hold.sync hpos (hver.trans hs.memory.version.symm)
  rcases hplace with hfree | ⟨k, hk, ho⟩
  · obtain ⟨c, hc, hfree⟩ := h.free.cell hfree
    obtain ⟨s', hrun, -⟩ := runs_readNode_free hc hfree s hs
    rw [hrun] at hread
    cases hread
  · obtain ⟨c, v, hc, hn⟩ := h.live.heap_loc hk
    obtain ⟨s', hrun, -⟩ := runs_readNode hc hn s hs
    rw [← ho, hrun] at hread
    obtain rfl : a.nodeObj (a.loc k) c k v = nd := by simpa using hread
    exact ⟨hk, v, c, hc, hn, rfl⟩

/-- A cell has one value. -/
lemma NodeCell.val_unique {v v' : NodeVal} (h : NodeCell k v c) (h' : NodeCell k v' c) :
    v = v' := by
  have hflags := h.flags.symm.trans h'.flags
  have hdata := List.append_cancel_left (h.body.symm.trans h'.body)
  cases v
  cases v'
  rw [NodeVal.mk.injEq]
  exact ⟨hflags, hdata⟩

/-- **Reading an object again** gives the object of the node that is on file, or a null node. -/
lemma Held.reload_cases (hold : Held a t L nd) (h : DbInv a t L) :
    (∃ r ∈ t, ∃ c, nd.key = r.key ∧ nd.offset = a.loc r.key ∧ a.heap (a.loc r.key) = some c ∧
      NodeCell r.key r.val c ∧ Runs a.On (reload nd) (.ok (some (a.rowObj c r))) a.On) ∨
    (¬ (nd.key ∈ keys t ∧ a.loc nd.key = nd.offset)) ∧ Runs a.On (reload nd) (.ok none) a.On := by
  by_cases hon : nd.key ∈ keys t ∧ a.loc nd.key = nd.offset
  · obtain ⟨r, hr, hrk⟩ := mem_keys.1 hon.1
    obtain ⟨c, hc, hn⟩ := h.live.cell hr
    refine .inl ⟨r, hr, c, hrk.symm, by rw [hrk]; exact hon.2.symm, hc, hn, ?_⟩
    by_cases hver : nd.version = a.version
    · obtain ⟨-, v, c', hc', hn', hnd⟩ := hold.sync hver
      rw [← hrk, hc, Option.some.injEq] at hc'
      subst hc'
      rw [← hrk] at hn'
      have heq : nd = a.rowObj c r := by
        rw [hnd, ← hrk, hn'.val_unique hn]
        rfl
      rw [← heq]
      exact runs_reload (.inr hver)
    · have hrun := runs_reload_stale hon.2.symm (by rw [← hrk]; exact hc)
        (by rw [← hrk]; exact hn) hold.key hver
      rwa [← hrk] at hrun
  · refine .inr ⟨hon, ?_⟩
    obtain ⟨c, hc, hcell⟩ := h.cell_of_gone hold.place hon
    refine runs_reload_gone hc hold.key (fun hver => hon ?_) hcell
    obtain ⟨hk, v, c', -, -, hnd⟩ := hold.sync hver
    exact ⟨hk, by rw [hnd]; rfl⟩

/-! ### A node without a list -/

/-- Every block of a walk is where the links in it say: it is the first of its list, or its previous
sibling or its parent leads to it. -/
lemma HDB.Siblings.linked {parent prev first last : Int32} {l : List Int32}
    (h : s.Siblings parent prev first last l) (hx : x ∈ l) : ∃ b, s.block x = some b ∧
      (b.parent = parent ∧ b.prevSib = prev ∧ first = x ∨
        (∃ d, s.block b.prevSib = some d ∧ d.nextSib = x) ∨
        ∃ d, s.block b.parent = some d ∧ d.firstChild = x) := by
  induction h with
  | nil => cases hx
  | @cons _ _ o _ b _ _ hb _ hparent hprev _ _ ihbelow ihrest =>
    rw [List.cons_append, List.mem_cons, List.mem_append] at hx
    rcases hx with rfl | hx | hx
    · exact ⟨b, hb, .inl ⟨hparent, hprev, rfl⟩⟩
    · obtain ⟨d, hd, ⟨hp, -, hf⟩ | hlink⟩ := ihbelow hx
      · exact ⟨d, hd, .inr (.inr ⟨b, hp ▸ hb, hf⟩)⟩
      · exact ⟨d, hd, .inr hlink⟩
    · obtain ⟨d, hd, ⟨-, hp, hf⟩ | hlink⟩ := ihrest hx
      · exact ⟨d, hd, .inr (.inl ⟨b, hp ▸ hb, hf⟩)⟩
      · exact ⟨d, hd, .inr hlink⟩

/-- **A node that has left its list, but not the index**: the file is not consistent.

**Proof sketch.** The links in the block of the node are the old ones. In a consistent file one of
its old neighbours, or the header of the file, leads to the block. But all of them lead to the next
sibling now. -/
lemma LiveInv.not_consistent_unlinked (h : LiveInv a t) (hk : k ∈ kids t q) (hl : HasLinks a k nd)
    (hs : (a.unlinked nd).On s) : ¬ s.Consistent := by
  rintro ⟨live, free, hlinks⟩
  have hkk := mem_keys_of_kids hk
  obtain ⟨c, v, hc, -⟩ := h.heap_loc hkk
  have hpos := hs.pos (heap_unlinked hc nd)
  have hfind : s.index.find k = some (a.loc k) := by
    rw [hs.memory.index, index_unlinked, h.find_eq hkk]
  have hnext : nd.blk.nextSib ≠ a.loc k := by
    rw [hl.next]
    rcases h.next_cases hk with h1 | ⟨y, hy, hne, heq⟩
    · rw [h1]
      exact fun h1 => absurd (h1 ▸ hpos : (0 : Int32) < -1) (by decide)
    · rw [← heq]
      exact fun heq => hne (h.inj (mem_keys_of_kids hy) hkk heq)
  -- a block that can be read where a link of the node leads to
  have hblock : ∀ {y d}, IsLink a y → s.block y = some d → ∃ e, a.heap y = some e ∧
      d = hdrUnlinked nd y e.hdr := by
    rintro y d (rfl | ⟨e, he⟩) hd
    · cases hd
    · exact ⟨e, he, Option.some.inj (hd.symm.trans (hs.block (heap_unlinked he nd)))⟩
  have hparent : nd.blk.parent = c.hdr.parent := hl.parent.trans (field_eq hc)
  have hprev : (hdrUnlinked nd (a.loc k) c.hdr).prevSib = nd.blk.prevSib :=
    (if_neg (Ne.symm hnext)).trans ((field_eq hc).symm.trans hl.prev.symm)
  obtain ⟨b, hb, hcases⟩ := hlinks.nodes.linked (hlinks.index.1 hfind).1
  obtain rfl := Option.some.inj ((hs.block (heap_unlinked hc nd)).symm.trans hb)
  rcases hcases with ⟨hroot, -, hfirst⟩ | ⟨d, hd, htarget⟩ | ⟨d, hd, htarget⟩
  · have hnone : nd.blk.parent = -1 := hparent.trans hroot
    rw [hs.memory.hdr, hdr_unlinked, if_neg (by rw [hnone]; decide)] at hfirst
    dsimp only at hfirst
    split_ifs at hfirst with hold
    · exact hnext hfirst
    · exact hold (hfirst.trans hl.offset.symm)
  · rw [hprev] at hd
    obtain ⟨e, -, rfl⟩ := hblock (hl.prev ▸ h.isLink hk (.inr (.inl rfl))) hd
    exact hnext ((if_pos rfl).symm.trans htarget)
  · have hd' : s.block nd.blk.parent = some d := by rw [hparent]; exact hd
    obtain ⟨e, he, rfl⟩ := hblock (hl.parent ▸ h.isLink hk (.inr (.inr (.inl rfl)))) hd'
    have hup := hs.pos (heap_unlinked he nd)
    simp only [hdrUnlinked, hup, true_and] at htarget
    split_ifs at htarget with hold
    · exact hnext htarget
    · exact hold (htarget.trans hl.offset.symm)

/-! ### A new parent that has vanished -/

/-- Blocks stay blocks. -/
lemma Balance.claimed {m : Option ℕ} {t' : NodeTable} {L' : List Int32}
    (h : Balance a t L m a' t' L') (hx : Claimed a t L x) : Claimed a' t' L' x := by
  cases h with
  | same h => exact h.mem.2 hx
  | taken h => exact h.mem.2 (.inr hx)

/-- **`updateData`** for a node that is on file, with a parent that has vanished: either it reports
success, or it throws when the node has left its list.

**Proof sketch.** The node is written first. Its old parent, or the node itself, can be in the block
where the new parent has been. Otherwise the parent is null after it was read again. -/
lemma runs_updateData_vanished (h : DbInv a t L) (hs : a.On s) (hr : r ∈ t)
    (hc : a.heap (a.loc r.key) = some c) (hn : NodeCell r.key r.val c)
    (hfit : needAfter r data.dataLen data.data ≤ c.hdr.size.toNat ∨
      Fits a L (needAfter r data.dataLen data.data))
    (hkey : (0 : UInt8) ∉ pnd.key) (hplace : Claimed a t L pnd.offset)
    (hgone : ¬ (pnd.key ∈ keys t ∧ a.loc pnd.key = pnd.offset))
    (hver : pnd.version ≠ a.version + 1) :
    (∃ (nd : HDBNodeData) (a' : Cells),
      Runs a.On (updateData (a.rowObj c r) (some pnd) data.dataLen data.data)
      (.ok (some nd)) a'.On) ∨
    ∃ a' t' nd, LiveInv a' t' ∧ r.key ∈ kids t' r.parent ∧ HasLinks a' r.key nd ∧
      Runs a.On (updateData (a.rowObj c r) (some pnd) data.dataLen data.data)
        (.error (.hdb "null node")) (a'.unlinked nd).On := by
  have hpos := h.live.loc_pos hs (mem_keys.2 ⟨r, hr, rfl⟩)
  obtain ⟨nd, a1, L1, hrun, hrev⟩ := runs_writeNode_data h hs hr hc hn hfit
  obtain ⟨c1, hc1, hn1, hnd⟩ := hrev.obj
  set t1 := modify t r.key fun _ =>
    { r.val with data := updatedBuffer r.val.data data.dataLen data.data } with ht1
  have hinv : DbInv a1 t1 L1 := ht1 ▸ hrev.inv
  have hk1 : r.key ∈ kids t1 r.parent := by rw [ht1, kids_modify]; exact kids_of_mem hr
  have hkeys : keys t1 = keys t := by rw [ht1, keys_modify]
  have hl : HasLinks a1 r.key nd := by
    rw [hnd]
    exact .of_heap hc1 rfl rfl
  have hupdate : ∀ {e b}, Runs a1.On (updateParent nd pnd) e b →
      Runs a.On (updateData (a.rowObj c r) (some pnd) data.dataLen data.data) (some <$> e) b := by
    intro e b hp
    refine (runs_reload (.inr rfl)).bind ?_
    dsimp only
    rw [if_pos (by exact hpos)]
    refine hrun.bind ?_
    cases e with
    | error e => exact hp.bind_error
    | ok nd' => exact hp.map _
  by_cases hsame : nd.blk.parent = pnd.offset
  · refine .inl ⟨nd, a1, hupdate (e := .ok nd) ?_⟩
    rw [updateParent, if_pos hsame]
    exact .pure _
  have hdetach := runs_detachFromParent hinv.live hk1 hl
  have hver1 : pnd.version ≠ (a1.unlinked nd).version := by rwa [version_unlinked, hrev.version]
  have hplace1 : Claimed a1 t1 L1 pnd.offset := ht1 ▸ hrev.blocks.claimed hplace
  by_cases hself : pnd.key ∈ keys t1 ∧ a1.loc pnd.key = pnd.offset
  · have hpk : pnd.key = r.key := by
      by_contra hne
      rw [hkeys, hrev.loc hne] at hself
      exact hgone hself
    have hoff : pnd.offset = a1.loc r.key := by rw [← hpk, hself.2]
    have hcp := heap_unlinked hc1 nd
    have hreload := runs_reload_stale hoff hcp (by rw [hpk]; exact hn1.of_hdr rfl) hkey hver1
    have hplace := IsPlace.some (mem_keys_of_kids hk1)
    have htail : IsLink (a1.unlinked nd) (hdrUnlinked nd (a1.loc r.key) c1.hdr).lastChild := by
      have hself : (hdrUnlinked nd (a1.loc r.key) c1.hdr).lastChild = a1.tailOf (some r.key) := by
        refine (if_neg fun hx => ?_).trans (field_eq hc1).symm
        exact hsame (hx.2.1.symm.trans hoff.symm)
      rw [hself]
      exact hinv.live.isLink_tail hplace fun _ hd => ⟨_, heap_unlinked hd nd⟩
    have hadopt :=
      fun v => runs_addToNewParent (detached nd) ((a1.unlinked nd).nodeObj (a1.loc r.key)
      ⟨hdrUnlinked nd (a1.loc r.key) c1.hdr, c1.body⟩ pnd.key v) (hl.offset ▸ hcp)
      (by rw [hnd]; rfl) hcp rfl htail
    obtain ⟨nd', a', hmoved⟩ : ∃ (nd' : HDBNodeData) (a' : Cells),
        Runs a1.On (updateParent nd pnd) (.ok nd') a'.On := by
      rw [updateParent, if_neg hsame]
      exact ⟨_, _, hdetach.bind (hreload.bind ((hadopt _).bind (.pure _)))⟩
    exact .inl ⟨nd', a', hupdate hmoved⟩
  · obtain ⟨d, hd, hcell⟩ := hinv.cell_of_gone hplace1 hself
    have hreload := runs_reload_gone (heap_unlinked hd nd) hkey hver1 (hcell.imp_right (by
      rintro ⟨k', v, hne, h0, hn'⟩
      exact ⟨k', v, hne, h0, hn'.of_hdr rfl⟩))
    refine .inr ⟨a1, t1, nd, hinv.live, hk1, hl, hupdate (e := .error (.hdb "null node")) ?_⟩
    rw [updateParent, if_neg hsame]
    exact hdetach.bind (hreload.bind (.throw _))

section update

variable (h : DbInv a t L) (hs : a.On s) (hnd : s.Holds nd)

include h hs hnd in
/-- **An update of a node that is on file**, or has never been written, does not fail cleanly. -/
lemma not_failsCleanly (hpnd : s.Holds pnd) (hgone : s.Vanished pnd)
    (hver : pnd.version ≠ s.version + 1)
    (hroom : ∀ key : NodeKey, key.1 = nd.key → (Op.updateNode key none data).HasRoom s)
    (hon : ¬ s.Vanished nd) : ¬ s.FailsCleanly nd pnd data := by
  intro hclean
  by_cases hpos : 0 < nd.offset
  · have hheld := hnd.held h hs hpos
    have hon' : nd.key ∈ keys t ∧ a.loc nd.key = nd.offset := by
      by_contra hne
      exact hon ⟨(h.isBlock_iff hs).2 hheld.place, fun h' => hne ((h.find_iff hs).1 h')⟩
    obtain ⟨r, hr, c, hkey, -, hc, hn, hreload⟩ := (hheld.reload_cases h).resolve_right
      fun hne => hne.1 hon'
    have hk : r.key ∈ keys t := mem_keys.2 ⟨r, hr, rfl⟩
    have hfit := ((hroom ⟨r.key, h.live.key hk⟩ hkey.symm).allowed h hs trivial).1 r hr rfl
    rw [show a.size (a.loc r.key) = c.hdr.size from field_eq hc] at hfit
    have hupdate : ∀ {e b},
        Runs a.On (updateData (a.rowObj c r) (some pnd) data.dataLen data.data) e b →
        Runs a.On (updateNode (some nd) (some pnd) data.dataLen data.data)
          (Option.isSome <$> e) b := by
      intro e b hrun
      rw [updateNode, if_pos hpos]
      refine hreload.bind ?_
      cases e with
      | error e => exact hrun.bind_error
      | ok nd' => exact hrun.map _
    rcases runs_updateData_vanished h hs hr hc hn hfit hpnd.key ((h.isBlock_iff hs).1 hgone.1)
        (fun hon => hgone.2 ((h.find_iff hs).2 hon)) (by rwa [← hs.memory.version]) with
      ⟨nd', a', hrun⟩ | ⟨a', t', nd', hlive, hkids, hl, hrun⟩
    · obtain ⟨s', hexec, -⟩ := hupdate hrun s hs
      exact hclean.fails (by rw [hexec]; rfl)
    · obtain ⟨s', hexec, hs'⟩ := hupdate hrun s hs
      refine hlive.not_consistent_unlinked hkids hl hs' ?_
      have hcons := hclean.consistent
      rwa [hexec] at hcons
  · obtain ⟨s', hexec, -⟩ :=
      (runs_reload (.inl (Int32.not_lt.1 hpos)) : Runs a.On (reload nd) _ _) s hs
    refine hclean.fails ?_
    rw [updateNode, if_neg hpos, map_eq_pure_bind, updateData, bind_assoc, exec_bind_of_ok hexec]
    dsimp only
    rw [if_neg (hpos)]
    rfl

include h hs hnd in
/-- **An update of a node that has vanished** does nothing. -/
lemma failsCleanly_of_vanished (hvan : s.Vanished nd) : s.FailsCleanly nd pnd data := by
  obtain ⟨d, hd⟩ := ((h.isBlock_iff hs).1 hvan.1).heap h
  have hpos := hs.pos hd
  obtain ⟨r, hr, c, hkey, hoff, -⟩ | ⟨-, hreload⟩ := (hnd.held h hs hpos).reload_cases h
  · have hk : nd.key ∈ keys t := by rw [hkey]; exact mem_keys.2 ⟨r, hr, rfl⟩
    exact absurd ((h.find_iff hs).2 ⟨hk, by rw [hkey, hoff]⟩) hvan.2
  have hrun : Runs a.On (updateNode (some nd) (some pnd) data.dataLen data.data)
      (.ok false) a.On := by
    rw [updateNode, if_pos hpos]
    exact hreload.bind (.pure _)
  obtain ⟨s', hexec, hs'⟩ := hrun s hs
  refine ⟨?_, ?_, ?_⟩ <;> rw [hexec]
  · simp
  · exact HDB.Stores.consistent ⟨a, L, hs', h⟩
  · rw [HDB.parentOf, HDB.parentOf, hs'.memory.index, hs.memory.index]
    by_cases hk : nd.key ∈ keys t
    · obtain ⟨c, v, hc, -⟩ := h.live.heap_loc hk
      rw [h.live.find_eq hk, Option.bind_some, Option.bind_some, hs'.block hc, hs.block hc]
    · rw [h.live.find_eq_none hk]
      rfl

end update

/-- **A vanished parent** leads to a clean failure iff the node has vanished too. Otherwise the
update reports success, or it leaves the node in no list. -/
theorem failsCleanly_iff (h : s.Stores t) (hnd : s.Holds nd) (hpnd : s.Holds pnd)
    (hgone : s.Vanished pnd) (hver : pnd.version ≠ s.version + 1)
    (hroom : ∀ key : NodeKey, key.1 = nd.key → (Op.updateNode key none data).HasRoom s) :
    s.FailsCleanly nd pnd data ↔ s.Vanished nd := by
  obtain ⟨a, L, hs, hinv⟩ := h
  refine ⟨fun hclean => ?_, failsCleanly_of_vanished hinv hs hnd⟩
  by_contra hon
  exact not_failsCleanly hinv hs hnd hpnd hgone hver hroom hon hclean

/-- The key `c`. -/
def keyC : NodeKey := ⟨[99], by decide⟩

/-- The operations that add the root nodes `a` and `c`, and a child `b` of `a`. -/
def familyOps : List Op :=
  [.addRootNode keyA [] 0, .addChild keyA keyB [] 0, .addRootNode keyC [] 0]

/-- The database with these nodes. -/
def family : HDB := familyOps.foldl (fun s op => op.step s) createFile

/-- The same database, when `c` has been removed. -/
def smallFamily : HDB := (Op.removeNodeByKey keyC).step family

/-- The object of a node that a caller gets. -/
def HDB.object (s : HDB) (key : NodeKey) : HDBNode :=
  (exec (getNode key) s).1.toOption.join

/-- An update without data. -/
def noData : UpdateData := ⟨0, none, by simp⟩

/-- The database when both `c` and `b` have been removed. -/
def singleFamily : HDB := (Op.removeNodeByKey keyB).step smallFamily

/-- The bounds are met by the run to these databases. -/
lemma reaches_smallFamily : Reaches Op.step (fun op s => op.Outside s ∧ op.HasRoom s) createFile
    (familyOps ++ [.removeNodeByKey keyC]) smallFamily := by
  refine .snoc (.snoc (.snoc (.snoc .nil ⟨trivial, fun _ => ⟨by decide, .inl ?_⟩⟩)
    ⟨trivial, fun _ _ => ⟨by decide, .inl ?_⟩⟩) ⟨trivial, fun _ => ⟨by decide, .inl ?_⟩⟩)
    ⟨trivial, trivial⟩
  · decide +kernel
  · decide +kernel
  · decide +kernel

/-- The versions of the databases. -/
lemma version_families : smallFamily.version = 5 ∧ singleFamily.version = 6 := by decide +kernel

/-- The objects of `b` and `c` that were read before `c` was removed. -/
lemma object_family : (∃ nd, family.object keyB = some nd ∧ nd.key = keyB.1 ∧ nd.offset = 78 ∧
      nd.version = 4) ∧
    ∃ nd, family.object keyC = some nd ∧ nd.key = keyC.1 ∧ nd.offset = 124 ∧ nd.version = 4 := by
  have hb : (family.object keyB).any fun nd => nd.key = keyB.1 ∧ nd.offset = 78 ∧
    nd.version = 4 := by decide +kernel
  have hc : (family.object keyC).any fun nd => nd.key = keyC.1 ∧ nd.offset = 124 ∧
    nd.version = 4 := by decide +kernel
  simp only [Option.any_eq_true, decide_eq_true_eq] at hb hc
  exact ⟨hb, hc⟩

/-- A node whose key is in no index has vanished, if its block is free. -/
lemma HDB.Vanished.of_onFreeList (h : s.OnFreeList nd.offset) (hkey : s.index.find nd.key = none) :
    s.Vanished nd := by
  refine ⟨.inl h, ?_⟩
  rw [HDB.OnFile, hkey]
  simp

/-- `c` has vanished from the database without it. -/
lemma vanished_smallFamily (hkey : nd.key = keyC.1) (ho : nd.offset = 124) :
    smallFamily.Vanished nd := by
  have hfree : smallFamily.hdrBlock.firstFree = 124 := by decide +kernel
  refine .of_onFreeList ?_ (by rw [hkey]; decide +kernel)
  rw [ho, ← hfree]
  exact .head (by rw [hfree]; decide)

/-- `b` and `c` have vanished from the database without both. -/
lemma vanished_singleFamily (hkey : nd.key = keyB.1) (ho : nd.offset = 78)
    (hpkey : pnd.key = keyC.1)
    (hpo : pnd.offset = 124) : singleFamily.Vanished nd ∧ singleFamily.Vanished pnd := by
  have hfree : singleFamily.hdrBlock.firstFree = 78 := by decide +kernel
  have hhead : singleFamily.OnFreeList 78 := hfree ▸ .head (by rw [hfree]; decide)
  have hnext : (singleFamily.block 78).any fun b => b.nextSib = 124 := by decide +kernel
  obtain ⟨b, hb, hb124⟩ := (Option.any_eq_true _ _).1 hnext
  replace hb124 := of_decide_eq_true hb124
  constructor
  · exact .of_onFreeList (ho ▸ hhead) (by rw [hkey]; decide +kernel)
  · exact .of_onFreeList (hpo ▸ hb124 ▸ hhead.next hb (by rw [hb124]; decide))
      (by rw [hpkey]; decide +kernel)

/-- Both objects are out of date, so they will be read again. -/
lemma HDB.Holds.of_stale (hkey : (0 : UInt8) ∉ nd.key) (ho : s.IsBlock nd.offset)
    (hver : nd.version ≠ s.version) : s.Holds nd := ⟨hkey, .inr ho, fun _ h => absurd h hver⟩

/-- `b` is to get the parent `c`, by objects that were read before both were removed. -/
theorem failsCleanly_singleFamily : ∃ nd pnd, family.object keyB = some nd ∧
    family.object keyC = some pnd ∧ singleFamily.FailsCleanly nd pnd noData := by
  obtain ⟨⟨nd, hobj, hkey, ho, hver⟩, pnd, hpobj, hpkey, hpo, hpver⟩ := object_family
  obtain ⟨hvan, hpvan⟩ := vanished_singleFamily hkey ho hpkey hpo
  have hold : singleFamily.Holds nd := .of_stale (by rw [hkey]; exact keyB.2.2) hvan.1
    (by rw [hver, version_families.2]; decide)
  have hpold : singleFamily.Holds pnd := .of_stale (by rw [hpkey]; exact keyC.2.2) hpvan.1
    (by rw [hpver, version_families.2]; decide)
  have hreaches : Reaches Op.step (fun op s => op.Outside s ∧ op.HasRoom s) createFile
      (familyOps ++ [.removeNodeByKey keyC] ++ [.removeNodeByKey keyB]) singleFamily :=
    .snoc reaches_smallFamily ⟨trivial, trivial⟩
  refine ⟨nd, pnd, hobj, hpobj, (failsCleanly_iff (stores_of_reaches hreaches) hold hpold hpvan
    (by rw [hpver, version_families.2]; decide) fun key hk o ho => ?_).2 hvan⟩
  rw [hk, hkey, show singleFamily.index.find keyB.1 = none by decide +kernel] at ho
  cases ho

/-- **A node in no list**: `b` is a child of `a`. Its parent is to be `c`, whose object was read
before `c` was removed. -/
theorem not_failsCleanly_smallFamily :
    Reaches Op.step (fun op s => op.Outside s ∧ op.HasRoom s) createFile
        (familyOps ++ [.removeNodeByKey keyC]) smallFamily ∧
      ∃ nd pnd, family.object keyB = some nd ∧ family.object keyC = some pnd ∧
      smallFamily.Holds nd ∧
        smallFamily.Holds pnd ∧ smallFamily.Vanished pnd ∧
        ¬ smallFamily.FailsCleanly nd pnd noData := by
  obtain ⟨⟨nd, hobj, hkey, ho, hver⟩, pnd, hpobj, hpkey, hpo, hpver⟩ := object_family
  have hfind : smallFamily.index.find keyB.1 = some 78 := by decide +kernel
  have hvan := vanished_smallFamily hpkey hpo
  have hold : smallFamily.Holds nd :=
    .of_stale (by rw [hkey]; exact keyB.2.2) (.inr ⟨keyB.1, by rw [hfind, ho]⟩)
      (by rw [hver, version_families.1]; decide)
  have hpold : smallFamily.Holds pnd := .of_stale (by rw [hpkey]; exact keyC.2.2) hvan.1
    (by rw [hpver, version_families.1]; decide)
  obtain ⟨a, L, hs, hinv⟩ := stores_of_reaches reaches_smallFamily
  refine ⟨reaches_smallFamily, nd, pnd, hobj, hpobj, hold, hpold, hvan,
    not_failsCleanly hinv hs hold hpold hvan (by rw [hpver, version_families.1]; decide)
      (fun key hk o ho => .inl ?_) fun hnd => hnd.2 ?_⟩
  · rw [hk, hkey, hfind, Option.some.injEq] at ho
    rw [hk, hkey, ← ho]
    decide +kernel
  · rw [HDB.OnFile, hkey, hfind, ho]

end OpenWbem.Hdb
