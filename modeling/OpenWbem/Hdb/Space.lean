import OpenWbem.Base.Tiling
import OpenWbem.Hdb.Integrity

/-!
# Space in the data file

A record that needs another block gets the smallest free block that is large enough, or a place at
the end of the file. The size that is recorded for it is the one it asked for, also if the block was
larger. Then the rest of the block belongs to nobody, and is never used again.

## Main definitions

* `HDB.Tiled` — the live blocks and the free blocks tile the file behind its header.
* `Op.takes`, `Op.FitsExactly` — the block that an operation asks for, and that it gets one of that
  size.

## Main results

* `tiled_iff_of_reaches` — **a run loses no space** iff every block that is taken from the free
  list has the size that was asked for.
-/

namespace OpenWbem.Hdb

open Bytes Extents Prog Cells Hierarchy

namespace HDB

/-- The data of the node at an offset. -/
def dataAt (s : HDB) (o : Int32) : List UInt8 :=
  match (exec (readNode o) s).1 with
  | .ok (some nd) => nd.bfr
  | _ => []

/-- The live blocks and the free blocks tile the file behind its header block. -/
structure TiledAs (s : HDB) (live free : List Int32) : Prop where
  linked : s.LinkedAs live free
  tiles : Tiles (live ++ free) (fun o => o.toInt.toNat) (fun o => (s.sizeAt o).toNat) headerSize
    s.file.bytes.length
  sum : ((live ++ free).map fun o => (s.sizeAt o).toNat).sum = s.file.bytes.length - headerSize

/-- No byte behind the header block is lost. -/
def Tiled (s : HDB) : Prop := ∃ live free, s.TiledAs live free

end HDB

namespace Op

/-- The size of the record that an operation writes to another place than before, if it does. -/
def takes (s : HDB) : Op → Option ℕ
  | addRootNode key data _ =>
    if (s.index.find key.1).isSome then none
      else some (blockSize + (key.1.length + 1 + data.length))
  | addChild parent key data _ =>
    if (s.index.find parent.1).isSome ∧ ¬ (s.index.find key.1).isSome then
      some (blockSize + (key.1.length + 1 + data.length))
    else none
  | updateNode key _ data =>
    (s.index.find key.1).bind fun o =>
      let n := blockSize +
        (key.1.length + 1 + (updatedBuffer (s.dataAt o) data.dataLen data.data).length)
      if n ≤ (s.sizeAt o).toNat then none else some n
  | removeNode _ | removeNodeByKey _ | turnFlagsOn _ _ | turnFlagsOff _ _ => none

/-- If there is a free block that is large enough for the record, there is one of exactly its
size. -/
def FitsExactly (s : HDB) (op : Op) : Prop :=
  ∀ n ∈ op.takes s, (∃ x, s.OnFreeList x ∧ n ≤ (s.sizeAt x).toNat) →
    ∃ x, s.OnFreeList x ∧ (s.sizeAt x).toNat = n

end Op

variable {a a' : Cells} {s : HDB} {t t' : NodeTable} {L L' : List Int32} {o x : Int32}
    {m : Option ℕ}
  {op : Op} {ops : List Op}

/-! ### The lists of blocks -/

/-- The walk along siblings is determined by where it starts. -/
lemma HDB.Siblings.unique {parent prev first last last' : Int32} {l l' : List Int32}
    (h : s.Siblings parent prev first last l) (h' : s.Siblings parent prev first last' l') :
    l = l' := by
  induction h generalizing last' l' with
  | nil =>
    cases h' with
    | nil => rfl
    | cons hb => exact absurd hb (by rw [HDB.block]; simp)
  | cons hb _ _ _ _ _ ihbelow ihrest =>
    cases h' with
    | nil => exact absurd hb (by rw [HDB.block]; simp)
    | cons hb' _ _ _ hbelow hrest =>
      obtain rfl := Option.some.inj (hb.symm.trans hb')
      rw [ihbelow hbelow, ihrest hrest]

/-- There is one free list. -/
lemma HDB.FreeChain.unique {prev first : Int32} {l l' : List Int32} (h : s.FreeChain prev first l)
    (h' : s.FreeChain prev first l') : l = l' := by
  induction h generalizing l' with
  | nil =>
    cases h' with
    | nil => rfl
    | cons hb => exact absurd hb (by rw [HDB.block]; simp)
  | cons hb _ _ _ ih =>
    cases h' with
    | nil => exact absurd hb (by rw [HDB.block]; simp)
    | cons hb' _ _ hrest =>
      obtain rfl := Option.some.inj (hb.symm.trans hb')
      rw [ih hrest]

/-- The walk along the free list visits the free blocks. -/
lemma FreeInv.onFreeList_iff (hL : FreeInv a L) (hs : a.On s) : s.OnFreeList x ↔ x ∈ L := by
  refine ⟨hL.mem_of_onFreeList hs, fun hx => ?_⟩
  have hne : x ≠ -1 := fun h1 => hL.neg_one_not_mem hs (h1 ▸ hx)
  obtain ⟨l, l', hsplit⟩ := List.append_of_mem hx
  induction l using List.reverseRecOn generalizing x l' with
  | nil =>
    have hfirst : s.hdrBlock.firstFree = x := by
      rw [hs.memory.hdr, hL.head, hsplit]
      rfl
    rw [← hfirst]
    exact .head (by rw [hfirst]; exact hne)
  | append_singleton l y ih =>
    rw [List.append_assoc] at hsplit
    have hy : y ∈ L := by simp [hsplit]
    obtain ⟨c, hc, -⟩ := hL.cell hy
    have hnext : c.hdr.nextSib = x := ((hsplit ▸ hL).links_eq hc).1
    rw [← hnext]
    exact .next (ih hy (fun h1 => hL.neg_one_not_mem hs (h1 ▸ hy)) _ hsplit) (hs.block hc)
      (by rw [hnext]; exact hne)

/-- The size of a block in the file. -/
lemma Claimed.sizeAt (hx : Claimed a t L x) (h : DbInv a t L) (hs : a.On s) :
    s.sizeAt x = a.size x := by
  obtain ⟨c, hc⟩ := hx.heap h
  exact hs.sizeAt hc

/-! ### The bytes that belong to a block -/

/-- Every byte behind the header belongs to a block. -/
def Covers (a : Cells) (t : NodeTable) (L : List Int32) : Prop :=
  ∀ p, headerSize ≤ p → p < a.len →
    ∃ x, Claimed a t L x ∧ x.toInt.toNat ≤ p ∧ p < x.toInt.toNat + (a.size x).toNat

/-- The extents of blocks do not overlap. -/
lemma Claimed.apart (hx : Claimed a t L x) (ho : Claimed a t L o) (h : DbInv a t L) (hs : a.On s)
    (hne : x ≠ o) : x.toInt.toNat + (a.size x).toNat ≤ o.toInt.toNat ∨
      o.toInt.toNat + (a.size o).toNat ≤ x.toInt.toNat := by
  obtain ⟨c, hc⟩ := hx.heap h
  obtain ⟨d, hd⟩ := ho.heap h
  rw [show a.size x = c.hdr.size from field_eq hc, show a.size o = d.hdr.size from field_eq hd]
  exact hs.bytes.holds.apart hc hd hne

/-- Extents lie between the header and the end of the file. -/
lemma Claimed.within (hx : Claimed a t L x) (h : DbInv a t L) (hs : a.On s) :
    headerSize ≤ x.toInt.toNat ∧ x.toInt.toNat + (a.size x).toNat ≤ a.len := by
  obtain ⟨c, hc⟩ := hx.heap h
  rw [size, field_eq hc, ← hs.bytes.length]
  exact ⟨hs.bytes.holds.low hc, hs.bytes.holds.high hc⟩

/-- **The bytes that belong to a block, after an operation**: those that did, unless a block was
taken that is larger than the record.

**Proof sketch.** The first byte behind the record in a larger block belonged to that block, so it
belongs to no other one. -/
lemma Balance.covers_iff (hb : Balance a t L m a' t' L') (h : DbInv a t L) (hs : a.On s) :
    Covers a' t' L' ↔ Covers a t L ∧
      ∀ n ∈ m, (∃ x ∈ L, n ≤ (a.size x).toNat) → ∃ x ∈ L, (a.size x).toNat = n := by
  cases hb with
  | same hb =>
    have hcov : Covers a' t' L' ↔ Covers a t L := by
      have hp : ∀ p, (∃ x, Claimed a' t' L' x ∧ x.toInt.toNat ≤ p ∧
          p < x.toInt.toNat + (a'.size x).toNat) ↔ ∃ x, Claimed a t L x ∧ x.toInt.toNat ≤ p ∧
          p < x.toInt.toNat + (a.size x).toNat := fun p => exists_congr fun x => by
        rw [hb.mem]
        exact and_congr_right fun hx => by rw [hb.size hx]
      simp only [Covers, hb.len, hp]
    simp [hcov]
  | @taken n o _ _ _ hb =>
    -- a block other than the one that is taken keeps its bytes
    have hother : ∀ {p x}, Claimed a t L x → x ≠ o → x.toInt.toNat ≤ p →
        p < x.toInt.toNat + (a.size x).toNat → ∃ x, Claimed a' t' L' x ∧ x.toInt.toNat ≤ p ∧
          p < x.toInt.toNat + (a'.size x).toNat := fun {p x} hx hne hlow hhigh =>
      ⟨x, hb.mem.2 (.inr hx), hlow, by rwa [hb.size hx hne]⟩
    have hself : Claimed a' t' L' o := hb.mem.2 (.inl rfl)
    simp only [Option.mem_some_iff, forall_eq']
    cases hb.fit with
    | block ho hle hleast =>
      have hoc : Claimed a t L o := .inl ho
      have hin := hoc.within h hs
      have hlen : a'.len = a.len := hb.len.trans (max_eq_left (by omega))
      constructor
      · intro hc
        have hexact : (a.size o).toNat = n := by
          by_contra hne
          obtain ⟨x, hx, hlow, hhigh⟩ := hc (o.toInt.toNat + n) (by omega) (by omega)
          by_cases hxo : x = o
          · rw [hxo, hb.self] at hhigh
            omega
          · have hxc := (hb.mem.1 hx).resolve_left hxo
            rw [hb.size hxc hxo] at hhigh
            have := hxc.apart hoc h hs hxo
            omega
        refine ⟨fun p hlow hhigh => ?_, fun _ => ⟨o, ho, hexact⟩⟩
        obtain ⟨x, hx, hxlow, hxhigh⟩ := hc p hlow (hlen ▸ hhigh)
        by_cases hxo : x = o
        · rw [hxo, hb.self] at hxhigh
          exact ⟨o, hoc, hxo ▸ hxlow, by omega⟩
        · have hxc := (hb.mem.1 hx).resolve_left hxo
          exact ⟨x, hxc, hxlow, by rwa [← hb.size hxc hxo]⟩
      · rintro ⟨hc, hexact⟩ p hlow hhigh
        obtain ⟨y, hy, hyn⟩ := hexact ⟨o, ho, hle⟩
        have hon : (a.size o).toNat = n :=
          le_antisymm (hyn ▸ UInt32.le_iff_toNat_le.1 (hleast y hy hyn.ge)) hle
        obtain ⟨x, hx, hxlow, hxhigh⟩ := hc p hlow (hlen ▸ hhigh)
        by_cases hxo : x = o
        · subst hxo
          exact ⟨x, hself, hxlow, by rw [hb.self, ← hon]; exact hxhigh⟩
        · exact hother hx hxo hxlow hxhigh
    | fileEnd ho hend hsmall =>
      have hlen : a'.len = a.len + n := by rw [hb.len]; omega
      have hne : ∀ {x}, Claimed a t L x → x ≠ o := by
        rintro x hx rfl
        obtain ⟨c, hc⟩ := hx.heap h
        have hfits := hs.fits hc
        have hin := hx.within h hs
        rw [show a.size x = c.hdr.size from field_eq hc] at hin
        simp only [blockSize] at hfits
        omega
      refine ⟨fun hc => ⟨fun p hlow hhigh => ?_, fun hex => ?_⟩, fun hc p hlow hhigh => ?_⟩
      · obtain ⟨x, hx, hxlow, hxhigh⟩ := hc p hlow (by omega)
        have hxc := (hb.mem.1 hx).resolve_left (by rintro rfl; omega)
        exact ⟨x, hxc, hxlow, by rwa [← hb.size hxc (hne hxc)]⟩
      · obtain ⟨x, hx, hle⟩ := hex
        exact absurd hle (by have := hsmall x hx; omega)
      · by_cases hp : p < a.len
        · obtain ⟨x, hx, hxlow, hxhigh⟩ := hc.1 p hlow hp
          exact hother hx (hne hx) hxlow hxhigh
        · exact ⟨o, hself, by omega, by rw [hb.self]; omega⟩

/-- The blocks of a database tile its file if every byte belongs to one. -/
lemma DbInv.tiled_iff (h : DbInv a t L) (hs : a.On s) : s.Tiled ↔ Covers a t L := by
  have hF := h.live.forest
  obtain ⟨live, free, hlinked⟩ := HDB.Stores.consistent ⟨a, L, hs, h⟩
  have hlive : live = (preorder t).map a.loc := hlinked.nodes.unique (h.live.siblings hs)
  have hfree : free = L := hlinked.freeList.unique (h.free.freeChain hs)
  have hmem : ∀ {x}, x ∈ live ++ free ↔ Claimed a t L x := by
    intro x
    rw [hlive, hfree, List.mem_append, List.mem_map, or_comm, Claimed]
    simp only [mem_preorder hF]
  constructor
  · rintro ⟨live', free', ht⟩ p hlow hhigh
    obtain rfl := ht.linked.nodes.unique hlinked.nodes
    obtain rfl := ht.linked.freeList.unique hlinked.freeList
    obtain ⟨x, hx, hxlow, hxhigh⟩ := ht.tiles.covered p hlow (by rwa [hs.bytes.length])
    have hxc := hmem.1 hx
    exact ⟨x, hxc, hxlow, by rwa [← hxc.sizeAt h hs]⟩
  · intro hc
    have htiles : Tiles (live ++ free) (fun o => o.toInt.toNat) (fun o => (s.sizeAt o).toNat)
        headerSize s.file.bytes.length := by
      rw [hs.bytes.length]
      refine ⟨fun x hx => ?_, fun x hx y hy hne => ?_, fun p hlow hhigh => ?_⟩
      · rw [(hmem.1 hx).sizeAt h hs]
        exact (hmem.1 hx).within h hs
      · rw [(hmem.1 hx).sizeAt h hs, (hmem.1 hy).sizeAt h hs]
        exact (hmem.1 hx).apart (hmem.1 hy) h hs hne
      · obtain ⟨x, hx, hxlow, hxhigh⟩ := hc p hlow hhigh
        exact ⟨x, hmem.2 hx, hxlow, by rwa [hx.sizeAt h hs]⟩
    refine ⟨live, free, hlinked, htiles, htiles.sum_eq ?_⟩
    exact hlinked.once.append hlinked.acyclic fun x hx hx' => hlinked.disjoint hx hx'

/-! ### Runs -/

/-- What an operation asks for, in the file and in the collection of blocks. -/
lemma DbInv.takes_eq (h : DbInv a t L) (hs : a.On s) (op : Op) : op.takes s = op.demand a t := by
  have hfind : ∀ {k}, (s.index.find k).isSome ↔ k ∈ keys t := by
    intro k
    rw [hs.memory.index, h.live.index]
  cases op with
  | addRootNode key data flags => simp only [Op.takes, Op.demand, hfind]
  | addChild parent key data flags => simp only [Op.takes, Op.demand, hfind]
  | updateNode key newParent data =>
    rw [Op.takes, Op.demand, hs.memory.index]
    by_cases hk : key.1 ∈ keys t
    · obtain ⟨r, hr, hrk⟩ := mem_keys.1 hk
      obtain ⟨c, hc, hn⟩ := h.live.cell hr
      obtain ⟨s', hread, -⟩ := runs_readNode hc hn s hs
      have hdata : s.dataAt (a.loc key.1) = r.val.data := by
        rw [HDB.dataAt, ← hrk, hread]
        rfl
      have hsize : s.sizeAt (a.loc key.1) = a.size (a.loc key.1) :=
        Claimed.sizeAt (.inr ⟨key.1, hk, rfl⟩) h hs
      rw [h.live.find_eq hk, (row?_eq_some h.live.forest.nodup).2 ⟨hr, hrk⟩]
      simp only [Option.bind_some, hdata, hsize, demand, needAfter, hrk]
    · rw [h.live.find_eq_none hk, row?_eq_none.2 hk]
      rfl
  | removeNode _ | removeNodeByKey _ | turnFlagsOn _ _ | turnFlagsOff _ _ => rfl

/-- The demand on the free blocks, in the file and in the collection of blocks. -/
lemma DbInv.fitsExactly_iff (h : DbInv a t L) (hs : a.On s) : op.FitsExactly s ↔
    ∀ n ∈ op.demand a t, (∃ x ∈ L, n ≤ (a.size x).toNat) → ∃ x ∈ L, (a.size x).toNat = n := by
  have hsize : ∀ (P : ℕ → Prop), (∃ x, s.OnFreeList x ∧ P (s.sizeAt x).toNat) ↔
      ∃ x ∈ L, P (a.size x).toNat := fun P => exists_congr fun x => by
    rw [h.free.onFreeList_iff hs]
    exact and_congr_right fun hx => by rw [Claimed.sizeAt (.inl hx) h hs]
  rw [Op.FitsExactly, h.takes_eq hs]
  refine forall₂_congr fun n _ => ?_
  rw [hsize fun k => n ≤ k, hsize fun k => k = n]

/-- **A run loses no space** iff each of its operations that gets a block from the free list gets
one of the size that it asks for. -/
theorem tiled_iff_of_reaches
    (h : Reaches Op.step (fun op s => op.Outside s ∧ op.HasRoom s) createFile ops s) :
    s.Tiled ↔ Reaches Op.step (fun op s => op.Outside s ∧ op.HasRoom s ∧ op.FitsExactly s)
      createFile ops s := by
  suffices hcov : ∃ a t L, a.On s ∧ DbInv a t L ∧ (Covers a t L ↔ Reaches Op.step
      (fun op s => op.Outside s ∧ op.HasRoom s ∧ op.FitsExactly s) createFile ops s) by
    obtain ⟨a, t, L, hs, hinv, hiff⟩ := hcov
    exact (hinv.tiled_iff hs).trans hiff
  induction h with
  | nil =>
    obtain ⟨a, L, hs, hinv⟩ := stores_createFile
    refine ⟨a, [], L, hs, hinv, iff_of_true (fun p hlow hhigh => ?_) .nil⟩
    have hlen : createFile.file.bytes.length = headerSize := length_encodeHeader _
    rw [← hs.bytes.length] at hhigh
    omega
  | @snoc ops op s hrun hok ih =>
    obtain ⟨a, t, L, hs, hinv, hiff⟩ := ih
    obtain ⟨a', L', hexec, hinv', hblocks⟩ := op.runs hinv hs (hok.2.allowed hinv hs hok.1)
    obtain ⟨s', hs'eq, hs'⟩ := hexec s hs
    refine ⟨a', op.apply t, L', ?_, hinv', ?_⟩
    · rw [Op.step, hs'eq]
      exact hs'
    · rw [hblocks.covers_iff hinv hs, hiff, ← hinv.fitsExactly_iff hs, hrun.snoc_iff]
      exact and_congr_right fun _ => ⟨fun h => ⟨hok.1, hok.2, h⟩, fun h => h.2.2⟩

/-- Without a free block, every record fits. -/
lemma HDB.not_onFreeList (h : s.hdrBlock.firstFree = -1) : ¬ s.OnFreeList x := by
  intro hx
  induction hx with
  | head hne => exact hne h
  | next _ _ _ ih => exact ih

/-- The node `b` gets the block of the node `a`, and gives it back after `a` got another one. -/
def sameRecord : List Op :=
  [.addRootNode keyA [] 0, .removeNode keyA, .addRootNode keyB [] 0, .addRootNode keyA [7] 0,
    .removeNode keyB]

/-- The file after these operations. -/
def reusedSpace : HDB := sameRecord.foldl (fun s op => op.step s) createFile

/-- A file with a free block that has been used by two nodes, and the block of a node behind it. -/
theorem tiled_reusedSpace : reusedSpace.hdrBlock.firstFree = 32 ∧
    reusedSpace.hdrBlock.firstRoot = 78 ∧ reusedSpace.Tiled := by
  -- the third operation asks for 46 bytes, and the block at 32 has that size
  have hfits : (Op.addRootNode keyB [] 0).FitsExactly
      ((Op.removeNode keyA).step ((Op.addRootNode keyA [] 0).step createFile)) := by
    set s := (Op.removeNode keyA).step ((Op.addRootNode keyA [] 0).step createFile)
    have htakes : (Op.addRootNode keyB [] 0).takes s = some 46 := by decide +kernel
    have hfree : s.hdrBlock.firstFree = 32 := by decide +kernel
    have hsize : (s.sizeAt 32).toNat = 46 := by decide +kernel
    intro n hn _
    rw [htakes] at hn
    cases hn
    exact ⟨32, hfree ▸ .head (by rw [hfree]; decide), hsize⟩
  have hrun : Reaches Op.step (fun op s => op.Outside s ∧ op.HasRoom s ∧ op.FitsExactly s)
      createFile sameRecord reusedSpace := by
    refine .snoc (l := [_, _, _, _]) (.snoc (l := [_, _, _]) (.snoc (l := [_, _])
      (.snoc (l := [_]) (.snoc .nil ⟨trivial, fun _ => ⟨by decide, .inl ?_⟩,
        fun _ _ ⟨_, hx, _⟩ => ?_⟩)
      ⟨trivial, trivial, nofun⟩) ⟨trivial, fun _ => ⟨by decide, .inl ?_⟩, hfits⟩)
      ⟨trivial, fun _ => ⟨by decide, .inl ?_⟩, fun _ _ ⟨_, hx, _⟩ => ?_⟩) ⟨trivial, trivial, nofun⟩
    · decide +kernel
    · exact absurd hx (HDB.not_onFreeList (by decide +kernel))
    · decide +kernel
    · decide +kernel
    · exact absurd hx (HDB.not_onFreeList (by decide +kernel))
  exact ⟨by decide +kernel, by decide +kernel,
    (tiled_iff_of_reaches (hrun.mono fun h => ⟨h.1, h.2.1⟩)).2 hrun⟩

/-- The operations by which the node `b` gets the block of the node `a`, which was larger. -/
def smallerRecord : List Op :=
  [.addRootNode keyA (List.replicate 100 0) 0, .removeNode keyA, .addRootNode keyB [] 0]

/-- The file after these operations. -/
def lostSpace : HDB := smallerRecord.foldl (fun s op => op.step s) createFile

/-- **Lost space**: the file has 146 bytes behind its header, and 46 of them belong to a block. -/
theorem not_tiled_lostSpace :
    Reaches Op.step (fun op s => op.Outside s ∧ op.HasRoom s) createFile smallerRecord lostSpace ∧
      ¬ lostSpace.Tiled := by
  refine ⟨.snoc (l := [_, _])
    (.snoc (l := [_]) (.snoc .nil ⟨trivial, fun _ => ⟨by decide, .inl ?_⟩⟩)
    ⟨trivial, trivial⟩) ⟨trivial, fun _ => ⟨by decide, .inl ?_⟩⟩, ?_⟩
  · decide +kernel
  · decide +kernel
  · rintro ⟨live, free, ht⟩
    have hhdr : lostSpace.hdrBlock.firstRoot = 32 ∧ lostSpace.hdrBlock.firstFree = -1 := by
      decide +kernel
    obtain ⟨b, hb, hfree, hparent, hprev, hfirst, hlast, hnext⟩ : ∃ b, lostSpace.block 32 = some b ∧
        b.isFree = false ∧ b.parent = -1 ∧ b.prevSib = -1 ∧ b.firstChild = -1 ∧ b.lastChild = -1 ∧
        b.nextSib = -1 := by
      have hsome : (lostSpace.block 32).any fun b => b.isFree = false ∧ b.parent = -1 ∧
          b.prevSib = -1 ∧ b.firstChild = -1 ∧ b.lastChild = -1 ∧ b.nextSib = -1 := by
            decide +kernel
      simpa [Option.any_eq_true] using hsome
    have hnodes := ht.linked.nodes
    have hchain := ht.linked.freeList
    rw [hhdr.1] at hnodes
    rw [hhdr.2] at hchain
    have hwalk : lostSpace.Siblings (-1) (-1) 32 32 [32] := .cons hb hfree hparent hprev
      (by rw [hfirst, hlast]; exact .nil) (by rw [hnext]; exact .nil)
    obtain rfl := hnodes.unique hwalk
    obtain rfl : free = [] := hchain.unique .nil
    have hsum := ht.sum
    exact absurd hsum (by decide +kernel)

end OpenWbem.Hdb
