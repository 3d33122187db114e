import OpenWbem.Hdb.Operations

/-!
# Integrity of the data file

What a consistent data file looks like, said about the file itself: in terms of the blocks that can
be read from it, the links between them, and the index. A run is a sequence of operations from a
new file, and every run that stays within 32-bit offsets leaves a consistent file.

The sizes of blocks are compared as signed 32-bit numbers, and offsets are such numbers. A run that
leaves their range can destroy the file. `HDB.Room` is the condition that keeps a run within it.

## Main definitions

* `HDB.Siblings`, `HDB.FreeChain` — walking along the links of a file.
* `HDB.Consistent` — a consistent file.
* `HDB.Stores` — the file stores a hierarchy.

## Main results

* `HDB.Stores.step` — an operation on the file does to the stored hierarchy what it means.
* `HDB.Stores.consistent` — a file that stores a hierarchy is consistent.
* `HDB.consistent_of_reaches` — **every run** within the bounds leaves a consistent file.
-/

namespace OpenWbem.Hdb

open Bytes Extents Prog Cells Hierarchy List DLinked Option Int32
open DLinked (firstOf lastOf)

namespace HDB

/-! ### What can be read from a file -/

/-- The block at an offset, if there is one. -/
def block (s : HDB) (o : Int32) : Option HDBBlock :=
  if o ≤ 0 then none else (exec (readBlock o) s).1.toOption

/-- The key of the node at an offset. -/
def keyAt (s : HDB) (o : Int32) : Option (List UInt8) :=
  match (exec (readNode o) s).1 with
  | .ok (some nd) => some nd.key
  | _ => none

/-- The size of the block at an offset. -/
def sizeAt (s : HDB) (o : Int32) : UInt32 := ((s.block o).map HDBBlock.size).getD 0

/-- `Siblings s parent prev first last l`: the walk along `nextSib` from `first`, with a walk along
the children of every block, visits the blocks `l`. All of them are live, and the links back agree:
to the parent, to the previous sibling (to `prev` from the first one) and to the last sibling. -/
inductive Siblings (s : HDB) : Int32 → Int32 → Int32 → Int32 → List Int32 → Prop
  | nil {parent prev : Int32} : Siblings s parent prev (-1) prev []
  | cons {parent prev o last : Int32} {b : HDBBlock} {below rest : List Int32} :
      s.block o = some b → b.isFree = false → b.parent = parent → b.prevSib = prev →
      Siblings s o (-1) b.firstChild b.lastChild below →
      Siblings s parent o b.nextSib last rest →
      Siblings s parent prev o last (o :: below ++ rest)

/-- `FreeChain s prev first l`: the walk along `nextSib` from `first` visits the free blocks `l`,
and the links back agree. -/
inductive FreeChain (s : HDB) : Int32 → Int32 → List Int32 → Prop
  | nil {prev : Int32} : FreeChain s prev (-1) []
  | cons {prev o : Int32} {b : HDBBlock} {rest : List Int32} :
      s.block o = some b → b.isFree → b.prevSib = prev → FreeChain s o b.nextSib rest →
      FreeChain s prev o (o :: rest)

/-- The links of a file: the walks from the header block visit the blocks `live` and `free`. -/
structure LinkedAs (s : HDB) (live free : List Int32) : Prop where
  header : slice s.file.bytes 0 headerSize = encodeHeader s.hdrBlock
  nodes : s.Siblings (-1) (-1) s.hdrBlock.firstRoot s.hdrBlock.lastRoot live
  once : live.Nodup
  freeList : s.FreeChain (-1) s.hdrBlock.firstFree free
  acyclic : free.Nodup
  sorted : free.Pairwise fun x y => s.sizeAt x ≤ s.sizeAt y
  disjoint : ∀ {o}, o ∈ live → o ∉ free
  /-- The index has the key of every live block, with its offset, and nothing else. -/
  index : ∀ {k o}, s.index.find k = some o ↔ o ∈ live ∧ s.keyAt o = some k

/-- A consistent file. -/
def Consistent (s : HDB) : Prop := ∃ live free, s.LinkedAs live free

/-- The way up from the block at `x` passes the block at `o`. -/
inductive Under (s : HDB) (o : Int32) : Int32 → Prop
  | refl : Under s o o
  | step {x : Int32} {b : HDBBlock} : s.block x = some b → Under s o b.parent → Under s o x

/-- The walk along the free list visits the block at `x`. -/
inductive OnFreeList (s : HDB) : Int32 → Prop
  | head : s.hdrBlock.firstFree ≠ -1 → OnFreeList s s.hdrBlock.firstFree
  | next {x : Int32} {b : HDBBlock} :
      OnFreeList s x → s.block x = some b → b.nextSib ≠ -1 → OnFreeList s b.nextSib

/-- **Within the bounds**: a record of `n` bytes has a size that is a signed 32-bit number, and so
is the offset that it gets, in a free block or at the end of the file. -/
structure Room (s : HDB) (n : ℕ) : Prop where
  size : n < 2 ^ 31
  place : s.file.bytes.length < 2 ^ 31 ∨ ∃ x, s.OnFreeList x ∧ n ≤ (s.sizeAt x).toNat

end HDB

namespace Op

/-- A new parent is not the node itself, and not below it. -/
def Outside (s : HDB) : Op → Prop
  | updateNode key (some parent) _ =>
    ∀ o x, s.index.find key.1 = some o → s.index.find parent.1 = some x → ¬ s.Under o x
  | _ => True

/-- There is room for the record that an operation writes to another place than before. -/
def HasRoom (s : HDB) : Op → Prop
  | addRootNode key data _ =>
    s.index.find key.1 = none → s.Room (blockSize + (key.1.length + 1 + data.length))
  | addChild parent key data _ =>
    (s.index.find parent.1).isSome → s.index.find key.1 = none →
      s.Room (blockSize + (key.1.length + 1 + data.length))
  | updateNode key _ data =>
    ∀ o, s.index.find key.1 = some o →
      blockSize + (key.1.length + 1 + data.dataLen.toInt.toNat) ≤ (s.sizeAt o).toNat ∨
        s.Room (blockSize + (key.1.length + 1 + data.dataLen.toInt.toNat))
  | _ => True

end Op

/-! ### Files and collections of blocks -/

variable {a : Cells} {s : HDB} {t : NodeTable} {L : List Int32} {c : Cell HDBBlock} {o x : Int32}
  {k : List UInt8} {q : Option (List UInt8)} {r : Row (List UInt8) NodeVal} {n : ℕ} {op : Op}
  {ops : List Op}

namespace Cells.On

/-- Reading a block. -/
lemma block (hs : a.On s) (hc : a.heap o = some c) : s.block o = some c.hdr := by
  rw [HDB.block, if_neg (Int32.not_le.2 (hs.pos hc))]
  exact (runs_readBlock hc).toOption hs

/-- The size of a block. -/
lemma sizeAt (hs : a.On s) (hc : a.heap o = some c) : s.sizeAt o = a.size o := by
  rw [HDB.sizeAt, hs.block hc, size, field_eq hc]
  rfl

/-- The key of a block. -/
lemma keyAt (hs : a.On s) (h : LiveInv a t) (hk : k ∈ keys t) : s.keyAt (a.loc k) = some k := by
  obtain ⟨c, v, hc, hn⟩ := h.heap_loc hk
  obtain ⟨u, hu, -⟩ := runs_readNode hc hn s hs
  rw [HDB.keyAt, hu]
  rfl

end Cells.On

/-! ### The walk over the live blocks -/

/-- The nodes of a hierarchy, parents before their children. -/
def preorder (t : NodeTable) : List (List UInt8) := (kids t none).flatMap (below t t.length)

variable {pre l : List (List UInt8)} {w : List UInt8} {b : HDBBlock}

/-- The forward link of a child, by the children that follow it. -/
lemma LiveInv.nextSib_eq (h : LiveInv a t) (hpre : kids t q = pre ++ k :: l)
    (hc : a.heap (a.loc k) = some c) : c.hdr.nextSib = firstOf (-1) (l.map a.loc) :=
  (field_eq hc).symm.trans ((h.links q).next_eq (LiveInv.sibs_split hpre))

/-- The backward link of a child, by the children before it. -/
lemma LiveInv.prevSib_eq (h : LiveInv a t) (hpre : kids t q = pre ++ k :: l)
    (hc : a.heap (a.loc k) = some c) : c.hdr.prevSib = lastOf (-1) (pre.map a.loc) :=
  (field_eq hc).symm.trans ((h.links q).prev_eq (LiveInv.sibs_split hpre))

/-- **The walk along siblings**, from the middle of a list of children, if the walks along their
children are known. -/
lemma LiveInv.siblings_of_children (h : LiveInv a t) (hs : a.On s) (hq : IsPlace t q)
    (l : List (List UInt8)) : ∀ pre, kids t q = pre ++ l →
      (∀ k ∈ l, s.Siblings (a.loc k) (-1) (a.first (a.loc k)) (a.last (a.loc k))
        ((below t n k).tail.map a.loc)) →
      s.Siblings (a.locOf q) (lastOf (-1) (pre.map a.loc)) (firstOf (-1) (l.map a.loc)) (a.tailOf q)
        ((l.flatMap (below t n)).map a.loc) := by
  induction l with
  | nil =>
    intro pre hpre _
    have htail := h.tail hq
    rw [sibs, hpre, append_nil] at htail
    rw [htail]
    exact .nil
  | cons k l ih =>
    intro pre hpre hbelow
    have hk : k ∈ kids t q := by rw [hpre]; simp
    obtain ⟨c, v, hc, hn⟩ := h.heap_loc (mem_keys_of_kids hk)
    have hparent : c.hdr.parent = a.locOf q := (field_eq hc).symm.trans (h.parent hk)
    have hrest := ih (pre ++ [k]) (by rw [hpre]; simp) fun y hy => hbelow y (mem_cons_of_mem _ hy)
    have hkids := hbelow k mem_cons_self
    rw [show a.first (a.loc k) = c.hdr.firstChild from field_eq hc,
      show a.last (a.loc k) = c.hdr.lastChild from field_eq hc] at hkids
    rw [map_append, map_singleton, lastOf_append, ← h.nextSib_eq hpre hc]
      at hrest
    rw [flatMap_cons, below_eq_cons, map_append]
    exact .cons (hs.block hc) hn.live hparent (h.prevSib_eq hpre hc) hkids hrest

/-- **The walk along the children** of a node.

**Proof sketch.** Induction on the number of levels that are left below the node. Where no level is
left there are no children. -/
lemma LiveInv.siblings_below (h : LiveInv a t) (hs : a.On s) : ∀ {n d k}, Depth t k d →
    t.length ≤ n + d + 1 → s.Siblings (a.loc k) (-1) (a.first (a.loc k)) (a.last (a.loc k))
      ((below t n k).tail.map a.loc) := by
  intro n
  induction n with
  | zero =>
    intro d k hd hlen
    have hplace := IsPlace.some hd.mem_keys
    have hnil : kids t (some k) = [] := by
      rcases hl : kids t (some k) with _ | ⟨y, l⟩
      · rfl
      · have := (Depth.child (hl ▸ mem_cons_self) hd : Depth t y (d + 1)).lt_length h.forest.nodup
        omega
    have hhead := h.head hplace
    have htail := h.tail hplace
    rw [sibs, hnil] at hhead htail
    rw [show a.first (a.loc k) = -1 from hhead, show a.last (a.loc k) = -1 from htail]
    exact .nil
  | succ n ih =>
    intro d k hd hlen
    have hplace := IsPlace.some hd.mem_keys
    rw [show a.first (a.loc k) = _ from h.head hplace]
    exact h.siblings_of_children hs hplace _ [] rfl fun y hy => ih (.child hy hd) (by omega)

/-- The walk over all nodes. -/
lemma LiveInv.siblings (h : LiveInv a t) (hs : a.On s) :
    s.Siblings (-1) (-1) s.hdrBlock.firstRoot s.hdrBlock.lastRoot ((preorder t).map a.loc) := by
  have hplace : IsPlace t none := by rintro _ ⟨⟩
  rw [hs.memory.hdr, show a.hdr.firstRoot = _ from h.head hplace]
  exact h.siblings_of_children hs hplace _ [] rfl fun y hy =>
    h.siblings_below hs (.root hy) (by omega)

/-- The walk reaches all keys. -/
lemma mem_preorder (hF : IsForest t) : k ∈ preorder t ↔ k ∈ keys t := by
  rw [preorder, mem_flatMap]
  constructor
  · rintro ⟨y, hy, hk⟩
    exact (below_of_mem hk).mem_keys (mem_keys_of_kids hy)
  · intro hk
    obtain ⟨d, hd⟩ := hF.rooted hk
    obtain ⟨y, hy, hb⟩ := hd.exists_root
    exact ⟨y, hy, (mem_below hF (mem_keys_of_kids hy)).2 hb⟩

/-- And none twice. -/
lemma nodup_preorder (hF : IsForest t) : (preorder t).Nodup := by
  refine nodup_flatMap.2 ⟨fun y _ => nodup_below hF _ y, ?_⟩
  refine (nodup_kids hF.nodup).imp_of_mem fun {x y} hx hy hne z hzx hzy => hne ?_
  exact eq_of_below_of_below hF hx hy (below_of_mem hzx) (below_of_mem hzy)

/-! ### The free list -/

/-- The walk along the free list, from the middle of it. -/
lemma FreeInv.freeChain_of_append (hL : FreeInv a L) (hs : a.On s) (l : List Int32) :
    ∀ pre, L = pre ++ l → s.FreeChain (lastOf (-1) pre) (firstOf (-1) l) l := by
  induction l with
  | nil => exact fun _ _ => .nil
  | cons o l ih =>
    intro pre hpre
    obtain ⟨c, hc, hfree⟩ := hL.cell (o := o) (by rw [hpre]; simp)
    obtain ⟨hnext, hprev⟩ := (hpre ▸ hL).links_eq hc
    have hrest := ih (pre ++ [o]) (by rw [hpre]; simp)
    rw [lastOf_append, ← hnext] at hrest
    exact .cons (hs.block hc) hfree hprev hrest

/-- The chain of the free blocks. -/
lemma FreeInv.freeChain (hL : FreeInv a L) (hs : a.On s) :
    s.FreeChain (-1) s.hdrBlock.firstFree L := by
  rw [hs.memory.hdr, hL.head]
  exact hL.freeChain_of_append hs L [] rfl

/-- The walk along the free list stays in it. -/
lemma FreeInv.mem_of_onFreeList (hL : FreeInv a L) (hs : a.On s) (h : s.OnFreeList x) : x ∈ L := by
  induction h with
  | head hne =>
    rw [hs.memory.hdr, hL.head] at hne ⊢
    exact (firstOf_cases _ _).resolve_left hne
  | @next x b _ hb hne ih =>
    obtain ⟨c, hc, -⟩ := hL.cell ih
    obtain rfl : c.hdr = b := some.inj ((hs.block hc).symm.trans hb)
    obtain ⟨l, l', rfl⟩ := append_of_mem ih
    exact (hL.neighbours hc).1.resolve_left hne

/-! ### Consistency -/

/-- The file stores a hierarchy. -/
def HDB.Stores (s : HDB) (t : NodeTable) : Prop := ∃ a L, a.On s ∧ DbInv a t L

/-- **A file that stores a hierarchy is consistent.** -/
theorem HDB.Stores.consistent (h : s.Stores t) : s.Consistent := by
  obtain ⟨a, L, hs, hinv⟩ := h
  have hF := hinv.live.forest
  refine ⟨(preorder t).map a.loc, L, ⟨?_, hinv.live.siblings hs, ?_, hinv.free.freeChain hs,
    hinv.free.nodup, ?_, ?_, ?_⟩⟩
  · rw [hs.memory.hdr]
    exact hs.bytes.header
  · refine List.Nodup.map_on (fun x hx y hy hxy => ?_) (nodup_preorder hF)
    exact hinv.live.inj ((mem_preorder hF).1 hx) ((mem_preorder hF).1 hy) hxy
  · refine hinv.free.sorted.imp_of_mem fun {x y} hx hy hxy => ?_
    obtain ⟨c, hc, -⟩ := hinv.free.cell hx
    obtain ⟨d, hd, -⟩ := hinv.free.cell hy
    rwa [hs.sizeAt hc, hs.sizeAt hd]
  · intro o ho
    obtain ⟨k, hk, rfl⟩ := mem_map.1 ho
    exact hinv.disjoint ((mem_preorder hF).1 hk)
  · intro k o
    rw [hs.memory.index]
    constructor
    · intro hf
      have hk : k ∈ keys t := hinv.live.index.1 (by rw [hf]; rfl)
      have ho : a.loc k = o := by
        rwa [hinv.live.find_eq hk, some.injEq] at hf
      rw [← ho]
      exact ⟨mem_map.2 ⟨k, (mem_preorder hF).2 hk, rfl⟩, hs.keyAt hinv.live hk⟩
    · rintro ⟨ho, hkey⟩
      obtain ⟨k', hk', rfl⟩ := mem_map.1 ho
      rw [hs.keyAt hinv.live ((mem_preorder hF).1 hk'), some.injEq] at hkey
      rw [← hkey]
      exact hinv.live.find_eq ((mem_preorder hF).1 hk')

/-! ### Runs -/

/-- A new file. -/
lemma stores_createFile : createFile.Stores [] := by
  refine ⟨⟨fun _ => none, createFile.hdrBlock, 0, OrderedIndex.empty, headerSize⟩, [],
    ⟨⟨⟨by simp, by simp, by simp, by simp, by simp⟩, ?_, length_encodeHeader _,
      le_refl _⟩, ⟨rfl, rfl, rfl⟩⟩,
    ⟨⟨.nil, by simp [Hierarchy.keys], by simp [Hierarchy.keys], by simp, by
      simp [Hierarchy.keys], by simp [kids],
      fun q => nil_list, ?_, ?_⟩, ⟨nodup_nil, rfl, nil_list, by simp, .nil⟩,
      by simp⟩⟩
  · exact take_of_length_le (length_encodeHeader _).le
  all_goals
    intro q hq
    rcases q with _ | p
    · rfl
    · exact absurd (hq p rfl) (by simp [Hierarchy.keys])

/-- Less room is needed. -/
lemma Fits.mono {m : ℕ} (h : Fits a L n) (hm : m ≤ n) : Fits a L m :=
  ⟨by have := h.size; omega, h.place.imp_left fun ⟨x, hx, hle⟩ => ⟨x, hx, by omega⟩⟩

/-- Room in the file is room in the collection of blocks. -/
lemma HDB.Room.fits (h : s.Room n) (hL : FreeInv a L) (hs : a.On s) : Fits a L n := by
  refine ⟨h.size, ?_⟩
  rcases h.place with hlen | ⟨x, hx, hle⟩
  · exact .inr (by rwa [← hs.bytes.length])
  · have hmem := hL.mem_of_onFreeList hs hx
    obtain ⟨c, hc, -⟩ := hL.cell hmem
    exact .inl ⟨x, hmem, by rwa [← hs.sizeAt hc]⟩

/-- The way up in the hierarchy is the way up in the file. -/
lemma LiveInv.under_of_below (h : LiveInv a t) (hs : a.On s) {p : List UInt8} (hb : Below t k p) :
    s.Under (a.loc k) (a.loc p) := by
  induction hb with
  | refl => exact .refl
  | @step p y _ hy ih =>
    obtain ⟨c, v, hc, -⟩ := h.heap_loc (mem_keys_of_kids hy)
    have hparent : c.hdr.parent = a.loc p := (field_eq hc).symm.trans (h.parent hy)
    exact .step (hs.block hc) (hparent ▸ ih)

/-- The data of an update. -/
lemma updatedBuffer_some {bfr data : List UInt8} {dataLen : Int32} (h : dataLen > 0) :
    updatedBuffer bfr dataLen (some data) = data.take dataLen.toInt.toNat := if_pos h

/-- An update does not make a buffer longer than the length that is given. -/
lemma length_updatedBuffer_le (bfr : List UInt8) (dataLen : Int32) (data : Option (List UInt8)) :
    (updatedBuffer bfr dataLen data).length ≤ dataLen.toInt.toNat := by
  have hold : (if dataLen.toInt ≠ bfr.length then [] else bfr).length ≤ dataLen.toInt.toNat := by
    split_ifs with h
    · simp
    · omega
  rcases data with _ | data
  · exact hold
  · by_cases hpos : dataLen > 0
    · rw [updatedBuffer_some hpos]
      exact length_take_le _ _
    · exact (congrArg length (if_neg hpos)).trans_le hold

/-- The demands of an operation on the file are its demands on the collection of blocks. -/
lemma Op.HasRoom.allowed (h : DbInv a t L) (hs : a.On s) (hroom : op.HasRoom s)
    (hout : op.Outside s) : op.Allowed a t L := by
  have hfind : ∀ {k}, k ∈ keys t → s.index.find k = some (a.loc k) := fun hk => by
    rw [hs.memory.index, h.live.find_eq hk]
  have hfind' : ∀ {k}, k ∉ keys t → s.index.find k = none := fun hk => by
    rw [hs.memory.index, h.live.find_eq_none hk]
  cases op with
  | addRootNode key data flags => exact fun hk => (hroom (hfind' hk)).fits h.free hs
  | addChild parent key data flags =>
    exact fun hp hk => (hroom (by rw [hfind hp]; rfl) (hfind' hk)).fits h.free hs
  | updateNode key newParent data =>
    refine ⟨fun r hr hrk => ?_, ?_⟩
    · have hk : key.1 ∈ keys t := mem_keys.2 ⟨r, hr, hrk⟩
      have hneed : needAfter r data.dataLen data.data ≤
          blockSize + (key.1.length + 1 + data.dataLen.toInt.toNat) := by
        have := length_updatedBuffer_le r.val.data data.dataLen data.data
        rw [needAfter, hrk]
        omega
      obtain ⟨c, v, hc, -⟩ := h.live.heap_loc hk
      rcases hroom _ (hfind hk) with hle | hr
      · rw [hs.sizeAt hc] at hle
        exact .inl (by omega)
      · exact .inr ((hr.fits h.free hs).mono hneed)
    · rintro p hp hk hpk hb
      obtain rfl : newParent = some p := hp
      exact hout _ _ (hfind hk) (hfind hpk) (h.live.under_of_below hs hb)
  | removeNode _ | removeNodeByKey _ | turnFlagsOn _ _ | turnFlagsOff _ _ => trivial

/-- **One operation** does to the stored hierarchy what it means. -/
theorem HDB.Stores.step (h : s.Stores t) (hout : op.Outside s) (hroom : op.HasRoom s) :
    (exec op.run s).1 = op.result t ∧ (op.step s).Stores (op.apply t) := by
  obtain ⟨a, L, hs, hinv⟩ := h
  obtain ⟨a', L', hrun, hinv', -⟩ := op.runs hinv hs (hroom.allowed hinv hs hout)
  obtain ⟨s', hexec, hs'⟩ := hrun s hs
  refine ⟨by rw [hexec], a', L', ?_, hinv'⟩
  rw [Op.step, hexec]
  exact hs'

/-- **A run** within the bounds does what its operations mean. -/
theorem stores_of_reaches
    (h : Reaches Op.step (fun op s => op.Outside s ∧ op.HasRoom s) createFile ops s) :
    s.Stores (ops.foldl (fun t op => op.apply t) []) :=
  h.simulates stores_createFile fun hst hok => (hst.step hok.1 hok.2).2

/-! ### Beyond the bounds -/

/-- Writing a node that is taken to fit into its block. -/
lemma exec_writeNode_inPlace {nd : HDBNodeData} (hpos : 0 < nd.offset)
    (hsize : ¬ nd.totalSize > nd.blk.size.toInt32) : ∃ pos, exec (writeNode nd) s =
      (.ok { nd.prepare with version := s.version + 1 }, { s with
          file := ⟨patch s.file.bytes nd.offset.toInt.toNat
            (encodeBlock nd.prepare.blk ++ (nd.key ++ [0]) ++ nd.bfr), pos⟩
          version := s.version + 1 }) := by
  have hnn : 0 ≤ nd.offset.toInt := by
    have := lt_iff_toInt_lt.1 hpos
    simp only [toInt_zero] at this
    omega
  refine ⟨nd.offset.toInt.toNat + blockSize + (nd.key ++ [0]).length + nd.bfr.length, ?_⟩
  rw [writeNode, if_neg (Int32.not_le.2 hpos), writeExisting, if_neg (by exact hsize)]
  rw [exec_bind_of_ok (by
    rw [exec_bind_of_ok (exec_writeBlock (by exact hnn))]
    exact exec_pure _ _)]
  rw [← patch_append, ← patch_append]
  rw [length_append, length_encodeBlock, ← Nat.add_assoc]
  rfl

/-- The file after a node has been written over whatever stands behind its block. -/
structure HDB.Overwritten (s : HDB) (r : Row (List UInt8) NodeVal) (data : List UInt8) (s' : HDB) :
    Prop where
  index : s'.index = s.index
  hdrBlock : s'.hdrBlock = s.hdrBlock
  bytes : ∃ o b bs, s.index.find r.key = some o ∧ s.block o = some b ∧
    s'.file.bytes = patch bs o.toInt.toNat (encodeBlock
      { b with dataLength := UInt32.ofNat (data.length + r.key.length + 1) } ++
        (r.key ++ [0]) ++ data)

/-- **An update beyond the bounds** is written in place: the size of the record is negative as a
signed number, so that every block seems to be large enough. -/
theorem HDB.Stores.overwritten {key : NodeKey} {u : UpdateData} (h : s.Stores t)
    (hr : r ∈ t) (hrk : r.key = key.1) (hlow : 2 ^ 31 ≤ needAfter r u.dataLen u.data)
    (hhigh : needAfter r u.dataLen u.data < 2 ^ 32) :
    s.Overwritten r (updatedBuffer r.val.data u.dataLen u.data)
      ((Op.updateNode key none u).step s) := by
  obtain ⟨a, L, hs, hinv⟩ := h
  have hk : r.key ∈ keys t := mem_keys.2 ⟨r, hr, rfl⟩
  obtain ⟨c, hc, hn⟩ := hinv.live.cell hr
  have hpos := hs.pos hc
  obtain ⟨nd, hnd⟩ : ∃ nd : HDBNodeData, nd =
    { a.rowObj c r with bfr := updatedBuffer r.val.data u.dataLen u.data } := ⟨_, rfl⟩
  have hneed : nd.need = needAfter r u.dataLen u.data := by rw [hnd]; rfl
  have hsize : ¬ nd.totalSize > nd.blk.size.toInt32 := by
    have hblk : nd.blk.size = c.hdr.size := by rw [hnd]; rfl
    rw [gt_iff_lt, lt_iff_toInt_lt, hblk, toInt_toInt32 hn.small, nd.totalSize_eq, hneed]
    have hneg : (ofNat (needAfter r u.dataLen u.data)).toInt < 0 := by
      rw [toInt_ofNat', Int.bmod_def, Int32.size]
      omega
    omega
  have hwrite : Runs a.On (writeNode nd) (.ok { nd.prepare with version := a.version + 1 })
      fun s' => s.Overwritten r (updatedBuffer r.val.data u.dataLen u.data) s' := by
    intro s1 hs1
    obtain ⟨pos, hexec⟩ := exec_writeNode_inPlace (s := s1) (by rw [hnd]; exact hpos) hsize
    rw [hs1.memory.version] at hexec
    refine ⟨_, hexec, ?_, ?_, a.loc r.key, c.hdr, s1.file.bytes, ?_, hs.block hc, ?_⟩
    · exact hs1.memory.index.trans hs.memory.index.symm
    · exact hs1.memory.hdr.trans hs.memory.hdr.symm
    · rw [hs.memory.index, hinv.live.find_eq hk]
    · rw [hnd]
      simp only [HDBNodeData.prepare, rowObj, nodeObj, ← hn.keyLength, ← hn.live]
  have hrun : Runs a.On (Op.updateNode key none u).run (.ok true)
      fun s' => s.Overwritten r (updatedBuffer r.val.data u.dataLen u.data) s' := by
    rw [Op.run, ← hrk]
    refine (runs_getNode hinv.live hr hc hn).bind ?_
    rw [HDBHandle.updateNode, if_pos (by exact hpos)]
    refine (runs_reload (.inr rfl)).bind (Runs.map _
      (v := some { nd.prepare with version := a.version + 1 }) ?_)
    refine (runs_reload (.inr rfl)).bind ?_
    dsimp only
    rw [if_pos (by exact hpos)]
    subst hnd
    exact hwrite.bind (.pure _)
  obtain ⟨s', hexec, hs'⟩ := hrun s hs
  rw [Op.step, hexec]
  exact hs'

/-- Reading a block header. -/
lemma exec_readBlock (hx : 0 < x) (hw : slice s.file.bytes x.toInt.toNat blockSize = w)
    (hlen : w.length = blockSize) (hb : decodeBlock w = some b) : exec (readBlock x) s = (.ok b,
      { s with file := { s.file with pos := x.toInt.toNat + blockSize } }) := by
  have hread := exec_fileReadAt (s := s) (i := x.toInt) (n := blockSize)
    (Int.le_of_lt (lt_iff_toInt_lt.1 hx))
  rw [hw, hlen] at hread
  rw [readBlock, exec_bind_of_ok hread, if_neg (not_not.2 hlen), hb]
  rfl

/-- The block at some bytes. -/
lemma HDB.block_eq (hx : 0 < x) (hw : slice s.file.bytes x.toInt.toNat blockSize = w)
    (hlen : w.length = blockSize) (hb : decodeBlock w = some b) : s.block x = some b := by
  rw [HDB.block, if_neg (Int32.not_le.2 hx), exec_readBlock hx hw hlen hb]
  rfl

/-- A block of zeros. Its check sum is right. -/
def zeroBlock : HDBBlock := ⟨false, 0, 0, 0, 0, 0, 0, 0, 0, 0⟩

/-- A block of zeros. -/
lemma decodeBlock_zeros : decodeBlock (replicate blockSize 0) = some zeroBlock := by
  decide +kernel

section overwritten

variable {s' : HDB} {data : List UInt8} {m : ℕ}

/-- The block of the node that has been written. -/
lemma HDB.Overwritten.block_self (h : s.Overwritten r data s') (ho : s.index.find r.key = some o) :
    ∃ b, s.block o = some b ∧
      s'.block o = some { b with dataLength := UInt32.ofNat (data.length + r.key.length + 1) } := by
  obtain ⟨o', b, bs, ho', hb, hbytes⟩ := h.bytes
  obtain rfl : o' = o := some.inj (ho'.symm.trans ho)
  have hpos : 0 < o' := by
    by_contra hle
    rw [HDB.block, if_pos (Int32.not_lt.1 hle)] at hb
    cases hb
  refine ⟨b, hb, ?_⟩
  refine HDB.block_eq hpos ?_ (length_encodeBlock _) (decodeBlock_encodeBlock _)
  rw [hbytes, append_assoc]
  refine (slice_patch_of_sub (o := 0) (by simp)).trans ?_
  rw [slice, drop_zero, take_append_of_le_length (by simp)]
  exact take_of_length_le (length_encodeBlock _).le

/-- The bytes behind the node, where zeros have been written. -/
lemma HDB.Overwritten.slice_behind (h : s.Overwritten r (replicate m 0) s')
    (ho : s.index.find r.key = some o) (hpos : 0 < o) (hm : blockSize ≤ m)
    (hx : x.toInt = o.toInt + (blockSize + (r.key.length + 1))) :
    slice s'.file.bytes x.toInt.toNat blockSize = replicate blockSize 0 := by
  obtain ⟨o', b, bs, ho', -, hbytes⟩ := h.bytes
  obtain rfl : o' = o := some.inj (ho'.symm.trans ho)
  have hnn := lt_iff_toInt_lt.1 hpos
  rw [toInt_zero] at hnn
  have hoff : x.toInt.toNat = o'.toInt.toNat + (blockSize + (r.key.length + 1)) := by omega
  rw [hbytes, hoff, slice_patch_of_sub (by simp; omega)]
  rw [slice, drop_append, drop_of_length_le (by simp)]
  simp [hm]

end overwritten

/-! ### Every run, and a run beyond the bounds -/

/-- **Every run** from a new file leaves a consistent file, if all of its operations have room and
no node is put below itself. -/
theorem consistent_of_reaches {ops : List Op} {s : HDB}
    (h : Reaches Op.step (fun op s => op.Outside s ∧ op.HasRoom s) createFile ops s) :
    s.Consistent := (stores_of_reaches h).consistent

/-- The key `a`. -/
def keyA : NodeKey := ⟨[97], by decide⟩

/-- The key `b`. -/
def keyB : NodeKey := ⟨[98], by decide⟩

/-- A database with the root nodes `a` and `b`. -/
def twoRoots : HDB :=
  (Op.addRootNode keyB [7] 0).step ((Op.addRootNode keyA [] 0).step createFile)

/-- The bounds are met by a run that adds two root nodes. -/
lemma reaches_twoRoots : Reaches Op.step (fun op s => op.Outside s ∧ op.HasRoom s) createFile
    [.addRootNode keyA [] 0, .addRootNode keyB [7] 0] twoRoots := by
  refine .snoc (.snoc .nil ⟨trivial, fun _ => ⟨by decide, .inl ?_⟩⟩)
    ⟨trivial, fun _ => ⟨by decide, .inl ?_⟩⟩
  · decide +kernel
  · decide +kernel

/-- **Two roots**: the file is consistent. -/
theorem twoRoots_consistent : twoRoots.Consistent := consistent_of_reaches reaches_twoRoots

/-- What it stores. -/
lemma stores_twoRoots : twoRoots.Stores [⟨[97], none, ⟨0, []⟩⟩, ⟨[98], none, ⟨0, [7]⟩⟩] :=
  stores_of_reaches reaches_twoRoots

/-- So many zeros that the size of the record is not a signed 32-bit number. -/
def hugeUpdate : UpdateData :=
  ⟨2147483608, some (replicate 2147483608 0), by
    rintro _ ⟨⟩
    rw [length_replicate]
    decide⟩

/-- The data of the sample. -/
lemma updatedBuffer_hugeUpdate (bfr : List UInt8) :
    updatedBuffer bfr hugeUpdate.dataLen hugeUpdate.data = replicate 2147483608 0 := by
  have hlen : hugeUpdate.dataLen.toInt.toNat = 2147483608 := by decide
  rw [show hugeUpdate.data = some (replicate 2147483608 0) from rfl,
    updatedBuffer_some (by decide), hlen, take_replicate, Nat.min_self]

/-- The node `a` is written over the node `b`. -/
lemma twoRoots_overwritten : twoRoots.Overwritten ⟨[97], none, ⟨0, []⟩⟩
    (replicate 2147483608 0) ((Op.updateNode keyA none hugeUpdate).step twoRoots) := by
  have hneed : needAfter ⟨[97], none, ⟨0, []⟩⟩ hugeUpdate.dataLen hugeUpdate.data = 2147483654 := by
    rw [needAfter, updatedBuffer_hugeUpdate, length_replicate]
    rfl
  rw [← updatedBuffer_hugeUpdate]
  exact stores_twoRoots.overwritten (by simp) rfl
    (by rw [hneed]; decide) (by rw [hneed]; decide)

/-- What the walk along siblings finds at its first block. -/
lemma HDB.Siblings.head {parent prev last : Int32} {l : List Int32}
    (h : s.Siblings parent prev o last l) (ho : o ≠ -1) : ∃ b rest, s.block o = some b ∧
      b.prevSib = prev ∧ s.Siblings parent o b.nextSib last rest := by
  cases h with
  | nil => exact absurd rfl ho
  | cons hb _ _ hprev _ hrest => exact ⟨_, _, hb, hprev, hrest⟩

/-- **A run beyond the bounds**: the walk along the root nodes leads from `a` to a block of
zeros. -/
theorem overwritten_not_consistent : Reaches Op.step (fun op s => op.Outside s) createFile
      [.addRootNode keyA [] 0, .addRootNode keyB [7] 0, .updateNode keyA none hugeUpdate]
      ((Op.updateNode keyA none hugeUpdate).step twoRoots) ∧
    ¬ ((Op.updateNode keyA none hugeUpdate).step twoRoots).Consistent := by
  refine ⟨.snoc (.snoc (.snoc .nil trivial) trivial) trivial, ?_⟩
  rintro ⟨live, free, hlinks⟩
  have hover := twoRoots_overwritten
  have hindex : twoRoots.index.find [97] = some 32 := by decide +kernel
  have hfirst : twoRoots.hdrBlock.firstRoot = 32 := by decide +kernel
  have hnext : (twoRoots.block 32).map HDBBlock.nextSib = some 78 := by decide +kernel
  obtain ⟨b, hb, hself⟩ := hover.block_self hindex
  have hbehind : ((Op.updateNode keyA none hugeUpdate).step twoRoots).block 78 = some zeroBlock :=
    HDB.block_eq (by decide)
      (hover.slice_behind hindex (by decide) (by decide) (by decide)) length_replicate
      decodeBlock_zeros
  have hnodes := hlinks.nodes
  rw [hover.hdrBlock, hfirst] at hnodes
  obtain ⟨b1, rest, hb1, -, hrest⟩ := hnodes.head (by decide)
  rw [hself, some.injEq] at hb1
  rw [hb, map_some, some.injEq] at hnext
  rw [← hb1, show _ = (78 : Int32) from hnext] at hrest
  obtain ⟨b2, -, hb2, hprev, -⟩ := hrest.head (by decide)
  rw [hbehind, some.injEq] at hb2
  rw [← hb2] at hprev
  cases hprev

end OpenWbem.Hdb
