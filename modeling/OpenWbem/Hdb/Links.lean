import OpenWbem.Base.Hierarchy
import OpenWbem.Hdb.FreeList

/-!
# The link invariant

What the blocks of a database have to do with the hierarchy of nodes that they store. The nodes of
the hierarchy have a key, flags and data. `LiveInv a t` says that the collection of blocks `a`
stores the hierarchy `t`: the index knows exactly the keys of `t`, the block of a key holds its
data, and the links of the blocks are those of the hierarchy.

The roots of the hierarchy form a list like the children of a node, except that its head and tail
are kept in the header block. The functions `Cells.headOf` and `Cells.tailOf` hide the difference.

## Main definitions

* `NodeVal`, `NodeTable` — the hierarchy that a database stores.
* `LiveInv` — the blocks store a hierarchy.
* `DbInv` — the whole invariant, with the free list.

## Main results

* `LiveInv.update` — the invariant after a node has got other contents.
-/

namespace OpenWbem.Hdb

open Bytes Extents Prog Cells Hierarchy List DLinked
open DLinked (firstOf lastOf)

/-! ### The hierarchy that a database stores -/

/-- What is stored under a key. -/
structure NodeVal where
  flags : UInt32
  data : List UInt8
  deriving DecidableEq

/-- A hierarchy of nodes. -/
abbrev NodeTable := Table (List UInt8) NodeVal

/-- The block of a node. -/
structure NodeCell (k : List UInt8) (v : NodeVal) (c : Cell HDBBlock) : Prop where
  live : c.hdr.isFree = false
  flags : c.hdr.flags = v.flags
  keyLength : c.hdr.keyLength = UInt32.ofNat (k.length + 1)
  dataLength : c.hdr.dataLength = UInt32.ofNat (v.data.length + k.length + 1)
  body : c.body = k ++ [0] ++ v.data
  /-- The size is a positive signed number, which is how the code compares it. -/
  small : c.hdr.size.toNat < 2 ^ 31

namespace Cells

/-- The offset of a key. -/
def loc (a : Cells) (k : List UInt8) : Int32 := (a.index.find k).getD (-1)

/-- The offset of a parent, if there is one. -/
def locOf (a : Cells) : Option (List UInt8) → Int32
  | none => -1
  | some p => a.loc p

/-- The offsets of the children of a node, or of the roots. -/
def sibs (a : Cells) (t : NodeTable) (q : Option (List UInt8)) : List Int32 := (kids t q).map a.loc

/-- Where the list of children of a node, or of the roots, starts. -/
def headOf (a : Cells) : Option (List UInt8) → Int32
  | none => a.hdr.firstRoot
  | some p => a.first (a.loc p)

/-- Where the list of children of a node, or of the roots, ends. -/
def tailOf (a : Cells) : Option (List UInt8) → Int32
  | none => a.hdr.lastRoot
  | some p => a.last (a.loc p)

end Cells

/-- A place where children can be attached: the roots, or a node of the hierarchy. -/
def IsPlace (t : NodeTable) (q : Option (List UInt8)) : Prop := ∀ p, q = some p → p ∈ keys t

/-- A key is a place. -/
lemma IsPlace.some {t : NodeTable} {k : List UInt8} (hk : k ∈ keys t) : IsPlace t (some k) := by
  rintro _ ⟨⟩
  exact hk

/-- **The link invariant**: the blocks store the hierarchy `t`. -/
structure LiveInv (a : Cells) (t : NodeTable) : Prop where
  forest : IsForest t
  /-- Keys are C strings, and not empty. -/
  key : ∀ {k}, k ∈ keys t → k ≠ [] ∧ (0 : UInt8) ∉ k
  index : ∀ {k}, (a.index.find k).isSome ↔ k ∈ keys t
  cell : ∀ {r}, r ∈ t → ∃ c, a.heap (a.loc r.key) = some c ∧ NodeCell r.key r.val c
  inj : ∀ {k k'}, k ∈ keys t → k' ∈ keys t → a.loc k = a.loc k' → k = k'
  parent : ∀ {q k}, k ∈ kids t q → a.parent (a.loc k) = a.locOf q
  links : ∀ q, DLinked (-1) a.next a.prev (a.sibs t q)
  head : ∀ {q}, IsPlace t q → a.headOf q = firstOf (-1) (a.sibs t q)
  tail : ∀ {q}, IsPlace t q → a.tailOf q = lastOf (-1) (a.sibs t q)

/-- The invariant of a database: live blocks, free blocks, and no block is both. -/
structure DbInv (a : Cells) (t : NodeTable) (L : List Int32) : Prop where
  live : LiveInv a t
  free : FreeInv a L
  disjoint : ∀ {k}, k ∈ keys t → a.loc k ∉ L

variable {a a' : Cells} {s : HDB} {t t' : NodeTable} {L : List Int32} {o x : Int32}
  {c : Cell HDBBlock} {k k' : List UInt8} {q q' : Option (List UInt8)} {v : NodeVal} {i : ℕ}

/-- An offset where there is a block, or that stands for "none". -/
def IsLink (a : Cells) (x : Int32) : Prop := x = -1 ∨ ∃ c, a.heap x = some c

/-- A pointer leads to a block. -/
lemma IsLink.heap (h : IsLink a x) (hpos : x > 0) : ∃ c, a.heap x = some c :=
  h.resolve_left fun h1 => absurd (h1 ▸ hpos : (-1 : Int32) > 0) (by decide)

/-- Or nowhere. -/
lemma IsLink.heap_none (h : IsLink a x) (hs : a.On s) (hpos : ¬ x > 0) : a.heap x = none := by
  rcases h with rfl | ⟨c, hc⟩
  · exact hs.heap_neg_one
  · exact absurd (hs.pos hc) hpos

/-- Links stay links when only headers change. -/
lemma IsLink.mono (h : IsLink a x) (hheap : ∀ {c}, a.heap x = some c → ∃ c', a'.heap x = some c') :
    IsLink a' x := by
  rcases h with h1 | ⟨c, hc⟩
  · exact .inl h1
  · exact .inr (hheap hc)

namespace LiveInv

/-! ### Offsets -/

/-- The offsets of the children. -/
lemma mem_sibs : x ∈ a.sibs t q ↔ ∃ k ∈ kids t q, a.loc k = x := mem_map

/-- The offset of a child. -/
lemma loc_mem_sibs (h : k ∈ kids t q) : a.loc k ∈ a.sibs t q := mem_sibs.2 ⟨k, h, rfl⟩

variable (h : LiveInv a t)

include h

/-- The block of a key. -/
lemma heap_loc (hk : k ∈ keys t) : ∃ c v, a.heap (a.loc k) = some c ∧ NodeCell k v c := by
  obtain ⟨r, hr, rfl⟩ := mem_keys.1 hk
  obtain ⟨c, hc, hn⟩ := h.cell hr
  exact ⟨c, r.val, hc, hn⟩

/-- Its offset is positive. -/
lemma loc_pos (hs : a.On s) (hk : k ∈ keys t) : 0 < a.loc k := by
  obtain ⟨c, v, hc, -⟩ := h.heap_loc hk
  exact hs.pos hc

/-- Its offset is not -1. -/
lemma loc_ne_neg_one (hs : a.On s) (hk : k ∈ keys t) : a.loc k ≠ -1 := by
  intro heq
  have := h.loc_pos hs hk
  rw [heq] at this
  cases this

/-- The index has it. -/
lemma find_eq (hk : k ∈ keys t) : a.index.find k = some (a.loc k) := by
  obtain ⟨o, ho⟩ := Option.isSome_iff_exists.1 (h.index.2 hk)
  rw [loc, ho]
  rfl

/-- Other keys are not in the index. -/
lemma find_eq_none (hk : k ∉ keys t) : a.index.find k = none := by
  rcases hf : a.index.find k with _ | o
  · rfl
  · exact absurd (h.index.1 (by rw [hf]; rfl)) hk

/-- No child twice. -/
lemma nodup_sibs : (a.sibs t q).Nodup :=
  List.Nodup.map_on (fun _ hx _ hy => h.inj (mem_keys_of_kids hx) (mem_keys_of_kids hy))
    (nodup_kids h.forest.nodup)

/-- No child is at -1. -/
lemma neg_one_not_mem_sibs (hs : a.On s) : (-1 : Int32) ∉ a.sibs t q := by
  intro hm
  obtain ⟨k, hk, heq⟩ := mem_sibs.1 hm
  exact h.loc_ne_neg_one hs (mem_keys_of_kids hk) heq

/-- One place for each block. -/
lemma sibs_unique (hx : x ∈ a.sibs t q) (hx' : x ∈ a.sibs t q') : q = q' := by
  obtain ⟨k, hk, rfl⟩ := mem_sibs.1 hx
  obtain ⟨k', hk', heq⟩ := mem_sibs.1 hx'
  rw [h.inj (mem_keys_of_kids hk') (mem_keys_of_kids hk) heq] at hk'
  exact kids_unique h.forest.nodup hk hk'

/-- A place with children. -/
lemma isPlace_of_kids (hk : k ∈ kids t q) : IsPlace t q := by
  rintro p rfl
  exact h.forest.closed hk

/-- The block of a child. -/
lemma heap_of_mem_sibs (hx : x ∈ a.sibs t q) : ∃ c, a.heap x = some c := by
  obtain ⟨k, hk, rfl⟩ := mem_sibs.1 hx
  obtain ⟨c, v, hc, -⟩ := h.heap_loc (mem_keys_of_kids hk)
  exact ⟨c, hc⟩

/-- Without the key, no children. -/
lemma kids_eq_nil (hk : k ∉ keys t) : kids t (some k) = [] := by
  rcases hl : kids t (some k) with _ | ⟨y, l⟩
  · rfl
  · exact absurd (h.forest.closed (by rw [hl]; exact mem_cons_self)) hk

/-- A link to the tail of a list leads into the list. -/
lemma mem_sibs_of_tail (hq : IsPlace t q) (hx : x = a.tailOf q) (h1 : x ≠ -1) : x ∈ a.sibs t q := by
  rw [h.tail hq] at hx
  rw [hx] at h1 ⊢
  exact (lastOf_cases _ _).resolve_left h1

/-- The tail of a list of children is a child, or there is none. -/
lemma tail_cases (hq : IsPlace t q) : a.tailOf q = -1 ∨ ∃ k ∈ kids t q, a.loc k = a.tailOf q := by
  by_cases h1 : a.tailOf q = -1
  · exact .inl h1
  · exact .inr (mem_sibs.1 (h.mem_sibs_of_tail hq rfl h1))

/-- The tail of a list of children is none of the other blocks. -/
lemma ne_tail (hq : IsPlace t q) (h1 : x ≠ -1) (hx : ∀ {k}, k ∈ keys t → a.loc k ≠ x) :
    x ≠ a.tailOf q := by
  intro heq
  rcases h.tail_cases hq with h2 | ⟨y, hy, hloc⟩
  · exact h1 (heq.trans h2)
  · exact hx (mem_keys_of_kids hy) (hloc.trans heq.symm)

/-- The tail of a list of children is a link as long as the nodes are there. -/
lemma isLink_tail (hq : IsPlace t q)
    (hlive : ∀ {k c}, k ∈ keys t → a.heap (a.loc k) = some c → ∃ c', a'.heap (a.loc k) = some c') :
    IsLink a' (a.tailOf q) := by
  rcases h.tail_cases hq with h1 | ⟨y, hy, hloc⟩
  · exact .inl h1
  · obtain ⟨c, v, hc, -⟩ := h.heap_loc (mem_keys_of_kids hy)
    exact .inr (hloc ▸ hlive (mem_keys_of_kids hy) hc)

/-- The head of a list of children is a child, or there is none. -/
lemma head_cases (hq : IsPlace t q) : a.headOf q = -1 ∨ ∃ k ∈ kids t q, a.loc k = a.headOf q := by
  rw [h.head hq]
  exact (firstOf_cases _ _).imp_right mem_sibs.1

/-- Both ends are missing, or none. -/
lemma head_eq_neg_one (hs : a.On s) (hq : IsPlace t q) : a.headOf q = -1 ↔ a.tailOf q = -1 := by
  have hnil := h.neg_one_not_mem_sibs hs (q := q)
  rw [h.head hq, h.tail hq, firstOf_eq_nil hnil, lastOf_eq_nil hnil]

/-- No node is its own child. -/
lemma loc_ne_tail (hs : a.On s) (hk : k ∈ keys t) : a.loc k ≠ a.tailOf (some k) := by
  intro heq
  rcases h.tail_cases (.some hk) with h1 | ⟨y, hy, hloc⟩
  · exact h.loc_ne_neg_one hs hk (heq.trans h1)
  · obtain rfl := h.inj (mem_keys_of_kids hy) hk (hloc.trans heq.symm)
    exact not_below_of_kids h.forest hy .refl

/-- The two ways in which the code tests for an empty list of children. -/
lemma head_le_zero (hs : a.On s) (hq : IsPlace t q) : a.headOf q ≤ 0 ↔ a.headOf q = -1 := by
  rcases h.head_cases hq with h1 | ⟨y, hy, hloc⟩
  · rw [h1]
    decide
  · have hpos := h.loc_pos hs (mem_keys_of_kids hy)
    rw [← hloc]
    exact iff_of_false (Int32.not_le.2 hpos) (h.loc_ne_neg_one hs (mem_keys_of_kids hy))

omit h in
/-- The offsets around a child. -/
lemma sibs_split {l l' : List (List UInt8)} (hl : kids t q = l ++ k :: l') :
    a.sibs t q = l.map a.loc ++ a.loc k :: l'.map a.loc := by rw [sibs, hl, map_append, map_cons]

/-- The children around a child. -/
lemma exists_split (hk : k ∈ kids t q) : ∃ l l', kids t q = l ++ k :: l' ∧ k ∉ l ++ l' ∧
    a.sibs t q = l.map a.loc ++ a.loc k :: l'.map a.loc := by
  obtain ⟨l, l', hl⟩ := append_of_mem hk
  have hnd : (kids t q).Nodup := nodup_kids h.forest.nodup
  rw [hl] at hnd
  exact ⟨l, l', hl, (nodup_middle.1 hnd).notMem, sibs_split hl⟩

/-- The previous sibling is another child of the same parent, or there is none. -/
lemma prev_cases (hk : k ∈ kids t q) : a.prev (a.loc k) = -1 ∨
    ∃ y ∈ kids t q, y ≠ k ∧ a.loc y = a.prev (a.loc k) := by
  obtain ⟨l, l', hl, hout, hsibs⟩ := h.exists_split hk
  rw [(h.links q).prev_eq hsibs]
  refine (lastOf_cases _ _).imp_right fun hmem => ?_
  obtain ⟨y, hy, hloc⟩ := mem_map.1 hmem
  exact ⟨y, by simp [hl, hy], fun heq => hout (by simp [← heq, hy]), hloc⟩

/-- The next sibling is another child of the same parent, or there is none. -/
lemma next_cases (hk : k ∈ kids t q) : a.next (a.loc k) = -1 ∨
    ∃ y ∈ kids t q, y ≠ k ∧ a.loc y = a.next (a.loc k) := by
  obtain ⟨l, l', hl, hout, hsibs⟩ := h.exists_split hk
  rw [(h.links q).next_eq hsibs]
  refine (firstOf_cases _ _).imp_right fun hmem => ?_
  obtain ⟨y, hy, hloc⟩ := mem_map.1 hmem
  exact ⟨y, by simp [hl, hy], fun heq => hout (by simp [← heq, hy]), hloc⟩

/-- The parent is another node, or there is none. -/
lemma parent_cases (hk : k ∈ kids t q) : a.parent (a.loc k) = -1 ∨
    ∃ p ∈ keys t, p ≠ k ∧ q = some p ∧ a.loc p = a.parent (a.loc k) := by
  rw [h.parent hk]
  rcases q with _ | p
  · exact .inl rfl
  · refine .inr ⟨p, h.forest.closed hk, ?_, rfl, rfl⟩
    rintro rfl
    exact not_below_of_kids h.forest hk .refl

/-- A link to a sibling stays in the list. -/
lemma eq_of_sibling (hs : a.On s) (hx : x ∈ a.sibs t q')
    (hsib : x = -1 ∨ ∃ y ∈ kids t q, y ≠ k ∧ a.loc y = x) : q' = q := by
  rcases hsib with h1 | ⟨y, hy, -, hloc⟩
  · exact absurd (h1 ▸ hx) (h.neg_one_not_mem_sibs hs)
  · exact h.sibs_unique hx (mem_sibs.2 ⟨y, hy, hloc⟩)

/-- The offset of a place tells whether it is a node. -/
lemma locOf_pos (hs : a.On s) (hq : IsPlace t q) : 0 < a.locOf q ↔ q ≠ none := by
  rcases q with _ | p
  · simp only [locOf, ne_eq]
    decide
  · simp [locOf, h.loc_pos hs (hq p rfl)]

/-- A node is known by its offset. -/
lemma ne_none_and_loc (hq : IsPlace t q) (hk : k ∈ keys t) :
    q ≠ none ∧ a.loc k = a.locOf q ↔ some k = q := by
  rcases q with _ | p
  · simp
  · simp only [ne_eq, reduceCtorEq, not_false_eq_true, true_and, Option.some.injEq]
    exact ⟨fun heq => h.inj hk (hq p rfl) heq, fun heq => heq ▸ rfl⟩

/-- The block of a place. -/
lemma loc_eq_locOf (hs : a.On s) (hq : IsPlace t q) (hk : k ∈ keys t) :
    0 < a.locOf q ∧ a.loc k = a.locOf q ↔ some k = q := by
  rw [h.locOf_pos hs hq, h.ne_none_and_loc hq hk]

end LiveInv

/-! ### Changes that keep the links -/

/-- Two blocks that differ in their links only. -/
structure SameNode (c c' : Cell HDBBlock) : Prop where
  isFree : c'.hdr.isFree = c.hdr.isFree
  size : c'.hdr.size = c.hdr.size
  flags : c'.hdr.flags = c.hdr.flags
  keyLength : c'.hdr.keyLength = c.hdr.keyLength
  dataLength : c'.hdr.dataLength = c.hdr.dataLength
  body : c'.body = c.body

/-- The same node. -/
lemma NodeCell.of_same {c' : Cell HDBBlock} (h : NodeCell k v c) (hs : SameNode c c') :
    NodeCell k v c' :=
  ⟨hs.isFree ▸ h.live, hs.flags ▸ h.flags, hs.keyLength ▸ h.keyLength, hs.dataLength ▸ h.dataLength,
    hs.body ▸ h.body, hs.size ▸ h.small⟩

/-- The block at `x` has the same links in both states. -/
structure SameLinks (a a' : Cells) (x : Int32) : Prop where
  next : a'.next x = a.next x
  prev : a'.prev x = a.prev x
  parent : a'.parent x = a.parent x
  first : a'.first x = a.first x
  last : a'.last x = a.last x

/-- The same cell. -/
lemma SameLinks.of_heap (h : a'.heap x = a.heap x) : SameLinks a a' x := by
  have hfield : ∀ {β : Type} (g : HDBBlock → β) (d : β), a'.field g d x = a.field g d x :=
    fun g d => by rw [field, field, h]
  exact ⟨hfield _ _, hfield _ _, hfield _ _, hfield _ _, hfield _ _⟩

namespace LiveInv

/-- **The same links, other contents.** The invariant for a hierarchy of the same shape. -/
lemma of_links (h : LiveInv a t) (hkeys : keys t' = keys t) (hkids : ∀ q, kids t' q = kids t q)
    (hindex : a'.index = a.index)
    (hcell : ∀ {r}, r ∈ t' → ∃ c, a'.heap (a.loc r.key) = some c ∧ NodeCell r.key r.val c)
    (hlinks : ∀ {k}, k ∈ keys t → SameLinks a a' (a.loc k))
    (hfirst : a'.hdr.firstRoot = a.hdr.firstRoot)
    (hlast : a'.hdr.lastRoot = a.hdr.lastRoot) : LiveInv a' t' := by
  have hloc : a'.loc = a.loc := by funext k; rw [loc, loc, hindex]
  have hlocOf : a'.locOf = a.locOf := by
    funext q
    rcases q with _ | p
    · rfl
    · exact congrFun hloc p
  have hsibs : ∀ q, a'.sibs t' q = a.sibs t q := fun q => by rw [sibs, sibs, hloc, hkids]
  have hplace : ∀ {q}, IsPlace t' q → IsPlace t q := fun hq p hp => hkeys ▸ hq p hp
  refine ⟨h.forest.congr hkeys hkids, fun hk => h.key (hkeys ▸ hk),
    fun {k} => by rw [hindex, hkeys]; exact h.index, fun hr => by rw [hloc]; exact hcell hr,
    by rw [hloc, hkeys]; exact h.inj, fun {q k} hk => ?_, fun q => ?_, fun {q} hq => ?_,
    fun {q} hq => ?_⟩
  · rw [hkids] at hk
    rw [hloc, hlocOf, (hlinks (mem_keys_of_kids hk)).parent, h.parent hk]
  · rw [hsibs]
    refine (h.links q).congr (fun x hx => ?_) fun x hx => ?_
    · obtain ⟨k, hk, rfl⟩ := mem_sibs.1 hx
      exact (hlinks (mem_keys_of_kids hk)).next
    · obtain ⟨k, hk, rfl⟩ := mem_sibs.1 hx
      exact (hlinks (mem_keys_of_kids hk)).prev
  · rw [hsibs, ← h.head (hplace hq)]
    rcases q with _ | p
    · exact hfirst
    · change a'.first (a'.loc p) = a.first (a.loc p)
      rw [hloc, (hlinks (hplace hq p rfl)).first]
  · rw [hsibs, ← h.tail (hplace hq)]
    rcases q with _ | p
    · exact hlast
    · change a'.last (a'.loc p) = a.last (a.loc p)
      rw [hloc, (hlinks (hplace hq p rfl)).last]

/-- **A node gets other contents**: its block is written again with the same links. -/
lemma update {f : NodeVal → NodeVal} (h : LiveInv a t)
    (hheap : ∀ {k'}, k' ∈ keys t → k' ≠ k → a'.heap (a.loc k') = a.heap (a.loc k'))
    (hnew : ∀ {r}, r ∈ t → r.key = k → ∃ c, a'.heap (a.loc k) = some c ∧ NodeCell k (f r.val) c)
    (hlinks : SameLinks a a' (a.loc k)) (hfirst : a'.hdr.firstRoot = a.hdr.firstRoot)
    (hlast : a'.hdr.lastRoot = a.hdr.lastRoot) (hindex : a'.index = a.index) :
    LiveInv a' (modify t k f) := by
  refine h.of_links (keys_modify f) (fun _ => kids_modify f) hindex (fun {r} hr => ?_)
    (fun {k'} hk' => ?_) hfirst hlast
  · obtain ⟨r0, hr0, rfl⟩ := mem_modify.1 hr
    by_cases hk : r0.key = k
    · obtain ⟨c, hc, hn⟩ := hnew hr0 hk
      rw [if_pos hk]
      subst hk
      exact ⟨c, hc, hn⟩
    · rw [if_neg hk, hheap (mem_keys.2 ⟨r0, hr0, rfl⟩) hk]
      exact h.cell hr0
  · by_cases hk : k' = k
    · rw [hk]
      exact hlinks
    · exact .of_heap (hheap hk' hk)

end LiveInv

end OpenWbem.Hdb
