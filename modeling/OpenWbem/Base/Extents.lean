import OpenWbem.Base.Bytes
import Mathlib.Order.Nat

/-!
# Blocks at disjoint extents of a file

Many file formats consist of blocks: a header of fixed length, encoded from a record, followed by
the block's body. The header records how many bytes the block owns (its *extent*), which may be
more than header and body need. Blocks are addressed by their offset.

`Extents.Holds` says that a file holds a given collection of blocks: each block's header and body
are where they should be, and no two extents overlap. Every change to such a file rebuilds the
blocks of one region and leaves the rest alone.

## Main definitions

* `Extents.Layout` — how headers are encoded, and what they say about the extent.
* `Extents.Cell`, `Extents.Holds` — a block, and a file that holds a collection of blocks.

## Main results

* `Extents.Holds.rebuild` — replacing the blocks of one region.
* `Extents.Holds.write`, `Extents.Holds.writeHdr` — a write in place, with and without a body.
* `Extents.Holds.append` — a new block at the end of the file.
-/

namespace Extents

open Bytes Function

/-- The layout of a block file with addresses in `A` and headers in `H`. -/
structure Layout (A H : Type) where
  /-- The file offset of an address. -/
  pos : A → ℕ
  /-- The bytes of a header. -/
  enc : H → List UInt8
  /-- The length of every header. -/
  hsz : ℕ
  /-- The number of bytes the block with this header owns. -/
  ext : H → ℕ
  length_enc : ∀ h, (enc h).length = hsz
  hsz_pos : 0 < hsz

/-- A block: its header and the bytes stored behind it. -/
structure Cell (H : Type) where
  hdr : H
  body : List UInt8

variable {A H : Type}

/-- The file `bs` holds the blocks `m`, all of them at or behind the offset `lo`. -/
structure Holds (L : Layout A H) (lo : ℕ) (bs : List UInt8) (m : A → Option (Cell H)) : Prop where
  /-- Header and body stand at the block's offset. -/
  content : ∀ {o c}, m o = some c →
    slice bs (L.pos o) (L.hsz + c.body.length) = L.enc c.hdr ++ c.body
  /-- The extent has room for the body. -/
  fits : ∀ {o c}, m o = some c → L.hsz + c.body.length ≤ L.ext c.hdr
  low : ∀ {o c}, m o = some c → lo ≤ L.pos o
  /-- The extent lies within the file. -/
  high : ∀ {o c}, m o = some c → L.pos o + L.ext c.hdr ≤ bs.length
  /-- Extents do not overlap. -/
  apart : ∀ {o c o' c'}, m o = some c → m o' = some c' → o ≠ o' →
    L.pos o + L.ext c.hdr ≤ L.pos o' ∨ L.pos o' + L.ext c'.hdr ≤ L.pos o

namespace Holds

variable {L : Layout A H} {lo : ℕ} {bs bs' : List UInt8} {m m' : A → Option (Cell H)} {o : A}
  {c : Cell H}

/-- The header and the body of a block read back. -/
lemma slices (h : Holds L lo bs m) (hc : m o = some c) : slice bs (L.pos o) L.hsz = L.enc c.hdr ∧
    slice bs (L.pos o + L.hsz) c.body.length = c.body := by
  have hfit := h.fits hc
  have hhigh := h.high hc
  have hcon := h.content hc
  rw [slice_append (by omega)] at hcon
  exact List.append_inj hcon (by rw [length_slice_of_le (by omega), L.length_enc])

/-- **Rebuilding a region.** If a file changes only in the region from `p` to `q`, the blocks
outside the region stay, and the new blocks of the region are laid out properly in it, then the new
file holds the new collection.

**Proof sketch.** Two blocks are apart because both stay, or both are new, or one lies inside and
one outside. -/
lemma rebuild {p q : ℕ} (new : A → Prop) (h : Holds L lo bs m) (hlo : lo ≤ p)
    (hq : q ≤ bs'.length) (hlen : bs.length ≤ bs'.length)
    (hsame : ∀ i < bs.length, i < p ∨ q ≤ i → bs'[i]? = bs[i]?)
    (hold : ∀ o c, m' o = some c → ¬ new o → m o = some c ∧
      (L.pos o + L.ext c.hdr ≤ p ∨ q ≤ L.pos o))
    (hnew : ∀ o c, m' o = some c → new o →
      p ≤ L.pos o ∧ L.pos o + L.ext c.hdr ≤ q ∧ L.hsz + c.body.length ≤ L.ext c.hdr ∧
        slice bs' (L.pos o) (L.hsz + c.body.length) = L.enc c.hdr ++ c.body)
    (hapart : ∀ o c o' c', new o → new o' → m' o = some c → m' o' = some c' → o ≠ o' →
      L.pos o + L.ext c.hdr ≤ L.pos o' ∨ L.pos o' + L.ext c'.hdr ≤ L.pos o) :
    Holds L lo bs' m' := by
  refine ⟨fun {o c} hc => ?_, fun {o c} hc => ?_, fun {o c} hc => ?_, fun {o c} hc => ?_,
    fun {o c o' c'} hc hc' hne => ?_⟩
  · by_cases ho : new o
    · exact (hnew o c hc ho).2.2.2
    · obtain ⟨hm, hout⟩ := hold o c hc ho
      have hfit := h.fits hm
      have hhigh := h.high hm
      rw [← h.content hm]
      exact slice_congr fun i hi hi' => hsame i (by omega) (by omega)
  · by_cases ho : new o
    · exact (hnew o c hc ho).2.2.1
    · exact h.fits (hold o c hc ho).1
  · by_cases ho : new o
    · exact le_trans hlo (hnew o c hc ho).1
    · exact h.low (hold o c hc ho).1
  · by_cases ho : new o
    · exact le_trans (hnew o c hc ho).2.1 hq
    · exact le_trans (h.high (hold o c hc ho).1) hlen
  · by_cases ho : new o <;> by_cases ho' : new o'
    · exact hapart o c o' c' ho ho' hc hc' hne
    · obtain ⟨hin, hend, -, -⟩ := hnew o c hc ho
      obtain ⟨-, hout⟩ := hold o' c' hc' ho'
      omega
    · obtain ⟨hin, hend, -, -⟩ := hnew o' c' hc' ho'
      obtain ⟨-, hout⟩ := hold o c hc ho
      omega
    · exact h.apart (hold o c hc ho).1 (hold o' c' hc' ho').1 hne

variable [DecidableEq A]

variable {c' : Cell H} {w : List UInt8}

variable (h : Holds L lo bs m)

include h

/-- Replacing one block within its own extent, by any change of its bytes. -/
lemma replace (hc : m o = some c) (hlen : bs'.length = bs.length)
    (hsame : ∀ i < bs.length, i < L.pos o ∨ L.pos o + L.ext c.hdr ≤ i → bs'[i]? = bs[i]?)
    (hext : L.ext c'.hdr ≤ L.ext c.hdr) (hfit : L.hsz + c'.body.length ≤ L.ext c'.hdr)
    (hcon : slice bs' (L.pos o) (L.hsz + c'.body.length) = L.enc c'.hdr ++ c'.body) :
    Holds L lo bs' (update m o (some c')) := by
  have hhigh := h.high hc
  refine h.rebuild (· = o) (h.low hc) (by omega) (by omega) hsame ?_ ?_ ?_
  · intro o' d hd hne
    rw [update_of_ne hne] at hd
    exact ⟨hd, h.apart hd hc hne⟩
  · rintro o' d hd rfl
    rw [update_self, Option.some.injEq] at hd
    subst hd
    exact ⟨le_rfl, by omega, hfit, hcon⟩
  · rintro o1 _ o2 _ rfl rfl _ _ hne
    exact absurd rfl hne

/-- **A write in place** of a header and a new body, in an extent that does not grow. -/
lemma write (hc : m o = some c)
    (hext : L.ext c'.hdr ≤ L.ext c.hdr) (hfit : L.hsz + c'.body.length ≤ L.ext c'.hdr) :
    Holds L lo (patch bs (L.pos o) (L.enc c'.hdr ++ c'.body)) (update m o (some c')) := by
  have hhigh := h.high hc
  have hw : (L.enc c'.hdr ++ c'.body).length = L.hsz + c'.body.length := by
    rw [List.length_append, L.length_enc]
  refine h.replace hc (by rw [length_patch]; omega) ?_ hext hfit ?_
  · intro i hi hout
    rw [getElem?_patch]
    rcases hout with hout | hout
    · rw [if_pos hout, if_pos hi]
    · rw [if_neg (by omega), if_neg (by omega)]
  · rw [← hw, slice_patch_self]

/-- **A write in place** of a header only. -/
lemma writeHdr {b : H} (hc : m o = some c) (hext : L.ext b = L.ext c.hdr) :
    Holds L lo (patch bs (L.pos o) (L.enc b)) (update m o (some ⟨b, c.body⟩)) := by
  have hfit := h.fits hc
  have hhigh := h.high hc
  have hw := L.length_enc b
  refine h.replace hc (by rw [length_patch]; omega) ?_ (le_of_eq hext) (by rw [hext]; exact hfit) ?_
  · intro i hi hout
    rw [getElem?_patch]
    rcases hout with hout | hout
    · rw [if_pos hout, if_pos hi]
    · rw [if_neg (by omega), if_neg (by omega)]
  · rw [slice_append (by rw [length_patch]; omega)]
    congr 1
    · rw [← hw, slice_patch_self]
    · change slice _ _ c.body.length = c.body
      rw [slice_patch_of_disjoint (.inr (by omega)) (by omega), (h.slices hc).2]

/-- **A new block at the end** of the file; `w` holds its header and body and whatever else
belongs to its extent. -/
lemma append (hlo : lo ≤ bs.length) (ho : L.pos o = bs.length)
    (hw : w.length = L.ext c'.hdr) (hfit : L.hsz + c'.body.length ≤ L.ext c'.hdr)
    (hcon : slice w 0 (L.hsz + c'.body.length) = L.enc c'.hdr ++ c'.body) :
    Holds L lo (patch bs (L.pos o) w) (update m o (some c')) := by
  have hlen : (patch bs (L.pos o) w).length = L.pos o + L.ext c'.hdr := by
    rw [length_patch]; omega
  refine h.rebuild (· = o) hlo (q := L.pos o + L.ext c'.hdr) (by omega) (by omega) ?_ ?_ ?_ ?_
  · intro i hi _
    rw [getElem?_patch, if_pos (by omega), if_pos hi]
  · intro o' d hd hne
    rw [update_of_ne hne] at hd
    exact ⟨hd, .inl (h.high hd)⟩
  · rintro o' d hd rfl
    rw [update_self, Option.some.injEq] at hd
    subst hd
    refine ⟨by omega, le_rfl, hfit, ?_⟩
    rw [← hcon]
    exact slice_patch_of_sub (o := 0) (by omega)
  · rintro o1 _ o2 _ rfl rfl _ _ hne
    exact absurd rfl hne

omit [DecidableEq A] in
/-- Writes below the first block leave all blocks alone. -/
lemma writeLow {off : ℕ} (hw : off + w.length ≤ lo)
    (hlo : lo ≤ bs.length) : Holds L lo (patch bs off w) m := by
  have hlen : (patch bs off w).length = bs.length := by rw [length_patch]; omega
  refine ⟨fun {o c} hc => ?_, h.fits, h.low, fun {o c} hc => ?_, h.apart⟩
  · have hfit := h.fits hc
    have hhigh := h.high hc
    have hlow := h.low hc
    rw [slice_patch_of_disjoint (.inr (by omega)) (by omega), h.content hc]
  · rw [hlen]; exact h.high hc

end Holds

end Extents
