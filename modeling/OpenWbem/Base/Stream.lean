import OpenWbem.Base.Prog
import Mathlib.Data.List.Basic

/-!
# Readers of byte streams

A reader is a program whose state is the bytes that are still to be read. A format is described by a
function that writes values and a reader that reads them back, and is right if the reader takes
exactly the bytes that were written, whatever follows them.

A format of nested objects has a recursive reader. Its recursion is bounded by a number of levels,
and the reader throws a distinguished exception when it runs out of them.

## Main definitions

* `Reader` — programs on a stream.
* `Reader.Reads` — the reader reads exactly these bytes.
* `Reader.RoundTrips` — the reader reads what was written.
* `Reader.Local` — a reader that has returned would do the same whatever followed.
* `Reader.Plain` — a reader that does not look ahead and does not run out of levels.

## Main results

* `Reader.Reads.bind`, `Reader.Reads.replicateM` — reading what was written, part by part.
-/

open Prog

/-- Programs on a stream: the state is the bytes that are still to be read. -/
abbrev Reader (ε α : Type) := Prog (List UInt8) ε α

namespace Reader

open List

variable {ε α β : Type} {p : Reader ε α} {f : α → Reader ε β} {b b' s t : List UInt8}
    {v : α} {w : β}

/-! ### Primitive readers -/

/-- The next `n` bytes; `e` is thrown if there are fewer, and these are read. -/
def take (e : ε) (n : ℕ) : Reader ε (List UInt8) := do
  let s ← get
  set (s.drop n)
  if n ≤ s.length then pure (s.take n) else throw e

/-- The results of reading `n` times. -/
def replicateM (p : Reader ε α) : ℕ → Reader ε (List α)
  | 0 => pure []
  | n + 1 => do
    let x ← p
    let l ← replicateM p n
    pure (x :: l)

/-- Running `take`. -/
lemma exec_take (e : ε) (n : ℕ) (s : List UInt8) :
    exec (take e n) s = (if n ≤ s.length then .ok (s.take n) else .error e, s.drop n) := by
  rw [take, exec_get_bind]
  split_ifs <;> rfl

/-! ### Reading what was written -/

/-- The reader reads exactly the bytes `b`, whatever follows, and returns `v`. -/
def Reads (p : Reader ε α) (b : List UInt8) (v : α) : Prop := ∀ t, exec p (b ++ t) = (.ok v, t)

namespace Reads

/-- Reading nothing. -/
lemma pure (v : α) : Reads (Pure.pure v : Reader ε α) [] v := fun _ => rfl

/-- **Sequencing.** -/
lemma bind (hp : Reads p b v) (hf : Reads (f v) b' w) : Reads (p >>= f) (b ++ b') w := by
  intro t
  rw [append_assoc, exec_bind_of_ok (hp _), hf]

/-- With a function of the result. -/
lemma bind_pure {g : α → β} (hp : Reads p b v) :
    Reads (p >>= fun x => Pure.pure (g x)) b (g v) := by
  intro t
  rw [exec_bind_of_ok (hp _), exec_pure]

/-- Reading some bytes. -/
lemma take (e : ε) (b : List UInt8) : Reads (Reader.take e b.length) b b := by
  intro t
  rw [exec_take, if_pos (by simp), take_left, drop_left]

/-- Reading a list. -/
lemma replicateM {g : α → β} {write : α → List UInt8} {p : Reader ε β} {l : List α}
    (h : ∀ x ∈ l, Reads p (write x) (g x)) :
    Reads (Reader.replicateM p l.length) (l.flatMap write) (l.map g) := by
  induction l with
  | nil => exact .pure []
  | cons x l ih =>
    exact (h x mem_cons_self).bind (ih fun y hy => h y (mem_cons_of_mem _ hy)).bind_pure

end Reads

/-- What was written for a value with `P` is read back, as the image of the value under `f`. -/
def RoundTrips (P : α → Prop) (write : α → List UInt8) (p : Reader ε β) (f : α → β) : Prop :=
  ∀ x, P x → Reads p (write x) (f x)

/-! ### Readers that do not look ahead -/

/-- A reader that has returned has read some bytes, and would do the same whatever followed them. -/
def Local (p : Reader ε α) : Prop := ∀ s v t, exec p s = (.ok v, t) → ∃ b, s = b ++ t ∧ Reads p b v

/-- A reader that returns has read something. -/
def Consumes (p : Reader ε α) : Prop :=
  ∀ s v t, exec p s = (.ok v, t) → t.length < s.length

/-- Some bytes are read. -/
lemma Consumes.take (e : ε) {k : ℕ} (hk : 0 < k) : Consumes (Reader.take e k) := by
  intro s v t h
  rw [exec_take] at h
  split_ifs at h with hle
  · cases h
    rw [length_drop]
    omega
  · cases h

/-- By the first reader. -/
lemma Consumes.bind (hp : Consumes p) (hf : ∀ v s, (exec (f v) s).2.length ≤ s.length) :
    Consumes (p >>= f) := by
  intro s w t h
  obtain ⟨v, s', hx, h⟩ := exec_bind_ok h
  have hle := hf v s'
  rw [h] at hle
  exact Nat.lt_of_le_of_lt hle (hp s v s' hx)

/-- A reader that does not look ahead, leaves at most the bytes that there were, and does not throw
`e` on streams of fewer than `n` bytes. -/
structure Plain (e : ε) (n : ℕ) (p : Reader ε α) : Prop where
  isLocal : Local p
  shrinks : ∀ s, (exec p s).2.length ≤ s.length
  never : ∀ s, s.length < n → (exec p s).1 ≠ .error e

/-- One reader after the other. -/
lemma Local.bind (hp : Local p) (hf : ∀ v, Local (f v)) : Local (p >>= f) := by
  intro s w t h
  obtain ⟨v, s', hs, hrest⟩ := exec_bind_ok h
  obtain ⟨b, rfl, hb⟩ := hp s v s' hs
  obtain ⟨b', rfl, hb'⟩ := hf v s' w t hrest
  exact ⟨b ++ b', by rw [append_assoc], hb.bind hb'⟩

/-- Taking bytes. -/
lemma Local.take (e : ε) (n : ℕ) : Local (Reader.take e n) := by
  intro s v t h
  rw [exec_take] at h
  split_ifs at h with hn
  swap
  · cases h
  cases h
  refine ⟨s.take n, (take_append_drop n s).symm, ?_⟩
  have hread := Reads.take e (s.take n)
  rwa [length_take_of_le hn] at hread

/-- A local reader that does not return on the empty stream has read something when it returns. -/
lemma Local.consumes (hp : Local p) (hnil : ∀ v, exec p [] ≠ (.ok v, [])) : Consumes p := by
  intro s v t h
  obtain ⟨b, rfl, hb⟩ := hp s v t h
  cases b with
  | nil => exact absurd (hb []) (hnil v)
  | cons x b =>
    rw [length_append, length_cons]
    omega

namespace Plain

variable {e e' : ε} {m n : ℕ}

/-- Fewer levels. -/
lemma mono (h : Plain e n p) (hmn : m ≤ n) : Plain e m p :=
  ⟨h.isLocal, h.shrinks, fun s hs => h.never s (Nat.lt_of_lt_of_le hs hmn)⟩

/-- Reading nothing. -/
lemma pure (v : α) : Plain e n (Pure.pure v : Reader ε α) where
  isLocal s v' t h := by
    cases h
    exact ⟨[], rfl, .pure v⟩
  shrinks s := Nat.le_refl _
  never s _ := by simp

/-- Another error. -/
lemma throw (h : e' ≠ e) : Plain e n (MonadExcept.throw e' : Reader ε α) where
  isLocal s v t h := by cases h
  shrinks s := Nat.le_refl _
  never s _ := by simpa using h

/-- Any error, at no level. -/
lemma throw_zero (e' : ε) : Plain e 0 (MonadExcept.throw e' : Reader ε α) where
  isLocal s v t h := by cases h
  shrinks s := Nat.le_refl _
  never s hs := absurd hs (Nat.not_lt_zero _)

/-- Taking bytes. -/
lemma take (h : e' ≠ e) (k : ℕ) : Plain e n (Reader.take e' k) where
  isLocal := .take e' k
  shrinks s := by
    rw [exec_take, length_drop]
    exact Nat.sub_le _ _
  never s _ := by
    rw [exec_take]
    split_ifs
    · simp
    · simpa using h

/-- **Sequencing.** -/
lemma bind (hp : Plain e n p) (hf : ∀ v, Plain e n (f v)) : Plain e n (p >>= f) where
  isLocal := hp.isLocal.bind fun v => (hf v).isLocal
  shrinks s := by
    have h := hp.shrinks s
    rw [exec_bind]
    rcases hs : exec p s with ⟨e | v, s'⟩ <;> rw [hs] at h
    · exact h
    · exact Nat.le_trans ((hf v).shrinks s') h
  never s hs := by
    have hle := hp.shrinks s
    have hne := hp.never s hs
    rw [exec_bind]
    rcases hx : exec p s with ⟨e' | v, s'⟩ <;> rw [hx] at hle hne
    · simpa using hne
    · exact (hf v).never s' (Nat.lt_of_le_of_lt hle hs)

/-- **Sequencing** after a reader that reads something: the rest of the stream is shorter. -/
lemma consumes_bind (hp : ∀ m, Plain e m p) (hc : Consumes p) (hf : ∀ v, Plain e n (f v)) :
    Plain e (n + 1) (p >>= f) where
  isLocal := (hp 0).isLocal.bind fun v => (hf v).isLocal
  shrinks := ((hp 0).bind fun v => (hf v).mono (Nat.zero_le n)).shrinks
  never s hs := by
    have hne := (hp (n + 1)).never s hs
    rw [exec_bind]
    rcases hx : exec p s with ⟨e' | v, s'⟩
    · rw [hx] at hne
      simpa using hne
    · have hlt := hc s v s' hx
      exact (hf v).never s' (by omega)

/-- Reading a list. -/
lemma replicateM (hp : Plain e n p) (k : ℕ) : Plain e n (Reader.replicateM p k) := by
  induction k with
  | zero => exact .pure []
  | succ k ih => exact hp.bind fun _ => ih.bind fun _ => .pure _

end Plain

end Reader
