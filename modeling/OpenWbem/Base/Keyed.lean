import Mathlib.Data.List.AList
import Mathlib.Data.List.Induction

/-!
# Maps with a state for each key

A map holds a state for each key. An event belongs to a key and changes the state of that key, which
is made if there is none. The state of a key is then the result of its own events.

## Main definitions

* `Keyed.step` — an event.

## Main results

* `Keyed.lookup_foldlM` — the state of a key is the result of its own events.
* `Keyed.exists_foldlM` — events that cannot fail do not fail together.
-/

namespace OpenWbem.Keyed

variable {κ σ ε : Type} [DecidableEq κ]

/-- An event changes the state of its key. -/
def step (key : ε → κ) (f : σ → ε → Option σ) (init : σ) (m : AList fun _ : κ => σ) (e : ε) :
    Option (AList fun _ : κ => σ) :=
  (f ((m.lookup (key e)).getD init) e).map fun s => m.insert (key e) s

variable {key : ε → κ} {f : σ → ε → Option σ} {init : σ}

/-- Events that cannot fail do not fail together. -/
lemma exists_foldlM {τ : Type} {g : τ → ε → Option τ} {es : List ε} {t : τ}
    (h : ∀ t, ∀ e ∈ es, ∃ t', g t e = some t') : ∃ t', es.foldlM g t = some t' := by
  induction es generalizing t with
  | nil => exact ⟨t, rfl⟩
  | cons e es ih =>
    obtain ⟨t1, h1⟩ := h t e (by simp)
    obtain ⟨t2, h2⟩ := ih fun t e he => h t e (by simp [he])
    exact ⟨t2, by rw [List.foldlM_cons, h1]; exact h2⟩

/-- The events of a key, and the state that they give. -/
def Result (key : ε → κ) (f : σ → ε → Option σ) (init : σ) (es : List ε) (k : κ) : Option σ → Prop
  | none => es.filter (fun e => key e = k) = []
  | some s => es.filter (fun e => key e = k) ≠ [] ∧
    (es.filter fun e => key e = k).foldlM f init = some s

/-- **The state of a key is the result of its own events.**

**Proof sketch.** Induction on the events, the last one first. -/
lemma lookup_foldlM {es : List ε} {m : AList fun _ : κ => σ}
    (h : es.foldlM (step key f init) ∅ = some m) (k : κ) : Result key f init es k (m.lookup k) := by
  induction es using List.reverseRecOn generalizing m with
  | nil =>
    cases h
    rfl
  | append_singleton es e ih =>
    rw [List.foldlM_append] at h
    obtain ⟨m', hm', hstep⟩ := Option.bind_eq_some_iff.mp h
    have ih := ih hm'
    rw [List.foldlM_cons] at hstep
    obtain ⟨m'', hm'', hm⟩ := Option.bind_eq_some_iff.mp hstep
    cases hm
    rw [step] at hm''
    obtain ⟨s, hs, rfl⟩ := Option.map_eq_some_iff.mp hm''
    by_cases hk : key e = k
    · subst hk
      rw [AList.lookup_insert]
      have hfilter : (es ++ [e]).filter (fun e' => key e' = key e) =
          es.filter (fun e' => key e' = key e) ++ [e] := by simp
      refine ⟨by rw [hfilter]; simp, ?_⟩
      rw [hfilter, List.foldlM_append]
      rcases hl : m'.lookup (key e) with _ | s' <;> rw [hl] at ih hs
      · have hnil : es.filter (fun e' => key e' = key e) = [] := ih
        rw [hnil]
        simpa using hs
      · rw [ih.2]
        simpa using hs
    · rw [AList.lookup_insert_ne (Ne.symm hk)]
      have hfilter : (es ++ [e]).filter (fun e' => key e' = k) = es.filter fun e' =>
          key e' = k := by
        simp [hk]
      rcases hl : m'.lookup k with _ | s' <;> rw [hl] at ih
      · exact hfilter.trans ih
      · exact ⟨by rw [hfilter]; exact ih.1, by rw [hfilter]; exact ih.2⟩

end OpenWbem.Keyed
