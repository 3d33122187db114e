import Mathlib.Data.List.Forall2
import Mathlib.Data.List.GetD

/-!
# Lists of gates

A list of gates, each of which may refer to the gates before it by their index, is evaluated from
the left to the right: the value of a gate is a function of the values before it. Properties of the
gates are checked along the same way, each gate against the values before it.

When gates are inserted or replaced in the middle of a list, and the references of the later gates
are adjusted, the values of the later gates stay related if the adjusted gates are related step by
step.

## Main definitions

* `GateList.extend` — the values of gates, behind given values.
* `GateList.All` — every gate has a property with respect to the values before it.
* `GateList.Sim` — two lists of values are related, along a map of the indices.

## Main results

* `GateList.sim_extend` — related values are extended to related values.
-/

namespace OpenWbem.GateList

open List

variable {α β : Type} (f : List β → α → β)

/-- The values of gates, where `vs` are the values of the gates before them. -/
def extend (vs : List β) : List α → List β
  | [] => []
  | e :: es => f vs e :: extend (vs ++ [f vs e]) es

/-- Every gate has a property with respect to the values before it. -/
def All (P : List β → α → Prop) (vs : List β) : List α → Prop
  | [] => True
  | e :: es => P vs e ∧ All P (vs ++ [f vs e]) es

/-- Nothing to compute. -/
@[simp] lemma extend_nil (vs : List β) : extend f vs [] = [] := rfl

/-- The first gate. -/
lemma extend_cons (vs : List β) (e : α) (es : List α) :
    extend f vs (e :: es) = f vs e :: extend f (vs ++ [f vs e]) es := rfl

/-- One value for each gate. -/
@[simp] lemma length_extend (vs : List β) (es : List α) : (extend f vs es).length = es.length := by
  induction es generalizing vs with
  | nil => rfl
  | cons e es ih => rw [extend_cons, length_cons, length_cons, ih]

/-- The gates in two parts. -/
lemma extend_append (vs : List β) (a b : List α) :
    extend f vs (a ++ b) = extend f vs a ++ extend f (vs ++ extend f vs a) b := by
  induction a generalizing vs with
  | nil => simp
  | cons e a ih => simp [extend_cons, ih]

/-- The value of the gate at an index. -/
lemma extend_split (vs : List β) (a b : List α) (e : α) :
    extend f vs (a ++ e :: b) = extend f vs a ++ f (vs ++ extend f vs a) e ::
      extend f (vs ++ extend f vs a ++ [f (vs ++ extend f vs a) e]) b := by
  rw [extend_append, extend_cons]

variable {d : β} {k : ℕ} {P : List β → α → Prop} {vs vs' : List β} {es : List α} {R : β → β → Prop}
  {τ : ℕ → ℕ}

/-- What holds of every value at its index. -/
lemma forall_getD_extend {Q : ℕ → β → Prop} (hQ : ∀ vs e, Q vs.length (f vs e)) (es : List α)
    (hk : k < es.length) : Q k ((extend f [] es).getD k d) := by
  obtain ⟨a, e, b, rfl, rfl⟩ : ∃ a e b, es = a ++ e :: b ∧ a.length = k :=
    ⟨es.take k, es[k], es.drop (k + 1), by simp, by simp; omega⟩
  rw [extend_split]
  have h := hQ (extend f [] a) e
  rw [length_extend] at h
  simpa using h

/-- No gates. -/
@[simp] lemma all_nil (P : List β → α → Prop) (vs : List β) : All f P vs [] := trivial

/-- The gates in two parts. -/
lemma all_append (P : List β → α → Prop) (vs : List β) (a b : List α) :
    All f P vs (a ++ b) ↔ All f P vs a ∧ All f P (vs ++ extend f vs a) b := by
  induction a generalizing vs with
  | nil => simp
  | cons e a ih => simp [All, extend_cons, ih, and_assoc]

variable {f}

/-- What holds of all gates holds of the gate at an index. -/
lemma All.at {a b : List α} {e : α} (h : All f P vs (a ++ e :: b)) : P (vs ++ extend f vs a) e :=
  ((all_append f P vs a (e :: b)).mp h).2.1

/-- The value of the gate at an index, and what holds of it, with respect to the values before
it. -/
lemma All.exists_before (h : All f P [] es) (hk : k < es.length) (d : β) (d' : α) :
    ∃ ws rest, extend f [] es = ws ++ rest ∧ ws.length = k ∧
      (extend f [] es).getD k d = f ws (es.getD k d') ∧ P ws (es.getD k d') := by
  obtain ⟨a, e, b, rfl, rfl⟩ : ∃ a e b, es = a ++ e :: b ∧ a.length = k :=
    ⟨es.take k, es[k], es.drop (k + 1), by simp, by simp; omega⟩
  have hget : (a ++ e :: b).getD a.length d' = e := by
    simp
  rw [hget]
  refine ⟨extend f [] a, _, extend_split f [] a b e, length_extend f [] a, ?_, by simpa using h.at⟩
  rw [extend_split]
  simp

/-- Two lists of values are related, along a map of the indices. -/
def Sim (R : β → β → Prop) (d : β) (τ : ℕ → ℕ) (vs vs' : List β) : Prop :=
  ∀ k < vs.length, τ k < vs'.length ∧ R (vs.getD k d) (vs'.getD (τ k) d)

/-- One value more on both sides. -/
lemma Sim.concat {x x' : β} (h : Sim R d τ vs vs') (hτ : τ vs.length = vs'.length) (hx : R x x') :
    Sim R d τ (vs ++ [x]) (vs' ++ [x']) := by
  intro k hk
  rw [length_append, length_singleton] at hk
  rcases Nat.lt_succ_iff_lt_or_eq.mp hk with hk | rfl
  · obtain ⟨hlt, hR⟩ := h k hk
    refine ⟨by rw [length_append]; omega, ?_⟩
    rwa [getD_append _ _ _ _ hk, getD_append _ _ _ _ hlt]
  · rw [hτ]
    refine ⟨by simp, ?_⟩
    simpa using hx

/-- **Related values are extended to related values**, if the gates are adjusted step by step.

**Proof sketch.** Induction on the gates, with one more value on each side. -/
lemma sim_extend {S : β → β → Prop} {g : α → α} {Q : List β → α → Prop} (hR : ∀ x y, S x y → R x y)
    (hτ : ∀ k, vs.length ≤ k → τ k + vs.length = k + vs'.length) (h : Sim R d τ vs vs')
    (hstep : ∀ ws ws' e, Sim R d τ ws ws' → vs.length ≤ ws.length →
      ws'.length + vs.length = ws.length + vs'.length → P ws e →
      S (f ws e) (f ws' (g e)) ∧ Q ws' (g e))
    (hP : All f P vs es) :
    List.Forall₂ S (extend f vs es) (extend f vs' (es.map g)) ∧ All f Q vs' (es.map g) ∧
      Sim R d τ (vs ++ extend f vs es) (vs' ++ extend f vs' (es.map g)) := by
  induction es generalizing vs vs' with
  | nil => exact ⟨.nil, trivial, by simpa using h⟩
  | cons e es ih =>
    obtain ⟨hval, hprop⟩ := hstep vs vs' e h (Nat.le_refl _) (Nat.add_comm _ _) hP.1
    have hlen : ∀ (l : List β) x, (l ++ [x]).length = l.length + 1 := fun l x => by simp
    have h' := h.concat (by have := hτ vs.length (Nat.le_refl _); omega) (hR _ _ hval)
    obtain ⟨hall, hprops, hsim⟩ := @ih (vs ++ [f vs e]) (vs' ++ [f vs' (g e)]) (fun k hk => by
        rw [hlen] at hk ⊢
        have := hτ k (by omega)
        rw [hlen]
        omega) h'
      (fun ws ws' e hs hle heq => hstep ws ws' e hs (by rw [hlen] at hle; omega)
        (by rw [hlen, hlen] at heq; omega)) hP.2
    refine ⟨.cons hval hall, ⟨hprop, hprops⟩, ?_⟩
    simpa [extend_cons] using hsim

end OpenWbem.GateList
