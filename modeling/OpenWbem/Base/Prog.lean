import Mathlib.Tactic.Common

/-!
# Programs with a state and exceptions

A program over a state type `σ` reads and changes the state and either returns a value or
throws. An exception does not undo the changes made before it: the state at the throw is the
state the caller goes on with, as for a program that works on a file.

Correctness of a program is stated by a triple with a known result: `Prog.Runs P x r Q` says that
from *every* state with `P` the program `x` ends with the result `r` in a state with `Q`. The rules
of this file compose such facts along the program text, so a function's specification is used
without unfolding it.

## Main definitions

* `Prog` — programs with state `σ` and exceptions `ε`.
* `Prog.exec` — the result and the final state of a program.
* `Prog.Runs` — total correctness with a known result.
* `Prog.Ensures` — what holds after every outcome, also after an exception.
* `Prog.Keeps` — an invariant of a program.
* `Prog.zoom` — a program that works on a part of the state.
* `Prog.Reaches` — the states reached by sequences of operations.

## Main results

* `Prog.Runs.bind`, `Prog.Runs.bind_error` — sequencing, after a result and after an exception.
* `Prog.Reaches.keeps`, `Prog.Reaches.simulates` — what every operation keeps holds after every
  sequence.
-/

/-- Programs over the state `σ` with exceptions in `ε`; the state survives an exception. -/
abbrev Prog (σ ε α : Type) : Type := ExceptT ε (StateM σ) α

namespace Prog

open List

variable {σ ε α β : Type}

/-- The outcome of a program from a given state: its result and the state it leaves. -/
def exec (x : Prog σ ε α) (s : σ) : Except ε α × σ := StateT.run (ExceptT.run x) s

/-- Run a program under a condition only. -/
def when (p : Prop) [Decidable p] (x : Prog σ ε PUnit) : Prog σ ε PUnit :=
  if p then x else pure ⟨⟩

/-! ### Results without a state -/

/-- A sequence returns iff all its parts do. -/
lemma bind_eq_ok {x : Except ε α} {f : α → Except ε β} {b : β} :
    x >>= f = .ok b ↔ ∃ a, x = .ok a ∧ f a = .ok b := by
  cases x with
  | error e =>
    constructor
    · intro h
      cases h
    · rintro ⟨_, h, -⟩
      cases h
  | ok a =>
    constructor
    · exact fun h => ⟨a, rfl, h⟩
    · rintro ⟨_, ha, h⟩
      cases ha
      exact h

/-- Results of `pure`. -/
lemma pure_eq_ok {a b : α} : (pure a : Except ε α) = .ok b ↔ a = b :=
  ⟨fun h => by cases h; rfl, congrArg _⟩

/-! ### Executing the primitives -/

/-- Running `pure`. -/
@[simp] lemma exec_pure (v : α) (s : σ) : exec (pure v : Prog σ ε α) s = (.ok v, s) := rfl

/-- Running `throw`. -/
@[simp] lemma exec_throw (e : ε) (s : σ) : exec (throw e : Prog σ ε α) s = (.error e, s) := rfl

/-- Running `get`. -/
@[simp] lemma exec_get (s : σ) : exec (get : Prog σ ε σ) s = (.ok s, s) := rfl

/-- Running `set`. -/
@[simp] lemma exec_set (t s : σ) : exec (set t : Prog σ ε PUnit) s = (.ok ⟨⟩, t) := rfl

/-- Running `modify`. -/
@[simp] lemma exec_modify (f : σ → σ) (s : σ) :
    exec (modify f : Prog σ ε PUnit) s = (.ok ⟨⟩, f s) := rfl

variable {p : Prop} {t : σ} {v : α} {e : ε} {h : ε → Prog σ ε α} {g : σ → Prog σ ε β}
  {y : Prog σ ε PUnit}

/-- Running `when`, if it holds. -/
lemma exec_when_pos [Decidable p] (h : p) (x : Prog σ ε PUnit) (s : σ) :
    exec (when p x) s = exec x s := by
  rw [when, if_pos h]

/-- And if not. -/
lemma exec_when_neg [Decidable p] (h : ¬ p) (x : Prog σ ε PUnit) (s : σ) :
    exec (when p x) s = (.ok ⟨⟩, s) := by
  rw [when, if_neg h]
  rfl

/-- One program after the other. -/
lemma exec_bind (x : Prog σ ε α) (f : α → Prog σ ε β) (s : σ) : exec (x >>= f) s =
      match exec x s with
      | (.ok v, t) => exec (f v) t
      | (.error e, t) => (.error e, t) := by
  simp only [exec, ExceptT.run_bind, StateT.run_bind]
  generalize StateT.run (ExceptT.run x) s = out
  rcases out with ⟨_ | _, _⟩ <;> rfl

/-- After a result. -/
lemma exec_bind_of_ok {x : Prog σ ε α} {f : α → Prog σ ε β} {s : σ}
    (h : exec x s = (.ok v, t)) : exec (x >>= f) s = exec (f v) t := by
  rw [exec_bind, h]

/-- After an error. -/
lemma exec_bind_of_error {x : Prog σ ε α} {f : α → Prog σ ε β} {s : σ}
    (h : exec x s = (.error e, t)) : exec (x >>= f) s = (.error e, t) := by
  rw [exec_bind, h]

/-- After `get`. -/
@[simp] lemma exec_get_bind {f : σ → Prog σ ε β} {s : σ} : exec (get >>= f) s = exec (f s) s :=
  exec_bind_of_ok (exec_get s)

/-- After `set`. -/
@[simp] lemma exec_set_bind {f : PUnit → Prog σ ε β} {s : σ} :
    exec (set t >>= f) s = exec (f ⟨⟩) t := exec_bind_of_ok (exec_set t s)

/-- After `modify`. -/
@[simp] lemma exec_modify_bind {g : σ → σ} {f : PUnit → Prog σ ε β} {s : σ} :
    exec (modify g >>= f) s = exec (f ⟨⟩) (g s) := exec_bind_of_ok (exec_modify g s)

/-- A sequence that returns has returned from both of its parts. -/
lemma exec_bind_ok {x : Prog σ ε α} {f : α → Prog σ ε β} {s : σ} {w : β}
    (h : exec (x >>= f) s = (.ok w, t)) :
    ∃ v s', exec x s = (.ok v, s') ∧ exec (f v) s' = (.ok w, t) := by
  rw [exec_bind] at h
  rcases hx : exec x s with ⟨e | v, s'⟩ <;> rw [hx] at h
  · cases h
  · exact ⟨v, s', rfl, h⟩

/-- A loop with results. -/
lemma exec_mapM_cons (f : α → Prog σ ε β) (x : α) (l : List α) (s : σ) : exec ((x :: l).mapM f) s =
      match exec (f x) s with
      | (.ok b, t) => ((exec (l.mapM f) t).1.map (b :: ·), (exec (l.mapM f) t).2)
      | (.error e, t) => (.error e, t) := by
  rw [mapM_cons, exec_bind]
  rcases exec (f x) s with ⟨e | b, t⟩
  · rfl
  · dsimp only
    rw [exec_bind]
    rcases exec (l.mapM f) t with ⟨e | bs, u⟩ <;> rfl

/-- A loop in two parts. -/
lemma exec_forM_append {f : α → Prog σ ε PUnit} {l l' : List α} {s : σ}
    (h : exec (l.forM f) s = (.ok ⟨⟩, t)) : exec ((l ++ l').forM f) s = exec (l'.forM f) t := by
  induction l generalizing s with
  | nil =>
    cases h
    rfl
  | cons x l ih =>
    change exec (f x >>= fun _ => (l ++ l').forM f) s = _
    obtain ⟨u, s', hx, h⟩ := exec_bind_ok h
    rw [exec_bind_of_ok hx, ih h]

/-- Running a handler. -/
lemma exec_tryCatch (x : Prog σ ε α) (h : ε → Prog σ ε α) (s : σ) : exec (tryCatch x h) s =
      match exec x s with
      | (.ok v, t) => (.ok v, t)
      | (.error e, t) => exec (h e) t := by
  simp only [exec, tryCatch, tryCatchThe, MonadExceptOf.tryCatch, ExceptT.tryCatch, ExceptT.run,
    ExceptT.mk, StateT.run_bind]
  generalize hx : @StateT.run σ Id _ x s = out
  rcases out with ⟨_ | _, _⟩ <;> rfl

/-- Handlers that only throw do not matter, if nothing is thrown in the end. -/
lemma exec_tryCatch_ok {x : Prog σ ε α} {s : σ} (hh : ∀ e s, ∃ e', (exec (h e) s).1 = .error e')
    (hx : exec (tryCatch x h) s = (.ok v, t)) : exec x s = (.ok v, t) := by
  rw [exec_tryCatch] at hx
  rcases hxs : exec x s with ⟨e | w, u⟩ <;> rw [hxs] at hx
  · obtain ⟨e', he'⟩ := hh e u
    exact absurd ((congrArg Prod.fst hx).symm.trans he') (by simp)
  · exact hx

/-! ### Total correctness -/

/-- `Runs P x r Q`: from every state with `P`, the program `x` ends with the result `r`, in a state
with `Q`. The statement is total: it excludes non-termination as far as the program models it by
an exception. -/
def Runs (P : σ → Prop) (x : Prog σ ε α) (r : Except ε α) (Q : σ → Prop) : Prop :=
  ∀ s, P s → ∃ t, exec x s = (r, t) ∧ Q t

namespace Runs

variable {P P' Q Q' S : σ → Prop} {x : Prog σ ε α} {f : α → Prog σ ε β}

/-- The rule for `pure`. -/
lemma pure (v : α) : Runs P (Pure.pure v : Prog σ ε α) (.ok v) P := fun s hs => ⟨s, rfl, hs⟩

/-- The rule for `throw`. -/
lemma throw (e : ε) : Runs P (MonadExcept.throw e : Prog σ ε α) (.error e) P :=
  fun s hs => ⟨s, rfl, hs⟩

variable {r : Except ε α}

/-- The rule of consequence. -/
lemma weaken (h : Runs P x r Q) (hP : ∀ s, P' s → P s) (hQ : ∀ s, Q s → Q' s) : Runs P' x r Q' := by
  intro s hs
  obtain ⟨t, hxt, ht⟩ := h s (hP s hs)
  exact ⟨t, hxt, hQ t ht⟩

/-- A fact that follows from the precondition may be assumed. -/
lemma assume (h : ∀ s, P s → Runs P x r Q) : Runs P x r Q := fun s hs => h s hs s hs

/-- **Sequencing** after a normal result. -/
lemma bind {r : Except ε β} (hx : Runs P x (.ok v) Q) (hf : Runs Q (f v) r S) :
    Runs P (x >>= f) r S := by
  intro s hs
  obtain ⟨t, hxt, ht⟩ := hx s hs
  obtain ⟨u, hfu, hu⟩ := hf t ht
  exact ⟨u, by rw [exec_bind_of_ok hxt, hfu], hu⟩

/-- **Sequencing** after an exception: the continuation is skipped. -/
lemma bind_error (hx : Runs P x (.error e) Q) : Runs P (x >>= f) (.error e) Q := by
  intro s hs
  obtain ⟨t, hxt, ht⟩ := hx s hs
  exact ⟨t, exec_bind_of_error hxt, ht⟩

/-- The rule for `when`, if it holds. -/
lemma when_pos [Decidable p] {r : Except ε PUnit} (hp : p)
    (h : Runs P y r Q) : Runs P (Prog.when p y) r Q := by
  rw [Prog.when, if_pos hp]
  exact h

/-- And if not. -/
lemma when_neg [Decidable p] (hp : ¬ p) : Runs P (Prog.when p y) (.ok ⟨⟩) P := by
  rw [Prog.when, if_neg hp]
  exact .pure _

/-- A program that runs under a condition, or not. -/
lemma when [Decidable p] (h : p → Runs P y (.ok ⟨⟩) P) : Runs P (Prog.when p y) (.ok ⟨⟩) P := by
  by_cases hp : p
  · exact when_pos hp (h hp)
  · exact when_neg hp

/-- A program that reads the state first; what it has read is a state with the precondition. -/
lemma get_bind {r : Except ε β} (h : ∀ s, P s → Runs P (g s) r Q) : Runs P (get >>= g) r Q :=
  fun s hs => by
  rw [exec_get_bind]
  exact h s hs s hs

/-- The rule for `map`. -/
lemma map (g : α → β) (hx : Runs P x (.ok v) Q) : Runs P (g <$> x) (.ok (g v)) Q := by
  rw [map_eq_pure_bind]
  exact hx.bind (.pure _)

/-- A program whose body is guarded by a `try` and does not throw. -/
lemma tryCatch_ok (hx : Runs P x (.ok v) Q) : Runs P (tryCatch x h) (.ok v) Q := by
  intro s hs
  obtain ⟨t, hxt, ht⟩ := hx s hs
  exact ⟨t, by rw [exec_tryCatch, hxt], ht⟩

/-- Reading a part of the state. -/
lemma gets {g : σ → α} (h : ∀ s, P s → g s = v) :
    Runs P (do let s ← get; Pure.pure (g s) : Prog σ ε α) (.ok v) P :=
  fun s hs => ⟨s, by rw [exec_get_bind, exec_pure, h s hs], hs⟩

/-- The rule for `modify`. -/
lemma modify {g : σ → σ} (h : ∀ s, P s → Q (g s)) : Runs P (modify g : Prog σ ε PUnit) (.ok ⟨⟩) Q :=
  fun s hs => ⟨g s, rfl, h s hs⟩

/-- The result in a given state. -/
lemma toOption {s : σ} (h : Runs P x (.ok v) Q) (hs : P s) : (exec x s).1.toOption = some v := by
  obtain ⟨t, ht, -⟩ := h s hs
  rw [ht]
  rfl

end Runs

/-! ### All outcomes -/

/-- `Ensures P x Q`: from every state with `P`, the outcome of `x` is in `Q`, be it a result or an
exception. -/
def Ensures (P : σ → Prop) (x : Prog σ ε α) (Q : Except ε α → σ → Prop) : Prop :=
  ∀ s, P s → Q (exec x s).1 (exec x s).2

namespace Ensures

variable {P P' : σ → Prop} {Q Q' : Except ε α → σ → Prop} {R : Except ε β → σ → Prop}
  {x : Prog σ ε α} {f : α → Prog σ ε β}

/-- The rule for `pure`. -/
lemma pure (h : ∀ s, P s → Q (.ok v) s) : Ensures P (Pure.pure v : Prog σ ε α) Q := h

/-- The rule for `throw`. -/
lemma throw (h : ∀ s, P s → Q (.error e) s) : Ensures P (MonadExcept.throw e : Prog σ ε α) Q := h

/-- The rule of consequence. -/
lemma weaken (h : Ensures P x Q) (hP : ∀ s, P' s → P s) (hQ : ∀ r s, Q r s → Q' r s) :
    Ensures P' x Q' := fun s hs => hQ _ _ (h s (hP s hs))

/-- **Sequencing**: an exception of the first program is an outcome of the whole. -/
lemma bind (hx : Ensures P x Q) (hf : ∀ v, Ensures (Q (.ok v)) (f v) R)
    (he : ∀ e s, Q (.error e) s → R (.error e) s) : Ensures P (x >>= f) R := by
  intro s hs
  have h := hx s hs
  rw [exec_bind]
  rcases hx' : exec x s with ⟨_ | v, t⟩
  · rw [hx'] at h
    exact he _ _ h
  · rw [hx'] at h
    exact hf v t h

/-- A part of the precondition that is not about the state. -/
lemma pull (h : p → Ensures P x Q) : Ensures (fun s => P s ∧ p) x Q := fun s hs => h hs.2 s hs.1

/-- Programs that read the state first. -/
lemma get_bind (h : ∀ s, P s → R (exec (g s) s).1 (exec (g s) s).2) :
    Ensures P (get >>= g) R := fun s hs => by
  rw [exec_get_bind]
  exact h s hs

/-- The rule for `when`. -/
lemma when [Decidable p] {Q : Except ε PUnit → σ → Prop} (hpos : p → Ensures P y Q)
    (hneg : ¬ p → ∀ s, P s → Q (.ok ⟨⟩) s) : Ensures P (Prog.when p y) Q := by
  rw [Prog.when]
  split_ifs with hp
  · exact hpos hp
  · exact hneg hp

end Ensures

/-- A program keeps an invariant, whatever its outcome. -/
def Keeps (I : σ → Prop) (x : Prog σ ε α) : Prop := Ensures I x fun _ s => I s

namespace Keeps

variable {I : σ → Prop} {x : Prog σ ε α} {f : α → Prog σ ε β}

/-- Nothing is changed by `pure`. -/
lemma pure (v : α) : Keeps I (Pure.pure v : Prog σ ε α) := fun _ hs => hs

/-- Nor by `throw`. -/
lemma throw (e : ε) : Keeps I (MonadExcept.throw e : Prog σ ε α) := fun _ hs => hs

/-- One program after the other. -/
lemma bind (hx : Keeps I x) (hf : ∀ v, Keeps I (f v)) : Keeps I (x >>= f) :=
  Ensures.bind hx hf fun _ _ hs => hs

/-- With a handler. -/
lemma tryCatch (hx : Keeps I x) (hh : ∀ e, Keeps I (h e)) : Keeps I (MonadExcept.tryCatch x h) := by
  intro s hs
  have hs' := hx s hs
  rw [exec_tryCatch]
  rcases hx' : exec x s with ⟨e | v, t⟩ <;> rw [hx'] at hs'
  · exact hh e t hs'
  · exact hs'

/-- Under a condition. -/
lemma when [Decidable p] (hy : Keeps I y) : Keeps I (Prog.when p y) :=
  Ensures.when (fun _ => hy) fun _ _ hs => hs

/-- A program that reads the state first; the rest may use what it has read. -/
lemma get_bind (h : ∀ s, I s → I (exec (g s) s).2) : Keeps I (get >>= g) := Ensures.get_bind h

/-- A loop keeps what each of its steps keeps. -/
lemma mapM {g : β → Prog σ ε α} (h : ∀ b, Keeps I (g b)) (l : List β) : Keeps I (l.mapM g) := by
  induction l with
  | nil => exact pure []
  | cons b l ih =>
    rw [mapM_cons]
    exact (h b).bind fun _ => ih.bind fun _ => pure _

end Keeps

/-! ### Parts of the state -/

/-- A part `τ` of the state `σ`. -/
structure Lens (σ τ : Type) where
  get : σ → τ
  set : τ → σ → σ
  get_set : ∀ x s, get (set x s) = x
  set_get : ∀ s, set (get s) s = s

/-- The whole state. -/
def Lens.id : Lens σ σ := ⟨fun s => s, fun x _ => x, fun _ _ => rfl, fun _ => rfl⟩

/-- Run a program on a part of the state. -/
def zoom {τ : Type} (L : Lens σ τ) (x : Prog τ ε α) : Prog σ ε α := do
  let s ← get
  set (L.set (exec x (L.get s)).2 s)
  match (exec x (L.get s)).1 with
  | .ok v => pure v
  | .error e => throw e

/-- Running on a part of the state. -/
@[simp] lemma exec_zoom {τ : Type} (L : Lens σ τ) (x : Prog τ ε α) (s : σ) :
    exec (zoom L x) s = ((exec x (L.get s)).1, L.set (exec x (L.get s)).2 s) := by
  rw [zoom, exec_get_bind, exec_set_bind]
  cases (exec x (L.get s)).1 <;> rfl

/-- A program on a part of the state that returns. -/
lemma exec_zoom_ok {τ : Type} {L : Lens σ τ} {x : Prog τ ε α} {s s' : σ}
    (h : exec (zoom L x) s = (.ok v, s')) :
    ∃ t, exec x (L.get s) = (.ok v, t) ∧ s' = L.set t s := by
  rw [exec_zoom, Prod.mk.injEq] at h
  exact ⟨_, Prod.ext h.1 rfl, h.2.symm⟩

/-- A program on a part of the state, for a property of that part. -/
lemma Ensures.zoom {τ : Type} {L : Lens σ τ} {P : τ → Prop} {x : Prog τ ε α}
    {Q : Except ε α → τ → Prop}
    (h : Ensures P x Q) : Ensures (fun s => P (L.get s)) (zoom L x) fun r s => Q r (L.get s) := by
  intro s hs
  rw [exec_zoom, L.get_set]
  exact h _ hs

/-- A program on a part of the state keeps what is independent of that part. -/
lemma Keeps.zoom_of_indep {τ : Type} {L : Lens σ τ} {I : σ → Prop}
    (hI : ∀ x s, I s → I (L.set x s)) (x : Prog τ ε α) : Keeps I (Prog.zoom L x) := by
  intro s hs
  rw [exec_zoom]
  exact hI _ s hs

/-! ### Sequences of operations -/

section Reaches

variable {ι τ : Type} {step : ι → σ → σ} {ok ok' : ι → σ → Prop} {s₀ s : σ} {ops : List ι}

/-- The state `s` is reached from `s₀` by the operations `ops`, each of which is allowed in the
state in which it is executed. -/
inductive Reaches (step : ι → σ → σ) (ok : ι → σ → Prop) (s₀ : σ) : List ι → σ → Prop
  | nil : Reaches step ok s₀ [] s₀
  | snoc {l : List ι} {op : ι} {s : σ} :
      Reaches step ok s₀ l s → ok op s → Reaches step ok s₀ (l ++ [op]) (step op s)

/-- **Simulation.** A relation to abstract states that every allowed operation keeps holds between
the state reached and the one that the abstract operations lead to. -/
lemma Reaches.simulates {R : σ → τ → Prop} {astep : ι → τ → τ} {x0 : τ} (h0 : R s₀ x0)
    (hstep : ∀ {op s x}, R s x → ok op s → R (step op s) (astep op x))
    (h : Reaches step ok s₀ ops s) : R s (ops.foldl (fun x op => astep op x) x0) := by
  induction h with
  | nil => exact h0
  | snoc _ hok ih =>
    rw [foldl_append]
    exact hstep ih hok

/-- **The invariant rule.** What every allowed operation keeps holds in the state reached. -/
lemma Reaches.keeps {P : σ → Prop} (h : Reaches step ok s₀ ops s) (h0 : P s₀)
    (hstep : ∀ {s}, P s → ∀ {op}, ok op s → P (step op s)) : P s := by
  induction h with
  | nil => exact h0
  | snoc _ hok ih => exact hstep ih hok

/-- The state reached is determined by the operations. -/
lemma Reaches.eq_foldl (h : Reaches step ok s₀ ops s) : s = ops.foldl (fun x op => step op x) s₀ :=
  h.simulates rfl (fun hs _ => by rw [hs])

/-- A run with a last operation is a run up to it and an operation that is allowed there. -/
lemma Reaches.snoc_iff {op : ι} (h : Reaches step ok s₀ ops s) :
    Reaches step ok' s₀ (ops ++ [op]) (step op s) ↔ Reaches step ok' s₀ ops s ∧ ok' op s := by
  refine ⟨fun h' => ?_, fun h' => .snoc h'.1 h'.2⟩
  generalize hl : ops ++ [op] = l at h'
  generalize step op s = t at h'
  cases h' with
  | nil => exact absurd hl (by simp)
  | snoc h'' hok =>
    obtain ⟨rfl, hop⟩ := append_inj' hl rfl
    obtain rfl := singleton_inj.1 hop
    rw [h.eq_foldl, ← h''.eq_foldl]
    exact ⟨h'', hok⟩

/-- A run under a condition is a run under every weaker one. -/
lemma Reaches.mono (hok : ∀ {op s}, ok op s → ok' op s) (h : Reaches step ok s₀ ops s) :
    Reaches step ok' s₀ ops s := by
  induction h with
  | nil => exact .nil
  | snoc _ hop ih => exact ih.snoc (hok hop)

end Reaches

end Prog
