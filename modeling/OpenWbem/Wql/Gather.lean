import OpenWbem.Wql.Factoring

/-!
# Collecting the rows of a tableau

The last pass over the cells starts from the root and replaces disjunctions by their operands, until
there is none left; a disjunction that has been replaced is marked as one that does nothing. Then it
does the same with the conjunctions below each of the operands that are left. Cells that do nothing
are removed from the end of the heap meanwhile.

A disjunction that is met twice would be lost the second time. This does not happen, because the
intervals of the references that are still to be treated do not meet.

## Main results

* `gatherLoop_or`, `gatherLoop_and` — the operands that are collected below some references.
* `makeRows_spec` — the rows have the value of the references they are made of.
-/

namespace OpenWbem.Wql

open GateList List Nat

/-! ### Turns of the loop -/

variable {k : ℕ} {x : StackEl} {vs : List Info}

section Turns

variable {orFlag : Bool} {fuel : ℕ} {p todo : List StackEl} {cur : List EvalEl}

/-- The operation that is replaced. -/
def gathered (orFlag : Bool) : WQLOperation := if orFlag then .or else .and

/-- Nothing is left. -/
lemma gatherLoop_nil : gatherLoop orFlag (fuel + 1) p.length p cur = some (p, cur) := by
  rw [gatherLoop, getElem?_eq_none (le_refl _)]

/-- A cell of the operation is replaced by its operands. -/
lemma gatherLoop_expand (hop : (cur.getD k .default).op = gathered orFlag) :
    gatherLoop orFlag (fuel + 1) p.length (p ++ .evalHeap k :: todo) cur =
      gatherLoop orFlag fuel p.length
        (p ++ (cur.getD k .default).first :: (cur.getD k .default).second :: todo)
        (if orFlag then cur.set k { cur.getD k .default with op := .doNothing } else cur) := by
  have hget : (p ++ StackEl.evalHeap k :: todo)[p.length]? = some (.evalHeap k) := by simp
  rw [gathered] at hop
  rw [gatherLoop, hget]
  dsimp only
  rw [if_pos hop]
  simp

/-- An operand is kept. -/
lemma gatherLoop_skip (hx : ∀ k, x = .evalHeap k → (cur.getD k .default).op ≠ gathered orFlag) :
    gatherLoop orFlag (fuel + 1) p.length (p ++ x :: todo) cur =
      gatherLoop orFlag fuel (p ++ [x]).length ((p ++ [x]) ++ todo) cur := by
  have hget : (p ++ x :: todo)[p.length]? = some x := by simp
  rw [gatherLoop, hget]
  cases x with
  | evalHeap k =>
    have hop := hx k rfl
    rw [gathered] at hop
    dsimp only
    rw [if_neg hop]
    simp
  | terminalHeap k | operand k | absent => simp

end Turns

/-! ### Cells and their operands -/

section Cells

variable {ν : ℕ → Bool} {T : ℕ} {evals : List EvalEl}

/-- A reference to a live cell. -/
lemma RefOk.of_evalHeap (h : RefOk T vs (.evalHeap k)) :
    k < vs.length ∧ (vs.getD k .default).Live := by
  cases h with
  | cell hk hlive => exact ⟨hk, hlive⟩

/-- More cells. -/
lemma Apart.append {y : StackEl} (h : Apart vs x y) (hx : RefOk T vs x)
    (hy : RefOk T vs y) (ws : List Info) : Apart (vs ++ ws) x y := by
  intro a b ha hb
  subst ha hb
  cases hx with
  | cell hlt _ =>
    cases hy with
    | cell hlt' _ =>
      rw [getD_append _ _ _ _ hlt, getD_append _ _ _ _ hlt']
      exact h a b rfl rfl

/-- A reference below a disjunction: its interval is in that of the disjunction, before it. -/
def Inside (vs : List Info) (k : ℕ) (x : StackEl) : Prop :=
  ∀ j, x = .evalHeap j → j < k ∧ (vs.getD k .default).lo ≤ (vs.getD j .default).lo

/-- What is known of a cell that does something. -/
structure CellAt (ν : ℕ → Bool) (T : ℕ) (vs : List Info) (k : ℕ) (d : EvalEl) : Prop where
  op : d.op = (vs.getD k .default).op
  first : RefOk T vs d.first
  second : RefOk T vs d.second
  before : ∀ j, d.Refers j → j < k
  size : (vs.getD k .default).size =
    (refInfo ν vs d.first).size + (refInfo ν vs d.second).size + 1
  valAnd : d.op = .and →
    (vs.getD k .default).val = ((refInfo ν vs d.first).val && (refInfo ν vs d.second).val)
  valOr : d.op = .or →
    (vs.getD k .default).val = ((refInfo ν vs d.first).val || (refInfo ν vs d.second).val)
  apart : d.op = .or → Apart vs d.first d.second
  inside : d.op = .or → Inside vs k d.first ∧ Inside vs k d.second

/-- The cell of a reference. -/
lemma cellAt (h : All (info ν) (Good T) [] evals) (hk : k < evals.length)
    (hlive : ((extend (info ν) [] evals).getD k .default).Live) :
    CellAt ν T (extend (info ν) [] evals) k (evals.getD k .default) := by
  obtain ⟨ws, rest, hvs, hlen, hget, hgood⟩ := h.exists_before hk .default .default
  have hop := hgood.op_info (ν := ν)
  rw [← hget] at hop
  set d := evals.getD k .default with hd
  rcases hgood with h | ⟨hcases, h1, h2, hor⟩
  · rcases hlive.op with h' | h' <;> exact absurd (h'.symm.trans (hop.trans h)) (by decide)
  have hin : ∀ x, RefOk T ws x → (info ν ws d).lo ≤ (refInfo ν ws x).lo →
      Inside (extend (info ν) [] evals) k x := by
    intro x hx hle j hj
    subst hj
    cases hx with
    | cell hlt _ =>
      refine ⟨hlen ▸ hlt, ?_⟩
      rw [hget, hvs, getD_append _ _ _ _ hlt]
      exact hle
  refine ⟨hop.symm, hvs ▸ h1.append rest, hvs ▸ h2.append rest, ?_, ?_, ?_, ?_, ?_, ?_⟩
  · rintro j (hj | hj)
    · exact hlen ▸ (hj ▸ h1).of_evalHeap.1
    · exact hlen ▸ (hj ▸ h2).of_evalHeap.1
  · rw [hget, hvs, h1.size_append, h2.size_append]
    rcases hcases with h | h
    · rw [info_and h]
    · rw [info_or h]
  · intro h
    rw [hget, hvs, h1.val_append, h2.val_append, info_and h]
  · intro h
    rw [hget, hvs, h1.val_append, h2.val_append, info_or h]
  · intro h
    exact hvs ▸ (hor h).append h1 h2 rest
  · intro h
    refine ⟨hin _ h1 ?_, hin _ h2 ?_⟩ <;> rw [info_or h]
    · exact (min_le_right _ _).trans (min_le_left _ _)
    · exact (min_le_right _ _).trans (min_le_right _ _)

/-- A size is positive. -/
lemma RefOk.size_pos (h : All (info ν) (Good T) [] evals)
    (hx : RefOk T (extend (info ν) [] evals) x) :
    0 < (refInfo ν (extend (info ν) [] evals) x).size := by
  cases hx with
  | term h => exact one_pos
  | cell hk hlive =>
    have hcell := cellAt h (by simpa using hk) hlive
    rw [refInfo, hcell.size]
    exact succ_pos _

end Cells

/-! ### Disjunctions -/

/-- A reference to a term or to a conjunction. -/
def IsConj (T : ℕ) (vs : List Info) (x : StackEl) : Prop :=
  RefOk T vs x ∧ ∀ k, x = .evalHeap k → (vs.getD k .default).op = .and

/-- The conjunctions have not been changed. -/
def Agrees (evals cur : List EvalEl) : Prop :=
  ∀ k, (evals.getD k .default).op = .and → cur.getD k .default = evals.getD k .default

/-- References that are still to be treated: their intervals do not meet, and the cells in them have
not been changed. -/
structure Fresh (T : ℕ) (vs : List Info) (evals cur : List EvalEl) (todo : List StackEl) :
    Prop where
  ok : ∀ x ∈ todo, RefOk T vs x
  apart : todo.Pairwise (Apart vs)
  fresh : ∀ x ∈ todo, ∀ k, x = .evalHeap k → ∀ j, (vs.getD k .default).lo ≤ j → j ≤ k →
    cur.getD j .default = evals.getD j .default
  agrees : Agrees evals cur

section Disjunctions

variable {ν : ℕ → Bool} {T : ℕ} {evals cur : List EvalEl}

/-- Other cells stay. -/
lemma getD_set_ne {j : ℕ} (h : j ≠ k) (e : EvalEl) :
    (cur.set k e).getD j .default = cur.getD j .default := by
  rw [getD_eq_getElem?_getD, getElem?_set_ne h.symm, ← getD_eq_getElem?_getD]

/-- One operand less. -/
lemma Fresh.tail {todo : List StackEl} (h : Fresh T vs evals cur (x :: todo)) :
    Fresh T vs evals cur todo :=
  ⟨fun y hy => h.ok y (mem_cons_of_mem x hy), (pairwise_cons.mp h.apart).2,
    fun y hy => h.fresh y (mem_cons_of_mem x hy), h.agrees⟩

/-- The operands of a disjunction are in different parts of its interval. -/
lemma Fresh.expand {todo : List StackEl} {d : EvalEl}
    (h : Fresh T vs evals cur (.evalHeap k :: todo)) (hcell : CellAt ν T vs k d) (hop : d.op = .or)
    (hd : evals.getD k .default = d) (hlo : (vs.getD k .default).lo ≤ k) (e : EvalEl) :
    Fresh T vs evals (cur.set k e) (d.first :: d.second :: todo) := by
  obtain ⟨hin1, hin2⟩ := hcell.inside hop
  obtain ⟨hk, htodo⟩ := pairwise_cons.mp h.apart
  have hapart : ∀ x, Inside vs k x → ∀ r ∈ todo, Apart vs x r := by
    intro x hx r hr a b ha hb
    obtain ⟨hlt, hle⟩ := hx a ha
    rcases hk r hr k b rfl hb with h | h
    · exact .inl (by omega)
    · exact .inr (by omega)
  have hfresh : ∀ x, Inside vs k x → ∀ a, x = .evalHeap a →
      ∀ j, (vs.getD a .default).lo ≤ j → j ≤ a →
      (cur.set k e).getD j .default = evals.getD j .default := by
    intro x hx a ha j hj hja
    obtain ⟨hlt, hle⟩ := hx a ha
    rw [getD_set_ne (by omega)]
    exact h.fresh _ mem_cons_self k rfl j (by omega) (by omega)
  refine ⟨?_, ?_, ?_, ?_⟩
  · rintro x (_ | ⟨_, _ | ⟨_, hx⟩⟩)
    · exact hcell.first
    · exact hcell.second
    · exact h.ok x (mem_cons_of_mem _ hx)
  · refine pairwise_cons.mpr ⟨?_, pairwise_cons.mpr ⟨hapart _ hin2, htodo⟩⟩
    rintro x (_ | ⟨_, hx⟩)
    · exact hcell.apart hop
    · exact hapart _ hin1 x hx
  · rintro x (_ | ⟨_, _ | ⟨_, hx⟩⟩)
    · exact hfresh _ hin1
    · exact hfresh _ hin2
    · intro b hb j hj hjb
      have hne : j ≠ k := by
        rcases hk x hx k b rfl hb with h | h <;> omega
      rw [getD_set_ne hne]
      exact h.fresh x (mem_cons_of_mem _ hx) b hb j hj hjb
  · intro j hj
    have hne : j ≠ k := by
      rintro rfl
      rw [hd, hop] at hj
      cases hj
    rw [getD_set_ne hne]
    exact h.agrees j hj

/-- The number of references below some references. -/
def todoSize (ν : ℕ → Bool) (vs : List Info) (todo : List StackEl) : ℕ :=
  (todo.map fun x => (refInfo ν vs x).size).sum

/-- Some reference is true. -/
def anyVal (ν : ℕ → Bool) (vs : List Info) (todo : List StackEl) : Bool :=
  todo.any fun x => (refInfo ν vs x).val

/-- One operand more. -/
lemma todoSize_cons (vs : List Info) (x : StackEl) (todo : List StackEl) :
    todoSize ν vs (x :: todo) = (refInfo ν vs x).size + todoSize ν vs todo := by
  simp [todoSize]

/-- One operand more. -/
lemma anyVal_cons (vs : List Info) (x : StackEl) (todo : List StackEl) :
    anyVal ν vs (x :: todo) = ((refInfo ν vs x).val || anyVal ν vs todo) := by
  simp [anyVal]

/-- **The operands of the disjunctions below some references.** A disjunction is met for the first
time, since its interval has not been changed. -/
lemma gatherLoop_or (hgood : All (info ν) (Good T) [] evals) (n : ℕ) {p todo : List StackEl}
    (hn : todoSize ν (extend (info ν) [] evals) todo ≤ n)
    (h : Fresh T (extend (info ν) [] evals) evals cur todo) :
    ∃ out cur', (∀ fuel, n < fuel → gatherLoop true fuel p.length (p ++ todo) cur =
      some (p ++ out, cur')) ∧
      (∀ x ∈ out, IsConj T (extend (info ν) [] evals) x) ∧
      anyVal ν (extend (info ν) [] evals) out = anyVal ν (extend (info ν) [] evals) todo ∧
      Agrees evals cur' ∧ (todo ≠ [] → out ≠ []) := by
  set vs := extend (info ν) [] evals with hvs
  induction n using Nat.strong_induction_on generalizing p todo cur with
  | _ n ih =>
  cases todo with
  | nil =>
    refine ⟨[], cur, fun fuel hfuel => ?_, fun x hx => absurd hx not_mem_nil, rfl, h.agrees, id⟩
    obtain ⟨fuel, rfl⟩ := exists_eq_succ_of_ne_zero (ne_zero_of_lt hfuel)
    rw [append_nil]
    exact gatherLoop_nil
  | cons x todo =>
    have hx := h.ok x mem_cons_self
    have hpos := hx.size_pos hgood
    rw [← hvs] at hpos
    rw [todoSize_cons] at hn
    by_cases hor : ∃ k, x = .evalHeap k ∧ (vs.getD k .default).op = .or
    · obtain ⟨k, rfl, hop⟩ := hor
      obtain ⟨hk, hlive⟩ := hx.of_evalHeap
      have hk' : k < evals.length := by simpa [hvs] using hk
      have hcell := cellAt hgood hk' hlive
      rw [← hvs] at hcell
      have hlo : (vs.getD k .default).lo ≤ k :=
        forall_getD_extend (info ν) (Q := fun k x => x.lo ≤ k) lo_info_le (d := .default) evals hk'
      have hcur := h.fresh _ mem_cons_self k rfl k hlo (le_refl k)
      have hdop := hcell.op.trans hop
      have h' := h.expand hcell hdop rfl hlo { evals.getD k .default with op := .doNothing }
      have hsize := hcell.size
      obtain ⟨out, cur', hrun, hout, hval, hagrees, hne⟩ := ih (todoSize ν vs _) (by
        rw [todoSize_cons, todoSize_cons]
        change (vs.getD k .default).size + _ ≤ n at hn
        omega) (p := p) (le_refl _) h'
      refine ⟨out, cur', fun fuel hfuel => ?_, hout, ?_, hagrees, fun _ => hne (cons_ne_nil _ _)⟩
      · obtain ⟨fuel, rfl⟩ := exists_eq_succ_of_ne_zero (ne_zero_of_lt hfuel)
        rw [gatherLoop_expand (by rw [hcur]; exact hdop), hcur]
        refine hrun fuel ?_
        rw [todoSize_cons, todoSize_cons]
        change (vs.getD k .default).size + _ ≤ n at hn
        omega
      · rw [hval, anyVal_cons, anyVal_cons, ← Bool.or_assoc]
        exact congrArg (· || _) (hcell.valOr hdop).symm
    · -- the reference stays
      have hskip : ∀ k, x = .evalHeap k → (vs.getD k .default).op = .and := by
        intro k hk
        obtain ⟨-, hlive⟩ := (hk ▸ hx).of_evalHeap
        exact hlive.op.resolve_right fun hop => hor ⟨k, hk, hop⟩
      have hcur : ∀ k, x = .evalHeap k → (cur.getD k .default).op ≠ gathered true := by
        intro k hk
        obtain ⟨hlt, hlive⟩ := (hk ▸ hx).of_evalHeap
        have hcell := cellAt hgood (by simpa [hvs] using hlt) hlive
        have hop := hcell.op.trans (hskip k hk)
        rw [h.agrees k hop, hop]
        decide
      obtain ⟨out, cur', hrun, hout, hval, hagrees, -⟩ :=
        ih (todoSize ν vs todo) (by omega) (p := p ++ [x]) (le_refl _) h.tail
      refine ⟨x :: out, cur', fun fuel hfuel => ?_, ?_, ?_, hagrees, fun _ => cons_ne_nil _ _⟩
      · obtain ⟨fuel, rfl⟩ := exists_eq_succ_of_ne_zero (ne_zero_of_lt hfuel)
        rw [gatherLoop_skip hcur, hrun fuel (by omega)]
        simp
      · rintro y (_ | ⟨_, hy⟩)
        · exact ⟨hx, hskip⟩
        · exact hout y hy
      · rw [anyVal_cons, anyVal_cons, hval]

end Disjunctions

/-! ### Conjunctions -/

section Conjunctions

variable {ν : ℕ → Bool} {T : ℕ} {evals cur : List EvalEl}

/-- All references are true. -/
def allVal (ν : ℕ → Bool) (vs : List Info) (todo : List StackEl) : Bool :=
  todo.all fun x => (refInfo ν vs x).val

/-- One operand more. -/
lemma allVal_cons (vs : List Info) (x : StackEl) (todo : List StackEl) :
    allVal ν vs (x :: todo) = ((refInfo ν vs x).val && allVal ν vs todo) := by
  simp [allVal]

/-- The operands of a conjunction are terms and conjunctions. -/
lemma isConj_operands (hgood : All (info ν) (Good T) [] evals)
    (hfact : All (info ν) Factored [] evals)
    (hk : IsConj T (extend (info ν) [] evals) (.evalHeap k)) :
    IsConj T (extend (info ν) [] evals) (evals.getD k .default).first ∧
      IsConj T (extend (info ν) [] evals) (evals.getD k .default).second := by
  obtain ⟨hlt, hlive⟩ := hk.1.of_evalHeap
  have hlt' : k < evals.length := by simpa using hlt
  have hcell := cellAt hgood hlt' hlive
  have hop := hcell.op.trans (hk.2 k rfl)
  obtain ⟨ws, rest, hvs, hlen, -, hfactk⟩ := hfact.exists_before hlt' .default .default
  have key : ∀ x, RefOk T (extend (info ν) [] evals) x →
      (∀ j, x = .evalHeap j → (evals.getD k .default).Refers j) →
        IsConj T (extend (info ν) [] evals) x := by
    intro x hx hrefers
    refine ⟨hx, fun j hj => ?_⟩
    have hne := hfactk hop j (hrefers j hj)
    have hjk := hcell.before j (hrefers j hj)
    have hget : (extend (info ν) [] evals).getD j .default = ws.getD j .default := by
      rw [hvs, getD_append _ _ _ _ (by omega)]
    obtain ⟨-, hlivej⟩ := (hj ▸ hx).of_evalHeap
    refine hlivej.op.resolve_right fun hor => hne ?_
    rw [← hget]
    exact hor
  exact ⟨key _ hcell.first fun j hj => .inl hj, key _ hcell.second fun j hj => .inr hj⟩

/-- **The terms of the conjunctions below some references.** Conjunctions are not changed, so they
may be met again. -/
lemma gatherLoop_and (hgood : All (info ν) (Good T) [] evals)
    (hfact : All (info ν) Factored [] evals) (hagrees : Agrees evals cur) (n : ℕ)
    {p todo : List StackEl} (hn : todoSize ν (extend (info ν) [] evals) todo ≤ n)
    (h : ∀ x ∈ todo, IsConj T (extend (info ν) [] evals) x) :
    ∃ out, (∀ fuel, n < fuel → gatherLoop false fuel p.length (p ++ todo) cur =
      some (p ++ out, cur)) ∧
      (∀ x ∈ out, ∃ t < T, x = .terminalHeap t) ∧
      allVal ν (extend (info ν) [] evals) out = allVal ν (extend (info ν) [] evals) todo := by
  induction n using Nat.strong_induction_on generalizing p todo with
  | _ n ih =>
  cases todo with
  | nil =>
    refine ⟨[], fun fuel hfuel => ?_, fun x hx => absurd hx not_mem_nil, rfl⟩
    obtain ⟨fuel, rfl⟩ := exists_eq_succ_of_ne_zero (ne_zero_of_lt hfuel)
    rw [append_nil]
    exact gatherLoop_nil
  | cons x todo =>
    have hx := h x mem_cons_self
    have htodo : ∀ y ∈ todo, IsConj T (extend (info ν) [] evals) y :=
      fun y hy => h y (mem_cons_of_mem x hy)
    have hpos := hx.1.size_pos hgood
    rw [todoSize_cons] at hn
    cases x with
    | evalHeap k =>
      obtain ⟨hlt, hlive⟩ := hx.1.of_evalHeap
      have hcell := cellAt hgood (by simpa using hlt) hlive
      have hop := hcell.op.trans (hx.2 k rfl)
      obtain ⟨hconj1, hconj2⟩ := isConj_operands hgood hfact hx
      have hsize := hcell.size
      have hless : todoSize ν (extend (info ν) [] evals) ((evals.getD k .default).first ::
          (evals.getD k .default).second :: todo) < n := by
        rw [todoSize_cons, todoSize_cons]
        change ((extend (info ν) [] evals).getD k .default).size + _ ≤ n at hn
        omega
      obtain ⟨out, hrun, hout, hval⟩ := ih _ hless (p := p) (le_refl _) (by
        rintro y (_ | ⟨_, _ | ⟨_, hy⟩⟩)
        exacts [hconj1, hconj2, htodo y hy])
      refine ⟨out, fun fuel hfuel => ?_, hout, ?_⟩
      · obtain ⟨fuel, rfl⟩ := exists_eq_succ_of_ne_zero (ne_zero_of_lt hfuel)
        have hcur := hagrees k hop
        rw [gatherLoop_expand (by rw [hcur]; exact hop), hcur]
        exact hrun fuel (by omega)
      · rw [hval, allVal_cons, allVal_cons, ← Bool.and_assoc]
        exact congrArg (· && _) (hcell.valAnd hop).symm
    | terminalHeap t =>
      obtain ⟨out, hrun, hout, hval⟩ :=
        ih _ (by omega) (p := p ++ [.terminalHeap t]) (le_refl _) htodo
      refine ⟨.terminalHeap t :: out, fun fuel hfuel => ?_, ?_, ?_⟩
      · obtain ⟨fuel, rfl⟩ := exists_eq_succ_of_ne_zero (ne_zero_of_lt hfuel)
        rw [gatherLoop_skip (fun k hk => absurd hk (by simp)), hrun fuel (by omega)]
        simp
      · rintro y (_ | ⟨_, hy⟩)
        · cases hx.1 with
          | term h => exact ⟨t, h, rfl⟩
        · exact hout y hy
      · rw [allVal_cons, allVal_cons, hval]
    | operand t => nomatch hx.1
    | absent => nomatch hx.1

end Conjunctions

/-! ### Rows -/

section Rows

variable {R : Type} {T : ℕ} {evals cur : List EvalEl}

/-- Behind the cells that are left there are only cells that do nothing. -/
lemma getD_rdropWhile (hk : (cur.getD k .default).op ≠ .doNothing) :
    (cur.rdropWhile fun e => e.op = .doNothing).getD k .default = cur.getD k .default := by
  set p : EvalEl → Bool := fun e => e.op = .doNothing with hp
  have hsplit := rdropWhile_append_rtakeWhile (p := p) (l := cur)
  by_cases hlt : k < (cur.rdropWhile p).length
  · conv_rhs => rw [← hsplit]
    rw [getD_append _ _ _ _ hlt]
  · refine absurd ?_ hk
    rw [← hsplit, getD_append_right _ _ _ _ (by omega), getD_eq_getElem?_getD]
    rcases h : (cur.rtakeWhile p)[k - (cur.rdropWhile p).length]? with - | e
    · rfl
    · have := mem_rtakeWhile_imp (mem_of_getElem? h)
      simpa [hp] using this

/-- The cells that do nothing at the end of the heap are no conjunctions. -/
lemma Agrees.rdropWhile (h : Agrees evals cur) :
    Agrees evals (cur.rdropWhile fun e => e.op = .doNothing) := by
  intro k hk
  have hcur := h k hk
  rw [getD_rdropWhile (by rw [hcur, hk]; decide), hcur]

/-- The values of the terms at their indices. -/
def termVals (v : TermEl R → Bool) (terms : List (TermEl R)) (i : ℕ) : Bool :=
  (terms[i]?).elim false v

variable {v : TermEl R → Bool} {terms : List (TermEl R)}

/-- The terms of a conjunction. -/
lemma mapM_termAt {conj : List StackEl} (vs : List Info)
    (h : ∀ x ∈ conj, ∃ t < terms.length, x = .terminalHeap t) :
    ∃ row, conj.mapM (termAt terms) = some row ∧ (∀ t ∈ row, t ∈ terms) ∧
      row.all v = allVal (termVals v terms) vs conj := by
  induction conj with
  | nil => exact ⟨[], rfl, fun t ht => absurd ht not_mem_nil, rfl⟩
  | cons x conj ih =>
    obtain ⟨row, hrow, hmem, hval⟩ := ih fun y hy => h y (mem_cons_of_mem x hy)
    obtain ⟨t, ht, rfl⟩ := h x mem_cons_self
    refine ⟨terms[t] :: row, ?_, ?_, ?_⟩
    · simp [termAt, ht, hrow]
    · rintro u (_ | ⟨_, hu⟩)
      · exact getElem_mem ht
      · exact hmem u hu
    · rw [all_cons, hval, allVal_cons]
      simp [refInfo, termVals, ht]

/-- The row of a conjunction. -/
lemma makeRow_spec (hgood : All (info (termVals v terms)) (Good terms.length) [] evals)
    (hfact : All (info (termVals v terms)) Factored [] evals) (hagrees : Agrees evals cur)
    (hx : IsConj terms.length (extend (info (termVals v terms)) [] evals) x) :
    ∃ row cur', (∀ fuel,
        (refInfo (termVals v terms) (extend (info (termVals v terms)) [] evals) x).size < fuel →
          makeRow fuel terms cur x = some (row, cur')) ∧
      Agrees evals cur' ∧ (∀ t ∈ row, t ∈ terms) ∧
      row.all v =
        (refInfo (termVals v terms) (extend (info (termVals v terms)) [] evals) x).val := by
  cases x with
  | evalHeap k =>
    have hagrees' := hagrees.rdropWhile
    obtain ⟨hlt, hlive⟩ := hx.1.of_evalHeap
    have hcell := cellAt hgood (by simpa using hlt) hlive
    have hop := hcell.op.trans (hx.2 k rfl)
    have hne : (cur.rdropWhile fun e => e.op = .doNothing) ≠ [] := by
      intro hnil
      have hget := hagrees' k hop
      rw [hnil] at hget
      rw [← hget] at hop
      exact absurd hop (by simp [EvalEl.default])
    have hone : ∀ y ∈ [StackEl.evalHeap k],
        IsConj terms.length (extend (info (termVals v terms)) [] evals) y := fun y hy => by
      rw [mem_singleton.mp hy]
      exact hx
    obtain ⟨conj, hrun, hconj, hval⟩ :=
      gatherLoop_and hgood hfact hagrees' _ (p := []) (le_refl _) hone
    obtain ⟨row, hrow, hmem, hall⟩ :=
      mapM_termAt (v := v) (extend (info (termVals v terms)) [] evals) hconj
    refine ⟨row, _, fun fuel hfuel => ?_, hagrees', hmem, ?_⟩
    · have hrun := hrun fuel (by simpa [todoSize] using hfuel)
      dsimp only [makeRow, gather]
      rw [if_neg hne, if_neg Bool.false_ne_true]
      rw [length_nil, nil_append, nil_append] at hrun
      simp only [hrun, Option.bind_eq_bind, Option.bind_some, hrow]
    · rw [hall, hval]
      simp [allVal]
  | terminalHeap t =>
    have ht : t < terms.length := by
      cases hx.1 with
      | term h => exact h
    refine ⟨[terms[t]], cur, fun fuel _ => ?_, hagrees, ?_, ?_⟩
    · simp [makeRow, termAt, ht]
    · intro u hu
      obtain rfl := mem_singleton.mp hu
      exact getElem_mem ht
    · simp [refInfo, termVals, ht]
  | operand t => cases hx.1
  | absent => cases hx.1

/-- **The rows have the value of the references they are made of.** -/
lemma makeRows_spec (hgood : All (info (termVals v terms)) (Good terms.length) [] evals)
    (hfact : All (info (termVals v terms)) Factored [] evals) (hagrees : Agrees evals cur)
    {disj : List StackEl}
    (h : ∀ x ∈ disj, IsConj terms.length (extend (info (termVals v terms)) [] evals) x) :
    ∃ rows,
      (∀ fuel, todoSize (termVals v terms) (extend (info (termVals v terms)) [] evals) disj < fuel →
          makeRows fuel terms disj cur = some rows) ∧ rows.length = disj.length ∧
      (∀ row ∈ rows, ∀ t ∈ row, t ∈ terms) ∧
      (rows.any fun row => row.all v) =
        anyVal (termVals v terms) (extend (info (termVals v terms)) [] evals) disj := by
  induction disj generalizing cur with
  | nil => exact ⟨[], fun fuel _ => rfl, rfl, fun row hrow => absurd hrow not_mem_nil, rfl⟩
  | cons x disj ih =>
    obtain ⟨row, cur', hrow, hagrees', hmem, hval⟩ :=
      makeRow_spec hgood hfact hagrees (h x mem_cons_self)
    obtain ⟨rows, hrows, hlen, hmems, hvals⟩ := ih hagrees' fun y hy => h y (mem_cons_of_mem x hy)
    refine ⟨row :: rows, fun fuel hfuel => ?_, by simp [hlen], ?_, ?_⟩
    · rw [todoSize_cons] at hfuel
      rw [makeRows, hrow fuel (by omega)]
      simp [hrows fuel (by omega)]
    · rintro r (_ | ⟨_, hr⟩)
      · exact hmem
      · exact hmems r hr
    · rw [any_cons, hval, hvals, anyVal_cons]

end Rows

end OpenWbem.Wql
