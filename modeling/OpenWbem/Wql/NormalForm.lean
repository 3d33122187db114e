import OpenWbem.Base.ExchangeSort
import OpenWbem.Wql.Gather

/-!
# The tableau of a where clause

The passes of the compiler one behind the other: the tableau that is made of a where clause has the
value of the clause, where negations have been replaced by other terms.

## Main definitions

* `Clause.eval` — the value of a clause.
* `Clause.polar` — its value, where the terms below an odd number of negations are replaced.

## Main results

* `compile_polar` — the compiler terminates, and the tableau has the value of the clause with its
  terms replaced.
* `compile_equivalent` — the tableau is true iff the clause is, for values of the terms that
  respect negated and mirrored comparisons.
-/

namespace OpenWbem.Wql

open GateList List Clause ExchangeSort

/-! ### Values of clauses -/

/-- The value of a connective. -/
def Connective.eval : Connective → Bool → Bool → Bool
  | and, a, b => a && b
  | or, a, b => a || b

namespace Clause

variable {R : Type} (v : TermEl R → Bool)

/-- The value of a clause. -/
def eval : Clause R → Bool
  | term t => v t
  | not e => !e.eval
  | binary c a b => c.eval a.eval b.eval

/-- The value of a clause, or of its negation, where terms are replaced instead of negated. -/
def polar (m : Bool) : Clause R → Bool
  | term t => v (if m then t.negate else t)
  | not e => e.polar !m
  | binary c a b => (if m then c.dual else c).eval (a.polar m) (b.polar m)

variable {v}

/-- If the terms that replace others have the opposite values, then negations mean negations. -/
lemma polar_eq {e : Clause R} (h : ∀ t ∈ e.terms, v t.negate = !v t) (m : Bool) :
    e.polar v m = (m ^^ e.eval v) := by
  induction e generalizing m with
  | term t => cases m <;> simp [polar, eval, h t (mem_singleton_self t)]
  | not e ih => rw [polar, ih h, eval]; cases m <;> simp
  | binary c a b iha ihb =>
    rw [polar, iha (fun t ht => h t (mem_append_left _ ht)),
      ihb (fun t ht => h t (mem_append_right _ ht)), eval]
    cases m <;> cases c <;> simp [Connective.eval, Connective.dual]

end Clause

/-! ### The cells after the second pass -/

section Pushed

variable {R : Type} {ν : ℕ → Bool} {T : ℕ}

variable {vs : List Info}

/-- The interval of a reference does not start earlier if there are more cells. -/
lemma RefOk.le_lo_append {x : StackEl} (h : RefOk T vs x) {s : ℕ}
    (hs : s ≤ (refInfo ν vs x).lo) (ws : List Info) : s ≤ (refInfo ν (vs ++ ws) x).lo := by
  cases h with
  | term h => exact hs.trans (by simp [refInfo])
  | cell hk _ =>
    rw [refInfo] at hs ⊢
    rwa [getD_append _ _ _ _ hk]

/-- The values of the terms of two operands. -/
lemma forall_getElem?_append {v : TermEl R → Bool} {l l' : List (TermEl R)} {t : ℕ}
    (h : ∀ i u, (l ++ l')[i]? = some u → ν (t + i) = v u) :
    (∀ i u, l[i]? = some u → ν (t + i) = v u) ∧
      ∀ i u, l'[i]? = some u → ν (t + l.length + i) = v u := by
  constructor
  · intro i u hu
    exact h i u (by rw [getElem?_append_left (List.getElem?_eq_some_iff.mp hu).1, hu])
  · intro i u hu
    rw [Nat.add_assoc]
    exact h (l.length + i) u
      (by rw [getElem?_append_right (by omega), Nat.add_sub_cancel_left, hu])

section Connectives

variable {x y : StackEl} {op : WQLOperation} (swapped : Prop) [Decidable swapped]

/-- The cell of a connective is well-formed, in either order of its operands. -/
lemma good_connective (hop : op = .and ∨ op = .or) (hx : RefOk T vs x) (hy : RefOk T vs y)
    (hxy : ∀ i j, x = .evalHeap i → y = .evalHeap j → i < (vs.getD j .default).lo) :
    Good T vs (if swapped then ⟨false, op, y, x⟩ else ⟨false, op, x, y⟩) := by
  have hgood : Good T vs ⟨false, op, x, y⟩ :=
    .inr ⟨hop, hx, hy, fun _ i j hi hj => .inl (hxy i j hi hj)⟩
  split_ifs
  · exact hgood.swap
  · exact hgood

/-- The order of the operands of a connective does not matter. -/
lemma info_connective : info ν vs (if swapped then ⟨false, op, y, x⟩ else ⟨false, op, x, y⟩) =
    info ν vs ⟨false, op, x, y⟩ := by
  split_ifs
  · exact info_swap _ _ _ _ _
  · rfl

/-- The interval of a connective starts with that of an operand or with its cell. -/
lemma le_lo_connective {s : ℕ} (hop : op = .and ∨ op = .or) (hs : s ≤ vs.length)
    (hx : s ≤ (refInfo ν vs x).lo) (hy : s ≤ (refInfo ν vs y).lo) :
    s ≤ (info ν vs ⟨false, op, x, y⟩).lo := by
  rcases hop with h | h
  · rw [info_and h]
    exact hs
  · rw [info_or h]
    exact le_min hs (le_min hx hy)

end Connectives

/-- **The cells of a clause are well-formed, and have its value.** The second operand of a
disjunction starts in its own segment. -/
lemma pushed_spec {v : TermEl R → Bool} (e : Clause R) (m : Bool) {s t : ℕ} (hvs : vs.length = s)
    (hT : t + e.terms.length ≤ T) (htv : ∀ i u, (e.pushedTerms m)[i]? = some u → ν (t + i) = v u) :
    All (info ν) (Good T) vs (e.pushed m s t) ∧
      RefOk T (vs ++ extend (info ν) vs (e.pushed m s t)) (e.pushedRoot s t) ∧
      (refInfo ν (vs ++ extend (info ν) vs (e.pushed m s t)) (e.pushedRoot s t)).val = e.polar v m ∧
      s ≤ (refInfo ν (vs ++ extend (info ν) vs (e.pushed m s t)) (e.pushedRoot s t)).lo := by
  induction e generalizing m s t vs with
  | term u =>
    have hval := htv 0 (if m then u.negate else u) rfl
    refine ⟨trivial, .term hT, hval, ?_⟩
    simp [pushedRoot, refInfo, hvs]
  | not e ih =>
    obtain ⟨hgood, hok, hval, hlo⟩ := ih (!m) hvs hT htv
    rw [pushed, pushedRoot, GateList.all_append, extend_append, ← append_assoc]
    refine ⟨⟨hgood, .inl rfl, trivial⟩, hok.append _, ?_, hok.le_lo_append hlo _⟩
    rw [hok.val_append, hval, polar]
  | binary c a b iha ihb =>
    rw [terms, length_append] at hT
    obtain ⟨htva, htvb⟩ := forall_getElem?_append htv
    rw [length_pushedTerms] at htvb
    obtain ⟨hgooda, hoka, hvala, hloa⟩ := iha m hvs (by omega) htva
    set s' := s + a.size with hs'
    set t' := t + a.terms.length with ht'
    set wsa := vs ++ extend (info ν) vs (a.pushed m s t) with hwsa
    have hlena : wsa.length = s' := by simp [hwsa, hvs, hs']
    obtain ⟨hgoodb, hokb, hvalb, hlob⟩ := ihb m hlena (by omega) htvb
    set wsb := wsa ++ extend (info ν) wsa (b.pushed m s' t') with hwsb
    have hlenb : wsb.length = s' + b.size := by simp [hwsb, hlena]
    -- the cell of the connective, in either order of its operands
    set op := (if m then c.dual else c).op with hop
    have hopc : (if m then c.dual.op else c.op) = op := by rw [hop]; split_ifs <;> rfl
    have hlive : op = .and ∨ op = .or := by
      rw [hop]
      cases (if m then c.dual else c)
      · exact .inl rfl
      · exact .inr rfl
    have hgood := good_connective (swaps (a.root s t) (b.root s' t')) hlive (hoka.append _) hokb
      fun i j hi hj => by
        have hlt := (of_pushedRoot_eq hi).2
        rw [hj] at hlob
        exact hlt.trans_le hlob
    have hpushed : (binary c a b).pushed m s t = a.pushed m s t ++ (b.pushed m s' t' ++
        [if swaps (a.root s t) (b.root s' t') then ⟨false, op, b.pushedRoot s' t', a.pushedRoot s t⟩
          else ⟨false, op, a.pushedRoot s t, b.pushedRoot s' t'⟩]) := by
      rw [← hopc]
      rfl
    have hall : vs ++ extend (info ν) vs ((binary c a b).pushed m s t) =
        wsb ++ [info ν wsb ⟨false, op, a.pushedRoot s t, b.pushedRoot s' t'⟩] := by
      rw [hpushed, extend_append, extend_append, ← hwsb, extend_cons, info_connective]
      simp [hwsb, hwsa]
    have hroot : (binary c a b).pushedRoot s t = .evalHeap wsb.length := by
      rw [hlenb]
      rfl
    have hget : (wsb ++ [info ν wsb ⟨false, op, a.pushedRoot s t, b.pushedRoot s' t'⟩]).getD
        wsb.length .default = info ν wsb ⟨false, op, a.pushedRoot s t,
          b.pushedRoot s' t'⟩ := by simp
    rw [hall, hroot, refInfo, hget]
    refine ⟨?_, .cell (by simp) ?_, ?_, le_lo_connective hlive (by omega)
      (hoka.le_lo_append hloa _) (by omega)⟩
    · rw [hpushed, GateList.all_append, GateList.all_append]
      exact ⟨hgooda, hgoodb, hgood, trivial⟩
    · rw [hget, ← info_connective (swaps (a.root s t) (b.root s' t'))]
      refine hgood.live fun h => ?_
      split_ifs at h <;> rcases hlive with h' | h' <;> exact absurd (h'.symm.trans h) (by decide)
    · rw [polar, ← (hoka.val_append _).trans hvala, ← hvalb, hop]
      cases (if m then c.dual else c) <;> rfl

/-- Unused cells at the end. -/
lemma rootVal_append_doNothing (l : List Info) (vs : List Info) {D : List EvalEl}
    (hD : ∀ d ∈ D, d.op = .doNothing) : rootVal (l ++ extend (info ν) vs D) = rootVal l := by
  have hfilter : (extend (info ν) vs D).filter (fun x => x.op != .doNothing) = [] := by
    induction D generalizing vs with
    | nil => rfl
    | cons d D ih =>
      rw [extend_cons, info_doNothing (hD d mem_cons_self)]
      exact ih _ fun d hd => hD d (mem_cons_of_mem _ hd)
  rw [rootVal, filter_append, hfilter, append_nil, rootVal]

/-- The cell that is referred to is the last one that does something. -/
lemma pushed_split (e : Clause R) (m : Bool) (s t : ℕ) :
    (e.pushedRoot s t = .terminalHeap t ∧ ∀ d ∈ e.pushed m s t, d.op = .doNothing) ∨
      ∃ A c D, e.pushed m s t = A ++ c :: D ∧ e.pushedRoot s t = .evalHeap (s + A.length) ∧
        c.op ≠ .doNothing ∧ ∀ d ∈ D, d.op = .doNothing := by
  induction e generalizing m s t with
  | term u => exact .inl ⟨rfl, fun d hd => absurd hd not_mem_nil⟩
  | not e ih =>
    rcases ih (!m) s t with ⟨hroot, hall⟩ | ⟨A, c, D, hpushed, hroot, hc, hD⟩
    · refine .inl ⟨hroot, fun d hd => ?_⟩
      rcases mem_append.mp hd with hd | hd
      · exact hall d hd
      · rw [mem_singleton.mp hd]
    · refine .inr ⟨A, c, D ++ [⟨false, .doNothing, e.pushedRoot s t, .absent⟩], ?_, hroot, hc, ?_⟩
      · rw [pushed, hpushed]
        simp
      · intro d hd
        rcases mem_append.mp hd with hd | hd
        · exact hD d hd
        · rw [mem_singleton.mp hd]
  | binary c a b =>
    obtain ⟨cell, hcell, hop⟩ : ∃ cell, (binary c a b).pushed m s t =
        (a.pushed m s t ++ b.pushed m (s + a.size) (t + a.terms.length)) ++ [cell] ∧
          cell.op ≠ .doNothing := by
      refine ⟨_, (append_assoc _ _ _).symm, ?_⟩
      cases m <;> cases c <;> split_ifs <;> simp [Connective.op, Connective.dual]
    refine .inr ⟨_, cell, [], hcell, ?_, hop, fun d hd => absurd hd not_mem_nil⟩
    simp [pushedRoot, Nat.add_assoc]

/-- The value of the root after the second pass. -/
lemma rootVal_pushed {v : TermEl R → Bool} (e : Clause R) :
    let terms := e.pushedTerms false
    let cells := e.pushed false 0 0
    All (info (termVals v terms)) (Good terms.length) [] cells ∧
      (rootVal (extend (info (termVals v terms)) [] cells)).getD (termVals v terms 0) =
        e.polar v false := by
  intro terms cells
  obtain ⟨hgood, hok, hval, -⟩ :=
    pushed_spec (ν := termVals v terms) (T := terms.length) (v := v) e false
    (t := 0) (length_nil) (by simp [terms]) fun i u hu => by
      rw [Nat.zero_add, termVals, hu]
      rfl
  refine ⟨hgood, ?_⟩
  rw [nil_append] at hval
  rcases pushed_split e false 0 0 with ⟨hroot, hall⟩ | ⟨A, c, D, hpushed, hroot, hc, hD⟩
  · have hnone := rootVal_append_doNothing (ν := termVals v terms) [] [] hall
    rw [nil_append] at hnone
    rw [hnone, ← hval, hroot]
    rfl
  · have hgood' : Good terms.length (extend (info (termVals v terms)) [] A) c := by
      rw [hpushed] at hgood
      simpa using hgood.at
    have hop := hgood'.op_info (ν := termVals v terms)
    rw [← hval, hroot]
    change (rootVal (extend _ [] (e.pushed false 0 0))).getD _ = _
    rw [hpushed, extend_split, append_cons, rootVal_append_doNothing _ _ hD, refInfo]
    simp [rootVal, hop, hc]

end Pushed

/-! ### Sorting -/

section Sorting

variable {R : Type} {v : TermEl R → Bool}

/-- The inner loop of the sort only exchanges terms. -/
lemma sortInner_perm (key1 : ByteStr) (j : ℕ) (ks : List ℕ) (tr : List (TermEl R)) :
    (sortInner key1 j ks tr).Perm tr := by
  induction ks generalizing tr with
  | nil => exact .refl _
  | cons k ks ih =>
    rw [sortInner]
    split
    · rename_i a b ha hb
      obtain ⟨hj, rfl⟩ := List.getElem?_eq_some_iff.mp ha
      obtain ⟨hk, rfl⟩ := List.getElem?_eq_some_iff.mp hb
      split_ifs
      · exact (ih _).trans (set_set_perm hj hk)
      · exact ih _
    · exact .refl _

/-- Sorting keeps the terms. -/
lemma sortRow_perm (tr : List (TermEl R)) : (sortRow tr).Perm tr := by
  rw [sortRow]
  generalize range tr.length = js
  suffices h : ∀ tr' : List (TermEl R), tr'.Perm tr → (js.foldl (fun tr j =>
      sortInner ((tr[j]?.map TermEl.key).getD []) j (range' j (tr.length - j)) tr) tr').Perm tr from
    h tr (.refl _)
  induction js with
  | nil => exact fun tr' h => h
  | cons j js ih => exact fun tr' h => ih _ ((sortInner_perm _ _ _ _).trans h)

variable [DecidableEq R]

/-- Dropping repeated terms does not change which terms a row has. -/
lemma mem_unique {t : TermEl R} {tr : List (TermEl R)} : t ∈ unique tr ↔ t ∈ tr := by
  induction tr with
  | nil => rfl
  | cons u tr ih =>
    rw [unique]
    rcases h : unique tr with - | ⟨w, ws⟩
    · rw [h] at ih
      simp only [mem_cons, ← ih]
    · rw [h] at ih
      dsimp only
      split_ifs with heq
      · rw [mem_cons (l := tr), ← ih, heq]
        simp
      · rw [mem_cons, ih, mem_cons]

variable {row : List (TermEl R)} {rows : List (List (TermEl R))}

/-- Sorting does not change the value of a row, if turned terms have the same value. -/
lemma all_sorted (h : ∀ t ∈ row, v t.turn = v t) :
    (unique (sortRow (row.map TermEl.turn))).all v = row.all v := by
  rw [Bool.eq_iff_iff, all_eq_true, all_eq_true]
  simp only [mem_unique, (sortRow_perm _).mem_iff, mem_map, forall_exists_index, and_imp,
    forall_apply_eq_imp_iff₂]
  exact forall₂_congr fun t ht => by rw [h t ht]

/-- The terms of the sorted rows. -/
lemma mem_sortTableau (h : row ∈ sortTableau rows) :
    ∃ row' ∈ rows, ∀ t ∈ row, ∃ u ∈ row', t = u.turn := by
  obtain ⟨row', hrow', rfl⟩ := mem_map.mp h
  refine ⟨row', hrow', fun t ht => ?_⟩
  rw [mem_unique, (sortRow_perm _).mem_iff] at ht
  obtain ⟨u, hu, rfl⟩ := mem_map.mp ht
  exact ⟨u, hu, rfl⟩

/-- **Sorting does not change the value of a tableau**, if turned terms have the same value. -/
lemma any_sortTableau (h : ∀ row ∈ rows, ∀ t ∈ row, v t.turn = v t) :
    ((sortTableau rows).any fun row => row.all v) = rows.any fun row => row.all v := by
  induction rows with
  | nil => rfl
  | cons row rows ih =>
    have hrows := ih fun r hr => h r (mem_cons_of_mem _ hr)
    rw [sortTableau] at hrows ⊢
    rw [map_cons, any_cons, any_cons, hrows, all_sorted (h row mem_cons_self)]

end Sorting

/-! ### The order of the rows -/

section Order

variable {R : Type}

/-- The inner loop is a pass of the sort, on the keys. -/
lemma sortInner_pass (key1 : ByteStr) (pre mid rest : List (TermEl R)) (a : TermEl R) : ∃ z out,
    sortInner key1 pre.length (range' (pre.length + 1 + mid.length) rest.length)
        (pre ++ a :: (mid ++ rest)) = pre ++ z :: (mid ++ out) ∧
      pass key1 a.key (rest.map TermEl.key) = (z.key, out.map TermEl.key) := by
  induction rest generalizing a mid with
  | nil => exact ⟨a, [], by simp [sortInner], rfl⟩
  | cons b rest ih =>
    have hk : (pre ++ a :: (mid ++ b :: rest))[pre.length + 1 + mid.length]? = some b := by
      simp [Nat.add_assoc, Nat.add_comm 1]
    have hlen (c : TermEl R) :
        pre.length + 1 + mid.length + 1 = pre.length + 1 + (mid ++ [c]).length := by
      rw [length_append, Nat.add_assoc]
      rfl
    rw [length_cons, range'_succ, sortInner, hk, map_cons]
    simp only [getElem?_append_right, Nat.le_refl, Nat.sub_self, getElem?_cons_zero]
    split_ifs with hlt
    · obtain ⟨z, out, h, hpass⟩ := ih (mid ++ [a]) b
      refine ⟨z, a :: out, ?_, ?_⟩
      · rw [append_cons mid a out, ← h, hlen a]
        simp [Nat.add_assoc, Nat.add_comm 1]
      · rw [pass_of_lt hlt, hpass, map_cons]
    · obtain ⟨z, out, h, hpass⟩ := ih (mid ++ [b]) a
      refine ⟨z, b :: out, ?_, ?_⟩
      · rw [append_cons mid b out, ← h, hlen b]
        simp
      · rw [pass_of_le (not_lt.1 hlt), hpass, map_cons]

/-- The loops are the sort, on the keys.

**Proof sketch.** Induction on the number of passes, where the ones before have put `pre` in
place. -/
lemma map_key_passes (n : ℕ) (pre rest : List (TermEl R)) (hn : rest.length = n) :
    ((range' pre.length n).foldl (fun tr j => sortInner ((tr[j]?.map TermEl.key).getD []) j
      (range' j (tr.length - j)) tr) (pre ++ rest)).map TermEl.key =
        pre.map TermEl.key ++ exchangeSort (rest.map TermEl.key) := by
  induction n generalizing pre rest with
  | zero => simp [length_eq_zero_iff.1 hn, exchangeSort]
  | succ n ih =>
    obtain ⟨a, rest, rfl⟩ := exists_cons_of_length_eq_add_one hn
    obtain ⟨z, out, h, hz⟩ := sortInner_pass a.key pre [] rest a
    have hpass : sortInner a.key pre.length (range' pre.length (rest.length + 1))
        (pre ++ a :: rest) = pre ++ z :: out := by
      rw [range'_succ, sortInner]
      simpa [List.lt_irrefl] using h
    have hlen : out.length = n := by
      have hout := length_pass (k := a.key) (x := a.key) (l := rest.map TermEl.key)
      rw [hz, length_map, length_map] at hout
      exact hout.trans (Nat.succ_injective hn)
    rw [range'_succ, foldl_cons, map_cons, exchangeSort, hz]
    simp only [getElem?_append_right, Nat.le_refl, Nat.sub_self, getElem?_cons_zero,
      Option.map_some,
      Option.getD_some, length_append, length_cons, Nat.add_sub_cancel_left, hpass]
    simpa using ih (pre ++ [z]) out hlen

/-- The keys are sorted. -/
lemma map_key_sortRow (tr : List (TermEl R)) :
    (sortRow tr).map TermEl.key = exchangeSort (tr.map TermEl.key) := by
  have h := map_key_passes tr.length [] tr rfl
  rwa [length_nil, ← range_eq_range'] at h

/-- The comparison of a property with a constant. -/
def isNull (R : Type) (k : ByteStr) : TermEl R := ⟨.eq, .propertyName k, .value .null⟩

variable [DecidableEq R]

/-- Repeated terms are dropped: no two neighbours are equal. -/
lemma isChain_unique (tr : List (TermEl R)) : (unique tr).IsChain (· ≠ ·) := by
  induction tr with
  | nil => exact .nil
  | cons t tr ih =>
    rw [unique]
    rcases h : unique tr with - | ⟨u, us⟩
    · exact .singleton t
    · rw [h] at ih
      dsimp only
      split_ifs with htu
      · exact ih
      · exact .cons_cons htu ih

/-- Dropping repeated terms does not change whether a row is in order. -/
lemma pairwise_unique {r : TermEl R → TermEl R → Prop} (hr : ∀ t, r t t) {tr : List (TermEl R)} :
    (unique tr).Pairwise r ↔ tr.Pairwise r := by
  induction tr with
  | nil => rfl
  | cons t tr ih =>
    have hmem {u : TermEl R} : u ∈ unique tr ↔ u ∈ tr := mem_unique
    rw [unique]
    rcases h : unique tr with - | ⟨w, ws⟩ <;> rw [h] at ih hmem <;> dsimp only
    · simp [pairwise_cons, ← ih, ← hmem]
    · split_ifs with htw
      · subst htw
        simp only [pairwise_cons (l := tr), ← ih, ← hmem, forall_mem_cons, hr t, true_and]
        exact ⟨fun hp => ⟨(pairwise_cons.1 hp).1, hp⟩, fun hp => hp.2⟩
      · simp only [pairwise_cons (l := tr), ← ih, ← hmem, pairwise_cons (l := w :: ws)]

/-- **Sorted rows.** Each row keeps its comparisons, turned, and no two neighbours are equal. A row
comes out in order iff none of its keys is shadowed: a pass does not take the least key, but the
last one that is less than the first.

**Proof sketch.** On the keys, the loops are an exchange sort that compares with the old key. -/
theorem sortTableau_ordered_iff (rows : List (List (TermEl R))) :
    Forall₂ (fun row row' => (∀ t, t ∈ row' ↔ ∃ u ∈ row, u.turn = t) ∧ row'.IsChain (· ≠ ·) ∧
      (row'.Pairwise (fun t u => ¬ u.key < t.key) ↔
        ∀ k, ¬ Shadowed k (row.map fun t => t.turn.key))) rows (sortTableau rows) := by
  refine forall₂_map_right_iff.2 (forall₂_same.2 fun row _ => ⟨fun t => ?_, isChain_unique _, ?_⟩)
  · rw [mem_unique, (sortRow_perm _).mem_iff, mem_map]
  · rw [pairwise_unique fun t => List.lt_irrefl _, ← pairwise_exchangeSort_iff]
    have hkeys := map_key_sortRow (row.map TermEl.turn)
    rw [map_map] at hkeys
    change _ ↔ (exchangeSort (row.map (TermEl.key ∘ TermEl.turn))).Pairwise _
    rw [← hkeys, pairwise_map]
    simp only [not_lt]

/-- Comparisons with `c`, `a` and `b` come out in the order `b`, `a`, `c`. -/
theorem sortTableau_unordered :
    ¬ ∀ row ∈ sortTableau [[isNull Unit [99], isNull Unit [97], isNull Unit [98]]],
    row.Pairwise fun t u => ¬ u.key < t.key := by
  decide +kernel

end Order

/-! ### The compiler -/

section Compile

variable {R : Type}

/-- The disjuncts below the root. -/
lemma gather_spec {ν : ℕ → Bool} {T : ℕ} {evals : List EvalEl}
    (hgood : All (info ν) (Good T) [] evals) (hfact : All (info ν) Factored [] evals) :
    ∃ disj cur E N, (∀ fuel, N < fuel → gather fuel true (.terminalHeap 0) evals =
      some (disj, cur)) ∧
      All (info ν) (Good T) [] E ∧ All (info ν) Factored [] E ∧ Agrees E cur ∧
      (∀ x ∈ disj, IsConj T (extend (info ν) [] E) x) ∧
      ((disj = [] ∧ rootVal (extend (info ν) [] evals) = none) ∨
        (disj ≠ [] ∧ rootVal (extend (info ν) [] evals) =
          some (anyVal ν (extend (info ν) [] E) disj))) := by
  set p : EvalEl → Bool := fun e => e.op = .doNothing with hp
  have hsplit := rdropWhile_append_rtakeWhile (p := p) (l := evals)
  have hD : ∀ d ∈ evals.rtakeWhile p, d.op = .doNothing := fun d hd => by
    simpa [hp] using mem_rtakeWhile_imp hd
  have hroot : rootVal (extend (info ν) [] evals) =
      rootVal (extend (info ν) [] (evals.rdropWhile p)) := by
    conv_lhs => rw [← hsplit, extend_append]
    exact rootVal_append_doNothing _ _ hD
  have hlast := rdropWhile_last_not p evals
  rw [← hsplit, GateList.all_append] at hgood hfact
  set E := evals.rdropWhile p with hE
  rcases eq_nil_or_concat' E with hnil | ⟨A, c, hc⟩
  · refine ⟨[], [], E, 0, fun fuel _ => ?_, hgood.1, hfact.1, ?_, fun x hx => absurd hx not_mem_nil,
      .inl ⟨rfl, by rw [hroot, hnil]; rfl⟩⟩
    · simp only [gather, ← hp, ← hE, if_pos hnil]
    · rw [hnil]
      exact fun k _ => rfl
  · have hop : c.op ≠ .doNothing := by
      have := hlast (by rw [hc]; simp)
      simpa [hc, hp] using this
    have hgoodc : Good T (extend (info ν) [] A) c := by
      have := hgood.1
      rw [hc] at this
      simpa using this.at
    have hinfos : extend (info ν) [] E = extend (info ν) [] A ++
        [info ν (extend (info ν) [] A) c] := by
      rw [hc, extend_append, nil_append, extend_cons, extend_nil]
    have hidx : E.length - 1 = A.length := by rw [hc]; simp
    have hget : (extend (info ν) [] E).getD A.length .default =
        info ν (extend (info ν) [] A) c := by
      rw [hinfos]
      simp
    have hfresh : Fresh T (extend (info ν) [] E) E E [.evalHeap A.length] := by
      refine ⟨fun x hx => ?_, pairwise_singleton _ _, fun _ _ _ _ _ _ _ => rfl, fun _ _ => rfl⟩
      rw [mem_singleton.mp hx]
      refine .cell (by rw [hinfos]; simp) ?_
      rw [hget]
      exact hgoodc.live hop
    obtain ⟨disj, cur, hrun, hdisj, hval, hagrees, hne⟩ :=
      gatherLoop_or hgood.1 _ (p := []) (Nat.le_refl _) hfresh
    refine ⟨disj, cur, E, todoSize ν (extend (info ν) [] E) [.evalHeap A.length],
      fun fuel hfuel => ?_, hgood.1, hfact.1, hagrees, hdisj,
      .inr ⟨hne (by simp), ?_⟩⟩
    · have hcons : E ≠ [] := by rw [hc]; simp
      simp only [gather, ← hp, ← hE, if_neg hcons, hidx]
      simpa using hrun fuel hfuel
    · rw [hval, hroot, hinfos]
      simp [rootVal, hgoodc.op_info, hop, anyVal, refInfo]

/-- The comparisons that have a negation and a mirror image. -/
def WQLOperation.isRelational : WQLOperation → Bool
  | eq | ne | lt | le | gt | ge => true
  | _ => false

/-- Values of terms that respect negated comparisons and mirror images. -/
structure Respects (v : TermEl R → Bool) : Prop where
  negate : ∀ t, t.op.isRelational → v t.negate = !v t
  mirror : ∀ t, t.op.isRelational → v ⟨t.op.mirror, t.opn2, t.opn1⟩ = v t

/-- What holds of the terms of a clause, and of their negations, holds of the terms after the second
pass. -/
lemma Clause.forall_pushedTerms {P : TermEl R → Prop} (hneg : ∀ u, P u → P u.negate) {e : Clause R}
    (he : ∀ t ∈ e.terms, P t) {m : Bool} {t : TermEl R} (ht : t ∈ e.pushedTerms m) : P t := by
  induction e generalizing m with
  | term u =>
    have hu := he u (mem_singleton_self u)
    rw [mem_singleton.mp ht]
    split_ifs
    · exact hneg u hu
    · exact hu
  | not e ih => exact ih he ht
  | binary c a b iha ihb =>
    rcases mem_append.mp ht with ht | ht
    · exact iha (fun t ht => he t (mem_append_left _ ht)) ht
    · exact ihb (fun t ht => he t (mem_append_right _ ht)) ht

/-- Turned terms have the same value. -/
lemma Respects.turn {v : TermEl R → Bool} (hv : Respects v) {t : TermEl R}
    (ht : t.op.isRelational) :
    v t.turn = v t := by
  rw [TermEl.turn]
  split_ifs
  · exact hv.mirror t ht
  · rfl

variable [DecidableEq R]

/-- **The compiler terminates, and the tableau has the value of the clause with its terms
replaced.** The passes come one behind the other. -/
lemma compile_polar {e : Clause R} (he : ∀ t ∈ e.terms, t.op.isComparison) {v : TermEl R → Bool}
    (hv : ∀ t ∈ e.pushedTerms false, v t.turn = v t) :
    ∃ tableau N, (∀ fuel, N < fuel → compile fuel e.items = some tableau) ∧ tableau ≠ [] ∧
      (∀ row ∈ tableau, ∀ t ∈ row, ∃ u ∈ e.pushedTerms false, t = u.turn) ∧
      (tableau.any fun row => row.all v) = e.polar v false := by
  set terms := e.pushedTerms false with hterms
  obtain ⟨hgood, hroot⟩ := rootVal_pushed e
  rw [← hterms] at hgood hroot
  obtain ⟨evals, hfactoring, hgood', hfact', hroot'⟩ :=
    factoring_spec _ (A := []) hgood trivial (Nat.le_refl _)
  obtain ⟨disj, cur, E, N, hgather, hgoodE, hfactE, hagrees, hdisj, hcases⟩ :=
    gather_spec hgood' hfact'
  rw [nil_append] at hroot' hfactoring
  have hpos : 0 < terms.length := by
    rw [length_pushedTerms]
    exact e.terms_length_pos
  have hne : terms ≠ [] := ne_nil_of_length_pos hpos
  -- the disjuncts, or the only term
  set disj' := if disj = [] ∧ terms ≠ [] then [.terminalHeap 0] else disj with hdisj'
  have hconj : ∀ x ∈ disj', IsConj terms.length (extend (info (termVals v terms)) [] E) x := by
    rw [hdisj']
    split_ifs
    · intro x hx
      rw [mem_singleton.mp hx]
      exact ⟨.term hpos, nofun⟩
    · exact hdisj
  have hvals : anyVal (termVals v terms) (extend (info (termVals v terms)) [] E) disj' =
      e.polar v false := by
    rw [← hroot, ← hroot']
    rcases hcases with ⟨hnil, hnone⟩ | ⟨hcons, hsome⟩
    · rw [hdisj', if_pos ⟨hnil, hne⟩, hnone]
      simp [anyVal, refInfo]
    · rw [hdisj', if_neg (fun h => hcons h.1), hsome]
      rfl
  obtain ⟨rows, hrows, hlen, hmem, hany⟩ := makeRows_spec hgoodE hfactE hagrees hconj
  refine ⟨sortTableau rows, max (measure (extend (info (termVals v terms)) [] (e.pushed false 0 0)))
    (max N (todoSize (termVals v terms) (extend (info (termVals v terms)) [] E) disj')),
    fun fuel hfuel => ?_, ?_, fun row hrow t ht => ?_, ?_⟩
  · have hitems : e.items ≠ [] := by
      cases e <;> simp [items]
    rw [compile, if_neg hitems, buildEvalHeap_items he]
    simp only [Option.bind_eq_bind, Option.bind_some, pushNOTDown_cells]
    have h1 := hfactoring fuel (by rw [extend_nil]; omega)
    have h2 := hgather fuel (by omega)
    have h3 := hrows fuel (by omega)
    rw [length_nil] at h1
    simp only [h1, h2, Option.bind_some, ← hterms, ← hdisj', h3]
  · have hcons : disj' ≠ [] := by
      rw [hdisj']
      split_ifs with h
      · exact cons_ne_nil _ _
      · exact fun hnil => h ⟨hnil, hne⟩
    intro hnil
    rw [sortTableau, map_eq_nil_iff] at hnil
    rw [hnil] at hlen
    exact hcons (eq_nil_of_length_eq_zero hlen.symm)
  · obtain ⟨row', hrow', htr⟩ := mem_sortTableau hrow
    obtain ⟨u, hu, hut⟩ := htr t ht
    exact ⟨u, hmem row' hrow' u hu, hut⟩
  · rw [any_sortTableau fun row hrow t ht => hv t (hmem row hrow t ht), hany, hvals]

/-- **The tableau of a where clause is equivalent to it.** The compiler terminates, and for all
values of the terms that respect negated comparisons and mirror images some row of the tableau has
only true terms if and only if the clause is true.

**Proof sketch.** The tableau does not depend on the values. For values that respect negations,
replacing terms means negating them. -/
theorem compile_equivalent {e : Clause R} (he : ∀ t ∈ e.terms, t.op.isRelational) :
    ∃ tableau, (∃ N, ∀ fuel, N < fuel → compile fuel e.items = some tableau) ∧
      ∀ v : TermEl R → Bool, Respects v → ((∃ row ∈ tableau, ∀ t ∈ row, v t) ↔ e.eval v) := by
  have hcmp : ∀ t ∈ e.terms, t.op.isComparison := fun t ht => by
    have := he t ht
    obtain ⟨op, x, y⟩ := t
    cases op <;> first | rfl | exact absurd this Bool.false_ne_true
  obtain ⟨tableau, N, hrun, -⟩ := compile_polar hcmp (v := fun _ => false) fun _ _ => rfl
  refine ⟨tableau, ⟨N, hrun⟩, fun v hv => ?_⟩
  obtain ⟨tableau', N', hrun', -, -, hval⟩ := compile_polar hcmp
    fun t ht => hv.turn (forall_pushedTerms (fun u hu => by
      cases u with | mk op => cases op <;> exact hu) he ht)
  have heq : tableau = tableau' := Option.some.inj
    ((hrun (max N N' + 1) (by omega)).symm.trans (hrun' (max N N' + 1) (by omega)))
  rw [polar_eq fun t ht => hv.negate t (he t ht), Bool.false_xor, ← heq] at hval
  rw [← hval]
  simp only [any_eq_true, all_eq_true]

/-- A clause whose parts are shared in the tableau:
`(a = 1 OR NOT b < 2) AND NOT (3 <= c AND a = 1)`. -/
def sampleClause : Clause ℕ :=
  .binary .and
    (.binary .or (.term ⟨.eq, .propertyName (text "a"), .value (.integer 1)⟩)
      (.not (.term ⟨.lt, .propertyName (text "b"), .value (.integer 2)⟩)))
    (.not (.binary .and (.term ⟨.le, .value (.integer 3), .propertyName (text "c")⟩)
      (.term ⟨.eq, .propertyName (text "a"), .value (.integer 1)⟩)))

/-- **A sample clause** and its tableau. -/
theorem compile_sampleClause : (∀ t ∈ sampleClause.terms, t.op.isRelational) ∧
      ∃ tableau, (∃ N, ∀ fuel, N < fuel → compile fuel sampleClause.items = some tableau) ∧
        ∀ v : TermEl ℕ → Bool, Respects v →
        ((∃ row ∈ tableau, ∀ t ∈ row, v t) ↔ sampleClause.eval v) :=
  ⟨by decide +kernel, compile_equivalent (by decide +kernel)⟩

end Compile

end OpenWbem.Wql
