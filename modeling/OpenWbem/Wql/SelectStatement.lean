import OpenWbem.Wql.Negation

/-!
# Evaluation of where clauses with a stack

`WQLSelectStatement::evaluateWhereClause` evaluates the operands and operations of a clause as they
are, with a stack. It takes the left operand of an operation from the top of the stack, where the
right one is. So it compares in the wrong direction, and `ISA` asks whether the class is the
property. Negations are evaluated as such, while `WQLCompile` replaces operations.

## Main definitions

* `stackStep`, `evaluateWhereClause` — the evaluation.
* `Indifferent` — tests for equality, and comparisons by order of equal values.

## Main results

* `foldlM_stackStep` — what the items of a clause leave on the stack.
* `evaluations_agree_iff` — **the two evaluations agree** on the clauses over some terms iff all of
  these terms are indifferent.
-/

namespace OpenWbem.Wql

open List Clause

section Stack

variable {R : Type}

/-- `getBooleanValue`; there is no result if an exception is thrown. -/
def WQLOperand.getBooleanValue : WQLOperand R → Option Bool
  | .value (.boolean b) => some b
  | _ => none

/-- Values have the same `getType()`. -/
def WQLValue.sameType : WQLValue R → WQLValue R → Bool
  | null, null | integer _, integer _ | double _, double _ | boolean _, boolean _
  | string _, string _ => true
  | _, _ => false

variable (F : Reals R) (source : PropertySource R)

/-- An operation on the two operands at the top of the stack. There is no result if an exception is
thrown or an assertion fails. For values of one type, `_Evaluate` is the same as in `WQLCompile`,
and so is `ISA`. -/
def stackOp (top next : WQLOperand R) : WQLOperation → Option Bool
  | .or => do
    let b1 ← top.getBooleanValue
    let b2 ← next.getBooleanValue
    some (b1 || b2)
  | .and => do
    let b1 ← top.getBooleanValue
    let b2 ← next.getBooleanValue
    some (b1 && b2)
  | .isa => evaluateTerm F source ⟨.isa, top, next⟩
  | .not | .doNothing => none
  | op => do
    let lhs ← resolveProperty source top
    let rhs ← resolveProperty source next
    if rhs.sameType lhs then evaluateOp F lhs rhs op else none

/-- An item of the sequence. -/
def stackStep (stack : List (WQLOperand R)) : OperandOrOperation R → Option (List (WQLOperand R))
  | .operand o => some (o :: stack)
  | .operation .not =>
    match stack with
    | op :: stack => do
      let b1 ← op.getBooleanValue
      some (.value (.boolean !b1) :: stack)
    | [] => none
  | .operation op =>
    match stack with
    | top :: next :: stack => do
      let b ← stackOp F source top next op
      some (.value (.boolean b) :: stack)
    | _ => none

/-- `WQLSelectStatement::evaluateWhereClause` -/
def evaluateWhereClause (operStack : List (OperandOrOperation R)) : Option Bool :=
  if operStack = [] then some true
  else do
    match ← operStack.foldlM (stackStep F source) [] with
    | [op] => op.getBooleanValue
    | _ => none

/-- The operands of a comparison have the same type. -/
def Alike (t : TermEl R) : Prop :=
  ∀ x y, t.op.isRelational → resolveProperty source t.opn1 = some x →
    resolveProperty source t.opn2 = some y → x.sameType y

/-- Terms for which the order of the operands makes no difference, and whose replacement has the
opposite value: tests for equality, and comparisons by order of equal values. -/
def Indifferent (t : TermEl R) : Prop :=
  t.op = .eq ∨ t.op = .ne ∨ (t.op.isOrder ∧ ∃ x y, resolveProperty source t.opn1 = some x ∧
    resolveProperty source t.opn2 = some y ∧ valueCmp F x y = some .eq)

/-- A term with its operands exchanged. -/
def TermEl.exchanged (t : TermEl R) : TermEl R := ⟨t.op, t.opn2, t.opn1⟩

variable {F source} {t : TermEl R} {e : Clause R}

/-- The operation of a term takes two operands from the stack. -/
lemma stackStep_comparison {op : WQLOperation} (hop : op.isComparison) (x y : WQLOperand R)
    (stack : List (WQLOperand R)) : stackStep F source (x :: y :: stack) (.operation op) =
      (stackOp F source x y op).bind fun b => some (.value (.boolean b) :: stack) := by
  cases op <;> first | rfl | cases hop

/-- **What the items of a clause leave on the stack**: its value.

**Proof sketch.** Induction on the clause, for an arbitrary stack below. -/
lemma foldlM_stackStep {v : TermEl R → Bool} (he : ∀ t ∈ e.terms, t.op.isComparison ∧
    stackOp F source t.opn2 t.opn1 t.op = some (v t)) (stack : List (WQLOperand R)) :
    e.items.foldlM (stackStep F source) stack = some (.value (.boolean (e.eval v)) :: stack) := by
  induction e generalizing stack with
  | term t =>
    obtain ⟨hop, hval⟩ := he t (mem_singleton_self t)
    change (stackStep F source (t.opn2 :: t.opn1 :: stack) (.operation t.op)).bind some = _
    rw [stackStep_comparison hop, hval]
    rfl
  | not e ih =>
    rw [items, foldlM_append, ih he]
    rfl
  | binary c a b iha ihb =>
    rw [items, foldlM_append, iha fun t ht => he t (mem_append_left _ ht)]
    change (b.items ++ _).foldlM _ _ = _
    rw [foldlM_append, ihb fun t ht => he t (mem_append_right _ ht), eval]
    cases c
    · rw [Connective.eval, Bool.and_comm]
      rfl
    · rw [Connective.eval, Bool.or_comm]
      rfl

/-- The value of a clause. -/
lemma evaluateWhereClause_items {v : TermEl R → Bool} (he : ∀ t ∈ e.terms, t.op.isComparison ∧
    stackOp F source t.opn2 t.opn1 t.op = some (v t)) :
    evaluateWhereClause F source e.items = some (e.eval v) := by
  have hne : e.items ≠ [] := by cases e <;> simp [items]
  rw [evaluateWhereClause, if_neg hne, foldlM_stackStep he]
  rfl

/-- The value of a comparison. -/
lemma evaluateWhereClause_term (hop : t.op.isComparison) :
    evaluateWhereClause F source (term t).items = stackOp F source t.opn2 t.opn1 t.op := by
  change ((stackStep F source [t.opn2, t.opn1] (.operation t.op)).bind some).bind _ = _
  rw [stackStep_comparison hop]
  cases stackOp F source t.opn2 t.opn1 t.op <;> rfl

/-- The operation of a term is applied to its operands in the other order. -/
lemma stackOp_eq (h : Evaluable source t) (ht : Alike source t) :
    stackOp F source t.opn2 t.opn1 t.op = evaluateTerm F source t.exchanged := by
  cases h with
  | @comparison t x y hop hx hy =>
    have hsame : x.sameType y := ht x y hop hx hy
    have hval : evaluateTerm F source t.exchanged = evaluateOp F y x t.op :=
      evaluateTerm_comparison hop hy hx
    rw [hval]
    revert hop
    cases t.op <;> intro hop <;> first
      | exact absurd hop Bool.false_ne_true
      | simp [stackOp, hx, hy, hsame]
  | isaName h | isaString h => rfl

/-- **A term is indifferent iff** its operands may be exchanged and its replacement has the
opposite value. -/
lemma indifferent_iff (h : Evaluable source t) : Indifferent F source t ↔
    evaluateTerm F source t.exchanged = evaluateTerm F source t ∧ Exact F source t := by
  cases h with
  | @comparison t x y hop hx hy =>
    have hval : evaluateTerm F source t.exchanged = evaluateOp F y x t.op :=
      evaluateTerm_comparison hop hy hx
    rw [hval, evaluateTerm_comparison hop hx hy, evaluateOp, evaluateOp, valueCmp_swap x y]
    simp only [Indifferent, exact_iff hx hy, hx, hy, Option.some.injEq, exists_and_left,
      exists_eq_left']
    -- with a `NULL` the order of the operands makes no difference, but comparisons are not exact
    by_cases hn : x.isNull = false ∧ y.isNull = false
    · simp only [hn]
      rcases valueCmp F x y with - | (_ | _ | _) <;> cases t.op <;> decide
    · have hnone : valueCmp F x y = none := by
        cases x <;> cases y <;> first | rfl | exact absurd ⟨rfl, rfl⟩ hn
      cases hxn : x.isNull <;> cases hyn : y.isNull <;> simp_all
  | isaName h | isaString h =>
    refine iff_of_false ?_ fun h => ?_
    · rintro (h | h | ⟨h, -⟩) <;> exact absurd h (by simp [WQLOperation.isOrder])
    · rcases h.2 with h | h | ⟨h, -⟩ <;> exact absurd h (by simp [WQLOperation.isOrder])

variable [DecidableEq R]

/-- **The two evaluations agree on the clauses over some terms iff these terms are indifferent.**

**Proof sketch.** The stack exchanges the operands of terms, and the compiled clause has terms
replaced where they are negated. For the other direction a term and its negation are enough. -/
theorem evaluations_agree_iff {S : Set (TermEl R)} (hS : ∀ t ∈ S, Evaluable source t)
    (htypes : ∀ t ∈ S, Alike source t) : (∀ e : Clause R, (∀ t ∈ e.terms, t ∈ S) → ∀ b,
      (evaluateWhereClause F source e.items = some b ↔ Evaluates F source e b)) ↔
        ∀ t ∈ S, Indifferent F source t := by
  have hsome : ∀ t ∈ S, evaluateTerm F source t = some (termVal F source t) := by
    intro t ht
    obtain ⟨b, hb⟩ := Option.isSome_iff_exists.mp ((hS t ht).isSome)
    rw [termVal, hb]
    rfl
  constructor
  · intro h t ht
    have hmem : ∀ u ∈ (term t).terms, u ∈ S := fun u hu => mem_singleton.mp hu ▸ ht
    obtain ⟨hpos, hneg⟩ := evaluates_term (hS t ht)
    have hop := (hS t ht).isComparison
    have hstack := (h (.term t) hmem _).mpr hpos
    rw [evaluateWhereClause_term hop] at hstack
    have hnot := (h (.not (.term t)) hmem _).mpr hneg
    rw [evaluateWhereClause_items fun u hu => by
      rw [mem_singleton.mp hu]; exact ⟨hop, hstack⟩] at hnot
    rw [stackOp_eq (hS t ht) (htypes t ht)] at hstack
    exact (indifferent_iff (hS t ht)).mpr ⟨hstack.trans (hsome t ht).symm,
      (termVal_negate_iff (hS t ht)).mp (Option.some.inj hnot).symm⟩
  · intro h e he b
    have hval : ∀ t ∈ e.terms, t.op.isComparison ∧
        stackOp F source t.opn2 t.opn1 t.op = some (termVal F source t) := by
      intro t ht
      have hev := hS t (he t ht)
      refine ⟨hev.isComparison, ?_⟩
      rw [stackOp_eq hev (htypes t (he t ht)), ((indifferent_iff hev).mp (h t (he t ht))).1,
        hsome t (he t ht)]
    have hpolar : e.polar (termVal F source) false = e.eval (termVal F source) := by
      rw [polar_eq fun t ht => ?_, Bool.false_xor]
      exact (termVal_negate_iff (hS t (he t ht))).mpr
        ((indifferent_iff (hS t (he t ht))).mp (h t (he t ht))).2
    have hcompiled := evaluates_polar (F := F) fun t ht => hS t (he t ht)
    rw [hpolar] at hcompiled
    rw [evaluateWhereClause_items hval, Option.some.injEq]
    exact ⟨fun heq => heq ▸ hcompiled, hcompiled.unique⟩

end Stack

/-- The clause `NOT b <= 1`. -/
theorem evaluations_agree_sample : evaluateWhereClause wholeReals sampleSource
        (not (.term ⟨.le, .propertyName (text "b"), .value (.integer 1)⟩)).items = some false ↔
      Evaluates wholeReals sampleSource
        (.not (.term ⟨.le, .propertyName (text "b"), .value (.integer 1)⟩)) false := by
  refine (evaluations_agree_iff ?_ ?_).mpr ?_ _ (fun t => mem_singleton.mp) _
  · rintro t rfl
    exact .comparison rfl rfl rfl
  · rintro t rfl x y - ⟨⟩ ⟨⟩
    rfl
  · rintro t rfl
    exact .inr (.inr ⟨rfl, _, _, rfl, rfl, rfl⟩)

/-- Where `b` is `1`, the evaluations differ for `b < 5`, and for `b ISA "C"` one of them throws. -/
theorem evaluations_differ : (∀ t ∈ ({⟨.lt, .propertyName (text "b"), .value (.integer 5)⟩,
        ⟨.isa, .propertyName (text "b"), .value (.string (text "C"))⟩} : Set (TermEl Int)),
      Evaluable sampleSource t ∧ Alike sampleSource t ∧
      Evaluates wholeReals sampleSource (.term t) true) ∧
    evaluateWhereClause wholeReals sampleSource
      (term ⟨.lt, .propertyName (text "b"), .value (.integer 5)⟩).items = some false ∧
    evaluateWhereClause wholeReals sampleSource
      (term ⟨.isa, .propertyName (text "b"), .value (.string (text "C"))⟩).items = none := by
  refine ⟨?_, rfl, rfl⟩
  rintro t (rfl | rfl)
  · have ht : Evaluable sampleSource ⟨.lt, .propertyName (text "b"), .value (.integer 5)⟩ :=
      .comparison rfl rfl rfl
    refine ⟨ht, ?_, (evaluates_term ht).1⟩
    rintro x y - ⟨⟩ ⟨⟩
    rfl
  · have ht : Evaluable sampleSource ⟨.isa, .propertyName (text "b"),
      .value (.string (text "C"))⟩ :=
      .isaString rfl
    exact ⟨ht, fun _ _ hop => absurd hop Bool.false_ne_true, (evaluates_term ht).1⟩

end OpenWbem.Wql
