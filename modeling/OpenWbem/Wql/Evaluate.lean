import OpenWbem.Wql.NormalForm

/-!
# Evaluation of compiled where clauses

The functions `_Compare`, `_EvaluateRHS` and `_Evaluate`, and `WQLCompile::evaluate`. The operands
of a term are resolved with a property source; then two values are compared, after a conversion if
they are of different types.

Floating-point numbers are of an arbitrary type, whose comparison may have no result, as that of a
number with one that is not a number.

## Main definitions

* `Reals` — floating-point numbers, and how values are converted.
* `PropertySource` — `WQLPropertySource`.
* `evaluateOp`, `evaluate` — the value of an operation on two values, and of a tableau.
* `Evaluates` — a where clause is compiled and evaluated.

## Main results

* `evaluates_polar` — the value of a compiled clause, in terms of the values of its terms.
-/

namespace OpenWbem.Wql

open List

/-! ### Comparisons -/

/-- Floating-point numbers, and the conversions of values to them and to strings. -/
structure Reals (R : Type) where
  cmp : R → R → Option Ordering
  ofInt : Int64 → R
  ofBool : Bool → R
  text : R → ByteStr
  intText : Int64 → ByteStr
  boolText : Bool → ByteStr
  cmp_swap : ∀ x y, cmp y x = (cmp x y).map Ordering.swap

/-- `_Compare`, where the two values compare in some way, or not at all. There is no result if the
assertion fails. -/
def compareOp (c : Option Ordering) : WQLOperation → Option Bool
  | .eq => some (c = some .eq)
  | .ne => some (c ≠ some .eq)
  | .lt => some (c = some .lt)
  | .le => some (c = some .lt ∨ c = some .eq)
  | .gt => some (c = some .gt)
  | .ge => some (c = some .gt ∨ c = some .eq)
  | _ => none

/-- `getType() == NULL_VALUE` -/
def WQLValue.isNull {R : Type} : WQLValue R → Bool
  | null => true
  | _ => false

/-- A Boolean value where an integer is expected. -/
def boolInt (b : Bool) : Int64 := if b then 1 else 0

section Evaluate

variable {R : Type} (F : Reals R)

/-- How two values that are not `NULL` compare, after the conversions of `_EvaluateRHS`. -/
def valueCmp : WQLValue R → WQLValue R → Option Ordering
  | .integer x, .integer y => some (compare x y)
  | .integer x, .double y => F.cmp (F.ofInt x) y
  | .integer x, .boolean y => some (compare x (boolInt y))
  | .integer x, .string y => some (compare (F.intText x) y)
  | .double x, .integer y => F.cmp x (F.ofInt y)
  | .double x, .double y => F.cmp x y
  | .double x, .boolean y => F.cmp x (F.ofBool y)
  | .double x, .string y => some (compare (F.text x) y)
  | .boolean x, .integer y => some (compare (boolInt x) y)
  | .boolean x, .double y => F.cmp (F.ofBool x) y
  | .boolean x, .boolean y => some (compare (boolInt x) (boolInt y))
  | .boolean x, .string y => some (compare (F.boolText x) y)
  | .string x, .integer y => some (compare x (F.intText y))
  | .string x, .double y => some (compare x (F.text y))
  | .string x, .boolean y => some (compare x (F.boolText y))
  | .string x, .string y => some (compare x y)
  | .null, _ | _, .null => none

/-- `_Evaluate` and `_EvaluateRHS` -/
def evaluateOp (lhs rhs : WQLValue R) (op : WQLOperation) : Option Bool :=
  if lhs.isNull then some ((op != .eq) ^^ rhs.isNull)
  else if rhs.isNull then some (op != .eq)
  else compareOp (valueCmp F lhs rhs) op

/-- `WQLPropertySource`; there is no value if the property is not found, or an exception is
thrown. -/
structure PropertySource (R : Type) where
  getValue : ByteStr → Option (WQLValue R)
  evaluateISA : ByteStr → ByteStr → Option Bool

variable (source : PropertySource R)

/-- `_ResolveProperty`; there is no result if an exception is thrown. -/
def resolveProperty : WQLOperand R → Option (WQLValue R)
  | .value v => some v
  | .propertyName x => source.getValue x

/-- The value of a term. There is no result if an exception is thrown. -/
def evaluateTerm (t : TermEl R) : Option Bool :=
  if t.op = .isa then
    match t.opn1, t.opn2 with
    | .propertyName x, .propertyName c => source.evaluateISA x c
    | .propertyName x, .value (.string c) => source.evaluateISA x c
    | _, _ => none
  else do
    let lhs ← resolveProperty source t.opn1
    let rhs ← resolveProperty source t.opn2
    evaluateOp F lhs rhs t.op

/-- A row, up to the first term that is false. -/
def evaluateRow : List (TermEl R) → Option Bool
  | [] => some true
  | t :: tr => do
    let b ← evaluateTerm F source t
    if b then evaluateRow tr else some false

/-- The rows, up to the first that is true. -/
def evaluateRows : List (List (TermEl R)) → Option Bool
  | [] => some false
  | tr :: rows => do
    let b ← evaluateRow F source tr
    if b then some true else evaluateRows rows

/-- `WQLCompile::evaluate` -/
def evaluate (tableau : List (List (TermEl R))) : Option Bool :=
  if tableau = [] then some true else evaluateRows F source tableau

/-- A where clause is compiled, and the tableau is evaluated. -/
def Evaluates [DecidableEq R] (e : Clause R) (b : Bool) : Prop :=
  ∃ tableau N, (∀ fuel, N < fuel → compile fuel e.items = some tableau) ∧
    evaluate F source tableau = some b

end Evaluate

/-! ### Values of terms -/

section Values

variable {R : Type} (F : Reals R) (source : PropertySource R)

/-- The value of a term, or `false` if there is none. -/
def termVal (t : TermEl R) : Bool := (evaluateTerm F source t).getD false

variable {F source}

/-- The value of a row. -/
lemma evaluateRow_eq {tr : List (TermEl R)} (h : ∀ t ∈ tr, (evaluateTerm F source t).isSome) :
    evaluateRow F source tr = some (tr.all (termVal F source)) := by
  induction tr with
  | nil => rfl
  | cons t tr ih =>
    obtain ⟨b, hb⟩ := Option.isSome_iff_exists.mp (h t mem_cons_self)
    rw [evaluateRow, all_cons, termVal, hb]
    cases b with
    | false => rfl
    | true => exact ih fun u hu => h u (mem_cons_of_mem t hu)

/-- The value of all rows. -/
lemma evaluateRows_eq {rows : List (List (TermEl R))}
    (h : ∀ tr ∈ rows, ∀ t ∈ tr, (evaluateTerm F source t).isSome) :
    evaluateRows F source rows = some (rows.any fun tr => tr.all (termVal F source)) := by
  induction rows with
  | nil => rfl
  | cons tr rows ih =>
    rw [evaluateRows, evaluateRow_eq (h tr mem_cons_self), any_cons]
    cases hb : tr.all (termVal F source) with
    | false => exact ih fun u hu => h u (mem_cons_of_mem tr hu)
    | true => rfl

/-- Exchanging the operands. -/
lemma compareOp_mirror (c : Option Ordering) (op : WQLOperation) :
    compareOp (c.map Ordering.swap) op.mirror = compareOp c op := by
  rcases c with - | (_ | _ | _) <;> cases op <;> rfl

/-- Values compare in the other direction in the same way. -/
lemma valueCmp_swap (x y : WQLValue R) : valueCmp F y x = (valueCmp F x y).map Ordering.swap := by
  cases x <;> cases y <;> first
    | exact F.cmp_swap _ _
    | exact congrArg some Std.OrientedOrd.eq_swap
    | rfl

/-- **An operation on exchanged operands is the mirrored operation.** -/
lemma evaluateOp_mirror (x y : WQLValue R) (op : WQLOperation) :
    evaluateOp F y x op.mirror = evaluateOp F x y op := by
  have heq : (op.mirror != .eq) = (op != .eq) := by cases op <;> rfl
  have hcmp := compareOp_mirror (valueCmp F x y) op
  rw [← valueCmp_swap] at hcmp
  rw [evaluateOp, evaluateOp, heq, hcmp]
  cases hx : x.isNull <;> cases hy : y.isNull <;> simp

/-- Terms that `WQLSelectStatementGen` makes, with properties that the source knows. -/
inductive Evaluable (source : PropertySource R) : TermEl R → Prop
  | comparison {t : TermEl R} {x y : WQLValue R} (hop : t.op.isRelational)
    (hx : resolveProperty source t.opn1 = some x) (hy : resolveProperty source t.opn2 = some y) :
    Evaluable source t
  | isaName {x c : ByteStr} (h : (source.evaluateISA x c).isSome) :
    Evaluable source ⟨.isa, .propertyName x, .propertyName c⟩
  | isaString {x c : ByteStr} (h : (source.evaluateISA x c).isSome) :
    Evaluable source ⟨.isa, .propertyName x, .value (.string c)⟩

/-- A comparison has a value. -/
lemma isSome_compareOp (c : Option Ordering) {op : WQLOperation} (h : op.isRelational) :
    (compareOp c op).isSome := by
  cases op <;> first | rfl | exact absurd h Bool.false_ne_true

variable {t : TermEl R} {e : Clause R}

/-- The value of a comparison. -/
lemma evaluateTerm_comparison {x y : WQLValue R} (hop : t.op.isRelational)
    (hx : resolveProperty source t.opn1 = some x) (hy : resolveProperty source t.opn2 = some y) :
    evaluateTerm F source t = evaluateOp F x y t.op := by
  have hne : t.op ≠ .isa := fun h => by
    rw [h] at hop
    exact absurd hop Bool.false_ne_true
  rw [evaluateTerm, if_neg hne, hx, hy]
  rfl

/-- It has a value. -/
lemma Evaluable.isSome (h : Evaluable source t) : (evaluateTerm F source t).isSome := by
  cases h with
  | comparison hop hx hy =>
    rw [evaluateTerm_comparison hop hx hy, evaluateOp]
    split_ifs
    · rfl
    · rfl
    · exact isSome_compareOp _ hop
  | isaName h | isaString h => exact h

/-- So has its negation. -/
lemma Evaluable.negate (h : Evaluable source t) : Evaluable source t.negate := by
  cases h with
  | @comparison t x y hop hx hy =>
    refine .comparison ?_ hx hy
    obtain ⟨op, a, b⟩ := t
    cases op <;> exact hop
  | isaName h => exact .isaName h
  | isaString h => exact .isaString h

/-- Turned terms are evaluated as well, to the same value. -/
lemma Evaluable.turn (h : Evaluable source t) :
    Evaluable source t.turn ∧ evaluateTerm F source t.turn = evaluateTerm F source t := by
  cases h with
  | @comparison t x y hop hx hy =>
    have hop' : t.op.mirror.isRelational := by
      revert hop
      cases t.op <;> exact id
    rw [TermEl.turn]
    split_ifs
    · have hev : Evaluable source ⟨t.op.mirror, t.opn2, t.opn1⟩ := .comparison hop' hy hx
      refine ⟨hev, ?_⟩
      have hswap : evaluateTerm F source ⟨t.op.mirror, t.opn2, t.opn1⟩ =
        evaluateOp F y x t.op.mirror :=
        evaluateTerm_comparison hop' hy hx
      rw [hswap, evaluateTerm_comparison hop hx hy, evaluateOp_mirror]
    · exact ⟨.comparison hop hx hy, rfl⟩
  | isaName h => exact ⟨.isaName h, rfl⟩
  | isaString h => exact ⟨.isaString h, rfl⟩

/-- It is a comparison. -/
lemma Evaluable.isComparison (h : Evaluable source t) : t.op.isComparison := by
  cases h with
  | comparison hop =>
    revert hop
    cases t.op <;> first | exact fun _ => rfl | exact id
  | isaName h | isaString h => rfl

variable [DecidableEq R]

/-- **The value of a compiled clause**, in terms of the values of its terms. -/
lemma evaluates_polar (he : ∀ t ∈ e.terms, Evaluable source t) :
    Evaluates F source e (e.polar (termVal F source) false) := by
  obtain ⟨tableau, N, hrun, hne, hmem, hval⟩ := compile_polar (fun t ht => (he t ht).isComparison)
    (v := termVal F source) fun t ht => by
      rw [termVal, (Clause.forall_pushedTerms (fun _ h => h.negate) he ht).turn.2, termVal]
  refine ⟨tableau, N, hrun, ?_⟩
  rw [evaluate, if_neg hne, evaluateRows_eq, hval]
  intro row hrow t ht
  obtain ⟨u, hu, rfl⟩ := hmem row hrow t ht
  exact ((Clause.forall_pushedTerms (fun _ h => h.negate) he hu).turn (F := F)).1.isSome

/-- A term and its negation, compiled. -/
lemma evaluates_term (h : Evaluable source t) : Evaluates F source (.term t) (termVal F source t) ∧
    Evaluates F source (.not (.term t)) (termVal F source t.negate) := by
  have he : ∀ u ∈ (Clause.term t).terms, Evaluable source u := fun u hu => mem_singleton.mp hu ▸ h
  exact ⟨evaluates_polar he, evaluates_polar he⟩

/-- A compiled clause has one value only. -/
lemma Evaluates.unique {b b' : Bool} (h : Evaluates F source e b)
    (h' : Evaluates F source e b') : b = b' := by
  obtain ⟨tableau, N, hrun, hval⟩ := h
  obtain ⟨tableau', N', hrun', hval'⟩ := h'
  have heq : tableau = tableau' := Option.some.inj
    ((hrun (max N N' + 1) (by omega)).symm.trans (hrun' (max N N' + 1) (by omega)))
  rw [heq] at hval
  exact Option.some.inj (hval.symm.trans hval')

end Values

end OpenWbem.Wql
