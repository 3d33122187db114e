import Mathlib.Data.List.DropRight
import OpenWbem.Cim.Url

/-!
# The compiler of where clauses

The class `WQLCompile`. A where clause is given as a sequence of operands and operations in postfix
notation. The compiler makes a tree of it, in an array of cells that refer to each other by their
index, pushes the negations down to the comparisons, distributes conjunctions over disjunctions, and
collects the rows of a tableau: the clause is true if all terms of some row are.

Constants with a fraction are of an arbitrary type `R`, with `==` as its equality.

## Main definitions

* `WQLOperation`, `WQLOperand`, `TermEl` — the parts of a clause.
* `StackEl`, `EvalEl` — references to cells, and the cells.
* `buildEvalHeap`, `pushNOTDown`, `factoring`, `gather`, `sortTableau` — the passes.
* `compile` — the compiler.
-/

namespace OpenWbem.Wql

/-! ### Clauses -/

/-- `WQLOperation` -/
inductive WQLOperation where
  | or
  | and
  | not
  | eq
  | ne
  | lt
  | le
  | gt
  | ge
  | isa
  | doNothing
deriving DecidableEq, Repr

/-- The values of operands. -/
inductive WQLValue (R : Type) where
  | null
  | integer (x : Int64)
  | double (x : R)
  | boolean (x : Bool)
  | string (x : ByteStr)
deriving DecidableEq

/-- `WQLOperand` -/
inductive WQLOperand (R : Type) where
  | value (v : WQLValue R)
  | propertyName (x : ByteStr)
deriving DecidableEq

/-- `getType() == PROPERTY_NAME` -/
def WQLOperand.isPropertyName {R : Type} : WQLOperand R → Bool
  | value _ => false
  | propertyName _ => true

/-- `WQLSelectStatement::OperandOrOperation` -/
inductive OperandOrOperation (R : Type) where
  | operation (op : WQLOperation)
  | operand (o : WQLOperand R)

/-- `WQLCompile::term_el`, without a mark that is never read. -/
structure TermEl (R : Type) where
  op : WQLOperation
  opn1 : WQLOperand R
  opn2 : WQLOperand R
deriving DecidableEq

/-- The operator that `term_el::negate` replaces an operator by. -/
def WQLOperation.negate : WQLOperation → WQLOperation
  | eq => ne
  | ne => eq
  | lt => ge
  | le => gt
  | gt => le
  | ge => lt
  | op => op

/-- `term_el::negate` -/
def TermEl.negate {R : Type} (t : TermEl R) : TermEl R := { t with op := t.op.negate }

/-! ### The heap -/

/-- `WQLCompile::stack_el`: a reference to a cell, to a term or to an operand; the second reference
of a negation has the index `-1`. -/
inductive StackEl where
  | evalHeap (i : ℕ)
  | terminalHeap (i : ℕ)
  | operand (i : ℕ)
  | absent
deriving DecidableEq, Repr

/-- The index of a reference. -/
def StackEl.opn : StackEl → Int
  | evalHeap i | terminalHeap i | operand i => i
  | absent => -1

/-- `WQLCompile::eval_el` -/
structure EvalEl where
  mark : Bool
  op : WQLOperation
  first : StackEl
  second : StackEl
deriving DecidableEq, Repr

namespace EvalEl

/-- A cell out of the range of the array. -/
def default : EvalEl := ⟨false, .doNothing, .absent, .absent⟩

/-- `eval_el::order` -/
def order (e : EvalEl) : EvalEl :=
  match e.first, e.second with
  | .evalHeap i, .evalHeap j => if i < j then { e with first := e.second, second := e.first } else e
  | .evalHeap _, _ => e
  | s, .evalHeap j => if s.opn < j then { e with first := e.second, second := e.first } else e
  | _, _ => e

/-- References to a cell become another reference. -/
def subst (i : ℕ) (s : StackEl) (e : EvalEl) : EvalEl :=
  { e with
    first := if e.first = .evalHeap i then s else e.first
    second := if e.second = .evalHeap i then s else e.second }

end EvalEl

/-- The two heaps. -/
structure Heaps (R : Type) where
  terms : List (TermEl R)
  evals : List EvalEl

/-! ### Building the heap -/

section Build

variable {R : Type}

/-- The operand at an index of the sequence. -/
def operandAt (operStack : List (OperandOrOperation R)) (i : ℕ) : Option (WQLOperand R) :=
  match operStack[i]? with
  | some (.operand o) => some o
  | _ => none

/-- An item of the sequence: an operand goes onto the stack, and an operation takes its operands
from it. There is no result if an assertion fails. -/
def buildStep (operStack : List (OperandOrOperation R)) (st : List StackEl × Heaps R)
    (item : OperandOrOperation R × ℕ) : Option (List StackEl × Heaps R) :=
  let (stack, h) := st
  match item.1 with
  | .operand _ => some (.operand item.2 :: stack, h)
  | .operation .not =>
    match stack with
    | op1 :: stack =>
      some (.evalHeap h.evals.length :: stack,
        { h with evals := h.evals ++ [⟨false, .not, op1, .absent⟩] })
    | [] => none
  | .operation .doNothing => none
  | .operation op =>
    match stack with
    | .operand i :: .operand j :: stack => do
      let lhs ← operandAt operStack j
      let rhs ← operandAt operStack i
      some (.terminalHeap h.terms.length :: stack, { h with terms := h.terms ++ [⟨op, lhs, rhs⟩] })
    | op2 :: op1 :: stack =>
      some (.evalHeap h.evals.length :: stack,
        { h with evals := h.evals ++ [⟨false, op, op1, op2⟩] })
    | _ => none

/-- `_buildEvalHeap`; there is no result if an assertion fails. -/
def buildEvalHeap (operStack : List (OperandOrOperation R)) : Option (Heaps R) :=
  match operStack.zipIdx.foldlM (buildStep operStack) ([], ⟨[], []⟩) with
  | some ([_], h) => some h
  | _ => none

end Build

/-! ### Pushing negations down -/

section PushNot

variable {R : Type}

/-- A pending negation is pushed to what a reference refers to. -/
def Heaps.flip (h : Heaps R) : StackEl → Heaps R
  | .evalHeap k => { h with evals := h.evals.modify k fun e => { e with mark := !e.mark } }
  | .terminalHeap k => { h with terms := h.terms.modify k TermEl.negate }
  | .operand _ | .absent => h

/-- `AND` for `OR`, and `OR` for `AND`. -/
def WQLOperation.dual : WQLOperation → WQLOperation
  | or => and
  | and => or
  | op => op

/-- A turn of the loop of `_pushNOTDown`. A cell with a negation is disconnected. -/
def pushStep (h : Heaps R) (i : ℕ) : Heaps R :=
  let c := (h.evals.getD i .default).order
  if c.op = .not then
    let evals := h.evals.mapIdx fun j e => if i < j then e.subst i c.first else e
    let h := { h with evals := evals.set i { c with op := .doNothing, mark := false } }
    if c.mark then h else (h.flip c.first).flip c.second
  else
    let h := { h with evals := h.evals.set i { c with
      mark := false, op := if c.mark then c.op.dual else c.op } }
    if c.mark then (h.flip c.first).flip c.second else h

/-- `_pushNOTDown`, for the cells below an index. -/
def pushFrom : ℕ → Heaps R → Heaps R
  | 0, h => h
  | i + 1, h => pushFrom i (pushStep h i)

/-- `_pushNOTDown` -/
def pushNOTDown (h : Heaps R) : Heaps R := pushFrom h.evals.length h

end PushNot

/-! ### Distribution -/

/-- References to the cells from an index on move by two. -/
def StackEl.shift (i : ℕ) : StackEl → StackEl
  | evalHeap k => if i ≤ k then evalHeap (k + 2) else evalHeap k
  | s => s

/-- The references of a cell move. -/
def EvalEl.shift (i : ℕ) (e : EvalEl) : EvalEl :=
  { e with first := e.first.shift i, second := e.second.shift i }

/-- The index of a disjunction that a conjunction has as an operand, and the other operand. -/
def findOr (evals : List EvalEl) (c : EvalEl) : Option (ℕ × StackEl) :=
  if c.op = .and then
    let isOr (s : StackEl) : Option ℕ :=
      match s with
      | .evalHeap k => if (evals.getD k .default).op = .or then some k else none
      | _ => none
    match isOr c.first with
    | some k => some (k, c.second)
    | none =>
      match isOr c.second with
      | some k => some (k, c.first)
      | none => none
  else none

/-- Two cells are inserted behind a cell, and the references to it and to later cells move. -/
def insertTwo (i : ℕ) (evals : List EvalEl) : List EvalEl :=
  let evl : EvalEl := ⟨false, .or, .evalHeap (i + 1), .evalHeap i⟩
  evals.take (i + 1) ++ [evl, evl] ++ (evals.drop (i + 1)).map (EvalEl.shift i)

/-- The conjunction at an index is distributed over a disjunction. -/
def distribute (i index : ℕ) (s : StackEl) (evals : List EvalEl) : List EvalEl :=
  let evals := insertTwo i evals
  let evals := evals.set (i + 1) (EvalEl.order ⟨false, .and, s, (evals.getD index .default).first⟩)
  evals.set i (EvalEl.order ⟨false, .and, s, (evals.getD index .default).second⟩)

/-- `_factoring`, from an index on; the first argument bounds the number of turns. -/
def factoring : ℕ → ℕ → List EvalEl → Option (List EvalEl)
  | 0, _, _ => none
  | fuel + 1, i, evals =>
    if i < evals.length then
      match findOr evals (evals.getD i .default) with
      | some (index, s) => factoring fuel i (distribute i index s evals)
      | none => factoring fuel (i + 1) evals
    else some evals

/-! ### Collecting the rows -/

/-- The loop of `_gather`; the first argument bounds the number of turns. -/
def gatherLoop (orFlag : Bool) : ℕ → ℕ → List StackEl → List EvalEl →
    Option (List StackEl × List EvalEl)
  | 0, _, _, _ => none
  | fuel + 1, i, stk, evals =>
    match stk[i]? with
    | none => some (stk, evals)
    | some (.evalHeap k) =>
      let c := evals.getD k .default
      if c.op = (if orFlag then .or else .and) then
        gatherLoop orFlag fuel i (stk.take i ++ [c.first, c.second] ++ stk.drop (i + 1))
          (if orFlag then evals.set k { c with op := .doNothing } else evals)
      else gatherLoop orFlag fuel (i + 1) stk evals
    | some _ => gatherLoop orFlag fuel (i + 1) stk evals

/-- `_gather`: cells at the end that do nothing are removed first. -/
def gather (fuel : ℕ) (orFlag : Bool) (sel : StackEl) (evals : List EvalEl) :
    Option (List StackEl × List EvalEl) :=
  let evals := evals.rdropWhile fun e => e.op = .doNothing
  if evals = [] then some ([], [])
  else if orFlag then gatherLoop true fuel 0 [.evalHeap (evals.length - 1)] evals
  else
    match sel with
    | .evalHeap _ => gatherLoop false fuel 0 [sel] evals
    | _ => some ([], evals)

section Rows

variable {R : Type}

/-- The term at the index of a reference. -/
def termAt (terms : List (TermEl R)) (s : StackEl) : Option (TermEl R) :=
  match s with
  | .absent => none
  | .evalHeap i | .terminalHeap i | .operand i => terms[i]?

/-- The row of a disjunct. -/
def makeRow (fuel : ℕ) (terms : List (TermEl R)) (evals : List EvalEl) (s : StackEl) :
    Option (List (TermEl R) × List EvalEl) :=
  match s with
  | .evalHeap _ => do
    let (conj, evals) ← gather fuel false s evals
    let row ← conj.mapM (termAt terms)
    some (row, evals)
  | _ => do
    let t ← termAt terms s
    some ([t], evals)

/-- The rows of all disjuncts. -/
def makeRows (fuel : ℕ) (terms : List (TermEl R)) :
    List StackEl → List EvalEl → Option (List (List (TermEl R)))
  | [], _ => some []
  | s :: disj, evals => do
    let (row, evals) ← makeRow fuel terms evals s
    let rows ← makeRows fuel terms disj evals
    some (row :: rows)

/-! ### Sorting -/

/-- The operator with its operands exchanged. -/
def WQLOperation.mirror : WQLOperation → WQLOperation
  | lt => gt
  | gt => lt
  | le => ge
  | ge => le
  | op => op

/-- A property goes to the left, if there is only one. -/
def TermEl.turn (t : TermEl R) : TermEl R :=
  if t.opn2.isPropertyName && !t.opn1.isPropertyName then ⟨t.op.mirror, t.opn2, t.opn1⟩ else t

/-- The key of a term: its property, if it has only one. -/
def TermEl.key (t : TermEl R) : ByteStr :=
  match t.opn1, t.opn2 with
  | .propertyName x, .value _ => x
  | _, _ => []

/-- The inner loop: terms change their places with the one at `j`. The key is that of the term that
was at `j` at first. -/
def sortInner (key1 : ByteStr) (j : ℕ) : List ℕ → List (TermEl R) → List (TermEl R)
  | [], tr => tr
  | k :: ks, tr =>
    match tr[j]?, tr[k]? with
    | some a, some b =>
      if b.key < key1 then sortInner key1 j ks ((tr.set j b).set k a) else sortInner key1 j ks tr
    | _, _ => tr

/-- The loops that sort a row. -/
def sortRow (tr : List (TermEl R)) : List (TermEl R) :=
  (List.range tr.length).foldl (fun tr j =>
    sortInner ((tr[j]?.map TermEl.key).getD []) j (List.range' j (tr.length - j)) tr) tr

variable [DecidableEq R]

/-- `std::unique` -/
def unique : List (TermEl R) → List (TermEl R)
  | [] => []
  | t :: tr =>
    match unique tr with
    | [] => [t]
    | u :: us => if t = u then u :: us else t :: u :: us

/-- `_sortTableau` -/
def sortTableau (tableau : List (List (TermEl R))) : List (List (TermEl R)) :=
  tableau.map fun tr => unique (sortRow (tr.map TermEl.turn))

/-- `WQLCompile::compile`, on a fresh object. There is no result if an assertion fails, an index is
out of range, or a loop has more turns than the bound. -/
def compile (fuel : ℕ) (operStack : List (OperandOrOperation R)) :
    Option (List (List (TermEl R))) :=
  if operStack = [] then some []
  else do
    let h ← buildEvalHeap operStack
    let h := pushNOTDown h
    let evals ← factoring fuel 0 h.evals
    let (disj, evals) ← gather fuel true (.terminalHeap 0) evals
    let disj := if disj = [] ∧ h.terms ≠ [] then [.terminalHeap 0] else disj
    let rows ← makeRows fuel h.terms disj evals
    some (sortTableau rows)

end Rows

end OpenWbem.Wql
