import Mathlib.Tactic.Common

/-!
# The authorizer switch

Authorization is on unless a key of the operation context is set, and providers use the context of
the operation that calls them. `deleteInstance` and `setProperty` turn it off and on again, and the
destructor of their `AuthorizerEnabler` turns it on, whatever it was before.

## Main definitions

* `Run`, `Run.after` — an operation with the operations that are nested in it, and the switch after
  it.

## Main results

* `after_eq_iff` — an operation leaves the switch as it was if it was on, or no enabler was made.
-/

namespace OpenWbem.Switch

/-- The operations that use the switch, and all others. -/
inductive Operation where
  | deleteInstance
  | setProperty
  | other
deriving DecidableEq

/-- What the switch is set to before the parts of an operation behind `_checkNameSpaceAccess`; the
first time it is the constructor of `AuthorizerEnabler` that does so. In `deleteInstance` the
instance is looked up, the authorizer is asked, and the instance is deleted; in `setProperty` the
value is checked, and `modifyInstance` is called. -/
def Operation.settings : Operation → List Bool
  | deleteInstance => [false, true, false]
  | setProperty => [false, true]
  | other => []

/-- A run of an operation: the operations that are nested in its first part, and in its other parts
as far as it gets, which is to the end unless an exception is thrown. -/
inductive Run where
  | mk (op : Operation) (first : List Run) (rest : List (List Run))

/-- `AuthorizerManager::turnOn` -/
def turnOn (_ : Bool) : Bool := true

mutual

/-- The switch after a run. The destructor of an `AuthorizerEnabler` is called in any case. -/
def Run.after : Run → Bool → Bool
  | .mk op first rest, on =>
    if op.settings = [] ∨ rest.isEmpty then Run.afterAll first on
    else turnOn (Run.afterParts op.settings rest (Run.afterAll first on))

/-- The switch after the runs of a part. -/
def Run.afterAll : List Run → Bool → Bool
  | [], on => on
  | r :: rs, on => Run.afterAll rs (r.after on)

/-- The switch after the parts. -/
def Run.afterParts : List Bool → List (List Run) → Bool → Bool
  | b :: bs, part :: parts, _ => Run.afterParts bs parts (Run.afterAll part b)
  | _, _, on => on

end

mutual

/-- An enabler is made in a run, by the operation or by one that is nested in it. -/
def Run.enables : Run → Bool
  | .mk op first rest => (op.settings ≠ [] && !rest.isEmpty) || Run.enablesAny first

/-- An enabler is made in one of several runs. -/
def Run.enablesAny : List Run → Bool
  | [] => false
  | r :: rs => r.enables || Run.enablesAny rs

end

mutual

/-- **The switch is on after a run** if it was on before, or an enabler was made. -/
lemma Run.after_eq : ∀ (r : Run) (on : Bool), r.after on = (on || r.enables)
  | .mk op first rest, on => by
    rw [Run.after, Run.enables, Run.afterAll_eq first on, turnOn]
    split_ifs with h
    · rcases h with h | h <;> simp [h]
    · simp [not_or.mp h]

/-- The switch after some operations. -/
lemma Run.afterAll_eq :
    ∀ (rs : List Run) (on : Bool), Run.afterAll rs on = (on || Run.enablesAny rs)
  | [], on => by simp [Run.afterAll, Run.enablesAny]
  | r :: rs, on => by
    rw [Run.afterAll, Run.enablesAny, Run.afterAll_eq rs, Run.after_eq r, Bool.or_assoc]

end

/-- **An operation leaves the switch as it was** iff it was on or no enabler is made; so a client's
operation, which starts with authorization on, ends with it on. -/
theorem after_eq_iff (r : Run) (on : Bool) :
    (r.after on = on ↔ on ∨ r.enables = false) ∧ r.after true = true := by
  rw [r.after_eq, r.after_eq]
  cases on <;> simp

/-- A provider that is called to delete an instance deletes another one. -/
theorem after_nested_deleteInstance :
    (Run.mk .deleteInstance [] [[], [], []]).after false = true := by decide +kernel

end OpenWbem.Switch
