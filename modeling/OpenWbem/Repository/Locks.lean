import Mathlib.Data.List.Count
import OpenWbem.Base.Prog

/-!
# The locks of the operations

Every operation of a client runs inside an `OperationScope`. Its constructor calls
`CIMRepository::beginOperation`, which takes the schema lock and for most operations the instance
lock after it; its destructor calls `endOperation`, which gives them back in the opposite order. A
constructor that throws leaves no object behind, so there is no destructor to run.

The contexts of the operations run interleaved, one lock call at a time, and an operation may open
further scopes inside its own (a provider that calls back into the repository). A call either takes
the lock for the operation or throws and takes nothing, and the lock counts how often an operation
holds it.

## Main definitions

* `Locks.acquires`, `Locks.releases` — the lock calls of `beginOperation` and `endOperation`.
* `Locks.step` — one action of a context.
* `Locks.InTime` — a lock call throws only if its scope has taken nothing yet.

## Main results

* `Locks.held_eq_owed_iff` — the locks held are those of the open scopes exactly if no second lock
  call has thrown.
* `Locks.instanceLock_exclusive` — the schema lock makes the instance lock exclusive.
-/

namespace OpenWbem.Locks

open Prog Function List

/-- The operations of a client. -/
inductive EOperationFlag
  | createNamespace
  | deleteNamespace
  | enumNamespace
  | getQualifierType
  | enumQualifierTypes
  | deleteQualifierType
  | setQualifierType
  | getClass
  | deleteClass
  | createClass
  | modifyClass
  | enumClasses
  | enumClassNames
  | enumInstances
  | enumInstanceNames
  | getInstance
  | deleteInstance
  | createInstance
  | modifyInstance
  | setProperty
  | getProperty
  | invokeMethodNoLock
  | invokeMethodReadLock
  | invokeMethodWriteLock
  | associatorNames
  | associators
  | associatorsClasses
  | referenceNames
  | references
  | referencesClasses
  | execQuery
  | exportIndication
  deriving DecidableEq, Repr

/-- The two locks, `m_schemaLock` and `m_instanceLock`. -/
inductive LockName
  | schemaLock
  | instanceLock
  deriving DecidableEq, Repr

/-- How a lock is taken. -/
inductive LockMode
  | read
  | write
  deriving DecidableEq, Repr

/-- A call of one of the locks: `acquireReadLock` and `releaseReadLock`, or `acquireWriteLock` and
`releaseWriteLock`. -/
structure LockCall where
  lock : LockName
  mode : LockMode
  deriving DecidableEq, Repr

/-- The lock calls of `CIMRepository::beginOperation`, in their order. -/
def acquires : EOperationFlag → List LockCall
  | .createNamespace | .deleteNamespace | .deleteInstance | .createInstance | .modifyInstance
  | .setProperty | .invokeMethodWriteLock | .execQuery =>
    [⟨.schemaLock, .write⟩, ⟨.instanceLock, .write⟩]
  | .enumNamespace | .getQualifierType | .enumQualifierTypes | .getClass | .enumClasses
  | .enumClassNames | .associatorsClasses | .referencesClasses =>
    [⟨.schemaLock, .read⟩]
  | .deleteQualifierType | .setQualifierType | .deleteClass | .createClass | .modifyClass =>
    [⟨.schemaLock, .write⟩]
  | .enumInstances | .enumInstanceNames | .getInstance | .getProperty | .associatorNames
  | .associators | .referenceNames | .references | .invokeMethodReadLock =>
    [⟨.schemaLock, .read⟩, ⟨.instanceLock, .read⟩]
  | .exportIndication | .invokeMethodNoLock => []

/-- The lock calls of `CIMRepository::endOperation`, in their order. -/
def releases : EOperationFlag → List LockCall
  | .createNamespace | .deleteNamespace | .deleteInstance | .createInstance | .modifyInstance
  | .setProperty | .invokeMethodWriteLock | .execQuery =>
    [⟨.instanceLock, .write⟩, ⟨.schemaLock, .write⟩]
  | .enumNamespace | .getQualifierType | .enumQualifierTypes | .getClass | .enumClasses
  | .enumClassNames | .associatorsClasses | .referencesClasses =>
    [⟨.schemaLock, .read⟩]
  | .deleteQualifierType | .setQualifierType | .deleteClass | .createClass | .modifyClass =>
    [⟨.schemaLock, .write⟩]
  | .enumInstances | .enumInstanceNames | .getInstance | .getProperty | .associatorNames
  | .associators | .referenceNames | .references | .invokeMethodReadLock =>
    [⟨.instanceLock, .read⟩, ⟨.schemaLock, .read⟩]
  | .exportIndication | .invokeMethodNoLock => []

/-- Every lock that is taken is given back, the last one first. -/
lemma releases_eq_reverse (op : EOperationFlag) : releases op = (acquires op).reverse := by
  cases op <;> rfl

/-- An `OperationScope` that exists or is being constructed. -/
inductive Scope
  /-- `beginOperation` has made the calls `taken` and has to make the calls `rest`; with no call
    left the operation itself is running. -/
  | opening (op : EOperationFlag) (taken rest : List LockCall)
  /-- The destructor has to make the calls `rest`. -/
  | closing (rest : List LockCall)
  deriving DecidableEq, Repr

/-- What a scope has taken and not given back. -/
def Scope.owed : Scope → List LockCall
  | .opening _ taken _ => taken
  | .closing rest => rest

/-- The locks and the scopes of all contexts; contexts are known by their operation id. -/
structure State where
  /-- How often an operation holds a lock. -/
  held : LockCall → ℕ → ℕ
  /-- The scopes of an operation, the innermost one first. -/
  scopes : ℕ → List Scope
  /-- A lock call of a destructor has thrown, as no such lock was held. -/
  failed : Bool

/-- No operation has begun. -/
def fresh : State := ⟨fun _ _ => 0, fun _ => [], false⟩

/-- What a context does. -/
inductive Act
  /-- The constructor of `OperationScope` is entered. -/
  | construct (id : ℕ) (op : EOperationFlag)
  /-- The next lock call of the constructor returns, or throws a timeout. -/
  | acquire (id : ℕ) (granted : Bool)
  /-- The scope is left, normally or by an exception: its destructor is entered. -/
  | destroy (id : ℕ)
  /-- The next lock call of the destructor. -/
  | release (id : ℕ)
  deriving DecidableEq, Repr

/-- The destructor has the calls `rest` left; without any it is done. -/
def closeWith (rest : List LockCall) (outer : List Scope) : List Scope :=
  match rest with
  | [] => outer
  | c :: rest => .closing (c :: rest) :: outer

/-- One action of a context. An action that does not fit what the context is doing changes
nothing. -/
def step (a : Act) (s : State) : State :=
  match a with
  | .construct id op =>
    match s.scopes id with
    | [] | .opening _ _ [] :: _ =>
      { s with scopes := update s.scopes id (.opening op [] (acquires op) :: s.scopes id) }
    | _ => s
  | .acquire id granted =>
    match s.scopes id with
    | .opening op taken (c :: rest) :: outer =>
      if granted then
        { s with
          held := update s.held c (update (s.held c) id (s.held c id + 1))
          scopes := update s.scopes id (.opening op (c :: taken) rest :: outer) }
      else
        -- the constructor throws: there is no object, and so no destructor
        { s with scopes := update s.scopes id outer }
    | _ => s
  | .destroy id =>
    match s.scopes id with
    | .opening op _ [] :: outer =>
      { s with scopes := update s.scopes id (closeWith (releases op) outer) }
    | _ => s
  | .release id =>
    match s.scopes id with
    | .closing (c :: rest) :: outer =>
      if s.held c id = 0 then { s with failed := true } else
        { s with
          held := update s.held c (update (s.held c) id (s.held c id - 1))
          scopes := update s.scopes id (closeWith rest outer) }
    | _ => s

/-- How often the open scopes of an operation have taken a lock. -/
def owed (s : State) (c : LockCall) (id : ℕ) : ℕ := ((s.scopes id).flatMap Scope.owed).count c

/-- A lock call throws only if its scope has taken nothing yet. -/
def InTime (a : Act) (s : State) : Prop :=
  match a with
  | .acquire id false =>
    match s.scopes id with
    | .opening _ taken (_ :: _) :: _ => taken = []
    | _ => True
  | _ => True

/-! ### What one action does -/

/-- The calls a constructor has made and has left are those of `beginOperation`, in their order. -/
def Scope.Wf : Scope → Prop
  | .opening op taken rest => taken.reverse ++ rest = acquires op
  | .closing rest => ∃ op, rest <:+ releases op

/-- The scopes of every context are well formed. -/
def Wf (s : State) : Prop := ∀ id, ∀ sc ∈ s.scopes id, sc.Wf

/-- What is owed at the end. -/
lemma owed_closeWith (rest : List LockCall) (outer : List Scope) :
    (closeWith rest outer).flatMap Scope.owed = rest ++ outer.flatMap Scope.owed := by
  cases rest <;> simp [closeWith, Scope.owed]

/-- **What an action can do**, with the guards under which it does it. -/
lemma step_cases (a : Act) (s : State) :
    (step a s = s ∧ InTime a s) ∨ (∃ id op, a = .construct id op ∧
      step a s = { s with
        scopes := update s.scopes id (.opening op [] (acquires op) :: s.scopes id) }) ∨
    (∃ id op taken c rest outer, a = .acquire id true ∧
      s.scopes id = .opening op taken (c :: rest) :: outer ∧
      step a s = { s with
        held := update s.held c (update (s.held c) id (s.held c id + 1))
        scopes := update s.scopes id (.opening op (c :: taken) rest :: outer) }) ∨
    (∃ id op taken c rest outer, a = .acquire id false ∧
      s.scopes id = .opening op taken (c :: rest) :: outer ∧
      step a s = { s with scopes := update s.scopes id outer }) ∨
    (∃ id op taken outer, a = .destroy id ∧ s.scopes id = .opening op taken [] :: outer ∧
      step a s = { s with scopes := update s.scopes id (closeWith (releases op) outer) }) ∨
    (∃ id c rest outer, a = .release id ∧ s.scopes id = .closing (c :: rest) :: outer ∧
      s.held c id = 0 ∧ step a s = { s with failed := true }) ∨
    (∃ id c rest outer, a = .release id ∧ s.scopes id = .closing (c :: rest) :: outer ∧
      s.held c id ≠ 0 ∧ step a s = { s with
        held := update s.held c (update (s.held c) id (s.held c id - 1))
        scopes := update s.scopes id (closeWith rest outer) }) := by
  cases a with
  | construct id op =>
    rcases hs : s.scopes id with _ | ⟨_ | _, outer⟩ <;> grind [step, InTime]
  | acquire id granted =>
    rcases hs : s.scopes id with _ | ⟨⟨op, taken, _ | ⟨c, rest⟩⟩ | _, outer⟩ <;>
      cases granted <;> grind [step, InTime]
  | destroy id =>
    rcases hs : s.scopes id with _ | ⟨⟨op, taken, _ | ⟨c, rest⟩⟩ | _, outer⟩ <;>
      grind [step, InTime]
  | release id =>
    rcases hs : s.scopes id with _ | ⟨_ | ⟨_ | ⟨c, rest⟩⟩, outer⟩ <;> grind [step, InTime]

variable {a : Act} {s : State} {acts : List Act}

/-- A step keeps it. -/
lemma Wf.step (hwf : Wf s) : Wf (step a s) := by
  have hput : ∀ {held failed} {id : ℕ} {scs : List Scope}, (∀ sc ∈ scs, sc.Wf) →
      Wf ⟨held, update s.scopes id scs, failed⟩ := by
    intro _ _ id scs hscs id' sc hsc
    by_cases hid : id' = id
    · subst hid
      exact hscs sc (by simpa using hsc)
    · exact hwf id' sc (by simpa [hid] using hsc)
  have hclose : ∀ {rest : List LockCall} {outer : List Scope} {op : EOperationFlag},
      rest <:+ releases op → (∀ sc ∈ outer, sc.Wf) → ∀ sc ∈ closeWith rest outer, sc.Wf := by
    intro rest outer op hrest houter sc hsc
    cases rest with
    | nil => exact houter sc hsc
    | cons c rest =>
      rcases mem_cons.1 hsc with rfl | hsc
      · exact ⟨op, hrest⟩
      · exact houter sc hsc
  rcases step_cases a s with ⟨h, -⟩ | ⟨id, op, -, h⟩ | ⟨id, op, taken, c, rest, outer, -, hs, h⟩ |
    ⟨id, op, taken, c, rest, outer, -, hs, h⟩ | ⟨id, op, taken, outer, -, hs, h⟩ |
    ⟨id, c, rest, outer, -, hs, -, h⟩ | ⟨id, c, rest, outer, -, hs, -, h⟩ <;> rw [h]
  · exact hwf
  · refine hput fun sc hsc => ?_
    rcases mem_cons.1 hsc with rfl | hsc
    · exact nil_append _
    · exact hwf id sc hsc
  · have hid := hwf id
    rw [hs] at hid
    refine hput fun sc hsc => ?_
    rcases mem_cons.1 hsc with rfl | hsc
    · simpa [Scope.Wf] using hid _ mem_cons_self
    · exact hid sc (mem_cons_of_mem _ hsc)
  · exact hput fun sc hsc => hwf id sc (hs ▸ mem_cons_of_mem _ hsc)
  · exact hput (hclose suffix_rfl fun sc hsc => hwf id sc (hs ▸ mem_cons_of_mem _ hsc))
  · exact hwf
  · obtain ⟨op, hop⟩ : (Scope.closing (c :: rest)).Wf := hwf id _ (hs ▸ mem_cons_self)
    exact hput (hclose ((suffix_cons c rest).trans hop)
      fun sc hsc => hwf id sc (hs ▸ mem_cons_of_mem _ hsc))

/-! ### The ledger -/

/-- What an action loses: the locks that a scope has taken when its constructor throws. -/
def lost (a : Act) (s : State) (c : LockCall) (id : ℕ) : ℕ :=
  match a with
  | .acquire i false =>
    match s.scopes i with
    | .opening _ taken (_ :: _) :: _ => if i = id then taken.count c else 0
    | _ => 0
  | _ => 0

/-- Nothing is lost by a lock call that throws in time. -/
lemma inTime_iff_lost (a : Act) (s : State) : InTime a s ↔ ∀ c id, lost a s c id = 0 := by
  have hnil : ∀ taken : List LockCall, taken = [] ↔ ∀ c, taken.count c = 0 := by
    intro taken
    simp only [count_eq_zero]
    exact eq_nil_iff_forall_not_mem
  cases a with
  | acquire i granted =>
    rcases hs : s.scopes i with _ | ⟨⟨op, taken, _ | ⟨c, rest⟩⟩ | _, outer⟩ <;> cases granted <;>
      simp [InTime, lost, hs, hnil]
  | _ => simp [InTime, lost]

/-- What is owed after the scopes of one operation have changed. -/
lemma owed_update (s : State) (held : LockCall → ℕ → ℕ) (failed : Bool) (i : ℕ) (scs : List Scope)
    (c : LockCall) (id : ℕ) : owed ⟨held, update s.scopes i scs, failed⟩ c id =
      if id = i then (scs.flatMap Scope.owed).count c else owed s c id := by
  by_cases hid : id = i
  · subst hid
    simp [owed]
  · simp [owed, hid]

/-- What is held after one operation holds one lock a different number of times. -/
lemma held_update (held : LockCall → ℕ → ℕ) (d : LockCall) (i n : ℕ) (c : LockCall) (id : ℕ) :
    update held d (update (held d) i n) c id =
      if c = d ∧ id = i then n else held c id := by
  by_cases hc : c = d
  · subst hc
    by_cases hid : id = i <;> simp [hid]
  · simp [hc]

/-- **The ledger of one action.** What the operations hold beyond what their scopes have taken grows
by what the action loses, and by nothing else. -/
lemma held_add_owed_step (hwf : Wf s) (c : LockCall) (id : ℕ) :
    s.held c id + owed (step a s) c id + lost a s c id = (step a s).held c id + owed s c id := by
  rcases step_cases a s with ⟨h, ht⟩ | ⟨i, op, rfl, h⟩ |
    ⟨i, op, taken, d, rest, outer, rfl, hs, h⟩ | ⟨i, op, taken, d, rest, outer, rfl, hs, h⟩ |
    ⟨i, op, taken, outer, rfl, hs, h⟩ | ⟨i, d, rest, outer, rfl, hs, h0, h⟩ |
    ⟨i, d, rest, outer, rfl, hs, h0, h⟩
  · rw [h, (inTime_iff_lost a s).1 ht c id]
    omega
  · rw [h]
    by_cases hid : id = i <;> simp [hid, lost, owed, Scope.owed]
  · rw [h, owed_update]
    by_cases hid : id = i
    · subst hid
      by_cases hc : c = d
      · subst hc
        simp [lost, owed, Scope.owed, hs]
        omega
      · simp [lost, owed, Scope.owed, hs, hc, Ne.symm hc]
    · simp [held_update, hid, lost]
  · rw [h, owed_update]
    by_cases hid : id = i
    · subst hid
      simp [lost, owed, hs, Scope.owed]
      omega
    · simp [hid, Ne.symm hid, lost, hs]
  · -- the destructor gives back what the constructor has taken, in the opposite order
    have hsc : (Scope.opening op taken []).Wf := hwf i _ (hs ▸ mem_cons_self)
    have htaken : taken.reverse ++ [] = acquires op := hsc
    rw [h, owed_update, owed_closeWith, releases_eq_reverse, ← htaken]
    by_cases hid : id = i
    · subst hid
      simp [lost, owed, hs, Scope.owed]
    · simp [hid, lost]
  · rw [h]
    simp [lost, owed]
  · rw [h, owed_update, owed_closeWith]
    by_cases hid : id = i
    · subst hid
      by_cases hc : c = d
      · subst hc
        simp [lost, owed, Scope.owed, hs]
        omega
      · simp [lost, owed, Scope.owed, hs, hc, Ne.symm hc]
    · simp [held_update, hid, lost]

/-- The scopes never owe more than is held, and no lock call of a destructor throws. -/
structure Solvent (s : State) : Prop where
  wf : Wf s
  le : ∀ c id, owed s c id ≤ s.held c id
  failed : s.failed = false

/-- Nothing is held at first. -/
lemma solvent_fresh : Solvent fresh :=
  ⟨fun _ _ h => absurd h not_mem_nil, fun _ _ => Nat.le_refl _, rfl⟩

/-- A step keeps it. -/
lemma Solvent.step (hs : Solvent s) : Solvent (step a s) where
  wf := hs.wf.step
  le c id := by
    have hle := hs.le c id
    have heq := held_add_owed_step (a := a) hs.wf c id
    omega
  failed := by
    rcases step_cases a s with ⟨h, -⟩ | ⟨i, op, -, h⟩ | ⟨i, op, taken, d, rest, outer, -, -, h⟩ |
      ⟨i, op, taken, d, rest, outer, -, -, h⟩ | ⟨i, op, taken, outer, -, -, h⟩ |
      ⟨i, d, rest, outer, -, hsc, h0, -⟩ | ⟨i, d, rest, outer, -, -, -, h⟩
    -- the lock that a destructor is about to give back is owed, so it is held
    case inr.inr.inr.inr.inr.inl =>
      have hle := hs.le d i
      simp [owed, hsc, Scope.owed, h0] at hle
    all_goals rw [h]; exact hs.failed

/-- In every run the ledger is solvent, whatever the locks answer. -/
lemma solvent_of_reaches {ok : Act → State → Prop} (h : Reaches step ok fresh acts s) : Solvent s :=
  h.keeps solvent_fresh fun ih _ _ => ih.step

/-- The locks that operations hold are those that their open scopes have taken. -/
def Accounted (s : State) : Prop := ∀ c id, s.held c id = owed s c id

/-- One action keeps the locks accounted for exactly if they were and it throws in time. -/
lemma accounted_step_iff (hs : Solvent s) : Accounted (step a s) ↔ Accounted s ∧ InTime a s := by
  have heq := held_add_owed_step (a := a) hs.wf
  rw [inTime_iff_lost]
  constructor
  · intro hacc
    refine ⟨fun c id => ?_, fun c id => ?_⟩ <;>
    · have := heq c id
      have := hs.le c id
      have := hacc c id
      omega
  · rintro ⟨hacc, hlost⟩ c id
    have := heq c id
    have := hacc c id
    have := hlost c id
    omega

/-- **A run in which the locks are accounted for.** Exactly those runs in which no lock call throws
after its scope has taken another lock. -/
lemma accounted_iff_of_reaches (h : Reaches step (fun _ _ => True) fresh acts s) :
    Accounted s ↔ Reaches step InTime fresh acts s := by
  induction h with
  | nil => exact ⟨fun _ => .nil, fun _ _ _ => rfl⟩
  | snoc h _ ih => rw [accounted_step_iff (solvent_of_reaches h), ih, h.snoc_iff]

/-- **Failed operations and their locks.** For every interleaving of any number of contexts and any
answers of the locks: the locks held are exactly those of the open scopes, and after all operations
have ended none is held, exactly if no lock call has thrown after its scope had taken another lock.
A constructor that throws leaves its operation with what the enclosing scopes have taken exactly if
it had taken nothing itself. The destructors never give back a lock that is not held.

**Proof sketch.** What an operation holds beyond what its scopes have taken changes only when a
constructor throws, by what that scope has taken. It never shrinks, so a late timeout stays
visible. -/
theorem held_eq_owed_iff {acts : List Act} {s : State}
    (h : Reaches step (fun _ _ => True) fresh acts s) :
    ((∀ c id, s.held c id = owed s c id) ↔ Reaches step InTime fresh acts s) ∧
    ((∀ id, s.scopes id = []) →
        ((∀ c id, s.held c id = 0) ↔ Reaches step InTime fresh acts s)) ∧
      (∀ id op taken c rest outer, s.scopes id = .opening op taken (c :: rest) :: outer →
        Reaches step InTime fresh acts s →
        ((∀ d, (step (.acquire id false) s).held d id = (outer.flatMap Scope.owed).count d) ↔
          taken = [])) ∧
      s.failed = false := by
  have hacc := accounted_iff_of_reaches h
  have hsol := solvent_of_reaches h
  refine ⟨hacc, fun hdone => ?_, fun id op taken c rest outer hs hrun => ?_, hsol.failed⟩
  · have howed : ∀ c id, owed s c id = 0 := by
      intro c id
      simp [owed, hdone id]
    rw [← hacc]
    exact forall_congr' fun c => forall_congr' fun id => by rw [howed c id]
  · have hheld : ∀ d, (step (.acquire id false) s).held d id =
        taken.count d + (outer.flatMap Scope.owed).count d := by
      intro d
      have hd := hacc.2 hrun d id
      simpa [step, hs, owed, Scope.owed] using hd
    constructor
    · intro hd
      refine eq_nil_iff_forall_not_mem.2 fun d => ?_
      have := hheld d
      rw [hd d] at this
      exact count_eq_zero.1 (by omega)
    · rintro rfl d
      simpa using hheld d

/-- A run of two contexts: the first one times out at the schema lock that the second one holds. -/
def contended : List Act :=
  [.construct 1 .createClass, .acquire 1 true, .construct 0 .getInstance, .acquire 0 false,
    .destroy 1, .release 1]

/-- The run of the sample. -/
lemma reaches_contended (ok : Act → State → Prop)
    (hok : ∀ a s, (∀ id, a ≠ .acquire id false) → ok a s)
    (h0 : ok (.acquire 0 false) ((contended.take 3).foldl (fun s a => step a s) fresh)) :
    Reaches step ok fresh contended (contended.foldl (fun s a => step a s) fresh) := by
  have h₁ : Reaches step ok fresh (contended.take 3) _ :=
    .snoc (.snoc (.snoc (l := []) .nil (hok _ _ (by simp))) (hok _ _ (by simp))) (hok _ _ (by simp))
  exact .snoc (.snoc (.snoc (l := [_, _, _]) h₁ h0) (hok _ _ (by simp))) (hok _ _ (by simp))

/-- **A contended run**: nothing stays held. -/
theorem held_contended : (∀ id, (contended.foldl (fun s a => step a s) fresh).scopes id = []) ∧
      ∀ c id, (contended.foldl (fun s a => step a s) fresh).held c id = 0 := by
  have hrun := held_eq_owed_iff (reaches_contended (fun _ _ => True) (fun _ _ _ => trivial) trivial)
  have hdone : ∀ id, (contended.foldl (fun s a => step a s) fresh).scopes id = [] := by
    intro id
    by_cases h0 : id = 0
    · subst h0; rfl
    by_cases h1 : id = 1
    · subst h1; rfl
    simp [contended, step, fresh, closeWith, releases, acquires, h0, h1]
  have hinTime : ∀ a s, (∀ id, a ≠ .acquire id false) → InTime a s := by
    intro a s ha
    cases a with
    | acquire id granted =>
      cases granted with
      | false => exact absurd rfl (ha id)
      | true => trivial
    | _ => trivial
  exact ⟨hdone, (hrun.2.1 hdone).2 (reaches_contended InTime hinTime rfl)⟩

/-- **A timeout at the instance lock leaves the schema lock taken.** The only operation has ended,
and it holds the schema lock. -/
theorem schemaLock_left_held : Reaches step (fun _ _ => True) fresh
        [.construct 0 .getInstance, .acquire 0 true, .acquire 0 false]
        (step (.acquire 0 false)
          (step (.acquire 0 true) (step (.construct 0 .getInstance) fresh))) ∧
      (∀ id, (step (.acquire 0 false) (step (.acquire 0 true)
        (step (.construct 0 .getInstance) fresh))).scopes id = []) ∧
      (step (.acquire 0 false) (step (.acquire 0 true)
        (step (.construct 0 .getInstance) fresh))).held ⟨.schemaLock, .read⟩ 0 = 1 := by
  refine ⟨.snoc (.snoc (.snoc (l := []) .nil trivial) trivial) trivial, fun id => ?_, rfl⟩
  by_cases hid : id = 0
  · subst hid; rfl
  · simp [step, fresh, acquires]

/-! ### The order of the locks -/

/-- The schema lock is granted only if no other operation holds it and one of the two wants to
write. Nothing is said about the instance lock. -/
def Excludes (a : Act) (s : State) : Prop :=
  ∀ id op taken m rest outer, a = .acquire id true →
    s.scopes id = .opening op taken (⟨.schemaLock, m⟩ :: rest) :: outer →
    ∀ i ≠ id, ∀ n, m = .write ∨ n = .write → s.held ⟨.schemaLock, n⟩ i = 0

/-- The schema lock comes first, and the instance lock after it in the same mode. -/
lemma of_append_eq_acquires {op : EOperationFlag} {l r : List LockCall} (h : l ++ r = acquires op) :
    ∃ m, l = [] ∨ l = [⟨.schemaLock, m⟩] ∨ l = [⟨.schemaLock, m⟩, ⟨.instanceLock, m⟩] ∧ r = [] := by
  obtain ⟨m, hm⟩ : ∃ m, acquires op <+: [⟨.schemaLock, m⟩, ⟨.instanceLock, m⟩] := by
    cases op <;> first | exact ⟨.read, by decide⟩ | exact ⟨.write, by decide⟩
  rw [← h] at hm
  simp only [prefix_cons_iff, prefix_nil] at hm
  rcases l with - | ⟨c, - | ⟨d, l⟩⟩ <;> refine ⟨m, ?_⟩ <;> grind [append_eq_nil_iff]

/-- A scope has taken the schema lock at least as often as the instance lock. -/
lemma Scope.Wf.count_le {sc : Scope} (h : sc.Wf) (m : LockMode) :
    sc.owed.count ⟨.instanceLock, m⟩ ≤ sc.owed.count ⟨.schemaLock, m⟩ := by
  obtain ⟨op, r, hop⟩ : ∃ op r, sc.owed.reverse ++ r = acquires op := by
    cases sc with
    | opening op taken rest => exact ⟨op, rest, h⟩
    | closing rest =>
      obtain ⟨op, l, hrest⟩ := h
      refine ⟨op, l.reverse, ?_⟩
      rw [← reverse_append, Scope.owed, hrest, releases_eq_reverse, reverse_reverse]
  obtain ⟨n, hn⟩ := of_append_eq_acquires hop
  rcases hn with hn | hn | ⟨hn, -⟩ <;> rw [reverse_eq_iff.1 hn] <;> cases m <;> cases n <;> decide

/-- Nobody loses the instance lock: it is the last one that a constructor takes. -/
lemma lost_instanceLock (hwf : Wf s) (m : LockMode) (id : ℕ) :
    lost a s ⟨.instanceLock, m⟩ id = 0 := by
  cases a with
  | acquire i granted =>
    rcases hs : s.scopes i with _ | ⟨⟨op, taken, _ | ⟨c, rest⟩⟩ | _, outer⟩ <;> cases granted <;>
      simp [lost, hs]
    rintro rfl
    have hsc : (Scope.opening op taken (c :: rest)).Wf := hwf i _ (hs ▸ mem_cons_self)
    obtain ⟨n, hn | hn | ⟨-, ⟨⟩⟩⟩ := of_append_eq_acquires hsc <;> simp [reverse_eq_iff.1 hn]
  | _ => rfl

/-- Whoever holds the instance lock holds the schema lock in the same mode. -/
lemma held_instanceLock_le {ok : Act → State → Prop} (h : Reaches step ok fresh acts s)
    (m : LockMode) (id : ℕ) : s.held ⟨.instanceLock, m⟩ id ≤ s.held ⟨.schemaLock, m⟩ id := by
  have hs := solvent_of_reaches h
  have hheld : s.held ⟨.instanceLock, m⟩ id = owed s ⟨.instanceLock, m⟩ id := by
    clear hs
    induction h with
    | nil => rfl
    | @snoc _ a _ h _ ih =>
      have hwf := (solvent_of_reaches h).wf
      have hstep := held_add_owed_step (a := a) hwf ⟨.instanceLock, m⟩ id
      have hlost := lost_instanceLock (a := a) hwf m id
      omega
  rw [hheld]
  refine Nat.le_trans ?_ (hs.le _ id)
  have hscs := hs.wf id
  rw [owed, owed]
  revert hscs
  induction s.scopes id with
  | nil => exact fun _ => Nat.le_refl _
  | cons sc scs ih =>
    intro hscs
    have hsc := (hscs sc mem_cons_self).count_le m
    have hrest := ih fun sc hsc => hscs sc (mem_cons_of_mem _ hsc)
    simp only [flatMap_cons, count_append]
    omega

/-- **Only the schema lock makes operations wait.** For every interleaving of any number of
contexts, with scopes inside scopes and calls that throw: if the schema lock excludes, no two
operations ever hold the instance lock in conflict, even if that lock grants every call.

**Proof sketch.** A scope takes the schema lock first, in the same mode, and gives it back last, and
nobody loses the instance lock (`lost_instanceLock`). So whoever holds the instance lock holds the
schema lock (`held_instanceLock_le`), and no two operations hold that one in conflict. -/
theorem instanceLock_exclusive (h : Reaches step Excludes fresh acts s) {id i : ℕ} (hne : i ≠ id)
    {m n : LockMode}
    (hmn : m = .write ∨ n = .write) :
    s.held ⟨.instanceLock, m⟩ id = 0 ∨ s.held ⟨.instanceLock, n⟩ i = 0 := by
  have hschema : s.held ⟨.schemaLock, m⟩ id = 0 ∨ s.held ⟨.schemaLock, n⟩ i = 0 := by
    induction h with
    | nil => exact .inl rfl
    | @snoc _ a s _ ha ih =>
      rcases step_cases a s with ⟨h, -⟩ | ⟨j, op, -, h⟩
        | ⟨j, op, taken, d, rest, outer, hj, hsc, h⟩ |
        ⟨j, op, taken, d, rest, outer, -, -, h⟩ | ⟨j, op, taken, outer, -, -, h⟩ |
        ⟨j, d, rest, outer, -, -, -, h⟩ | ⟨j, d, rest, outer, -, -, -, h⟩ <;> rw [h]
      case inr.inr.inl => grind [Excludes, held_update]
      case inr.inr.inr.inr.inr.inr => grind [held_update]
      all_goals exact ih
  have := held_instanceLock_le h m id
  have := held_instanceLock_le h n i
  omega

/-- A property is set in one context, while another one waits to read an instance. -/
def writerAndReader : List Act :=
  [.construct 0 .setProperty, .acquire 0 true, .construct 1 .getInstance, .acquire 0 true]

/-- The state of the two contexts. -/
def writerAndReaderState : State := writerAndReader.foldl (fun s a => step a s) fresh

/-- The writer holds the instance lock, and the reader waits without it. -/
theorem instanceLock_exclusive_writer :
    Reaches step Excludes fresh writerAndReader writerAndReaderState ∧
      writerAndReaderState.held ⟨.instanceLock, .write⟩ 0 = 1 ∧
      writerAndReaderState.scopes 1 =
        [.opening .getInstance [] [⟨.schemaLock, .read⟩, ⟨.instanceLock, .read⟩]] ∧
      writerAndReaderState.held ⟨.instanceLock, .read⟩ 1 = 0 := by
  have h : Reaches step Excludes fresh writerAndReader writerAndReaderState :=
    .snoc (.snoc (.snoc (.snoc (l := []) .nil nofun) fun _ _ _ _ _ _ _ _ _ _ _ _ => rfl) nofun)
      fun _ _ _ _ _ _ h hs => by cases h; cases hs
  exact ⟨h, rfl, rfl, (instanceLock_exclusive h Nat.one_ne_zero (.inl rfl)).resolve_left
    Nat.one_ne_zero⟩

end OpenWbem.Locks
