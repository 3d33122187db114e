import OpenWbem.Cim.Blocxx

/-!
# Polling for lifecycle indications

The class `LifecycleIndicationPoller`. A poller enumerates the instances of a class from time to
time, compares them with those of the time before, and exports an indication for every difference
that it is asked for. It counts for how many subscriptions it does so, and gives up when there are
none: a poll that returns zero is the last one.

It gives up as well when the enumeration throws a `CIMException`, however many subscriptions need
it.

## Main definitions

* `LifecyclePoller`, `LifecyclePoller.poll` — a poller and a poll.
* `PollerCall.outstanding` — how many subscriptions need an operation, after some calls.

## Main results

* `LifecyclePoller.zero_imp_idle_iff` — when a poll returns zero only if nothing is outstanding.
-/

namespace OpenWbem.Indications

open List

/-- What is thrown. -/
inductive PollFailure where
  /-- `CIMException` -/
  | cimException
  /-- Another `Exception`, or a `std::exception`. -/
  | exception
  /-- Something that `poll` does not catch. -/
  | uncaught
deriving DecidableEq

variable {I : Type}

/-- `LifecycleIndicationPoller::PollOp` -/
inductive PollOp where
  | creation
  | modification
  | deletion
deriving DecidableEq

/-- `LifecycleIndicationPoller`. A poller is only made with a positive interval. -/
structure LifecyclePoller (I : Type) where
  ns : ByteStr
  classname : ByteStr
  interval : UInt32
  ops : PollOp → UInt32
  prevInsts : List I
  initializedInstances : Bool
  interval_pos : 0 < interval.toInt32

/-- A difference between two enumerations. -/
inductive Change (I : Type) where
  | deletion (pi : I)
  | creation (ci : I)
  | modification (pi ci : I)

/-- The operation that a difference is exported for. -/
def Change.op : Change I → PollOp
  | deletion _ => .deletion
  | creation _ => .creation
  | modification _ _ => .modification

/-- What a poll meets: the order of the instances and their equality, the instances that are
enumerated until the end or an exception, and what the export of each indication throws. -/
structure PollEnv (I : Type) where
  /-- `sortByInstancePath` -/
  lt : I → I → Bool
  propertiesAreEqualTo : I → I → Bool
  curInstances : List I
  enumThrows : Option PollFailure
  exportThrows : ℕ → Option PollFailure

namespace LifecyclePoller

/-- A new poller. -/
def new (ns className : ByteStr) (interval : UInt32) (h : 0 < interval.toInt32) :
    LifecyclePoller I :=
  ⟨ns, className, interval, fun _ => 0, [], false, h⟩

/-- `addPollOp` -/
def addPollOp (p : LifecyclePoller I) (op : PollOp) : LifecyclePoller I :=
  { p with ops := Function.update p.ops op (p.ops op + 1) }

/-- `removePollOp` -/
def removePollOp (p : LifecyclePoller I) (op : PollOp) : LifecyclePoller I :=
  { p with ops := Function.update p.ops op (p.ops op - 1) }

/-- `addPollInterval` -/
def addPollInterval (p : LifecyclePoller I) (interval : UInt32) (h : 0 < interval.toInt32) :
    LifecyclePoller I :=
  { p with
    interval := if interval < p.interval then interval else p.interval
    interval_pos := by
      split_ifs
      · exact h
      · exact p.interval_pos }

/-- `willPoll` -/
def willPoll (p : LifecyclePoller I) : Bool :=
  0 < p.ops .creation || 0 < p.ops .modification || 0 < p.ops .deletion

/-- An instance is put into a `SortedVectorSet`. -/
def insertInst (lt : I → I → Bool) (x : I) : List I → List I
  | [] => [x]
  | y :: l => if lt y x then y :: insertInst lt x l else if lt x y then x :: y :: l else y :: l

/-- The loops that compare two sorted sets. -/
def changes (env : PollEnv I) : List I → List I → List (Change I)
  | [], cs => cs.map .creation
  | ps, [] => ps.map .deletion
  | pi :: ps, ci :: cs =>
    if env.lt pi ci then .deletion pi :: changes env ps (ci :: cs)
    else if env.lt ci pi then .creation ci :: changes env (pi :: ps) cs
    else if env.propertiesAreEqualTo pi ci then changes env ps cs
    else .modification pi ci :: changes env ps cs
termination_by ps cs => ps.length + cs.length

/-- The indications that are exported, up to the first one that throws. -/
def exported (env : PollEnv I) (l : List (Change I)) : List (Change I) × Option PollFailure :=
  match (range l.length).find? fun i => (env.exportThrows i).isSome with
  | some i => (l.take (i + 1), env.exportThrows i)
  | none => (l, none)

/-- The end of a poll in which something is thrown. There is no result if it is not caught. -/
def caught (p : LifecyclePoller I) (t : PollFailure) : Option Int32 :=
  if t = .uncaught then none else some p.interval.toInt32

/-- `poll`: what it returns, the indications that it exports, and the poller afterwards. -/
def poll (p : LifecyclePoller I) (env : PollEnv I) :
    Option Int32 × List (Change I) × LifecyclePoller I :=
  if p.initializedInstances = false then
    let p := { p with prevInsts := p.prevInsts ++ env.curInstances }
    match env.enumThrows with
    | none => (some 1, [], { p with initializedInstances := true })
    | some t => (p.caught t, [], p)
  else if p.willPoll = false then (some 0, [], p)
  else
    match env.enumThrows with
    | some .cimException => (some 0, [], p)
    | some t => (p.caught t, [], p)
    | none =>
      let prevSet := p.prevInsts.foldl (fun l x => insertInst env.lt x l) []
      let curSet := env.curInstances.foldl (fun l x => insertInst env.lt x l) []
      match exported env ((changes env prevSet curSet).filter fun c => p.ops c.op ≠ 0) with
      | (l, some t) => (p.caught t, l, p)
      | (l, none) => (some p.interval.toInt32, l, { p with prevInsts := env.curInstances })

variable {p : LifecyclePoller I} {env : PollEnv I}

/-- Polling keeps the operations. -/
lemma ops_poll : (p.poll env).2.2.ops = p.ops := by
  unfold poll
  split_ifs
  · cases env.enumThrows <;> rfl
  · rfl
  · split
    · rfl
    · rfl
    · dsimp only
      split <;> rfl

/-- A failure ends no poller. -/
lemma caught_ne_zero (p : LifecyclePoller I) (t : PollFailure) : p.caught t ≠ some 0 := by
  have hpos := p.interval_pos
  unfold caught
  split_ifs
  · simp
  · intro h
    rw [Option.some.inj h] at hpos
    exact absurd hpos (by decide)

/-- **A poll returns zero** if there is nothing to do, or if the enumeration throws a
`CIMException`. -/
lemma poll_eq_zero_iff : (p.poll env).1 = some 0 ↔ p.initializedInstances = true ∧
    (p.willPoll = false ∨ env.enumThrows = some .cimException) := by
  have hcaught := p.caught_ne_zero
  have hpos : some p.interval.toInt32 ≠ some 0 := p.caught_ne_zero .exception
  unfold poll
  split_ifs with hinit hpoll
  · rcases env.enumThrows with _ | t
    · simp [hinit]
    · simpa [hinit] using caught_ne_zero { p with prevInsts := _ } t
  · simp [hinit, hpoll]
  · rcases env.enumThrows with _ | _ | _ | _
    · dsimp only
      split <;> simp [hpoll, hcaught, hpos]
    all_goals simp [hinit, hpoll, hcaught]

end LifecyclePoller

/-- A call of one of the functions of a poller. -/
inductive PollerCall (I : Type) where
  | addPollOp (op : PollOp)
  | removePollOp (op : PollOp)
  | addPollInterval (interval : UInt32) (h : 0 < interval.toInt32)
  | poll (env : PollEnv I)

namespace PollerCall

/-- The poller after a call. -/
def run (p : LifecyclePoller I) : PollerCall I → LifecyclePoller I
  | addPollOp op => p.addPollOp op
  | removePollOp op => p.removePollOp op
  | addPollInterval interval h => p.addPollInterval interval h
  | poll env => (p.poll env).2.2

/-- How much a call adds to the polling for an operation. -/
def adds (op : PollOp) : PollerCall I → ℤ
  | addPollOp op' => if op' = op then 1 else 0
  | removePollOp op' => if op' = op then -1 else 0
  | addPollInterval _ _ | poll _ => 0

/-- The polling for an operation that is outstanding after some calls. -/
def outstanding (calls : List (PollerCall I)) (op : PollOp) : ℤ := (calls.map (adds op)).sum

end PollerCall

open PollerCall LifecyclePoller

/-- The counters are those of the calls, up to overflows. -/
lemma LifecyclePoller.ops_run (p : LifecyclePoller I) (calls : List (PollerCall I)) (op : PollOp) :
    (((calls.foldl run p).ops op).toNat : ℤ) =
      (outstanding calls op + (p.ops op).toNat) % 2 ^ 32 := by
  induction calls generalizing p with
  | nil => simpa [outstanding]
    using (Int.emod_eq_of_lt (by omega) (by exact_mod_cast (p.ops op).toNat_lt)).symm
  | cons c calls ih =>
    rw [foldl_cons, ih]
    cases c with
    | addPollOp op' =>
      by_cases h : op' = op
      · subst h
        simp [outstanding, run, adds, addPollOp]
        omega
      · simp [outstanding, run, adds, addPollOp, h, Ne.symm h]
    | removePollOp op' =>
      by_cases h : op' = op
      · subst h
        simp [outstanding, run, adds, removePollOp, UInt32.toNat_sub]
        omega
      · simp [outstanding, run, adds, removePollOp, h, Ne.symm h]
    | addPollInterval interval h => simp [outstanding, run, adds, addPollInterval]
    | poll env => simp [outstanding, run, adds, ops_poll]

/-- Nothing is polled for if all counters are zero. -/
lemma LifecyclePoller.willPoll_run (ns className : ByteStr) {interval : UInt32}
    (h : 0 < interval.toInt32) (calls : List (PollerCall I)) :
    (calls.foldl run (new ns className interval h)).willPoll = false ↔
      ∀ op, (2 ^ 32 : ℤ) ∣ outstanding calls op := by
  have hops (op : PollOp) : (calls.foldl run (new ns className interval h)).ops op = 0 ↔
      (2 ^ 32 : ℤ) ∣ outstanding calls op := by
    have hrun := ops_run (new ns className interval h) calls op
    rw [← UInt32.toNat_inj]
    simp [new] at hrun ⊢
    omega
  have hzero (x : UInt32) : ¬ 0 < x ↔ x = 0 := by
    simp
  simp only [willPoll, Bool.or_eq_false_iff, decide_eq_false_iff_not, hzero, ← hops]
  refine ⟨fun h op => ?_, fun h => ⟨⟨h _, h _⟩, h _⟩⟩
  cases op <;> simp [h]

/-- **When a poll returns zero only if nothing is outstanding.** For every sequence of calls and
every poll after it: if something is outstanding in a poller that has its first enumeration, then
the enumeration must not throw a `CIMException`, and the counters must not all have run over to
zero. -/
theorem LifecyclePoller.zero_imp_idle_iff {ns className : ByteStr} {interval : UInt32}
    (h : 0 < interval.toInt32) (calls : List (PollerCall I)) (env : PollEnv I) :
    let p := calls.foldl run (new ns className interval h)
    ((p.poll env).1 = some 0 → ∀ op, outstanding calls op ≤ 0) ↔
      (p.initializedInstances = true → (∃ op, 0 < outstanding calls op) →
        env.enumThrows ≠ some .cimException ∧ ∃ op, ¬ (2 ^ 32 : ℤ) ∣ outstanding calls op) := by
  intro p
  rw [poll_eq_zero_iff, willPoll_run ns className h calls]
  simp only [← not_le, ← not_forall]
  tauto

/-- A poll in a class without instances. -/
def emptyPoll (enumThrows : Option PollFailure) : PollEnv ℕ :=
  ⟨fun x y => x < y, fun x y => x = y, [], enumThrows, fun _ => none⟩

/-- A poller goes on after another exception. -/
theorem LifecyclePoller.poll_exception_ne_zero :
    (([.addPollOp .creation, .poll (emptyPoll none)].foldl run (new [] [] 1 (by decide))).poll
      (emptyPoll (some .exception))).1 ≠ some 0 := fun hzero =>
  absurd ((zero_imp_idle_iff (by decide) _ _).2 (fun _ _ =>
    ⟨by decide, .creation, by decide⟩) hzero .creation)
    (by decide)

/-- A poller for a subscription stops after one enumeration that throws. -/
theorem LifecyclePoller.poll_cimException_eq_zero :
    let calls := [.addPollOp .creation, .poll (emptyPoll none)]
    ((calls.foldl run (new [] [] 1 (by decide))).poll (emptyPoll (some .cimException))).1 = some 0 ∧
      outstanding calls .creation = 1 := by
  decide

end OpenWbem.Indications
