import OpenWbem.Base.Prog

/-!
# The main loop of the indication server

The thread of `IndicationServerImplThread::run`. Other threads put indications into a queue and
notify the thread; the thread waits for a notification, and then processes what is in the queue
without holding the lock. The steps are the parts of the code between two operations on the lock.
The processing of an indication is left open: some subscriptions are served, and then it may throw.

The thread waits before it looks at the queue for the first time, so that it sleeps on indications
that have arrived before. And an indication is removed from the queue only after it has been
processed without exception, so that subscriptions that have been served are served again.

## Main definitions

* `LoopState`, `LoopStep` — the state of the loop and the steps of all threads.
* `LoopState.InOrder`, `LoopState.WaitsIdle`, `LoopState.ServesOnce` — what the loop is for.

## Main results

* `LoopState.delivers` — indications are processed in the order of their arrival, and each other
  property holds if the thread starts before the first indication, or if processing throws only
  before a subscription is served.
-/

namespace OpenWbem.Indications

open List Prog

/-- Where the thread is: before the loop, in `wait`, notified, in `_processIndication`, or at its
end. -/
inductive LoopPhase where
  | starting
  | waiting
  | notified
  | processing
  | ended
deriving DecidableEq

/-- A call of `_processIndication`: the how-manieth arrival it is for, and the subscriptions that
were served. -/
structure Attempt (I S : Type) where
  number : ℕ
  indication : I
  served : List S
deriving DecidableEq

/-- The state of the loop, with the indications that have been removed from the queue, and the calls
of `_processIndication`. -/
structure LoopState (I S : Type) where
  phase : LoopPhase
  /-- `m_procTrans` -/
  procTrans : List I
  shuttingDown : Bool
  removed : List I
  attempts : List (Attempt I S)
deriving DecidableEq

/-- The steps of the threads; those from `start` on are steps of the loop. -/
inductive LoopStep (I S : Type) where
  | processIndication (ind : I)
  | shutdown
  | start
  | wakeUp
  | lock
  | processed (served : List S)
  | threw (served : List S)
  | cancelled (served : List S)

variable {I S : Type}

namespace LoopState

/-- The state when the thread is created. -/
def init : LoopState I S := ⟨.starting, [], false, [], []⟩

/-- A thread that waits is notified. -/
def notify (s : LoopState I S) : LoopState I S :=
  { s with phase := if s.phase = .waiting then .notified else s.phase }

/-- The heads of the two loops, with the lock held. -/
def loopHead (s : LoopState I S) : LoopState I S :=
  { s with phase :=
      if s.shuttingDown then .ended else if s.procTrans = [] then .waiting else .processing }

/-- The end of a call of `_processIndication`. -/
def attempt (s : LoopState I S) (served : List S) : LoopState I S :=
  { s with
    attempts := s.attempts ++ s.procTrans.head?.toList.map fun ind =>
      ⟨s.removed.length, ind, served⟩ }

/-- An attempt removes nothing. -/
@[simp] lemma removed_attempt (s : LoopState I S) (served : List S) :
    (s.attempt served).removed = s.removed := rfl

/-- The indications that have arrived, the first one first. -/
def arrived (s : LoopState I S) : List I := s.removed ++ s.procTrans

end LoopState

open LoopState

namespace LoopStep

/-- The phases in which a step is possible. -/
def Possible : LoopStep I S → LoopState I S → Prop
  | start, s => s.phase = .starting
  | lock, s => s.phase = .notified
  | processed _, s | threw _, s | cancelled _, s => s.phase = .processing
  | _, _ => True

/-- The state after a step. -/
def run : LoopStep I S → LoopState I S → LoopState I S
  | processIndication ind, s =>
    if s.shuttingDown then s
    else notify { s with procTrans := s.procTrans ++ [ind] }
  | shutdown, s => notify { s with shuttingDown := true }
  | start, s => { s with phase := if s.shuttingDown then .ended else .waiting }
  | wakeUp, s => s.notify
  | lock, s => s.loopHead
  | processed served, s =>
    loopHead { s.attempt served with
      procTrans := s.procTrans.tail
      removed := s.removed ++ s.procTrans.head?.toList }
  | threw served, s => (s.attempt served).loopHead
  | cancelled served, s => { s.attempt served with phase := .ended }

end LoopStep

namespace LoopState

/-- Indications are processed in the order of their arrival, and none is left out. -/
structure InOrder (s : LoopState I S) : Prop where
  sorted : s.attempts.Pairwise fun a b => a.number ≤ b.number
  arrived : ∀ a ∈ s.attempts, s.arrived[a.number]? = some a.indication
  complete : ∀ n < s.removed.length, ∃ a ∈ s.attempts, a.number = n

/-- The thread waits only if there is nothing to do. -/
def WaitsIdle (s : LoopState I S) : Prop :=
  s.phase = .waiting → s.procTrans = [] ∨ s.shuttingDown = true

/-- No subscription is served twice with an indication, in two calls of `_processIndication`. -/
def ServesOnce (s : LoopState I S) : Prop :=
  s.attempts.Pairwise fun a b => a.number = b.number → a.served.Disjoint b.served

end LoopState

/-- A step that does no harm: the thread starts before an indication has arrived, and processing
throws only before a subscription has been served. -/
def LoopStep.Harmless : LoopStep I S → LoopState I S → Prop
  | start, s => s.procTrans = [] ∨ s.shuttingDown = true
  | threw served, _ => served = []
  | _, _ => True

namespace LoopState

/-- What is known of the calls of `_processIndication`, where `b` says that the steps have done no
harm. -/
structure Core (b : Prop) (s : LoopState I S) : Prop extends s.InOrder where
  number_le : ∀ a ∈ s.attempts, a.number ≤ s.removed.length
  once : b → s.ServesOnce
  fresh : b → s.phase ≠ .ended → ∀ a ∈ s.attempts, a.number = s.removed.length → a.served = []

/-- What is known of the loop. -/
structure Inv (b : Prop) (s : LoopState I S) : Prop extends Core b s where
  busy : s.phase = .processing → s.procTrans ≠ []
  idle : b → s.WaitsIdle

variable {b : Prop} {s : LoopState I S}

/-- Waking up the loop. -/
lemma Core.notify (h : Core b s) (hbusy : s.phase = .processing → s.procTrans ≠ []) :
    Inv b s.notify := by
  refine { h with fresh := fun hb hphase => h.fresh hb ?_, busy := fun hphase => hbusy ?_,
                  idle := fun _ hphase => ?_ }
  · exact fun hended => hphase (by simp [LoopState.notify, hended])
  all_goals
    unfold LoopState.notify at hphase
    split_ifs at hphase
  · exact hphase
  · contradiction

/-- The head of the loop. -/
lemma Core.loopHead (h : Core b s) (hphase : s.phase ≠ .ended) : Inv b s.loopHead := by
  refine { h with fresh := fun hb _ => h.fresh hb hphase, busy := fun hphase => ?_,
                  idle := fun _ hphase => ?_ }
  all_goals
    unfold LoopState.loopHead at hphase
    split_ifs at hphase with _ hnil
  · exact hnil
  · exact .inl hnil

/-- A call of `_processIndication` is for the first indication that has not been removed. -/
lemma Inv.attempt (h : Inv b s) (hphase : s.phase = .processing) (served : List S) :
    ∃ ind rest, s.procTrans = ind :: rest ∧
      (s.attempt served).attempts = s.attempts ++ [⟨s.removed.length, ind, served⟩] ∧
      Core (b ∧ served = []) (s.attempt served) ∧ (b → (s.attempt served).ServesOnce) := by
  obtain ⟨ind, rest, hq⟩ := exists_cons_of_ne_nil (h.busy hphase)
  have hattempts : (s.attempt served).attempts = s.attempts ++
      [⟨s.removed.length, ind, served⟩] := by
    simp [LoopState.attempt, hq]
  have hget : (s.attempt served).arrived[s.removed.length]? = some ind := by
    simp [LoopState.attempt, arrived, hq]
  have hfresh (hb : b) := h.fresh hb (by simp [hphase])
  have honce (hb : b) : (s.attempt served).ServesOnce := by
    rw [ServesOnce, hattempts, pairwise_append]
    refine ⟨h.once hb, pairwise_singleton _ _, fun a ha a' ha' hnumber => ?_⟩
    obtain rfl := mem_singleton.1 ha'
    rw [hfresh hb a ha hnumber]
    exact nofun
  refine ⟨ind, rest, hq, hattempts, ⟨⟨?_, ?_, fun n hn => ?_⟩, ?_, fun hb => honce hb.1, ?_⟩, honce⟩
  · simpa [hattempts, pairwise_append, h.sorted] using h.number_le
  · simpa [hattempts, or_imp, forall_and] using ⟨h.arrived, hget⟩
  · obtain ⟨a, ha, rfl⟩ := h.complete n hn
    exact ⟨a, by simp [hattempts, ha], rfl⟩
  · simpa [hattempts, or_imp, forall_and] using h.number_le
  · rintro ⟨hb, rfl⟩ -
    simpa [hattempts, or_imp, forall_and] using hfresh hb

/-- **One step** of a thread. -/
lemma Inv.run (h : Inv b s) {op : LoopStep I S} (hpossible : op.Possible s)
    (hop : b → op.Harmless s) :
    Inv b (op.run s) := by
  have hlive {p : LoopPhase} (hp : s.phase = p) (hne : p ≠ .ended) : s.phase ≠ .ended := hp ▸ hne
  cases op with
  | processIndication ind =>
    simp only [LoopStep.run]
    split_ifs
    · exact h
    · refine Core.notify { h.toCore with arrived := fun a ha => ?_ } (by simp)
      have hget := h.arrived a ha
      change (s.removed ++ (s.procTrans ++ [ind]))[a.number]? = _
      rw [← append_assoc]
      exact (getElem?_append_left (List.getElem?_eq_some_iff.1 hget).1).trans hget
  | shutdown => exact Core.notify { h with } h.busy
  | start =>
    refine { h with fresh := fun hb _ => h.fresh hb (hlive hpossible (by decide)),
                    busy := fun hphase => ?_, idle := fun hb _ => hop hb }
    simp only [LoopStep.run] at hphase
    split_ifs at hphase
  | wakeUp => exact h.notify h.busy
  | lock => exact h.loopHead (hlive hpossible (by decide))
  | processed served =>
    obtain ⟨ind, rest, hq, hattempts, hcore, honce⟩ := h.attempt hpossible served
    have hlt : ∀ a ∈ (s.attempt served).attempts, a.number < (s.removed ++ [ind]).length :=
      fun a ha => by
      simpa using Nat.lt_succ_of_le (hcore.number_le a ha)
    simp only [LoopStep.run, hq, tail_cons]
    refine Core.loopHead ⟨{ hcore with arrived := ?_, complete := fun n hn => ?_ },
      fun a ha => Nat.le_of_lt (hlt a ha), honce, fun _ _ a ha heq => ?_⟩
      (hlive hpossible (by decide))
    · simpa [arrived, hq, LoopState.attempt] using hcore.arrived
    · rcases Nat.lt_or_eq_of_le (Nat.le_of_lt_succ (by simpa using hn)) with hn | rfl
      · exact hcore.complete n hn
      · exact ⟨⟨s.removed.length, ind, served⟩, by simp [hattempts], rfl⟩
    · exact absurd heq (Nat.ne_of_lt (hlt a ha))
  | threw served =>
    obtain ⟨-, -, -, -, hcore, -⟩ := h.attempt hpossible served
    exact Core.loopHead { hcore with
      once := fun hb => hcore.once ⟨hb, hop hb⟩, fresh := fun hb => hcore.fresh ⟨hb, hop hb⟩ }
      (hlive hpossible (by decide))
  | cancelled served =>
    obtain ⟨-, -, -, -, hcore, honce⟩ := h.attempt hpossible served
    exact { hcore with
      once := honce, fresh := by simp [LoopStep.run], busy := nofun, idle := fun _ => nofun }

/-- **The main loop** processes indications in the order of their arrival, in every run of the
threads. If all steps are harmless, then the thread waits only if there is nothing to do, and no
subscription is served twice. -/
theorem delivers {ops : List (LoopStep I S)} :
    (Reaches LoopStep.run LoopStep.Possible init ops s → s.InOrder) ∧
    (Reaches LoopStep.run (fun op s => op.Possible s ∧ op.Harmless s) init ops s →
      s.InOrder ∧ s.WaitsIdle ∧ s.ServesOnce) := by
  have hinit (b : Prop) : Inv b (init : LoopState I S) :=
    ⟨⟨⟨.nil, nofun, nofun⟩, nofun, fun _ => .nil, fun _ _ => nofun⟩, nofun, fun _ => nofun⟩
  constructor
  · intro h
    have hinv : Inv False s := h.keeps (hinit _) fun ih _ hop => ih.run hop nofun
    exact hinv.toInOrder
  · intro h
    have hinv : Inv True s := h.keeps (hinit _) fun ih _ hop => ih.run hop.1 fun _ => hop.2
    exact ⟨hinv.toInOrder, hinv.idle trivial, hinv.once trivial⟩

/-- An indication that arrives while the thread waits is processed. -/
theorem delivers_one :
    (.mk .waiting [] false ['a'] [⟨0, 'a', [7]⟩] : LoopState Char ℕ).ServesOnce := by
  have hrun : Reaches LoopStep.run (fun op s => op.Possible s ∧ op.Harmless s) init
      [.start, .processIndication 'a', .lock, .processed [7]]
      (.mk .waiting [] false ['a'] [⟨0, 'a', [7]⟩] : LoopState Char ℕ) :=
    .snoc (.snoc (.snoc (.snoc .nil ⟨rfl, .inl rfl⟩) ⟨trivial, trivial⟩) ⟨rfl, trivial⟩)
      ⟨rfl, trivial⟩
  exact (delivers.2 hrun).2.2

/-- The thread waits for an indication that has arrived before; and a subscription that has been
served is served again after an exception. -/
theorem not_delivers :
    (∃ s : LoopState Char ℕ, Reaches LoopStep.run LoopStep.Possible init
      [.processIndication 'a', .start] s ∧ ¬ s.WaitsIdle) ∧
    ∃ s : LoopState Char ℕ, Reaches LoopStep.run LoopStep.Possible init
      [.start, .processIndication 'a', .lock, .threw [7], .processed [7]] s ∧ ¬ s.ServesOnce := by
  refine ⟨⟨⟨.waiting, ['a'], false, [], []⟩, .snoc (.snoc .nil trivial) rfl, fun h => ?_⟩,
    ⟨.waiting, [], false, ['a'], [⟨0, 'a', [7]⟩, ⟨0, 'a', [7]⟩]⟩,
    .snoc (.snoc (.snoc (.snoc (.snoc .nil (by rfl)) (by trivial)) (by rfl)) (by rfl)) (by rfl),
    fun h => ?_⟩
  · exact absurd (h rfl) (by decide)
  · exact (pairwise_cons.1 h).1 ⟨0, 'a', [7]⟩ (by simp) rfl (by simp : 7 ∈ [7]) (by simp)

end LoopState

end OpenWbem.Indications
