import OpenWbem.Indications.Server

/-!
# Failed creations of subscriptions

A creation of a subscription that ends with an exception should leave no trace. It leaves none if it
fails before any provider is asked for more than its authorization, or is cancelled before a
provider wants to be polled. If it fails later, then the pollers keep the operations that were added
to them, the activations of the providers stay counted, and all subscriptions under the keys of the
new one are removed, also those that are not new.

## Main definitions

* `Untouched` — what a failed creation should leave as it was.
* `FailsEarly` — creations that fail before anything is changed.

## Main results

* `untouched_iff` — a failed creation leaves no trace iff it fails early.
-/

namespace OpenWbem.Indications

open Wql Prog List Function Nat

variable {R W P : Type}

/-! ### Traces -/

/-- How often a poller has to do an operation. -/
def pollCount {I : Type} (pollers : ByteStr → Option (LifecyclePoller I)) (key : ByteStr)
    (op : PollOp) : UInt32 :=
  ((pollers key).map fun p => p.ops op).getD 0

/-- The filed subscriptions, the activations and the poll operations are the same. -/
structure Untouched (s s' : ServerState R W P) : Prop where
  filed : s'.subscriptions.Perm s.subscriptions
  activations : s'.activations = s.activations
  polls : ∀ key op, pollCount s'.pollers key op = pollCount s.pollers key op

/-- A provider that wants to be polled is polled for something. -/
def Prepared.Polls (q : Prepared R W P) : Prop :=
  q.classes ≠ [] ∧ pollOps q.selectStmt.className ≠ []

variable (env : Env R W P)

/-- The thread is cancelled while a provider is asked whether it must be polled, and no provider
before has been polled for something. -/
def CancelsQuietly (q : Prepared R W P) (ns : ByteStr) : List P → Prop
  | [] => False
  | p :: ps =>
    match env.mustPoll p (q.call ns) with
    | .error .cancelled => True
    | .error _ => CancelsQuietly q ns ps
    | .ok pollInterval => ¬ (0 < pollInterval ∧ q.Polls) ∧ CancelsQuietly q ns ps

/-- A creation fails before anything is changed. -/
def FailsEarly [DecidableEq R] (st : ServerState R W P) (ns : ByteStr)
    (subInst : INSTData (ValueOf R W)) (username : ByteStr) : Prop :=
  match prepare env st ns subInst username with
  | .error _ => True
  | .ok q => CancelsQuietly env q ns q.providers

/-! ### Names -/

section Names

variable {x y : ByteStr}

/-- Names are compared in small letters. -/
lemma equalsIgnoreCase_iff : equalsIgnoreCase x y ↔ toLowerCase x = toLowerCase y :=
  decide_eq_true_iff

/-- Names, in strictly increasing order. -/
def Increasing (l : List ByteStr) : Prop :=
  l.Pairwise fun x y => compare (toLowerCase x) (toLowerCase y) = .lt

/-- Removing duplicates from sorted names leaves them in strictly increasing order. -/
lemma increasing_uniqueNames {l : List ByteStr} (h : l.Pairwise fun x y => nameLE x y) :
    Increasing (uniqueNames l) ∧ ∀ y ∈ uniqueNames l, y ∈ l := by
  induction l with
  | nil => exact ⟨.nil, fun _ hy => hy⟩
  | cons x l ih =>
    obtain ⟨hx, hl⟩ := pairwise_cons.mp h
    obtain ⟨hinc, hsub⟩ := ih hl
    rw [uniqueNames]
    rcases hu : uniqueNames l with - | ⟨y, ys⟩
    · exact ⟨pairwise_singleton _ _, fun z hz => mem_singleton.mp hz ▸ mem_cons_self⟩
    · rw [hu] at hinc hsub
      obtain ⟨hy, hys⟩ := pairwise_cons.mp hinc
      dsimp only
      split_ifs with heq
      · rw [equalsIgnoreCase_iff] at heq
        refine ⟨pairwise_cons.mpr ⟨fun z hz => ?_, hys⟩, fun z hz => ?_⟩
        · rw [heq]
          exact hy z hz
        · rcases mem_cons.mp hz with rfl | hz
          · exact mem_cons_self
          · exact mem_cons_of_mem _ (hsub z (mem_cons_of_mem _ hz))
      · rw [equalsIgnoreCase_iff] at heq
        have hle : (compare (toLowerCase x) (toLowerCase y)).isLE := hx y (hsub y mem_cons_self)
        have hlt : compare (toLowerCase x) (toLowerCase y) = .lt := by
          rcases hc : compare (toLowerCase x) (toLowerCase y) with _ | _ | _
          · rfl
          · exact absurd (Std.LawfulEqOrd.eq_of_compare hc) heq
          · rw [hc] at hle
            exact absurd hle Bool.false_ne_true
        refine ⟨pairwise_cons.mpr ⟨fun z hz => ?_, hinc⟩, fun z hz => ?_⟩
        · rcases mem_cons.mp hz with rfl | hz
          · exact hlt
          · exact Std.TransCmp.lt_trans hlt (hy z hz)
        · rcases mem_cons.mp hz with rfl | hz
          · exact mem_cons_self
          · exact mem_cons_of_mem _ (hsub z hz)

/-- Sorted names increase. -/
lemma increasing_sortNames (l : List ByteStr) : Increasing (sortNames l) := by
  refine (increasing_uniqueNames (pairwise_mergeSort (fun x y z hxy hyz => ?_) (fun x y => ?_) l)).1
  · exact Std.TransCmp.isLE_trans hxy hyz
  · rw [nameLE, nameLE, Std.OrientedOrd.eq_swap (a := toLowerCase y)]
    cases compare (toLowerCase x) (toLowerCase y) <;> rfl

/-- Different classes have different pollers. -/
lemma nodup_pollerKeys {classes : List ByteStr} (h : Increasing classes) (nameSpace : ByteStr) :
    (classes.map (makePollerMapKey nameSpace)).Nodup := by
  refine pairwise_map.mpr (h.imp fun {x y} hlt heq => ?_)
  rw [(cons.inj (append_cancel_left heq)).2] at hlt
  exact absurd (Std.ReflOrd.compare_self.symm.trans hlt) (by decide)

end Names

/-! ### Pollers -/

/-- A counter changes if less than its range is added. -/
lemma add_ofNat_eq_self {c : UInt32} {k : ℕ} (hk : k < 2 ^ 32) :
    c + UInt32.ofNat k = c ↔ k = 0 := by
  have hc := c.toNat_lt
  rw [← UInt32.toNat_inj, UInt32.toNat_add, UInt32.toNat_ofNat_of_lt' hk]
  omega

section Pollers

variable {I : Type} {nameSpace queryClass : ByteStr} {interval : UInt32}
  {hpos : 0 < interval.toInt32}

/-- Each operation is counted once. -/
lemma ops_foldl_addPollOp (ops : List PollOp) (p : LifecyclePoller I) (op : PollOp) :
    (ops.foldl LifecyclePoller.addPollOp p).ops op = p.ops op + UInt32.ofNat (ops.count op) := by
  induction ops generalizing p with
  | nil => simp
  | cons o ops ih =>
    rw [foldl_cons, ih, LifecyclePoller.addPollOp]
    by_cases h : op = o
    · subst h
      simp [UInt32.add_assoc, UInt32.add_comm 1]
    · simp [update_of_ne h, Ne.symm h]

/-- A query asks for an operation once at most. -/
lemma nodup_pollOps (queryClass : ByteStr) : (pollOps queryClass).Nodup := by
  unfold pollOps
  split_ifs <;> decide

/-- One class is polled for the operations of a query. -/
lemma pollCount_addPoller (pollers : ByteStr → Option (LifecyclePoller I))
    (className key : ByteStr) (op : PollOp) :
    pollCount (addPoller nameSpace queryClass interval hpos pollers className) key op =
      pollCount pollers key op +
        if key = makePollerMapKey nameSpace className ∧ op ∈ pollOps queryClass then 1 else 0 := by
  dsimp only [addPoller]
  by_cases h : key = makePollerMapKey nameSpace className
  · subst h
    rw [pollCount, update_self]
    simp only [Option.map_some, LifecyclePoller.addPollInterval, ops_foldl_addPollOp, pollCount,
      (nodup_pollOps queryClass).count, true_and]
    cases pollers (makePollerMapKey nameSpace className) <;> split_ifs <;> rfl
  · rw [if_neg fun hand => h hand.1, pollCount, update_of_ne h, pollCount, UInt32.add_zero]

/-- All classes are polled for the operations of a query. -/
lemma pollCount_foldl {classes : List ByteStr}
    (hclasses : (classes.map (makePollerMapKey nameSpace)).Nodup)
    (pollers : ByteStr → Option (LifecyclePoller I)) (key : ByteStr) (op : PollOp) :
    pollCount (classes.foldl (addPoller nameSpace queryClass interval hpos) pollers) key op =
      pollCount pollers key op +
        if key ∈ classes.map (makePollerMapKey nameSpace) ∧ op ∈ pollOps queryClass then 1
        else 0 := by
  induction classes generalizing pollers with
  | nil => simp
  | cons c classes ih =>
    obtain ⟨hc, hclasses⟩ := nodup_cons.mp hclasses
    rw [foldl_cons, ih hclasses, pollCount_addPoller]
    by_cases h : key = makePollerMapKey nameSpace c
    · subst h
      simp only [true_and, hc, false_and, if_false, UInt32.add_zero, map_cons, mem_cons_self]
    · simp [h]

end Pollers

/-! ### The loops over the providers -/

section Loops

variable {env} {q : Prepared R W P} {ns : ByteStr}

/-- A polled provider adds an operation to the poller under a key. -/
def Prepared.Adds (q : Prepared R W P) (key : ByteStr) (op : PollOp) : Prop :=
  key ∈ q.classes.map (makePollerMapKey q.filterSourceNameSpace) ∧
    op ∈ pollOps q.selectStmt.className

instance (q : Prepared R W P) (key : ByteStr) (op : PollOp) : Decidable (q.Adds key op) :=
  inferInstanceAs (Decidable (_ ∧ _))

/-- Something is polled for iff some poller gets an operation. -/
lemma polls_iff : q.Polls ↔ ∃ key op, q.Adds key op := by
  constructor
  · rintro ⟨hclasses, hops⟩
    obtain ⟨c, hc⟩ := exists_mem_of_ne_nil _ hclasses
    obtain ⟨op, hop⟩ := exists_mem_of_ne_nil _ hops
    exact ⟨_, op, mem_map_of_mem hc, hop⟩
  · rintro ⟨key, op, hkey, hop⟩
    obtain ⟨c, hc, -⟩ := mem_map.mp hkey
    exact ⟨ne_nil_of_mem hc, ne_nil_of_mem hop⟩

/-- How many providers are polled until the thread is cancelled. -/
def polled (env : Env R W P) (q : Prepared R W P) (ns : ByteStr) : List P → ℕ
  | [] => 0
  | p :: ps =>
    match env.mustPoll p (q.call ns) with
    | .error .cancelled => 0
    | .error _ => polled env q ns ps
    | .ok pollInterval => polled env q ns ps + if 0 < pollInterval then 1 else 0

/-- The thread is cancelled while a provider is asked whether it must be polled. -/
def Cancels (env : Env R W P) (q : Prepared R W P) (ns : ByteStr) (ps : List P) : Prop :=
  ∃ p ∈ ps, env.mustPoll p (q.call ns) = .error .cancelled

/-- The thread is cancelled by the first provider or by a later one. -/
lemma cancels_cons_iff {p : P} {ps : List P} : Cancels env q ns (p :: ps) ↔
    env.mustPoll p (q.call ns) = .error .cancelled ∨ Cancels env q ns ps :=
  exists_mem_cons_iff ..

/-- The outcome of a loop is an error if that of its rest is one. -/
lemma exists_map_eq_error {α β : Type} {r : Except Failure α} {f : α → β} :
    (∃ e, r.map f = .error e) ↔ ∃ e, r = .error e := by
  cases r <;> simp [Except.map]

/-- There are no more polled providers than providers. -/
lemma polled_le (env : Env R W P) (q : Prepared R W P) (ns : ByteStr) (ps : List P) :
    polled env q ns ps ≤ ps.length := by
  induction ps with
  | nil => exact le_refl _
  | cons p ps ih =>
    rw [polled, length_cons]
    split
    · omega
    · omega
    · split_ifs <;> omega

/-- A quiet cancellation is one before the first provider that is polled for something. -/
lemma cancelsQuietly_iff (ps : List P) : CancelsQuietly env q ns ps ↔
    Cancels env q ns ps ∧ (q.Polls → polled env q ns ps = 0) := by
  induction ps with
  | nil => simp [CancelsQuietly, Cancels]
  | cons p ps ih =>
    rw [CancelsQuietly, polled, cancels_cons_iff]
    rcases env.mustPoll p (q.call ns) with (⟨m⟩ | -) | pollInterval
    · simpa using ih
    · simp
    · by_cases hpos : 0 < pollInterval
      · simp only [hpos, true_and, ih, if_true, reduceCtorEq, false_or, Nat.add_eq_zero_iff,
          one_ne_zero, and_false]
        tauto
      · simpa [hpos] using ih

/-- **What the loop over `mustPoll` does.** Each provider that is polled adds the operations of the
query to the pollers of all classes, until the thread is cancelled. -/
lemma exec_pollLoop (hq : (q.classes.map (makePollerMapKey q.filterSourceNameSpace)).Nodup)
    (ps : List P) (s : ServerState R W P) :
    ∃ r pollers, exec (ps.mapM (pollProvider env q ns)) s = (r, { s with pollers }) ∧
      ((∃ e, r = .error e) ↔ Cancels env q ns ps) ∧
      ∀ key op, pollCount pollers key op = pollCount s.pollers key op +
        UInt32.ofNat (if q.Adds key op then polled env q ns ps else 0) := by
  induction ps generalizing s with
  | nil => exact ⟨.ok [], s.pollers, rfl, by simp [Cancels], by simp [polled]⟩
  | cons p ps ih =>
    rw [exec_mapM_cons, polled, cancels_cons_iff]
    rcases hpoll : env.mustPoll p (q.call ns) with (⟨m⟩ | -) | pollInterval
    · -- an exception is logged
      have hexec : exec (pollProvider env q ns p) s = (.ok false, s) := by
        rw [pollProvider, hpoll]
        rfl
      obtain ⟨r, pollers, hps, hr, hcount⟩ := ih s
      rw [hexec]
      dsimp only
      rw [hps]
      exact ⟨_, pollers, rfl, by simpa [exists_map_eq_error] using hr, hcount⟩
    · -- the thread is cancelled
      have hexec : exec (pollProvider env q ns p) s = (.error .cancelled, s) := by
        rw [pollProvider, hpoll]
        rfl
      rw [hexec]
      exact ⟨_, s.pollers, rfl, by simp, by simp⟩
    · by_cases hpos : 0 < pollInterval
      · set t : ServerState R W P := { s with
            pollers := q.classes.foldl (addPoller q.filterSourceNameSpace q.selectStmt.className
              pollInterval.toUInt32 hpos) s.pollers }
        have hexec : exec (pollProvider env q ns p) s = (.ok true, t) := by
          rw [pollProvider, hpoll]
          simp only [dif_pos hpos]
          rfl
        obtain ⟨r, pollers, hps, hr, hcount⟩ := ih t
        rw [hexec]
        dsimp only
        rw [hps, if_pos hpos]
        refine ⟨_, pollers, rfl, by simpa [exists_map_eq_error] using hr, fun key op => ?_⟩
        have ht : pollCount t.pollers key op = pollCount s.pollers key op +
            if q.Adds key op then 1 else 0 := pollCount_foldl hq _ _ _
        rw [hcount, ht]
        split_ifs
        · rw [UInt32.ofNat_add, UInt32.add_assoc, UInt32.add_comm 1]
          rfl
        · rw [UInt32.add_assoc]
          rfl
      · have hexec : exec (pollProvider env q ns p) s = (.ok false, s) := by
          rw [pollProvider, hpoll]
          simp only [dif_neg hpos]
          rfl
        obtain ⟨r, pollers, hps, hr, hcount⟩ := ih s
        rw [hexec]
        dsimp only
        rw [hps, if_neg hpos]
        exact ⟨_, pollers, rfl, by simpa [exists_map_eq_error] using hr, hcount⟩

/-- A cancellation in the loop over `mustPoll` leaves no trace iff it is quiet. -/
lemma untouched_cancelled_iff {q : Prepared R W P} {s : ServerState R W P}
    {pollers : ByteStr → Option (LifecyclePoller (INSTData (ValueOf R W)))}
    (hlt : q.providers.length < 2 ^ 32) (hcancels : Cancels env q ns q.providers)
    (hcount : ∀ key op, pollCount pollers key op = pollCount s.pollers key op +
      UInt32.ofNat (if q.Adds key op then polled env q ns q.providers else 0)) :
    Untouched s { s with pollers } ↔ CancelsQuietly env q ns q.providers := by
  have hpolled := (polled_le env q ns q.providers).trans_lt hlt
  rw [cancelsQuietly_iff, and_iff_right hcancels, polls_iff]
  constructor
  · rintro ⟨-, -, hpolls⟩ ⟨key, op, hadds⟩
    have heq := hpolls key op
    rwa [hcount, if_pos hadds, add_ofNat_eq_self hpolled] at heq
  · intro hzero
    refine ⟨.refl _, rfl, fun key op => ?_⟩
    rw [hcount]
    split_ifs with hadds
    · rw [hzero ⟨key, op, hadds⟩]
      exact UInt32.add_zero _
    · exact UInt32.add_zero _

variable [DecidableEq P]

/-- One provider is activated, whatever it does. -/
lemma activations_activateProvider (env : Env R W P) (q : Prepared R W P) (ns : ByteStr) (p : P)
    (s : ServerState R W P) : (exec (activateProvider env q ns p) s).2.activations =
      update s.activations p (s.activations p + 1) := by
  rw [activateProvider, exec_modify_bind, exec_get_bind]
  split <;> rfl

/-- A provider is activated as often as it is reached, and the first one is reached whatever
happens. -/
lemma activations_mapM (env : Env R W P) (q : Prepared R W P) (ns : ByteStr) (p : P) (ps : List P)
    (s : ServerState R W P) : ∃ k ≤ ps.length, (ps.head? = some p → 0 < k) ∧
      (exec (ps.mapM (activateProvider env q ns)) s).2.activations p =
        s.activations p + UInt32.ofNat k := by
  induction ps generalizing s with
  | nil => exact ⟨0, le_refl _, nofun, by simp⟩
  | cons p' ps ih =>
    have hone : (exec (activateProvider env q ns p') s).2.activations p =
        s.activations p + UInt32.ofNat (if p = p' then 1 else 0) := by
      rw [activations_activateProvider]
      by_cases h : p = p'
      · subst h
        simp
      · simp [h]
    rw [exec_mapM_cons]
    rcases hexec : exec (activateProvider env q ns p') s with ⟨e | b, t⟩ <;> rw [hexec] at hone
    · refine ⟨_, ?_, ?_, hone⟩
      · split_ifs <;> simp
      · simp +contextual
    · obtain ⟨k, hk, -, hcount⟩ := ih t
      refine ⟨k + if p = p' then 1 else 0, ?_, ?_, ?_⟩
      · rw [length_cons]
        split_ifs <;> omega
      · simp +contextual
      · dsimp only at hone ⊢
        rw [hcount, hone, UInt32.add_assoc, ← UInt32.ofNat_add, add_comm k]

/-- The activations are not undone. -/
lemma activations_activate (s : ServerState R W P) : (exec (activate env q ns) s).2.activations =
    (exec (q.providers.mapM (activateProvider env q ns)) s).2.activations := by
  rw [activate, exec_bind]
  rcases exec (q.providers.mapM (activateProvider env q ns)) s with ⟨e | bs, t⟩
  · rfl
  · dsimp only
    split_ifs <;> rfl

/-- A creation that comes to the activations leaves a trace. -/
lemma exists_activations_ne (env : Env R W P) (ns : ByteStr) {q : Prepared R W P}
    (hq : q.providers ≠ []) (hlt : q.providers.length < 2 ^ 32) (s : ServerState R W P) :
    ∃ p, (exec (activate env q ns) s).2.activations p ≠ s.activations p := by
  obtain ⟨p, ps, hps⟩ := exists_cons_of_ne_nil hq
  obtain ⟨k, hk, hpos, hcount⟩ := activations_mapM env q ns p q.providers s
  refine ⟨p, ?_⟩
  rw [activations_activate, hcount, ne_eq, add_ofNat_eq_self (hk.trans_lt hlt)]
  exact (hpos (by rw [hps, head?_cons])).ne'

end Loops

/-! ### Creations -/

section Creations

variable {env} [DecidableEq R]

/-- What a creation has found out when it comes as far as asking the providers. -/
lemma spec_of_prepare {st : ServerState R W P} {ns : ByteStr} {subInst : INSTData (ValueOf R W)}
    {username : ByteStr} {q : Prepared R W P} (h : prepare env st ns subInst username = .ok q) :
    q.providers ≠ [] ∧ q.providers.length < 2 ^ 32 ∧ Increasing q.classes := by
  simp only [prepare, bind_eq_ok, pure_eq_ok] at h
  obtain ⟨_, -, _, -, _, -, _, -, _, hclasses, providers, hproviders, _, -, _, -, rfl⟩ := h
  obtain ⟨_, -, hsort⟩ := bind_eq_ok.mp hclasses
  obtain ⟨found, hget, hfound⟩ := bind_eq_ok.mp hproviders
  split_ifs at hfound with hempty
  cases hfound
  exact ⟨by simpa using hempty, env.providers_lt hget, pure_eq_ok.mp hsort ▸ increasing_sortNames _⟩

variable [DecidableEq P] {ns : ByteStr} {subInst : INSTData (ValueOf R W)} {username : ByteStr}

/-- **A failed creation of a subscription leaves no trace iff it fails before anything is changed**:
before the providers are asked whether they must be polled, or by a cancellation before the first
provider that is polled for something.

**Proof sketch.** Everything up to the authorizations only reads. The loop over `mustPoll` keeps the
subscriptions and the activations and adds poll operations only. Once it is through, the first
provider is activated, and its count is not taken back whatever happens then. -/
theorem untouched_iff {s s' : ServerState R W P} {e : Failure}
    (h : exec (createSubscription env ns subInst username) s = (.error e, s')) :
    Untouched s s' ↔ FailsEarly env s ns subInst username := by
  rw [createSubscription, exec_get_bind] at h
  rw [FailsEarly]
  rcases hprepare : prepare env s ns subInst username with e' | q
  · rw [hprepare] at h
    cases h
    exact iff_of_true ⟨.refl _, rfl, fun _ _ => rfl⟩ trivial
  · rw [hprepare] at h
    obtain ⟨hproviders, hlt, hclasses⟩ := spec_of_prepare hprepare
    obtain ⟨r, pollers, hexec, hr, hcount⟩ :=
      exec_pollLoop (nodup_pollerKeys hclasses _) q.providers s
    cases r with
    | error e' =>
      -- the thread was cancelled in the loop
      rw [exec_bind_of_error hexec] at h
      cases h
      exact untouched_cancelled_iff hlt (hr.mp ⟨e, rfl⟩) hcount
    | ok isPolled =>
      have hnot : ¬ Cancels env q ns q.providers := fun hc => nomatch hr.mpr hc
      refine iff_of_false (fun huntouched => ?_) fun hquiet =>
        hnot ((cancelsQuietly_iff _).mp hquiet).1
      rw [exec_bind_of_ok hexec, fileSubscription, exec_modify_bind] at h
      obtain ⟨p, hp⟩ := exists_activations_ne env ns hproviders hlt
        (ServerState.filed { s with pollers } (q.subscription ns subInst isPolled s.nextId))
      rw [h] at hp
      exact hp (congrFun huntouched.activations p)

end Creations

/-! ### Two clients -/

section Clients

/-- A property with a value. -/
def sampleProperty {V : Type} (name : String) (value : V) : PROPData V :=
  ⟨text name, [], ⟨0, 0, 0, []⟩, 0, [], [], some value, false⟩

/-- The path of an instance of a class. -/
def samplePath (className : String) : OPData (NestedValue Int 0) :=
  ⟨⟨text "root", .empty⟩, text className, []⟩

/-- An instance of a class, whose properties are all keys. -/
def sampleInstance (className : String)
    (properties : List (PROPData (ValueOf Int (NestedValue Int 0)))) :
    INSTData (ValueOf Int (NestedValue Int 0)) :=
  ⟨text "root", text className, properties, properties, [], []⟩

/-- A filter. -/
def sampleFilter : INSTData (ValueOf Int (NestedValue Int 0)) :=
  sampleInstance "CIM_IndicationFilter"
    [sampleProperty "Query" (.single .string (text "SELECT * FROM CIM_Indication")),
      sampleProperty "QueryLanguage" (.single .string (text "WQL"))]

/-- A subscription to the filter. -/
def sampleSubscription : INSTData (ValueOf Int (NestedValue Int 0)) :=
  sampleInstance "CIM_IndicationSubscription"
    [sampleProperty "Filter" (.single .reference (samplePath "CIM_IndicationFilter")),
      sampleProperty "Handler" (.single .reference (samplePath "CIM_IndicationHandler"))]

/-- A system with one provider, that is activated or not, and where the language of queries is known
or not. -/
def sampleEnv (known activates : Bool) : Env Int (NestedValue Int 0) Unit where
  valueText
    | .single .string s => s
    | _ => []
  getInstance _ _ := .ok sampleFilter
  supportsQueryLanguage _ := known
  createSelectStatement _ := .ok ⟨text "CIM_Indication", [], [], by decide⟩
  fuel := 0
  prepareNamespace ns := ns
  enumClassNames _ _ := .ok []
  getIndicationProviders _ _ _ := .ok [()]
  providers_lt h := by
    cases h
    decide
  authorizeFilter _ _ _ := .ok ()
  mustPoll _ _ := .ok 0
  activateFilter _ _ _ := if activates then .ok () else .error (.exception (text "not now"))

/-- A server without subscriptions. -/
def emptyServer : ServerState Int (NestedValue Int 0) Unit :=
  ⟨[], fun _ => 0, fun _ => none, [text "CIM_IndicationHandler"], 0⟩

/-- A creation of the sample. -/
def sampleCreate (known activates : Bool) :
    Prog (ServerState Int (NestedValue Int 0) Unit) Failure Unit :=
  createSubscription (sampleEnv known activates) (text "root") sampleSubscription (text "user")

/-- A server with one subscription. -/
def sampleServer : ServerState Int (NestedValue Int 0) Unit :=
  (exec (sampleCreate true true) emptyServer).2

/-- A query in an unknown language leaves no trace. -/
theorem untouched_of_unknown_language :
    FailsEarly (sampleEnv false true) sampleServer (text "root") sampleSubscription (text "user") ∧
      Untouched sampleServer (exec (sampleCreate false true) sampleServer).2 := by
  have hearly : FailsEarly (sampleEnv false true) sampleServer (text "root") sampleSubscription
      (text "user") := trivial
  have herror : exec (sampleCreate false true) sampleServer =
      (.error (.exception (text "Filter uses queryLanguage WQL, which is not supported")),
        sampleServer) := rfl
  exact ⟨hearly, (untouched_iff herror).mpr hearly⟩

/-- A second client creates a subscription to the same filter, and the provider fails to be
activated. Then the subscription of the first client is gone, and the activation stays counted. -/
theorem failed_creation_harms_other_client :
    sampleServer.subscriptions.map Prod.fst = [text "cim_indication"] ∧
    sampleServer.activations () = 1 ∧
      (exec (sampleCreate true false) sampleServer).1 =
        .error (.exception (text "activateFilter failed for all providers")) ∧
      (exec (sampleCreate true false) sampleServer).2.subscriptions.map Prod.fst = [] ∧
      (exec (sampleCreate true false) sampleServer).2.activations () = 2 ∧
      ¬ Untouched sampleServer (exec (sampleCreate true false) sampleServer).2 := by
  have hact : (exec (sampleCreate true false) sampleServer).2.activations () = 2 := by
    decide +kernel
  refine ⟨by decide +kernel, by decide +kernel, rfl, by decide +kernel, hact, fun h => ?_⟩
  rw [h.activations] at hact
  cases hact

end Clients

end OpenWbem.Indications
