import OpenWbem.Indications.FailedCreation
import OpenWbem.Indications.Processing
import OpenWbem.Wql.Negation

/-!
# Delivery of indications

An indication should be handed once to the export of every subscription that matches it, and to no
other. It is never handed twice, and never to a subscription that does not match. But a subscription
with an `ISA` term about the source instance is only looked at if the class of the source instance
is one of the classes that were known when the subscription was created. So it is missed if another
alternative of its where clause holds, or if the class of the source instance was derived later.

## Main definitions

* `Accepted` — the subscriptions that a server has accepted.
* `Matches` — an indication matches a subscription.
* `Covered` — a subscription is looked at for an indication of its class.

## Main results

* `handed_once_iff` — an indication is handed once to a subscription if it matches and not at all
  otherwise, iff matching subscriptions are covered and can be exported to.
-/

namespace OpenWbem.Indications

open Wql Prog List

/-! ### Names -/

variable {c e : ByteStr}

section Names

variable {x y u v className : ByteStr} {classes : List ByteStr}

/-- A lower case letter stays. -/
lemma lowerByte_lowerByte (c : UInt8) : lowerByte (lowerByte c) = lowerByte c := by
  unfold lowerByte
  simp only [Bool.and_eq_true, UInt8.le_iff_toNat_le]
  split_ifs <;> simp_all
  omega

/-- A lower case text stays. -/
@[simp] lemma toLowerCase_toLowerCase (x : ByteStr) :
    toLowerCase (toLowerCase x) = toLowerCase x := by
  simp [toLowerCase, lowerByte_lowerByte]

/-- Only a colon becomes one. -/
lemma lowerByte_eq_colon {c : UInt8} : lowerByte c = 58 ↔ c = 58 := by
  unfold lowerByte
  simp only [UInt8.le_iff_toNat_le, ← UInt8.toNat_inj]
  split_ifs <;> simp_all
  omega

/-- No new colons. -/
lemma colon_mem_toLowerCase : 58 ∈ toLowerCase x ↔ 58 ∈ x := by
  rw [toLowerCase, mem_map]
  constructor
  · rintro ⟨c, hc, h⟩
    exact lowerByte_eq_colon.mp h ▸ hc
  · exact fun h => ⟨58, h, rfl⟩

/-- The key of two names tells the names, if the first has no colon. -/
lemma key_inj (hx : 58 ∉ x) (hu : 58 ∉ u) :
    toLowerCase (x ++ 58 :: y) = toLowerCase (u ++ 58 :: v) ↔
      toLowerCase x = toLowerCase u ∧ toLowerCase y = toLowerCase v := by
  rw [toLowerCase, toLowerCase, map_append, map_append]
  change toLowerCase x ++ 58 :: toLowerCase y = toLowerCase u ++ 58 :: toLowerCase v ↔ _
  constructor
  · exact cut_unique (mt colon_mem_toLowerCase.mp hx) (mt colon_mem_toLowerCase.mp hu)
  · rintro ⟨h, h'⟩
    rw [h, h']

/-- A key of a single name is not one of two names. -/
lemma key_ne (hx : 58 ∉ x) : toLowerCase x ≠ toLowerCase (u ++ 58 :: v) := by
  intro h
  have hmem : 58 ∈ toLowerCase (u ++ 58 :: v) := colon_mem_toLowerCase.mpr (by simp)
  exact hx (colon_mem_toLowerCase.mp (h ▸ hmem))

/-- The keys of a subscription are different. -/
lemma nodup_subKeys (hclass : 58 ∉ className)
    (h : Increasing classes) : (subKeys className classes).Nodup := by
  rw [subKeys]
  split_ifs
  · exact pairwise_singleton _ _
  · refine pairwise_map.mpr (h.imp fun {x y} hlt heq => ?_)
    rw [key_inj hclass hclass] at heq
    rw [heq.2] at hlt
    exact absurd (Std.ReflOrd.compare_self.symm.trans hlt) (by decide)

/-- A class without a source instance is a key of the subscriptions without `ISA` terms. -/
lemma mem_subKeys_plain (hc : 58 ∉ c) : toLowerCase c ∈ subKeys className classes ↔
      classes = [] ∧ equalsIgnoreCase c className := by
  rw [subKeys, equalsIgnoreCase_iff]
  split_ifs with h
  · simp [h]
  · simp only [mem_map, h, false_and, iff_false, not_exists, not_and]
    exact fun d _ heq => key_ne hc heq.symm

/-- A class with the class of a source instance is a key of the subscriptions with `ISA` terms. -/
lemma mem_subKeys_source (hclass : 58 ∉ className) (hc : 58 ∉ c) :
    toLowerCase (toLowerCase c ++ 58 :: e) ∈ subKeys className classes ↔
      equalsIgnoreCase c className ∧ ∃ d ∈ classes, equalsIgnoreCase d e := by
  rw [subKeys]
  simp only [equalsIgnoreCase_iff]
  split_ifs with h
  · subst h
    simp only [mem_singleton, not_mem_nil, false_and, exists_false, and_false, iff_false]
    exact fun heq => key_ne hclass heq.symm
  · rw [mem_map]
    constructor
    · rintro ⟨d, hd, heq⟩
      rw [key_inj hclass (mt colon_mem_toLowerCase.mp hc), toLowerCase_toLowerCase] at heq
      exact ⟨heq.1.symm, d, hd, heq.2⟩
    · rintro ⟨hcc, d, hd, hde⟩
      refine ⟨d, hd, (key_inj hclass (mt colon_mem_toLowerCase.mp hc)).mpr ⟨?_, hde⟩⟩
      rw [toLowerCase_toLowerCase, hcc]

end Names

/-! ### Accepted subscriptions -/

section Accepted

variable {R W P : Type}

/-- What `prepare` finds out about a subscription. -/
structure Wellformed (sub : Subscription R W P) : Prop where
  nodup : (subKeys sub.selectStmt.className sub.classes).Nodup
  language : ∃ v, getValueT sub.filter (text "QueryLanguage") = .ok v

variable {s s' : ServerState R W P} {ns username : ByteStr} {subInst : INSTData (ValueOf R W)}
  {q : Prepared R W P}

/-- Asking a provider whether it must be polled does not touch what is filed. -/
lemma keeps_filed_pollProvider (env : Env R W P) (q : Prepared R W P) (ns : ByteStr) (p : P)
    (filed : List (ByteStr × Subscription R W P)) (id : ℕ) :
    Keeps (fun st => st.subscriptions = filed ∧ st.nextId = id) (pollProvider env q ns p) := by
  intro s hs
  rw [pollProvider]
  split
  · exact hs
  · exact hs
  · split_ifs
    · exact hs
    · exact hs

section Activations

variable [DecidableEq P]

/-- Activating a provider does not touch what is filed. -/
lemma keeps_filed_activateProvider (env : Env R W P) (q : Prepared R W P) (ns : ByteStr) (p : P)
    (filed : List (ByteStr × Subscription R W P)) (id : ℕ) :
    Keeps (fun st => st.subscriptions = filed ∧ st.nextId = id) (activateProvider env q ns p) := by
  intro s hs
  rw [activateProvider, exec_modify_bind, exec_get_bind]
  split <;> exact hs

end Activations

variable [DecidableEq R]

/-- A subscription that is prepared is well-formed. -/
lemma wellformed_of_prepare {env : Env R W P} (h : prepare env s ns subInst username = .ok q)
    (isPolled : List Bool) (id : ℕ) : Wellformed (q.subscription ns subInst isPolled id) := by
  simp only [prepare, bind_eq_ok, pure_eq_ok] at h
  obtain ⟨_, -, filterInst, -, selectStmt, hparse, tableau, -, classes, hclasses, _, -, _, -, _, -,
    rfl⟩ := h
  obtain ⟨subClasses, -, hsort⟩ := bind_eq_ok.mp hclasses
  obtain ⟨_, -, hlanguage⟩ := bind_eq_ok.mp hparse
  obtain ⟨v, hv, -⟩ := bind_eq_ok.mp hlanguage
  refine ⟨nodup_subKeys selectStmt.noColon ?_, v, hv⟩
  rw [← pure_eq_ok.mp hsort]
  exact increasing_sortNames _

variable [DecidableEq P]

/-- The subscriptions that have been accepted since the server had none. -/
inductive Accepted : List (Subscription R W P) → ServerState R W P → Prop
  | empty {s : ServerState R W P} (h : s.subscriptions = []) : Accepted [] s
  | create {subs : List (Subscription R W P)} {s t s' : ServerState R W P} {env : Env R W P}
    {ns username : ByteStr} {subInst : INSTData (ValueOf R W)} {q : Prepared R W P}
      {isPolled : List Bool}
    (h : Accepted subs s) (hprepare : prepare env s ns subInst username = .ok q)
    (hpoll : exec (q.providers.mapM (pollProvider env q ns)) s = (.ok isPolled, t))
    (hexec : exec (createSubscription env ns subInst username) s = (.ok (), s')) :
    Accepted (subs ++ [q.subscription ns subInst isPolled s.nextId]) s'

/-- An accepted subscription is filed under its keys, and nothing else changes there. -/
lemma filed_of_create {env : Env R W P} {t : ServerState R W P} {isPolled : List Bool}
    (hprepare : prepare env s ns subInst username = .ok q)
    (hpoll : exec (q.providers.mapM (pollProvider env q ns)) s = (.ok isPolled, t))
    (hexec : exec (createSubscription env ns subInst username) s = (.ok (), s')) :
    s'.subscriptions = s.subscriptions ++ (subKeys q.selectStmt.className q.classes).map
        (fun key => (key, q.subscription ns subInst isPolled s.nextId)) ∧
        s'.nextId = s.nextId + 1 := by
  have ht := Keeps.mapM (fun p => keeps_filed_pollProvider env q ns p s.subscriptions s.nextId)
    q.providers s ⟨rfl, rfl⟩
  rw [hpoll] at ht
  obtain ⟨hsub, hid⟩ := ht
  rw [createSubscription, exec_get_bind, hprepare, exec_bind_of_ok hpoll,
    fileSubscription, exec_modify_bind, activate, exec_bind] at hexec
  set u := t.filed (q.subscription ns subInst isPolled t.nextId) with hu
  have hkeep :=
    Keeps.mapM (fun p => keeps_filed_activateProvider env q ns p u.subscriptions u.nextId)
    q.providers u ⟨rfl, rfl⟩
  rcases hact : exec (q.providers.mapM (activateProvider env q ns)) u with ⟨e | activated, v⟩
  · rw [hact] at hexec
    cases hexec
  · rw [hact] at hexec hkeep
    dsimp only at hexec hkeep
    split_ifs at hexec
    · cases hexec
    · cases hexec
      rw [hkeep.1, hkeep.2, ← hsub, ← hid]
      exact ⟨rfl, rfl⟩

/-- Every creation that returns is accepted. -/
lemma Accepted.exists_create {subs : List (Subscription R W P)} {env : Env R W P}
    (h : Accepted subs s)
    (hexec : exec (createSubscription env ns subInst username) s = (.ok (), s')) :
    ∃ sub, Accepted (subs ++ [sub]) s' ∧ s'.subscriptions = s.subscriptions ++
      (subKeys sub.selectStmt.className sub.classes).map fun key => (key, sub) := by
  have hcases := hexec
  rw [createSubscription, exec_get_bind] at hcases
  rcases hprepare : prepare env s ns subInst username with e | q
  · rw [hprepare] at hcases
    cases hcases
  · rw [hprepare] at hcases
    rcases hpoll : exec (q.providers.mapM (pollProvider env q ns)) s with ⟨e | isPolled, t⟩
    · rw [exec_bind_of_error hpoll] at hcases
      cases hcases
    · exact ⟨_, h.create hprepare hpoll hexec, (filed_of_create hprepare hpoll hexec).1⟩

/-- What holds of a server with accepted subscriptions. -/
structure Filed (subs : List (Subscription R W P)) (s : ServerState R W P) : Prop where
  below : ∀ e ∈ s.subscriptions, e.2.id < s.nextId
  id_lt : ∀ sub ∈ subs, sub.id < s.nextId
  wellformed : ∀ sub ∈ subs, Wellformed sub
  entries : ∀ sub ∈ subs, s.subscriptions.filter (fun e => e.2.id = sub.id) =
    (subKeys sub.selectStmt.className sub.classes).map fun key => (key, sub)

/-- **Every accepted subscription is filed once under each of its keys.** -/
lemma Accepted.filed {subs : List (Subscription R W P)} (h : Accepted subs s) : Filed subs s := by
  induction h with
  | empty h => exact ⟨by simp [h], by simp, by simp, by simp⟩
  | @create subs s t s' env ns username subInst q isPolled h hprepare hpoll hexec ih =>
    obtain ⟨hsub, hid⟩ := filed_of_create hprepare hpoll hexec
    set sub := q.subscription ns subInst isPolled s.nextId with hnew
    have hnewid : sub.id = s.nextId := rfl
    refine ⟨fun e he => ?_, fun x hx => ?_, fun x hx => ?_, fun x hx => ?_⟩
    · rw [hid]
      rw [hsub] at he
      rcases mem_append.mp he with he | he
      · exact Nat.lt_succ_of_lt (ih.below e he)
      · obtain ⟨key, -, rfl⟩ := mem_map.mp he
        exact Nat.lt_succ_self _
    · rw [hid]
      rcases mem_append.mp hx with hx | hx
      · exact Nat.lt_succ_of_lt (ih.id_lt x hx)
      · rw [mem_singleton.mp hx]
        exact Nat.lt_succ_self _
    · rcases mem_append.mp hx with hx | hx
      · exact ih.wellformed x hx
      · rw [mem_singleton.mp hx]
        exact wellformed_of_prepare hprepare isPolled s.nextId
    · rw [hsub, filter_append]
      rcases mem_append.mp hx with hx | hx
      · have hne : s.nextId ≠ x.id := Nat.ne_of_gt (ih.id_lt x hx)
        rw [ih.entries x hx, filter_eq_nil_iff.mpr, append_nil]
        intro e he
        obtain ⟨key, -, rfl⟩ := mem_map.mp he
        simpa [hnewid] using hne
      · rw [mem_singleton.mp hx]
        have hold : s.subscriptions.filter (fun e => e.2.id = sub.id) = [] := by
          rw [filter_eq_nil_iff]
          intro e he
          simpa [hnewid] using Nat.ne_of_lt (ih.below e he)
        rw [hold, filter_eq_self.mpr]
        · rfl
        · intro e he
          obtain ⟨key, -, rfl⟩ := mem_map.mp he
          simp

end Accepted

/-! ### Classes of an indication -/

section Classes

variable {C : ClassTable}

variable {fuel : ℕ}

/-- What a class hands on to its superclass holds of the whole chain. -/
lemma forall_classChain {P : ByteStr → Prop} (hc : P c)
    (hP : ∀ {c p}, P c → C.superClass c = some p → p ≠ [] → P p) :
    ∀ d ∈ classChain C fuel c, P d := by
  induction fuel generalizing c with
  | zero => exact fun d hd => nomatch hd
  | succ fuel ih =>
    intro d hd
    rw [classChain] at hd
    split_ifs at hd with hnil
    · cases hd
    · rcases mem_cons.mp hd with rfl | hd
      · exact hc
      · rcases hp : C.superClass c with - | p <;> rw [hp] at hd
        · cases hd
        · by_cases hpnil : p = []
          · cases fuel <;> simp [classChain, hpnil] at hd
          · exact ih (hP hc hp hpnil) d hd

/-- The names of the superclasses are different, in any case of letters. -/
lemma pairwise_classChain : (classChain C fuel c).Pairwise fun x y => ¬ equalsIgnoreCase x y := by
  induction fuel generalizing c with
  | zero => exact .nil
  | succ fuel ih =>
    rw [classChain]
    split_ifs with hnil
    · exact .nil
    · rcases hp : C.superClass c with - | p
      · exact pairwise_singleton _ _
      · refine pairwise_cons.mpr ⟨fun d hd heq => ?_, ih⟩
        by_cases hpnil : p = []
        · cases fuel <;> simp [classChain, hpnil] at hd
        · have h1 := forall_classChain (P := fun d => C.rank d ≤ C.rank p) (Nat.le_refl _)
            (fun hle hp hnil => (C.rank_lt hp hnil).le.trans hle) d hd
          have h2 := C.rank_lt hp hpnil
          have h3 := C.rank_congr heq
          omega

end Classes

/-! ### Deliveries -/

section Deliveries

variable {R P : Type} {n : ℕ} (env : ProcessEnv R n) (ind : Indication R n) (instNS : ByteStr)
  (sub : Subscription R (NestedValue R n) P)

/-- The class of an indication is that of a query, or derives from it. -/
def Derives : Prop := ∃ c ∈ indicationClasses env ind, equalsIgnoreCase c sub.selectStmt.className

/-- An indication matches a subscription: by its class, by its namespace, and by the where
clause. -/
def Matches : Prop :=
  Derives env ind sub ∧ equalsIgnoreCase sub.filterSourceNameSpace instNS ∧
    evaluate env.texts.toReals (instanceSource env.classes env.texts (n := n + 1) ind.inst)
      sub.compiledStmt = some true

instance : Decidable (Matches env ind instNS sub) :=
  inferInstanceAs (Decidable ((∃ _ ∈ _, _) ∧ _ ∧ _))

/-- A subscription is looked at for an indication of its class: it has no `ISA` terms about the
source instance, or the class of the source instance was a subclass of one in these terms when the
subscription was created. If the source instance is an array, then only subscriptions for the very
class of the indication are looked at. -/
def Covered : Prop :=
  match sourceClass ind.inst with
  | none => sub.classes = [] ∧ equalsIgnoreCase ind.inst.owningClassName sub.selectStmt.className
  | some none => sub.classes = []
  | some (some e) => sub.classes = [] ∨ ∃ d ∈ sub.classes, equalsIgnoreCase d e

variable {env ind instNS sub}
variable {subs : List (Subscription R (NestedValue R n) P)} {st : ServerState R (NestedValue R n) P}

/-- What is handed to the notifiers for a subscription, if it is found. -/
def handed (env : ProcessEnv R n) (st : ServerState R (NestedValue R n) P) (ind : Indication R n)
    (instNS : ByteStr) (sub : Subscription R (NestedValue R n) P) : List (ℕ × NotifyTrans R n) :=
  ((deliver env st.exportClasses ind instNS sub).map fun trans => (sub.id, trans)).toList

/-- A subscription is found once under its keys. -/
lemma filter_processRange (env : ProcessEnv R n) (ind : Indication R n) (instNS : ByteStr)
    (h : Filed subs st) (hsub : sub ∈ subs) (key : ByteStr) :
    (processRange env st ind instNS key).filter (fun d => d.1 = sub.id) =
      if key ∈ subKeys sub.selectStmt.className sub.classes then handed env st ind instNS sub
      else [] := by
  have hone : ∀ e : ByteStr × Subscription R (NestedValue R n) P,
      ((deliver env st.exportClasses ind instNS e.2).map fun trans => (e.2.id, trans)).filter
        (fun d => d.1 = sub.id) =
      if e.2.id = sub.id then
        (deliver env st.exportClasses ind instNS e.2).map fun trans => (e.2.id, trans)
      else none := by
    intro e
    rcases deliver env st.exportClasses ind instNS e.2 with - | trans
    · simp
    · by_cases hid : e.2.id = sub.id <;> simp [hid]
  have hentries : (st.subscriptions.filter fun e => e.1 = key).filter (fun e => e.2.id = sub.id) =
      if key ∈ subKeys sub.selectStmt.className sub.classes then [(key, sub)] else [] := by
    rw [filter_comm, h.entries sub hsub, filter_map]
    have hkey : ((fun e : ByteStr × Subscription R (NestedValue R n) P => decide (e.1 = key)) ∘
        fun key => (key, sub)) = fun x => decide (x = key) := rfl
    rw [hkey, filter_eq, (h.wellformed sub hsub).nodup.count]
    split_ifs <;> rfl
  rw [processRange, filter_filterMap]
  simp only [hone]
  have hfilter := filterMap_filter (l := st.subscriptions.filter fun e => e.1 = key)
    (p := fun e : ByteStr × Subscription R (NestedValue R n) P => e.2.id = sub.id)
    (f := fun e => (deliver env st.exportClasses ind instNS e.2).map fun trans => (e.2.id, trans))
  simp only [decide_eq_true_eq] at hfilter
  rw [← hfilter, hentries]
  split_ifs
  · cases deliver env st.exportClasses ind instNS sub <;> rfl
  · rfl

/-- For each class, a subscription is found once or not at all. -/
lemma filter_class (h : Filed subs st) (hsub : sub ∈ subs) (hc : 58 ∉ c) :
    (processRange env st ind instNS (toLowerCase c)).filter (fun d => d.1 = sub.id) ++
      (processRange env st ind instNS (toLowerCase (toLowerCase c ++ 58 :: e))).filter
        (fun d => d.1 = sub.id) =
      if equalsIgnoreCase c sub.selectStmt.className ∧
          (sub.classes = [] ∨ ∃ d ∈ sub.classes, equalsIgnoreCase d e)
      then handed env st ind instNS sub else [] := by
  rw [filter_processRange env ind instNS h hsub, filter_processRange env ind instNS h hsub]
  simp only [mem_subKeys_plain hc, mem_subKeys_source sub.selectStmt.noColon hc]
  by_cases hname : equalsIgnoreCase c sub.selectStmt.className
  · by_cases hnil : sub.classes = [] <;> simp [hnil]
  · simp [hname]

/-- Looking up all classes finds a subscription once, if it is one of its class: the names of the
classes are different. -/
lemma filter_processClasses (h : Filed subs st) (hsub : sub ∈ subs) {source : Option ByteStr}
    (hsource : sourceClass ind.inst = some source) {cs : List ByteStr} (hcolon : ∀ c ∈ cs, 58 ∉ c)
    (hcs : cs.Pairwise fun x y => ¬ equalsIgnoreCase x y) :
    (processClasses env st ind instNS cs).filter (fun d => d.1 = sub.id) =
      if (∃ c ∈ cs, equalsIgnoreCase c sub.selectStmt.className) ∧
          (sub.classes = [] ∨ ∃ e ∈ source, ∃ d ∈ sub.classes, equalsIgnoreCase d e)
      then handed env st ind instNS sub else [] := by
  induction cs with
  | nil => simp [processClasses]
  | cons c cs ih =>
    obtain ⟨hne, hcs⟩ := pairwise_cons.mp hcs
    have hc : 58 ∉ c := hcolon c mem_cons_self
    have ih := ih (fun c hc => hcolon c (mem_cons_of_mem _ hc)) hcs
    have hfirst : (processClasses env st ind instNS (c :: cs)).filter (fun d => d.1 = sub.id) =
        (if equalsIgnoreCase c sub.selectStmt.className ∧
            (sub.classes = [] ∨ ∃ e ∈ source, ∃ d ∈ sub.classes, equalsIgnoreCase d e)
          then handed env st ind instNS sub else []) ++
        (processClasses env st ind instNS cs).filter (fun d => d.1 = sub.id) := by
      rw [processClasses, hsource]
      rcases source with - | e
      · rw [filter_append, filter_processRange env ind instNS h hsub]
        simp [mem_subKeys_plain hc, and_comm]
      · rw [filter_append, filter_append, ← append_assoc, filter_class h hsub hc]
        simp
    rw [hfirst, ih]
    by_cases hname : equalsIgnoreCase c sub.selectStmt.className
    · -- no other class has this name
      have hother : ¬ ∃ d ∈ cs, equalsIgnoreCase d sub.selectStmt.className := by
        rintro ⟨d, hd, heq⟩
        rw [equalsIgnoreCase_iff] at heq hname
        exact hne d hd (equalsIgnoreCase_iff.mpr (hname.trans heq.symm))
      simp [hother]
    · simp [hname]

/-- **A subscription is found once, if it is one of the class of the indication and is covered.** -/
lemma filter_processIndication (env : ProcessEnv R n) (ind : Indication R n) (instNS : ByteStr)
    (h : Filed subs st) (hsub : sub ∈ subs) : (Derives env ind sub ∧ Covered ind sub →
      (processIndication env st ind instNS).filter (fun d => d.1 = sub.id) =
        handed env st ind instNS sub) ∧
    (¬ (Derives env ind sub ∧ Covered ind sub) →
      (processIndication env st ind instNS).filter (fun d => d.1 = sub.id) = []) := by
  rw [Derives, Covered, processIndication]
  rcases hsource : sourceClass ind.inst with - | source
  · -- an exception is thrown after the first look-up
    rw [indicationClasses, classChain]
    split_ifs with hnil
    · simp [processClasses]
    · have hrange :=
        filter_processRange env ind instNS h hsub (toLowerCase ind.inst.owningClassName)
      simp only [mem_subKeys_plain ind.noColon] at hrange
      rw [processClasses, hsource, append_nil, hrange]
      constructor
      · rintro ⟨-, hcov⟩
        rw [if_pos hcov]
      · intro hnot
        rw [if_neg fun hcov => hnot ⟨⟨_, mem_cons_self, hcov.2⟩, hcov⟩]
  · have hcolon : ∀ c ∈ indicationClasses env ind, 58 ∉ c :=
      forall_classChain ind.noColon fun _ hp _ => env.classes.noColon hp
    rw [filter_processClasses h hsub hsource hcolon pairwise_classChain]
    constructor
    · rintro ⟨hderives, hcov⟩
      rw [if_pos ⟨hderives, by cases source <;> simpa using hcov⟩]
    · intro hnot
      rw [if_neg fun hcov => hnot ⟨hcov.1, by cases source <;> simpa using hcov.2⟩]

/-- How often an indication is handed over. -/
lemma length_handed (env : ProcessEnv R n) (ind : Indication R n) (instNS : ByteStr)
    (h : Filed subs st) (hsub : sub ∈ subs) : (handed env st ind instNS sub).length =
      if equalsIgnoreCase sub.filterSourceNameSpace instNS ∧
          evaluate env.texts.toReals (instanceSource env.classes env.texts (n := n + 1) ind.inst)
            sub.compiledStmt = some true ∧ (exportTo env st.exportClasses ind instNS sub).isSome
      then 1 else 0 := by
  obtain ⟨v, hv⟩ := (h.wellformed sub hsub).language
  rw [handed, deliver, hv]
  split_ifs with h1 h2 h2
  · obtain ⟨trans, htrans⟩ := Option.isSome_iff_exists.mp h2.2.2
    rw [htrans]
    rfl
  · have hnone : exportTo env st.exportClasses ind instNS sub = none := by
      rw [← Option.not_isSome_iff_eq_none]
      exact fun hsome => h2 ⟨h1.1, h1.2, hsome⟩
    rw [hnone]
    rfl
  · exact absurd ⟨h2.1, h2.2.1⟩ h1
  · rfl

/-- **An indication is handed once to the export of a subscription if it matches, and not at all
otherwise, iff it is covered and can be exported if it matches.** So the only failure is that a
matching subscription is missed.

**Proof sketch.** An accepted subscription is filed once under each of its keys, and at most one of
the keys that are looked up is one of them. -/
theorem handed_once_iff [DecidableEq R] [DecidableEq P] (h : Accepted subs st)
    (hsub : sub ∈ subs) :
    ((processIndication env st ind instNS).filter fun d => d.1 = sub.id).length =
        (if Matches env ind instNS sub then 1 else 0) ↔
      (Matches env ind instNS sub →
        Covered ind sub ∧ (exportTo env st.exportClasses ind instNS sub).isSome) := by
  obtain ⟨hfound, hnot⟩ := filter_processIndication env ind instNS h.filed hsub
  by_cases hcov : Derives env ind sub ∧ Covered ind sub
  · rw [hfound hcov, length_handed env ind instNS h.filed hsub]
    by_cases hmatch : Matches env ind instNS sub
    · simp [hmatch.2.1, hmatch.2.2, hmatch, hcov.2, Option.isSome_iff_ne_none]
    · rw [if_neg hmatch, if_neg fun hall => hmatch ⟨hcov.1, hall.1, hall.2.1⟩]
      exact iff_of_true rfl fun hm => absurd hm hmatch
  · rw [hnot hcov, length_nil]
    constructor
    · intro hzero hmatch
      rw [if_pos hmatch] at hzero
      cases hzero
    · intro hmatch
      rw [if_neg fun hm => hcov ⟨hm.1, (hmatch hm).1⟩]

end Deliveries

/-! ### Missed subscriptions -/

section Missed

/-- `SourceInstance ISA A` -/
def isaClause : Clause Int :=
  .term ⟨.isa, .propertyName (text "SourceInstance"), .value (.string (text "A"))⟩

/-- `SourceInstance ISA A OR Severity = 1` -/
def isaOrClause : Clause Int :=
  .binary .or isaClause (.term ⟨.eq, .propertyName (text "Severity"), .value (.integer 1)⟩)

/-- A system where filters have a given where clause, and the class `A` has no subclasses. -/
def queryEnv (clause : Clause Int) : Env Int (NestedValue Int 0) Unit :=
  { sampleEnv true true with
    createSelectStatement := fun _ => .ok ⟨text "CIM_InstCreation", [], clause.items, by decide⟩
    fuel := 10 }

/-- A server with a subscription to a filter with a given where clause. -/
def queryServer (clause : Clause Int) : ServerState Int (NestedValue Int 0) Unit :=
  (exec (createSubscription (queryEnv clause) (text "root") sampleSubscription (text "user"))
    emptyServer).2

/-- The class `B` derives from `A`, and the class `C` from none. -/
def sampleClasses : ClassTable where
  superClass c :=
    if toLowerCase c = text "b" then some (text "A")
    else if toLowerCase c ∈ [text "a", text "c", text "cim_instcreation"] then some []
    else none
  rank c := if toLowerCase c = text "b" then 1 else 0
  rank_congr h := by rw [equalsIgnoreCase_iff.mp h]
  rank_lt {c p} h hp := by
    split_ifs at h with h1 h2
    · cases h
      rw [if_pos h1]
      decide
    · cases h
      exact absurd rfl hp
  noColon {c p} h := by
    split_ifs at h with h1 h2 <;> cases h <;> decide

/-- Texts of values that do not matter here. -/
def sampleTexts : Texts Int := { wholeReals with
  value := fun _ _ => []
  inst := fun _ _ => []
  charInt := fun _ => none
  toReal64 := fun _ => none }

/-- The classes of an indication server, where handlers are found. -/
def sampleProcess : ProcessEnv Int 0 :=
  ⟨sampleTexts, sampleClasses, fun _ _ => .ok (sampleInstance "CIM_IndicationHandler" []),
    fun _ => true⟩

/-- An indication of the creation of an instance of a class. -/
def sampleIndication (className : String) : Indication Int 0 where
  inst := sampleInstance "CIM_InstCreation"
    [sampleProperty "SourceInstance"
        (.single .embeddedInstance ⟨text "root", text className, [], [], [], []⟩),
      sampleProperty "Severity" (.single .uint16 (1 : UInt16))]
  noColon := by
    change 58 ∉ text "CIM_InstCreation"
    decide

/-- The samples are accepted. -/
lemma exists_accepted {e : Clause Int} (h : exec (createSubscription (queryEnv e) (text "root")
    sampleSubscription (text "user")) emptyServer = (.ok (), queryServer e)) :
    ∃ sub, Accepted [sub] (queryServer e) ∧ ∃ key, (key, sub) ∈ (queryServer e).subscriptions := by
  obtain ⟨sub, hacc, hsub⟩ := Accepted.exists_create (.empty rfl) h
  have hkeys : subKeys sub.selectStmt.className sub.classes ≠ [] := by
    rw [subKeys]
    split_ifs with hnil
    · exact cons_ne_nil _ _
    · simpa using hnil
  obtain ⟨key, keys, hkey⟩ := exists_cons_of_ne_nil hkeys
  refine ⟨sub, hacc, key, ?_⟩
  rw [hsub, hkey]
  exact mem_append_right _ mem_cons_self

/-- A subscription to `SourceInstance ISA A`, and the creation of an instance of `A`. -/
theorem handed_instance_of_class : ∃ sub, Accepted [sub] (queryServer isaClause) ∧
      (((processIndication sampleProcess (queryServer isaClause) (sampleIndication "A")
          (text "root")).filter fun d => d.1 = sub.id).length =
        (if Matches sampleProcess (sampleIndication "A") (text "root") sub then 1 else 0) ↔
      (Matches sampleProcess (sampleIndication "A") (text "root") sub →
        Covered (sampleIndication "A") sub ∧
        (exportTo sampleProcess (queryServer isaClause).exportClasses
          (sampleIndication "A") (text "root") sub).isSome)) := by
  obtain ⟨sub, hacc, -⟩ := exists_accepted (e := isaClause) rfl
  exact ⟨sub, hacc, handed_once_iff hacc mem_cons_self⟩

/-- A subscription to `SourceInstance ISA A OR Severity = 1` is not handed the creation of an
instance of `C` with this severity. A subscription to `SourceInstance ISA A` is not handed the
creation of an instance of `B`, if this class was derived from `A` after the subscription was
created. -/
theorem missed_subscriptions : (∃ sub, Accepted [sub] (queryServer isaOrClause) ∧
      Matches sampleProcess (sampleIndication "C") (text "root") sub ∧
      (processIndication sampleProcess (queryServer isaOrClause) (sampleIndication "C")
        (text "root")).length = 0) ∧
    (∃ sub, Accepted [sub] (queryServer isaClause) ∧
      Matches sampleProcess (sampleIndication "B") (text "root") sub ∧
      (processIndication sampleProcess (queryServer isaClause) (sampleIndication "B")
        (text "root")).length = 0) := by
  have hor : ∀ e ∈ (queryServer isaOrClause).subscriptions,
      Matches sampleProcess (sampleIndication "C") (text "root") e.2 := by decide +kernel
  have hisa : ∀ e ∈ (queryServer isaClause).subscriptions,
      Matches sampleProcess (sampleIndication "B") (text "root") e.2 := by decide +kernel
  obtain ⟨sub, hacc, key, hkey⟩ := exists_accepted (e := isaOrClause) rfl
  obtain ⟨sub', hacc', key', hkey'⟩ := exists_accepted (e := isaClause) rfl
  exact ⟨⟨sub, hacc, hor _ hkey, by decide +kernel⟩, sub', hacc', hisa _ hkey', by decide +kernel⟩

end Missed

end OpenWbem.Indications
