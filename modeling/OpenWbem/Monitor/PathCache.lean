import OpenWbem.Monitor.Requests

/-!
# The caches of secure paths

The monitor remembers paths that have been judged secure, and directories in which it is enough to
judge the last component. The caches do not change the answers, and each of them is a bounded queue.

## Main definitions

* `queue` — the entries after a sequence of insertions.

## Main results

* `StringCache.insert_of` — a cache is a queue, and the set of its entries.
* `isSecure_eq_judgement` — the answers are those of the judgement.
-/

namespace OpenWbem.Monitor

open Prog List

/-! ### Queues -/

/-- A new entry goes to the end of the queue, and the first ones leave it if there are more than
`n`. -/
def push (n : ℕ) (l : List ByteStr) (s : ByteStr) : List ByteStr :=
  if s ∈ l then l else l.drop (l.length + 1 - n) ++ [s]

/-- The queue after a sequence of insertions. -/
def queue (n : ℕ) (ops : List ByteStr) : List ByteStr := ops.foldl (push n) []

/-- A cache whose queue lists the members of its set. -/
def StringCache.of (l : List ByteStr) : StringCache := ⟨l.toFinset, l⟩

variable {n : ℕ} {s : ByteStr} {l : List ByteStr}

/-- The queue after another insertion. -/
lemma queue_snoc (ops : List ByteStr) : queue n (ops ++ [s]) = push n (queue n ops) s :=
  foldl_append

/-- What holds of the entries, and of the new one, holds afterwards. -/
lemma forall_mem_push {P : ByteStr → Prop} (h : ∀ x ∈ l, P x) (hs : P s) :
    ∀ x ∈ push n l s, P x := by
  rw [push]
  split_ifs
  · exact h
  · exact forall_mem_append.2 ⟨fun x hx => h x (mem_of_mem_drop hx), forall_mem_singleton.2 hs⟩

/-- There is room for one entry. -/
lemma cacheSize_pos (n : ℕ) : 0 < cacheSize n := by
  rw [cacheSize]
  split_ifs <;> omega

/-- The entries of a queue are different, and there are at most `n`. -/
lemma queue_spec (hn : 0 < n) (ops : List ByteStr) :
    (queue n ops).Nodup ∧ (queue n ops).length ≤ n := by
  induction ops using reverseRecOn with
  | nil => exact ⟨nodup_nil, n.zero_le⟩
  | append_singleton ops s ih =>
    rw [queue_snoc, push]
    split_ifs with hs
    · exact ih
    · refine ⟨nodup_append.2 ⟨ih.1.sublist (drop_sublist _ _), nodup_singleton s,
        fun x hx y hy => ?_⟩, ?_⟩
      · rw [mem_singleton.1 hy]
        exact ne_of_mem_of_not_mem (mem_of_mem_drop hx) hs
      · rw [length_append, length_drop, length_singleton]
        omega

/-- Room is made for the entry `s`. -/
lemma evict_eq (hd : (s :: l).Nodup) : StringCache.evict n (s :: l).toFinset l =
    ⟨(s :: l.drop (l.length + 1 - n)).toFinset, l.drop (l.length + 1 - n)⟩ := by
  induction l with
  | nil => simp [StringCache.evict]
  | cons a l ih =>
    have hswap : (a :: s :: l).Nodup := (Perm.swap _ _ _).nodup hd
    rw [StringCache.evict, toFinset_card_of_nodup hd, length_cons, length_cons]
    split_ifs with h
    · rw [toFinset_eq_of_perm _ _ (Perm.swap _ _ _), toFinset_cons,
        Finset.erase_insert (by simpa using (nodup_cons.1 hswap).1), ih (nodup_cons.1 hswap).2,
        Nat.succ_sub (Nat.le_of_lt_succ h), drop_succ_cons]
    · rw [Nat.sub_eq_zero_of_le (by omega), drop_zero]

/-- **A cache is a queue**, and the set of its entries. -/
lemma StringCache.insert_of (hd : l.Nodup) : (of l).insert n s = of (push n l s) := by
  simp only [insert, of, push, mem_toFinset]
  split_ifs with hs
  · rfl
  · rw [← toFinset_cons, evict_eq (nodup_cons.2 ⟨hs, hd⟩),
      toFinset_eq_of_perm _ _ (perm_append_singleton _ _)]

/-- **A cache after a sequence of insertions**: the queue has the members of the set, each once and
in the order of insertion, and not more than the configured number. -/
lemma StringCache.foldl_insert (hn : 0 < n) (ops : List ByteStr) :
    ops.foldl (StringCache.insert n) ⟨∅, []⟩ = .of (queue n ops) := by
  induction ops using reverseRecOn with
  | nil => rfl
  | append_singleton ops s ih =>
    rw [foldl_append, ih, queue_snoc]
    exact StringCache.insert_of (queue_spec hn ops).1

/-! ### The answers -/

/-- The judgement accepts a path. -/
def Accepts (sys : System) (path : ByteStr) : Prop :=
  ∃ sec, sys.security path = .ok sec ∧ sec ≠ .insecure

/-- A directory is acceptable: it is judged to be, or a path in it is accepted. -/
def SafeDir (sys : System) (dir : ByteStr) : Prop :=
  sys.security dir = .ok .secureDir ∨ ∃ path, 47 ∈ path ∧ Accepts sys path ∧ dirName path = dir

/-- The cache has been built by insertions, and its members have `P`. -/
def Knows (n : ℕ) (P : ByteStr → Prop) (c : StringCache) : Prop :=
  ∃ ops : List ByteStr, c = ops.foldl (StringCache.insert (cacheSize n)) ⟨∅, []⟩ ∧ ∀ s ∈ c.set, P s

/-- The caches know acceptable paths and directories only. -/
def CachesKnow (n : ℕ) (sys : System) (m : State) : Prop :=
  Knows n (Accepts sys) m.securePaths ∧ Knows n (SafeDir sys) m.secureDirs

variable {sys : System} {m : State} {path : ByteStr}

/-- An insertion keeps what the members have in common. -/
lemma Knows.insert {P : ByteStr → Prop} {c : StringCache} (h : Knows n P c) (hs : P s) :
    Knows n P (c.insert (cacheSize n) s) := by
  obtain ⟨ops, rfl, hP⟩ := h
  refine ⟨ops ++ [s], by rw [foldl_append]; rfl, ?_⟩
  rw [StringCache.foldl_insert (cacheSize_pos n)] at hP ⊢
  rw [StringCache.insert_of (queue_spec (cacheSize_pos n) ops).1]
  have hold : ∀ x ∈ queue (cacheSize n) ops, P x := fun x hx => hP x (mem_toFinset.2 hx)
  exact fun x hx => forall_mem_push hold hs x (mem_toFinset.1 hx)

variable (hin : ∀ path, 47 ∈ path → SafeDir sys (dirName path) →
  sys.securityIn (dirName path) (splitPath path).2 = sys.security path)

include hin

/-- The security of a path is what the judgement says. -/
lemma exec_pathSecurity (hpath : 47 ∈ path) (h : CachesKnow n sys m) :
    ∃ m', exec (pathSecurity n sys path) m = (sys.security path, m') ∧ CachesKnow n sys m' := by
  have hcall {x : Except Failure ESecurity} : exec (call x) m = (x, m) := by cases x <;> rfl
  rw [pathSecurity, exec_get_bind]
  split_ifs with hdir
  · rw [hin path hpath (h.2.choose_spec.2 _ hdir)]
    exact ⟨m, hcall, h⟩
  rw [exec_bind, hcall]
  rcases hsec : sys.security path with e | sec
  · exact ⟨m, rfl, h⟩
  by_cases hne : sec = .insecure
  · subst hne
    exact ⟨m, rfl, h⟩
  · dsimp only
    rw [exec_bind, exec_when_pos hne]
    exact ⟨_, rfl, h.1, h.2.insert (.inr ⟨path, hpath, ⟨sec, hsec, hne⟩, rfl⟩)⟩

/-- One call of `is_secure`. -/
lemma isSecure_step (hpath : 47 ∈ path) (h : CachesKnow n sys m) :
    (exec (isSecure n sys path) m).1 = (sys.security path).map (· != .insecure) ∧
      CachesKnow n sys (exec (isSecure n sys path) m).2 := by
  rw [isSecure, exec_get_bind]
  split_ifs with hmem
  · obtain ⟨sec, hsec, hne⟩ := h.1.choose_spec.2 _ hmem
    rw [hsec]
    exact ⟨by simp [Except.map, hne], h⟩
  obtain ⟨m', hexec, h'⟩ := exec_pathSecurity hin hpath h
  rw [exec_bind, hexec]
  rcases hsec : sys.security path with e | sec
  · exact ⟨rfl, h'⟩
  cases sec with
  | insecure => exact ⟨rfl, h'⟩
  | secureFile => exact ⟨rfl, h'.1.insert ⟨_, hsec, by simp⟩, h'.2⟩
  | secureDir => exact ⟨rfl, h'.1.insert ⟨_, hsec, by simp⟩, h'.2.insert (.inl hsec)⟩

/-- **The caches do not change the answers.** If judging a path equals judging its last component
inside an acceptable directory, then after every sequence of calls, with caches of any size,
`is_secure` answers what the judgement says. And each cache has been built by insertions: after any
sequence of them the queue lists the members of the set, each once and in the order of insertion,
with at most the configured number, and at least one.

**Proof sketch.** The paths in the one cache have been accepted, and the directories in the other
one are acceptable, since an insertion adds nothing else (`Knows.insert`). -/
theorem isSecure_eq_judgement {paths : List ByteStr}
    (h : Reaches (fun path m => (exec (isSecure n sys path) m).2) (fun path _ => 47 ∈ path)
      .initial paths m) :
    (∀ path, 47 ∈ path →
      (exec (isSecure n sys path) m).1 = (sys.security path).map (· != .insecure)) ∧
    (∀ c ∈ [m.securePaths, m.secureDirs], ∃ ops : List ByteStr,
      c = ops.foldl (StringCache.insert (cacheSize n)) ⟨∅, []⟩) ∧
    ∀ ops : List ByteStr, 0 < cacheSize n ∧
      ops.foldl (StringCache.insert (cacheSize n)) ⟨∅, []⟩ =
        ⟨(queue (cacheSize n) ops).toFinset, queue (cacheSize n) ops⟩ ∧
      (queue (cacheSize n) ops).Nodup ∧ (queue (cacheSize n) ops).length ≤ cacheSize n := by
  have hempty (P : ByteStr → Prop) : Knows n P ⟨∅, []⟩ := ⟨[], rfl, by simp⟩
  have hknow : CachesKnow n sys m := h.keeps ⟨hempty _, hempty _⟩
    fun hs _ hop => (isSecure_step hin hop hs).2
  have hpos := cacheSize_pos n
  refine ⟨fun path hpath => (isSecure_step hin hpath hknow).1, fun c hc => ?_,
    fun ops => ⟨hpos, StringCache.foldl_insert hpos ops, queue_spec hpos ops⟩⟩
  rcases mem_pair.1 hc with rfl | rfl
  · exact hknow.1.imp fun ops h => h.1
  · exact hknow.2.imp fun ops h => h.1

omit hin

/-- A system on which everything is a secure directory. -/
def trustedSystem : System :=
  { descriptor := 0
    result := 0
    errno := 0
    errnoText := fun s _ => s
    statbuf := []
    directory := none
    link := .ok []
    ok := true
    security := fun _ => .ok .secureDir
    securityIn := fun _ _ => .ok .secureDir
    dup := 0
    spawn := .ok ⟨0, 0, 0, 2, by decide⟩
    killed := 0
    wpid := 2
    status := 0
    terminated := true }

/-- A path is secure after it has left a cache of one entry. -/
theorem isSecure_evicted :
    (exec (isSecure 0 trustedSystem [47, 97])
      ([[47, 97], [47, 98]].foldl (fun m path => (exec (isSecure 0 trustedSystem path) m).2)
        .initial)).1 = .ok true :=
  (isSecure_eq_judgement (fun _ _ _ => rfl) (.snoc (.snoc .nil (by decide)) (by decide))).1 _
    (by decide)

end OpenWbem.Monitor
