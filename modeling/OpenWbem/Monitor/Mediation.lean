import Mathlib.Data.List.TakeWhile
import OpenWbem.Monitor.Requests

/-!
# The monitor mediates every action

In every run of the monitor whose requests have no zero byte in a path, each action is one that the
privileges allow: its path is clean and admitted by the privilege for the action, and signals and
waits reach only processes that the monitor has spawned and not reported as terminated.

A zero byte is an ordinary byte for the checks, and the end of the path for the system call.

## Main results

* `handle_keeps` — the handler of a request keeps the invariant.
* `runBody_mediates` — every action of a run is one that the privileges allow.
-/

namespace OpenWbem.Monitor

open Prog Keeps Bool

variable {cfg : Config} {sys : System}

/-! ### Paths -/

/-- A text without a zero byte. -/
lemma cStr_of_not_mem {s : ByteStr} (h : 0 ∉ s) : cStr s = s := by
  rw [cStr, List.takeWhile_eq_self_iff]
  intro b hb
  simpa using ne_of_mem_of_not_mem hb h

variable {path msg appName userName : ByteStr} {m : State} {err : ErrorCode} {op : String}
  {e : Event} {flags : OpenFlags} {priv : Privileges} {kind : SpawnKind} {argv envp : List ByteStr}
  {pid : ProcId}

/-- A cleaned path without components of two dots is clean. -/
lemma cleanPath_normalizePath (hs : path.head? = some 47)
    (hdots : (!containsDoubleDots (normalizePath path))) : CleanPath (normalizePath path) := by
  have hcomps : ∀ c ∈ components path, 47 ∉ c ∧ c ≠ [] ∧ c ≠ [46] :=
    fun c hc => of_mem_components hc
  have hhead : (normalizePath path).head? = some 47 := by
    rw [normalizePath_eq hs, pathText]
    split_ifs
    · rfl
    all_goals
      obtain ⟨c, cs, h⟩ := List.exists_cons_of_ne_nil ‹_›
      rw [h]
      rfl
  have hnot : [46, 46] ∉ components path := by
    rw [not_eq_true', eq_false_iff, ne_eq, containsDoubleDots_iff hhead,
      normalizePath_eq hs, components_pathText hcomps] at hdots
    exact hdots
  refine ⟨components path, isDirText path, fun c hc => ?_, normalizePath_eq hs⟩
  obtain ⟨h47, hne, hdot⟩ := hcomps c hc
  exact ⟨h47, hne, hdot, fun h => hnot (h ▸ hc)⟩

/-! ### The invariant -/

/-- All actions were allowed, and the table of processes has only live ones. -/
structure Inv (cfg : Config) (m : State) : Prop where
  mediates : Mediates cfg m.events
  procs : ∀ pid ∈ m.procMap, pid ∈ live m.events
  live_gt : ∀ pid ∈ live m.events, 1 < pid

/-- Only processes and events matter. -/
lemma Inv.congr {m' : State} (h : Inv cfg m) (hprocs : m'.procMap = m.procMap)
    (hevents : m'.events = m.events) : Inv cfg m' := by
  obtain ⟨hm, hp, hl⟩ := h
  exact ⟨hevents ▸ hm, by rwa [hprocs, hevents], by rwa [hevents]⟩

/-- The monitor at the start. -/
lemma inv_initial : Inv cfg .initial :=
  ⟨trivial, by simp [State.initial], by simp [State.initial, live]⟩

section Checks

variable {α : Type} {f : PUnit → Handler α}

/-- Changes of the other parts of the state keep the invariant. -/
lemma keeps_modify {g : State → State}
    (hg : ∀ m, (g m).procMap = m.procMap ∧ (g m).events = m.events) :
    Keeps (Inv cfg) (modify g : Handler PUnit) :=
  fun m hm => hm.congr (hg m).1 (hg m).2

/-- A call that may fail. -/
lemma keeps_call (x : Except Failure α) : Keeps (Inv cfg) (call x) := by
  cases x with
  | ok v => exact .pure v
  | error e => exact .throw e

variable {tst : Bool}

/-- After a check that may make the monitor quit, the condition holds. -/
lemma keeps_checkArgs (h : tst → Keeps (Inv cfg) (f ⟨⟩)) :
    Keeps (Inv cfg) (checkArgs tst msg err >>= f) := by
  cases tst with
  | true => exact bind (.pure _) fun _ => h rfl
  | false =>
    intro m hm
    rw [checkArgs]
    cases hfatal : err.isFatal <;> exact hm.congr rfl rfl

/-- After a check. -/
lemma keeps_check (h : tst → Keeps (Inv cfg) (f ⟨⟩)) :
    Keeps (Inv cfg) (check tst msg err >>= f) := by
  cases tst with
  | true => exact bind (.pure _) fun _ => h rfl
  | false => exact fun m hm => hm

/-- After a check of `errno`. -/
lemma keeps_checkErrno
    (h : tst → Keeps (Inv cfg) (f ⟨⟩)) : Keeps (Inv cfg) (checkErrno sys tst msg >>= f) := by
  cases tst with
  | true => exact bind (.pure _) fun _ => h rfl
  | false => exact fun m hm => hm

/-- A path that was checked is clean, and system calls are given that very path if it has no
zero. -/
lemma keeps_forceValidPath {g : ByteStr → Handler α} (h0 : 0 ∉ path)
    (h : ∀ p, CleanPath p → cStr p = p → Keeps (Inv cfg) (g p)) :
    Keeps (Inv cfg) (forceValidPath cfg path op >>= g) := by
  simp only [forceValidPath, bind_assoc]
  refine keeps_checkArgs fun _ => keeps_checkArgs fun hhead => keeps_checkArgs fun hdots => ?_
  have hs : path.head? = some 47 := by simpa using hhead
  exact h _ (cleanPath_normalizePath hs hdots) (cStr_of_not_mem fun h =>
    h0 (mem_of_mem_normalizePath hs h))

/-- An allowed action that neither spawns a process nor reports its end. -/
lemma keeps_perform (hlive : ∀ log, live (e :: log) = live log)
    (he : ∀ procs, e.Mediated cfg procs) : Keeps (Inv cfg) (perform e) :=
  fun _ hm => ⟨⟨he _, hm.mediates⟩, fun pid hpid => (hlive _).symm ▸ hm.procs pid hpid,
    fun pid hpid => hm.live_gt pid (hlive _ ▸ hpid)⟩

end Checks

/-! ### Files and directories -/

/-- A flag is one of the flags that `open` is called for. -/
lemma and_flag {c : OpenFlags} (hc : OpenFlags.iota &&& c = c) {f : OpenFlags}
    (hf : flags &&& OpenFlags.iota = f) : flags &&& c = f &&& c := by
  rw [← hf, UInt32.and_assoc, hc]

/-- The privileges to open a file. -/
lemma hasOpenPriv_iff : hasOpenPriv path flags priv ↔
      (flags &&& OpenFlags.flagIn ≠ 0 → priv.openRead.matchPath path) ∧
      (flags &&& OpenFlags.flagApp ≠ 0 → priv.openAppend.matchPath path ∨
        priv.openWrite.matchPath path) ∧
      (flags &&& OpenFlags.flagApp = 0 → flags &&& OpenFlags.flagOut ≠ 0 →
        priv.openWrite.matchPath path) := by
  rw [hasOpenPriv]
  split_ifs <;> simp_all

/-- **The flags are decoded alike:** what the descriptor can do was checked. -/
lemma of_hasOpenPriv {pflags : PosixFlags} {withPerms : Bool} (h : hasOpenPriv path flags priv)
    (hflags : posixFlags flags = some (pflags, withPerms)) :
    (pflags.reads → priv.openRead.matchPath path) ∧
    (pflags.overwrites → priv.openWrite.matchPath path) ∧
      (pflags.appends → priv.openAppend.matchPath path ∨ priv.openWrite.matchPath path) := by
  obtain ⟨hread, happ, hwrite⟩ := hasOpenPriv_iff.mp h
  rw [posixFlags] at hflags
  split at hflags <;> cases hflags
  all_goals
    rename_i hk
    replace hk := UInt32.ofNat_toNat.symm.trans (congrArg UInt32.ofNat hk)
    rw [and_flag rfl hk] at hread
    rw [and_flag rfl hk] at happ hwrite
    rw [and_flag rfl hk] at hwrite
    refine ⟨fun h => ?_, fun h => ?_, fun h => ?_⟩
    · first | exact absurd h false_ne_true | exact hread (by decide)
    · first | exact absurd h false_ne_true | exact hwrite (by decide) (by decide)
    · first | exact absurd h false_ne_true | exact happ (by decide)

/-- Opening a file. -/
lemma keeps_openFile {perms : UInt32} (h0 : 0 ∉ path) :
    Keeps (Inv cfg) (openFile cfg sys path flags perms) := by
  refine keeps_forceValidPath h0 fun p hclean hp => keeps_checkArgs fun hpriv => ?_
  rcases hflags : posixFlags flags with _ | ⟨pflags, withPerms⟩
  · exact keeps_checkArgs nofun
  · refine bind (keeps_perform (fun _ => rfl) fun _ => ?_) fun _ =>
      keeps_checkErrno fun _ => .pure _
    rw [hp]
    exact ⟨hclean, of_hasOpenPriv hpriv hflags⟩

/-- An action on one path that is performed after the privilege has been checked. -/
lemma keeps_pathAction {α : Type} {g : ByteStr → Event} {tst : ByteStr → Bool}
    {msg : ByteStr → ByteStr}
    {x : ByteStr → Handler α} (h0 : 0 ∉ path) (hlive : ∀ p log, live (g p :: log) = live log)
    (hg : ∀ p procs, CleanPath p → tst p → (g p).Mediated cfg procs)
    (hx : ∀ p, Keeps (Inv cfg) (x p)) :
    Keeps (Inv cfg) (do
      let p ← forceValidPath cfg path op
      checkArgs (tst p) (msg p) err
      perform (g (cStr p))
      x p) := by
  refine keeps_forceValidPath h0 fun p hclean hp => keeps_checkArgs fun hpriv => ?_
  refine bind (keeps_perform (hlive _) fun procs => ?_) fun _ => hx p
  rw [hp]
  exact hg p procs hclean hpriv

/-- Asking about a file. -/
lemma keeps_statWith {g : ByteStr → Event} (h0 : 0 ∉ path)
    (hlive : ∀ p log, live (g p :: log) = live log)
    (hg : ∀ p procs, CleanPath p → cfg.priv.stat.matchPath p → (g p).Mediated cfg procs) :
    Keeps (Inv cfg) (statWith cfg sys op g path) :=
  keeps_pathAction h0 hlive hg fun _ => keeps_checkErrno fun _ => .pure _

/-- Reading a directory. -/
lemma keeps_readDir {omitSpecial : Bool} (h0 : 0 ∉ path) :
    Keeps (Inv cfg) (readDir cfg sys path omitSpecial) :=
  keeps_pathAction (g := .readDir) h0 (fun _ _ => rfl) (fun _ _ => .intro) fun _ =>
    keeps_check fun _ => .pure _

/-- Reading a link. -/
lemma keeps_readLink (h0 : 0 ∉ path) : Keeps (Inv cfg) (readLink cfg sys path) :=
  keeps_pathAction (g := .readLink) h0 (fun _ _ => rfl) (fun _ _ => .intro) fun _ =>
    (keeps_call _).bind fun _ => .pure _

/-- Renaming a file. -/
lemma keeps_rename {oldPath newPath : ByteStr} (hold : 0 ∉ oldPath) (hnew : 0 ∉ newPath) :
    Keeps (Inv cfg) (rename cfg sys oldPath newPath) := by
  refine keeps_forceValidPath hold fun p hclean hp => keeps_checkArgs fun hpriv => ?_
  refine keeps_forceValidPath hnew fun p' hclean' hp' => keeps_checkArgs fun hpriv' => ?_
  refine bind (keeps_perform (fun _ => rfl) fun _ => ?_) fun _ => keeps_check fun _ => .pure _
  rw [hp, hp']
  exact ⟨⟨hclean, hpriv⟩, hclean', hpriv'⟩

/-- Removing a file. -/
lemma keeps_removeFile (h0 : 0 ∉ path) : Keeps (Inv cfg) (removeFile cfg sys path) :=
  keeps_pathAction (g := .removeFile) h0 (fun _ _ => rfl) (fun _ _ => .intro) fun _ => .pure _

/-- Removing a directory. -/
lemma keeps_removeDirectory (h0 : 0 ∉ path) : Keeps (Inv cfg) (removeDirectory cfg sys path) :=
  keeps_pathAction (g := .removeDirectory) h0 (fun _ _ => rfl) (fun _ _ => .intro) fun _ => .pure _

/-! ### Spawning -/

/-- Reading the state. -/
lemma keeps_get : Keeps (Inv cfg) (get : Handler State) := fun _ hm => hm

/-- Remembering a directory. -/
lemma keeps_rememberDir {n : ℕ} : Keeps (Inv cfg) (rememberDir n path) :=
  keeps_modify fun _ => ⟨rfl, rfl⟩

/-- The check of a path. -/
lemma keeps_isSecure {n : ℕ} : Keeps (Inv cfg) (isSecure n sys path) := by
  refine keeps_get.bind fun m => ?_
  split_ifs
  · exact .pure _
  refine bind (keeps_get.bind fun m => ?_) fun sec => ?_
  · split_ifs
    · exact keeps_call _
    · exact (keeps_call _).bind fun sec => keeps_rememberDir.when.bind fun _ => .pure _
  · split_ifs
    · exact .pure _
    · refine bind (keeps_modify fun _ => ?_) fun _ => keeps_rememberDir.when.bind fun _ => .pure _
      exact ⟨rfl, rfl⟩

/-- Starting a process. -/
lemma keeps_spawnAndReturn
    (he : ∀ procs pid, (Event.spawn kind (cStr path) argv envp pid).Mediated cfg procs) :
    Keeps (Inv cfg) (spawnAndReturn sys kind path argv envp) := by
  rw [spawnAndReturn]
  rcases sys.spawn with e | p
  · exact bind (keeps_perform (fun _ => rfl) fun _ => he _ _) fun _ => .throw e
  · intro m hm
    refine ⟨⟨he _ _, hm.mediates⟩, fun pid hpid => ?_, fun pid hpid => ?_⟩
    · rcases Finset.mem_insert.mp hpid with rfl | hpid
      · exact Set.mem_insert _ _
      · exact Set.mem_insert_of_mem _ (hm.procs pid hpid)
    · rcases hpid with rfl | hpid
      · exact p.pid_gt
      · exact hm.live_gt pid hpid

/-- After the check of the sizes. -/
lemma keeps_checkSizes {α : Type} {xargv xenvp : List ByteStr × Bool} {f : PUnit → Handler α}
    (h : Keeps (Inv cfg) (f ⟨⟩)) : Keeps (Inv cfg) (checkSizes op xargv xenvp >>= f) := by
  simp only [checkSizes, bind_assoc]
  exact keeps_checkArgs fun _ => keeps_checkArgs fun _ => keeps_checkArgs fun _ => h

/-- Starting a process with a monitor. -/
lemma keeps_spawnMonitored (he : ∀ n procs pid, (Event.spawn kind (cStr path) argv
      (envp ++ [connDescEnvVar ++ [61] ++ number n]) pid).Mediated cfg procs) :
    Keeps (Inv cfg) (spawnMonitored sys op kind path argv envp) :=
  keeps_isSecure.bind fun _ => keeps_check fun _ => keeps_check fun _ => keeps_spawnAndReturn (he _)

/-- The request for it. -/
lemma keeps_monitoredSpawn (h0 : 0 ∉ path) :
    Keeps (Inv cfg) (monitoredSpawn cfg sys path appName argv envp) := by
  refine keeps_forceValidPath h0 fun p hclean hp => keeps_checkArgs fun _ => keeps_checkSizes <|
    keeps_checkArgs fun hpriv => keeps_spawnMonitored fun n procs pid => ?_
  rw [hp]
  exact ⟨hclean, _, n, rfl, (or_eq_true _ _).mp hpriv⟩

/-- The request as a user. -/
lemma keeps_monitoredUserSpawn
    (h0 : 0 ∉ path) :
    Keeps (Inv cfg) (monitoredUserSpawn cfg sys path appName argv envp userName) := by
  refine keeps_forceValidPath h0 fun p hclean hp => keeps_checkArgs fun _ =>
    keeps_checkArgs fun _ =>
    keeps_checkSizes <| keeps_checkArgs fun hpriv => keeps_spawnMonitored fun n procs pid => ?_
  rw [hp]
  exact ⟨hclean, _, n, rfl, (or_eq_true _ _).mp hpriv⟩

/-- A process of a user. -/
lemma keeps_userSpawn {workingDir : ByteStr} (h0 : 0 ∉ path) :
    Keeps (Inv cfg) (userSpawn cfg sys path argv envp userName workingDir) := by
  refine keeps_forceValidPath h0 fun p hclean hp => keeps_checkArgs fun _ =>
    keeps_checkArgs fun _ =>
    keeps_checkSizes <| keeps_checkArgs fun hpriv => keeps_isSecure.bind fun _ =>
      keeps_check fun _ =>
    keeps_check fun _ => keeps_spawnAndReturn fun procs pid => ?_
  rw [hp]
  exact ⟨hclean, (or_eq_true _ _).mp hpriv⟩

/-! ### Processes -/

/-- A signal reaches a live process or its group, since no process has the number zero or one. -/
lemma killReaches (hm : Inv cfg m)
    (h : (if 0 < pid then decide (pid ∈ m.procMap) else decide (-pid ∈ m.procMap)) = true) :
    KillReaches (live m.events) pid := by
  split_ifs at h with hpos
  · exact .inl ⟨hpos, hm.procs _ (of_decide_eq_true h)⟩
  · have hlive := hm.procs _ (of_decide_eq_true h)
    have hgt := hm.live_gt _ hlive
    refine .inr ⟨?_, hlive⟩
    rw [Int32.lt_iff_toInt_lt] at hgt hpos ⊢
    by_contra hnot
    have hcases : pid.toInt = 0 ∨ pid.toInt = -1 := by
      have hzero : (0 : Int32).toInt = 0 := rfl
      have hone : (-1 : Int32).toInt = -1 := rfl
      rw [hzero] at hpos
      rw [hone] at hnot
      omega
    rcases hcases with h0 | h1
    · rw [Int32.toInt_neg, h0] at hgt
      cases hgt
    · rw [Int32.toInt_neg, h1] at hgt
      cases hgt

/-- An action on processes, which is allowed for the processes that are in the table. -/
lemma keeps_process {α : Type} {tst : State → Bool}
    {x : Handler α} (hlive : ∀ log, live (e :: log) = live log)
    (he : ∀ m, Inv cfg m → tst m = true → e.Mediated cfg (live m.events)) (hx : Keeps (Inv cfg) x) :
    Keeps (Inv cfg) (do let m ← get; checkArgs (tst m) msg err; perform e; x) := by
  refine get_bind fun m hm => ?_
  rcases htst : tst m with _ | _
  · exact keeps_checkArgs (fun h => absurd h false_ne_true) m hm
  · have hm' : Inv cfg { m with events := e :: m.events } :=
      ⟨⟨he m hm htst, hm.mediates⟩, fun pid hpid => (hlive _).symm ▸ hm.procs pid hpid,
        fun pid hpid => hm.live_gt pid (hlive _ ▸ hpid)⟩
    exact hx _ hm'

/-- Sending a signal. -/
lemma keeps_kill {sig : Int32} : Keeps (Inv cfg) (kill sys pid sig) :=
  keeps_process (fun _ => rfl) (fun _ hm h => killReaches hm h) (.pure _)

/-- Asking for the status. -/
lemma keeps_pollStatus : Keeps (Inv cfg) (pollStatus sys pid) := by
  refine keeps_process (fun _ => rfl) (fun m hm h => hm.procs pid (of_decide_eq_true h)) ?_
  refine keeps_checkErrno fun _ => bind (when ?_) fun _ => .pure _
  -- a process that is reported as terminated leaves the table
  intro m hm
  refine ⟨⟨trivial, hm.mediates⟩, fun p hp => ?_, fun p hp => hm.live_gt p hp.1⟩
  obtain ⟨hne, hmem⟩ := Finset.mem_erase.mp hp
  exact ⟨hm.procs p hmem, hne⟩

/-! ### Runs -/

/-- **The handler of a request keeps the invariant.** -/
lemma handle_keeps {r : Request} (h0 : ∀ path ∈ r.paths, 0 ∉ path) :
    Keeps (Inv cfg) (handle cfg sys r) := by
  cases r with
  | openFile path flags perms => exact keeps_openFile (h0 path (by simp [Request.paths]))
  | stat path =>
    exact keeps_statWith (h0 path (by simp [Request.paths])) (fun _ _ => rfl) fun _ _ => .intro
  | lstat path =>
    exact keeps_statWith (h0 path (by simp [Request.paths])) (fun _ _ => rfl) fun _ _ => .intro
  | readDir path omitSpecial => exact keeps_readDir (h0 path (by simp [Request.paths]))
  | readLink path => exact keeps_readLink (h0 path (by simp [Request.paths]))
  | rename oldPath newPath =>
    exact keeps_rename (h0 oldPath (by simp [Request.paths])) (h0 newPath (by simp [Request.paths]))
  | removeFile path => exact keeps_removeFile (h0 path (by simp [Request.paths]))
  | removeDirectory path => exact keeps_removeDirectory (h0 path (by simp [Request.paths]))
  | monitoredSpawn path appName argv envp =>
    exact keeps_monitoredSpawn (h0 path (by simp [Request.paths]))
  | monitoredUserSpawn path appName argv envp userName =>
    exact keeps_monitoredUserSpawn (h0 path (by simp [Request.paths]))
  | userSpawn path argv envp userName workingDir =>
    exact keeps_userSpawn (h0 path (by simp [Request.paths]))
  | kill pid sig => exact keeps_kill
  | pollStatus pid => exact keeps_pollStatus
  | done => exact fun m hm => hm.congr rfl rfl
  | unknown cmd => exact fun m hm => hm.congr rfl rfl

/-- The invariant holds after every run. -/
lemma inv_runBody (hm : Inv cfg m) {rs : List (Request × System)}
    (h0 : ∀ r ∈ rs, ∀ path ∈ r.1.paths, 0 ∉ path) : Inv cfg (runBody cfg m rs).1 := by
  induction rs generalizing m with
  | nil => exact hm
  | cons r rs ih =>
    rw [runBody]
    split_ifs with hdone
    · exact hm
    · exact ih (handle_keeps (h0 r (by simp)) m hm) fun r hr => h0 r (by simp [hr])

/-- The only privilege is to read the files below `/a`. -/
def sampleConfig : Config where
  priv := {
    openRead := (PathPatterns.empty.addPattern [47, 97, 47, 42, 42]).getD .empty
    openWrite := .empty, openAppend := .empty, readDir := ⟨∅, []⟩, readLink := .empty
    renameFrom := .empty, renameTo := .empty, removeFile := .empty, removeDir := ⟨∅, []⟩
    stat := .empty, monitoredExec := ∅, userExec := ∅, monitoredExecCheckArgs := ∅
    userExecCheckArgs := ∅, monitoredUserExecCheckArgs := ∅, monitoredUserExec := ∅ }
  base := ⟨fun _ => none, fun _ => none⟩
  maxPathLength := 4096
  maxArgLength := 4096

/-- A system on which all calls succeed. -/
def sampleSystem : System where
  descriptor := 5
  result := 0
  errno := 0
  errnoText msg _ := msg
  statbuf := []
  directory := some []
  link := .ok []
  ok := true
  security _ := .ok .secureFile
  securityIn _ _ := .ok .secureFile
  dup := 6
  spawn := .ok ⟨7, 8, 9, 1000, by decide⟩
  killed := 0
  wpid := 1000
  status := 0
  terminated := true

end OpenWbem.Monitor
