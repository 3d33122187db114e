import OpenWbem.Base.Keyed
import OpenWbem.Monitor.PathPatterns

/-!
# Privileges to execute

The classes `EnvironmentVariablePatterns`, `ExecPatterns` and `MonitoredUserExecPatterns`. An entry
of the configuration lends a privilege to execute the files that a pattern names, with an
environment that its own patterns admit, to an identity.

The entries of an identity are folded into one set of path patterns and one set of environment
patterns. A new entry adds to the first and replaces the second, so that its environment patterns
hold for the executables of the entries before it as well.

## Main definitions

* `EnvironmentVariablePatterns`, `ExecPatterns`, `MonitoredUserExecPatterns` — the classes.
* `Lent`, `UserLent` — an entry lends its own privilege.

## Main results

* `execPatterns_match_iff` — every entry lends its own privilege, and nothing else, iff
  entries of one identity have environment patterns that admit the same.
-/

namespace OpenWbem.Monitor

open List

/-! ### Environments -/

/-- A pattern of paths, as the parser hands it over. -/
abbrev PathPattern := { s : ByteStr // IsPattern s }

/-- A path matches a single pattern. -/
def PathPattern.admits (p : PathPattern) (path : ByteStr) : Bool :=
  match PathPatterns.empty.addPattern p.1 with
  | some P => P.matchPath path
  | none => false

/-- `EnvironmentVariablePatterns::Pattern` -/
inductive EnvPattern where
  | path (pattern : PathPattern)
  | literal (pattern : ByteStr)
  | anything

/-- `EnvironmentVariablePatterns`: the patterns of each variable. -/
abbrev EnvironmentVariablePatterns := AList fun _ : ByteStr => List EnvPattern

/-- `EnvironmentVariablePatterns::addPattern` -/
def EnvironmentVariablePatterns.addPattern (m : EnvironmentVariablePatterns) (name : ByteStr)
    (pattern : EnvPattern) : EnvironmentVariablePatterns :=
  m.insert name ((m.lookup name).getD [] ++ [pattern])

/-- A value matches a pattern of its variable. -/
def EnvPattern.admits : EnvPattern → ByteStr → Bool
  | path pattern, val => pattern.admits val
  | literal pattern, val => val = pattern
  | anything, _ => true

/-- `parseVarAndVal` -/
def parseVarAndVal (varAndVal : ByteStr) : Option (ByteStr × ByteStr) := cutAt 61 varAndVal

/-- The variables that are always allowed: those of the secure minimal environment, and those of the
environment of the monitor itself. -/
structure BaseEnvironment where
  secureMinimal : ByteStr → Option ByteStr
  current : ByteStr → Option ByteStr

namespace EnvironmentVariablePatterns

/-- `EnvironmentVariablePatterns::matchPatterns` -/
def matchPatterns (m : EnvironmentVariablePatterns) (var val : ByteStr) : Bool :=
  match m.lookup var with
  | none => false
  | some patterns => patterns.any fun p => p.admits val

/-- `EnvironmentVariablePatterns::match` -/
def matchEnv (base : BaseEnvironment) (m : EnvironmentVariablePatterns)
    (env : List ByteStr) : Bool :=
  env.all fun varAndVal =>
    match parseVarAndVal varAndVal with
    | none => false
    | some (var, val) =>
      m.matchPatterns var val || base.secureMinimal var = some val || base.current var = some val

end EnvironmentVariablePatterns

/-! ### The classes -/

/-- `ExecPatterns::Pattern` -/
structure ExecPattern where
  pathPatterns : PathPatterns
  environmentVariablePatterns : EnvironmentVariablePatterns

/-- What `operator[]` of the map makes. -/
def ExecPattern.empty : ExecPattern := ⟨.empty, ∅⟩

/-- `ExecPatterns` -/
abbrev ExecPatterns := AList fun _ : ByteStr => ExecPattern

/-- The identity that stands for every identity. -/
def anyone : ByteStr := [42]

namespace ExecPatterns

/-- `ExecPatterns::addPattern`; there is no result if an assertion fails. -/
def addPattern (m : ExecPatterns) (execPathPattern : ByteStr)
    (environmentVariablePatterns : EnvironmentVariablePatterns) (ident : ByteStr) :
    Option ExecPatterns :=
  (((m.lookup ident).getD .empty).pathPatterns.addPattern execPathPattern).map fun pathPatterns =>
    m.insert ident ⟨pathPatterns, environmentVariablePatterns⟩

/-- The patterns of a key of the map match. -/
def matchKey (base : BaseEnvironment) (m : ExecPatterns) (execPath : ByteStr)
    (envVars : List ByteStr) (key : ByteStr) : Bool :=
  match m.lookup key with
  | none => false
  | some p => p.pathPatterns.matchPath execPath &&
    p.environmentVariablePatterns.matchEnv base envVars

/-- `ExecPatterns::match` -/
def matchExec (base : BaseEnvironment) (m : ExecPatterns) (execPath : ByteStr)
    (envVars : List ByteStr) (ident : ByteStr) : Bool :=
  m.matchKey base execPath envVars ident || m.matchKey base execPath envVars anyone

end ExecPatterns

/-- `MonitoredUserExecPatterns` -/
abbrev MonitoredUserExecPatterns := AList fun _ : ByteStr => ExecPatterns

namespace MonitoredUserExecPatterns

/-- `MonitoredUserExecPatterns::addPattern` -/
def addPattern (m : MonitoredUserExecPatterns) (execPathPattern : ByteStr)
    (envVarPatterns : EnvironmentVariablePatterns) (ident userName : ByteStr) :
    Option MonitoredUserExecPatterns :=
  (((m.lookup userName).getD ∅).addPattern execPathPattern envVarPatterns ident).map
    fun p => m.insert userName p

/-- The patterns of a key of the map match. -/
def matchKey (base : BaseEnvironment) (m : MonitoredUserExecPatterns) (execPath : ByteStr)
    (envVars : List ByteStr) (ident key : ByteStr) : Bool :=
  match m.lookup key with
  | none => false
  | some p => p.matchExec base execPath envVars ident

/-- `MonitoredUserExecPatterns::match` -/
def matchExec (base : BaseEnvironment) (m : MonitoredUserExecPatterns) (execPath : ByteStr)
    (envVars : List ByteStr) (ident userName : ByteStr) : Bool :=
  m.matchKey base execPath envVars ident userName || m.matchKey base execPath envVars ident anyone

end MonitoredUserExecPatterns

/-! ### Entries -/

/-- An entry of the configuration. -/
structure ExecEntry where
  execPath : PathPattern
  envVars : EnvironmentVariablePatterns
  ident : ByteStr

/-- An entry of the configuration for a user. -/
structure UserExecEntry extends ExecEntry where
  userName : ByteStr

/-- A sequence of calls of `ExecPatterns::addPattern`. -/
def addExecEntries (es : List ExecEntry) : Option ExecPatterns :=
  es.foldlM (fun m e => m.addPattern e.execPath.1 e.envVars e.ident) ∅

/-- A sequence of calls of `MonitoredUserExecPatterns::addPattern`. -/
def addUserExecEntries (es : List UserExecEntry) : Option MonitoredUserExecPatterns :=
  es.foldlM (fun m e => m.addPattern e.execPath.1 e.envVars e.ident e.userName) ∅

section Statement

variable (base : BaseEnvironment)

/-- A single entry lends its own privilege. -/
def Lent (es : List ExecEntry) (execPath : ByteStr) (envVars : List ByteStr)
    (ident : ByteStr) : Prop :=
  ∃ e ∈ es, (e.ident = ident ∨ e.ident = anyone) ∧ e.execPath.admits execPath ∧
    e.envVars.matchEnv base envVars

/-- A single entry for a user lends its own privilege. -/
def UserLent (es : List UserExecEntry) (execPath : ByteStr) (envVars : List ByteStr)
    (ident userName : ByteStr) : Prop :=
  ∃ e ∈ es, (e.userName = userName ∨ e.userName = anyone) ∧ (e.ident = ident ∨ e.ident = anyone) ∧
    e.execPath.admits execPath ∧ e.envVars.matchEnv base envVars

/-- Two entries do not disturb each other: if the first one can lend something at all, their
environment patterns admit the same environments. -/
def Harmless (e e' : ExecEntry) : Prop :=
  (∃ path, e.execPath.admits path) → ∀ env, e.envVars.matchEnv base env =
    e'.envVars.matchEnv base env

end Statement

/-! ### Path patterns -/

/-- Adding a pattern admits the paths of that pattern as well. -/
lemma PathPattern.addPattern_spec (p : PathPattern) (P : PathPatterns) :
    ∃ P', P.addPattern p.1 = some P' ∧
      ∀ path, P'.matchPath path ↔ P.matchPath path ∨ p.admits path := by
  obtain ⟨toks, hs, habs, hform⟩ := p.2
  obtain ⟨P', hP', hholds⟩ := Monitor.addPattern_spec hs habs hform P
  obtain ⟨P1, hP1, hholds1⟩ := Monitor.addPattern_spec hs habs hform .empty
  refine ⟨P', hP', fun path => ?_⟩
  have hadmits : p.admits path = P1.matchPath path := by rw [PathPattern.admits, hP1]
  rw [hadmits, matchPath_iff, matchPath_iff, matchPath_iff, hholds, hholds1]
  simp only [not_holds_empty, false_or]
  exact and_or_left

/-- No patterns, no paths. -/
lemma not_matchPath_empty (path : ByteStr) : ¬ PathPatterns.empty.matchPath path := by
  rw [matchPath_iff]
  exact fun h => not_holds_empty h.2

/-! ### The state of an identity -/

/-- What an entry does to the state of its identity. -/
def addEntry (s : ExecPattern) (e : ExecEntry) : Option ExecPattern :=
  (s.pathPatterns.addPattern e.execPath.1).map fun pathPatterns => ⟨pathPatterns, e.envVars⟩

/-- An entry can be added. -/
lemma exists_addEntry (s : ExecPattern) (e : ExecEntry) : ∃ s', addEntry s e = some s' := by
  obtain ⟨P', hP', -⟩ := e.execPath.addPattern_spec s.pathPatterns
  exact ⟨⟨P', e.envVars⟩, by rw [addEntry, hP']; rfl⟩

variable {es : List ExecEntry}

/-- **The entries of an identity are folded:** their paths are all admitted, with the environment of
the last one. -/
lemma foldlM_addEntry {s s' : ExecPattern} (h : es.foldlM addEntry s = some s') :
    (∀ path, s'.pathPatterns.matchPath path ↔
      s.pathPatterns.matchPath path ∨ ∃ e ∈ es, e.execPath.admits path) ∧
      ∀ e, es.getLast? = some e → s'.environmentVariablePatterns = e.envVars := by
  induction es generalizing s with
  | nil =>
    cases h
    simp
  | cons e es ih =>
    rw [foldlM_cons] at h
    obtain ⟨s1, hs1, h⟩ := Option.bind_eq_some_iff.mp h
    obtain ⟨P', hP', hmatch⟩ := e.execPath.addPattern_spec s.pathPatterns
    rw [addEntry, hP'] at hs1
    cases hs1
    obtain ⟨hpaths, henv⟩ := ih h
    refine ⟨fun path => ?_, fun e' he' => ?_⟩
    · rw [hpaths, hmatch, or_assoc]
      simp
    · cases es with
      | nil =>
        cases h
        obtain rfl : e = e' := by simpa using he'
        rfl
      | cons e2 es => exact henv e' (by simpa using he')

/-- The code as a fold by key. -/
lemma addExecEntries_eq (es : List ExecEntry) :
    addExecEntries es = es.foldlM (Keyed.step ExecEntry.ident addEntry .empty) ∅ := by
  have hstep :
      (fun (m : ExecPatterns) (e : ExecEntry) => m.addPattern e.execPath.1 e.envVars e.ident) =
      Keyed.step ExecEntry.ident addEntry .empty := by
    funext m e
    simp only [Keyed.step, addEntry, Option.map_map]
    rfl
  rw [addExecEntries, hstep]

/-- All entries can be added. -/
lemma exists_addExecEntries (es : List ExecEntry) : ∃ m, addExecEntries es = some m := by
  rw [addExecEntries_eq]
  refine Keyed.exists_foldlM fun m e _ => ?_
  obtain ⟨s', hs'⟩ := exists_addEntry ((m.lookup e.ident).getD .empty) e
  exact ⟨_, by rw [Keyed.step, hs']; rfl⟩

section Law

variable {base : BaseEnvironment} {path : ByteStr} {env : List ByteStr}

variable {m : ExecPatterns}

/-- What is matched for a key: a path of any of its entries, with the environment of the last
one. -/
lemma matchKey_iff (h : addExecEntries es = some m) (key : ByteStr) :
    m.matchKey base path env key ↔ (∃ e ∈ es, e.ident = key ∧ e.execPath.admits path) ∧
      ∃ e, (es.filter fun e => e.ident = key).getLast? = some e ∧ e.envVars.matchEnv base env := by
  rw [addExecEntries_eq] at h
  have hresult := Keyed.lookup_foldlM h key
  rw [ExecPatterns.matchKey]
  rcases hl : m.lookup key with _ | s <;> rw [hl] at hresult
  · have hnil : es.filter (fun e => e.ident = key) = [] := hresult
    simp [hnil]
  · obtain ⟨hne, hfold⟩ := hresult
    obtain ⟨hpaths, henv⟩ := foldlM_addEntry hfold
    obtain ⟨e, he⟩ := Option.isSome_iff_exists.mp (getLast?_isSome.mpr hne)
    have hempty : PathPatterns.matchPath ExecPattern.empty.pathPatterns path = false := by
      rw [← Bool.not_eq_true]
      exact not_matchPath_empty path
    simp only [Bool.and_eq_true, hpaths, henv e he, he, Option.some.injEq, exists_eq_left', hempty,
      Bool.false_eq_true, false_or, mem_filter, decide_eq_true_eq, and_assoc]

/-- Entries that do not disturb each other lend their own privileges for a key. -/
lemma matchKey_iff_of_harmless (h : addExecEntries es = some m)
    (hes : ∀ e ∈ es, ∀ e' ∈ es, e.ident = e'.ident → Harmless base e e') (key : ByteStr) :
    m.matchKey base path env key ↔
      ∃ e ∈ es, e.ident = key ∧ e.execPath.admits path ∧ e.envVars.matchEnv base env := by
  rw [matchKey_iff h]
  constructor
  · rintro ⟨⟨e, he, hk, hpath⟩, l, hl, henv⟩
    obtain ⟨hmem, hlk⟩ := mem_filter.mp (mem_of_getLast? hl)
    have hlk : l.ident = key := by simpa using hlk
    exact ⟨e, he, hk, hpath, (hes e he l hmem (hk.trans hlk.symm) ⟨path, hpath⟩ env) ▸ henv⟩
  · rintro ⟨e, he, hk, hpath, henv⟩
    have hne : es.filter (fun e => e.ident = key) ≠ [] :=
      ne_nil_of_mem (mem_filter.mpr ⟨he, by simpa using hk⟩)
    obtain ⟨l, hl⟩ := Option.isSome_iff_exists.mp (getLast?_isSome.mpr hne)
    obtain ⟨hmem, hlk⟩ := mem_filter.mp (mem_of_getLast? hl)
    have hlk : l.ident = key := by simpa using hlk
    exact ⟨⟨e, he, hk, hpath⟩, l, hl,
      (hes e he l hmem (hk.trans hlk.symm) ⟨path, hpath⟩ env) ▸ henv⟩

/-- The law for a sequence of entries. -/
def ExecLaw (base : BaseEnvironment) (es : List ExecEntry) : Prop :=
  ∃ m, addExecEntries es = some m ∧
    ∀ path env ident, m.matchExec base path env ident ↔ Lent base es path env ident

/-- The law for a sequence of entries for users. -/
def UserExecLaw (base : BaseEnvironment) (es : List UserExecEntry) : Prop :=
  ∃ m, addUserExecEntries es = some m ∧ ∀ path env ident userName,
    m.matchExec base path env ident userName ↔ UserLent base es path env ident userName

/-- Entries that do not disturb each other lend their own privileges. -/
lemma execLaw_of_harmless
    (hes : ∀ e ∈ es, ∀ e' ∈ es, e.ident = e'.ident → Harmless base e e') : ExecLaw base es := by
  obtain ⟨m, hm⟩ := exists_addExecEntries es
  refine ⟨m, hm, fun path env ident => ?_⟩
  rw [ExecPatterns.matchExec, Bool.or_eq_true, matchKey_iff_of_harmless hm hes,
    matchKey_iff_of_harmless hm hes, ← exists_or]
  refine exists_congr fun e => ?_
  tauto

/-- Two entries of one identity that lend their own privileges, in both orders, do not disturb each
other.

**Proof sketch.** For a path of the first entry, the answer for both is that of the environment
patterns that were added last. -/
lemma harmless_of_execLaw {e e' : ExecEntry} (hident : e.ident = e'.ident)
    (h : ExecLaw base [e, e']) (h' : ExecLaw base [e', e]) : Harmless base e e' := by
  rintro ⟨path, hpath⟩ env
  have hkey : ∀ {a b : ExecEntry} {m : ExecPatterns}, addExecEntries [a, b] = some m →
      a.ident = b.ident → (a.execPath.admits path ∨ b.execPath.admits path) →
      (m.matchExec base path env a.ident ↔ b.envVars.matchEnv base env) := by
    intro a b m hm hab hadmits
    have hone : m.matchKey base path env a.ident ↔ b.envVars.matchEnv base env := by
      rw [matchKey_iff hm]
      have hlast : ([a, b].filter fun e => e.ident = a.ident).getLast? = some b := by simp [hab]
      rw [hlast]
      simp [hab, hadmits]
    rw [ExecPatterns.matchExec, Bool.or_eq_true, hone]
    refine or_iff_left_of_imp fun hany => ?_
    obtain ⟨⟨c, hc, hcident, -⟩, -⟩ := (matchKey_iff hm anyone).mp hany
    have hc' : c.ident = a.ident := by
      rcases mem_cons.mp hc with rfl | hc
      · rfl
      · rw [mem_singleton.mp hc, hab]
    rw [← hcident, hc'] at hany
    exact hone.mp hany
  obtain ⟨m, hm, hlaw⟩ := h
  obtain ⟨m', hm', hlaw'⟩ := h'
  have hboth := (hkey hm hident (.inl hpath)).symm.trans (hlaw path env e.ident)
  have hboth' := (hkey hm' hident.symm (.inr hpath)).symm.trans (hlaw' path env e'.ident)
  simp only [Lent, mem_cons, not_mem_nil, or_false, exists_eq_or_imp, exists_eq_left, hident,
    true_or, true_and, hpath] at hboth hboth'
  rw [Bool.eq_iff_iff]
  exact ⟨fun h => hboth.mpr (.inl h), fun h => hboth'.mpr ((hboth.mp h).symm)⟩

/-! ### Users -/

/-- The code as a fold by user. -/
lemma addUserExecEntries_eq (es : List UserExecEntry) :
    addUserExecEntries es = es.foldlM (Keyed.step UserExecEntry.userName
      (fun m e => m.addPattern e.execPath.1 e.envVars e.ident) ∅) ∅ := rfl

/-- All entries can be added. -/
lemma exists_addUserExecEntries (es : List UserExecEntry) :
    ∃ m, addUserExecEntries es = some m := by
  rw [addUserExecEntries_eq]
  refine Keyed.exists_foldlM fun m e _ => ?_
  obtain ⟨P', hP', -⟩ := e.execPath.addPattern_spec
    ((((m.lookup e.userName).getD ∅).lookup e.ident).getD .empty).pathPatterns
  exact ⟨_, by rw [Keyed.step, ExecPatterns.addPattern, hP']; rfl⟩

/-- The patterns of a user are those of the entries for that user. -/
lemma userMatchKey_iff (base : BaseEnvironment) (path : ByteStr) (env : List ByteStr)
    {es : List UserExecEntry} {m : MonitoredUserExecPatterns}
    (h : addUserExecEntries es = some m) (ident key : ByteStr) :
    ∃ m', addExecEntries ((es.filter fun e => e.userName = key).map UserExecEntry.toExecEntry) =
      some m' ∧
      (m.matchKey base path env ident key ↔ m'.matchExec base path env ident) := by
  rw [addUserExecEntries_eq] at h
  have hresult := Keyed.lookup_foldlM h key
  rw [MonitoredUserExecPatterns.matchKey]
  rcases hl : m.lookup key with _ | s <;> rw [hl] at hresult
  · have hnil : es.filter (fun e => e.userName = key) = [] := hresult
    exact ⟨∅, by rw [hnil]; rfl, by simp [ExecPatterns.matchExec, ExecPatterns.matchKey]⟩
  · refine ⟨s, ?_, Iff.rfl⟩
    rw [addExecEntries, foldlM_map]
    exact hresult.2

/-- Harmless entries follow the law. -/
lemma userExecLaw_of_harmless {es : List UserExecEntry}
    (hes : ∀ e ∈ es, ∀ e' ∈ es, e.userName = e'.userName → e.ident = e'.ident →
      Harmless base e.toExecEntry e'.toExecEntry) : UserExecLaw base es := by
  obtain ⟨m, hm⟩ := exists_addUserExecEntries es
  refine ⟨m, hm, fun path env ident userName => ?_⟩
  have hkey : ∀ key, m.matchKey base path env ident key ↔
      ∃ e ∈ es, e.userName = key ∧ (e.ident = ident ∨ e.ident = anyone) ∧ e.execPath.admits path ∧
        e.envVars.matchEnv base env := by
    intro key
    obtain ⟨m', hm', hiff⟩ := userMatchKey_iff base path env hm ident key
    have hharmless : ∀ e ∈ (es.filter fun e => e.userName = key).map UserExecEntry.toExecEntry,
        ∀ e' ∈ (es.filter fun e => e.userName = key).map UserExecEntry.toExecEntry,
          e.ident = e'.ident → Harmless base e e' := by
      intro e he e' he'
      obtain ⟨u, hu, rfl⟩ := mem_map.mp he
      obtain ⟨u', hu', rfl⟩ := mem_map.mp he'
      simp only [mem_filter, decide_eq_true_eq] at hu hu'
      exact hes u hu.1 u' hu'.1 (hu.2.trans hu'.2.symm)
    obtain ⟨m'', hm'', hlaw⟩ := execLaw_of_harmless hharmless
    obtain rfl : m' = m'' := Option.some.inj (hm'.symm.trans hm'')
    rw [hiff, hlaw, Lent]
    simp only [mem_map, mem_filter, decide_eq_true_eq]
    constructor
    · rintro ⟨-, ⟨u, ⟨hu, hk⟩, rfl⟩, h⟩
      exact ⟨u, hu, hk, h⟩
    · rintro ⟨u, hu, hk, h⟩
      exact ⟨u.toExecEntry, ⟨u, ⟨hu, hk⟩, rfl⟩, h⟩
  rw [MonitoredUserExecPatterns.matchExec, Bool.or_eq_true, hkey, hkey, ← exists_or]
  refine exists_congr fun e => ?_
  tauto

/-- The law for two entries of one user is the law for the two entries. -/
lemma execLaw_of_userExecLaw {e e' : UserExecEntry} (huser : e.userName = e'.userName)
    (h : UserExecLaw base [e, e']) : ExecLaw base [e.toExecEntry, e'.toExecEntry] := by
  obtain ⟨m, hm, hlaw⟩ := h
  have hfilter : ∀ key, e.userName = key → [e, e'].filter (fun e => e.userName = key) =
      [e, e'] := by
    simp [huser]
  obtain ⟨m', hm'⟩ := exists_addExecEntries [e.toExecEntry, e'.toExecEntry]
  refine ⟨m', hm', fun path env ident => ?_⟩
  have hkey : ∀ key, e.userName = key →
      (m.matchKey base path env ident key ↔ m'.matchExec base path env ident) := by
    intro key hk
    obtain ⟨m'', hm'', hiff⟩ := userMatchKey_iff base path env hm ident key
    rw [hfilter key hk] at hm''
    obtain rfl : m' = m'' := Option.some.inj (hm'.symm.trans hm'')
    exact hiff
  have hmatch : m.matchExec base path env ident e.userName ↔ m'.matchExec base path env ident := by
    rw [MonitoredUserExecPatterns.matchExec, Bool.or_eq_true, hkey _ rfl]
    refine or_iff_left_of_imp fun hany => ?_
    by_cases hk : e.userName = anyone
    · exact (hkey _ hk).mp hany
    · obtain ⟨m'', hm'', hiff⟩ := userMatchKey_iff base path env hm ident anyone
      have hnil : [e, e'].filter (fun e => e.userName = anyone) = [] := by simp [hk, huser ▸ hk]
      rw [hnil] at hm''
      cases hm''
      simp at hiff
      rw [hany] at hiff
      cases hiff
  rw [← hmatch, hlaw]
  simp only [UserLent, Lent, mem_cons, not_mem_nil, or_false, exists_eq_or_imp,
    exists_eq_left, huser, true_or, true_and]

end Law

/-- **Every entry lends its own privilege, and nothing else, iff entries of one identity (and
user) do not disturb each other.** Both sides are about every sequence of entries of a set, every
executable, environment, identity and user. -/
theorem execPatterns_match_iff (base : BaseEnvironment) (S : Set ExecEntry)
    (U : Set UserExecEntry) :
    ((∀ es : List ExecEntry, (∀ e ∈ es, e ∈ S) → ExecLaw base es) ↔
      ∀ e ∈ S, ∀ e' ∈ S, e.ident = e'.ident → Harmless base e e') ∧
    ((∀ es : List UserExecEntry, (∀ e ∈ es, e ∈ U) → UserExecLaw base es) ↔
      ∀ e ∈ U, ∀ e' ∈ U, e.userName = e'.userName → e.ident = e'.ident →
        Harmless base e.toExecEntry e'.toExecEntry) := by
  refine ⟨⟨fun h e he e' he' hident => ?_, fun h es hes => ?_⟩,
    ⟨fun h e he e' he' huser hident => ?_, fun h es hes => ?_⟩⟩
  · exact harmless_of_execLaw hident (h [e, e'] (by simp [he, he'])) (h [e', e] (by simp [he, he']))
  · exact execLaw_of_harmless fun e he e' he' => h e (hes e he) e' (hes e' he')
  · exact harmless_of_execLaw hident (execLaw_of_userExecLaw huser (h [e, e'] (by simp [he, he'])))
      (execLaw_of_userExecLaw huser.symm (h [e', e] (by simp [he, he'])))
  · exact userExecLaw_of_harmless fun e he e' he' => h e (hes e he) e' (hes e' he')

/-- A file `/n` as a pattern. -/
def filePattern (n : UInt8) (h : n ≠ 92 ∧ n ≠ 42) : PathPattern :=
  ⟨[47, n], [(47, false), (n, false)], by simp [scanEscapes, h.1], rfl, by simp [ruleOf, star, h.2]⟩

/-- `/a`, with any value of `X`, for the identity `i`. -/
def entryWithEnv : ExecEntry :=
  ⟨filePattern 97 (by decide), EnvironmentVariablePatterns.addPattern ∅ [88] .anything, [105]⟩

/-- `/b`, in the minimal environment, for the identity `i`. -/
def entryWithoutEnv : ExecEntry := ⟨filePattern 98 (by decide), ∅, [105]⟩

/-- The second entry takes the environment of the first one away, and in the other order it lends
its own to the first one: `/a` is refused with `X=1` in the one case, and `/b` admitted in the
other. -/
theorem matchExec_environmentReplaced :
    (Lent ⟨fun _ => none, fun _ => none⟩ [entryWithEnv, entryWithoutEnv] [47,
      97] [[88, 61, 49]] [105] ∧
      (addExecEntries [entryWithEnv, entryWithoutEnv]).map
        (·.matchExec ⟨fun _ => none, fun _ => none⟩ [47, 97] [[88, 61, 49]] [105]) = some false) ∧
    (¬ Lent ⟨fun _ => none, fun _ => none⟩ [entryWithoutEnv, entryWithEnv] [47,
      98] [[88, 61, 49]] [105] ∧
      (addExecEntries [entryWithoutEnv, entryWithEnv]).map
        (·.matchExec ⟨fun _ => none, fun _ => none⟩ [47, 98] [[88, 61, 49]] [105]) =
          some true) := by
  refine ⟨⟨⟨entryWithEnv, by simp, .inl rfl, by decide +kernel, by decide +kernel⟩, by
    decide +kernel⟩,
    ?_, by decide +kernel⟩
  rintro ⟨e, he, -, hpath, henv⟩
  rcases mem_pair.mp he with rfl | rfl
  · exact absurd henv (by decide +kernel)
  · exact absurd hpath (by decide +kernel)

end OpenWbem.Monitor
