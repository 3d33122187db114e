import Mathlib.Data.Finset.Insert
import OpenWbem.Monitor.ExecPatterns

/-!
# Privileges

The remaining classes of patterns, `DirPatterns`, `ExecArgsPatterns` and
`MonitoredUserExecArgsPatterns`, and the record of all privileges that a configuration grants.

## Main definitions

* `DirPatterns` — directories and subtrees.
* `ExecArgsPatterns`, `MonitoredUserExecArgsPatterns` — executables with patterns for arguments.
* `Privileges` — the privileges of a process.

## Main results

* `normalizePath_preserves` — a path and its cleaned form have the same meaning.
* `matchDir_addArgs_iff` — which directories may be read or removed.
-/

namespace OpenWbem.Monitor

/-! ### Directories -/

/-- `DirPatterns` -/
structure DirPatterns where
  dirs : Finset ByteStr
  subtrees : List ByteStr

namespace DirPatterns

/-- `DirPatterns::addDir` -/
def addDir (p : DirPatterns) (dirpath : ByteStr) : DirPatterns :=
  { p with dirs := insert (normalizePath dirpath) p.dirs }

/-- `DirPatterns::addSubtree` -/
def addSubtree (p : DirPatterns) (dirpath : ByteStr) : DirPatterns :=
  { p with subtrees := p.subtrees ++ [normalizePath dirpath] }

/-- `DirPatterns::match` -/
def matchDir (p : DirPatterns) (dirpath : ByteStr) : Bool :=
  let dirp := normalizePath (dirpath ++ [47])
  if containsDoubleDots dirp then false
  else decide (dirp ∈ p.dirs) || p.subtrees.any fun s => s.isPrefixOf dirp

end DirPatterns

/-! ### Cleaned paths -/

section Cleaned

open List

variable {s : ByteStr}

/-- Directories stay directories. -/
lemma isDirText_normalizePath (hs : s.head? = some 47) :
    isDirText (normalizePath s) ↔ isDirText s ∨ components s = [] := by
  rw [normalizePath_eq hs, pathText]
  split_ifs with hcs hdir
  · simp [hcs, isDirText]
  · exact iff_of_true ((isDirText_iff not_mem_nil).mpr rfl) (.inl hdir)
  · obtain ⟨cs, c, heq⟩ := (eq_nil_or_concat (components s)).resolve_left hcs
    obtain ⟨h47, hne, hdot⟩ := of_mem_components (s := s) (c := c) (by simp [heq])
    rw [heq, concat_eq_append, compsText_concat, append_nil, isDirText_iff h47]
    simp [isUselessPathToken, hne, hdot, hdir]

/-- **Cleaning a path preserves its meaning.** The components stay, without the useless ones; there
is a slash at the end if the text says that the path is a directory, or if nothing remains; cleaning
again changes nothing; and the patterns for paths and for directories match in the same way.

**Proof sketch.** A cleaned path is the text of its components, and what `match` does depends on the
components and on whether the path is that of a directory. -/
theorem normalizePath_preserves (hs : s.head? = some 47) :
    normalizePath s = pathText (components s) (isDirText s) ∧
    components (normalizePath s) = components s ∧
    ([47] <:+ normalizePath s ↔ isDirText s ∨ components s = []) ∧
    normalizePath (normalizePath s) = normalizePath s ∧
    (∀ P : PathPatterns, P.matchPath (normalizePath s) = P.matchPath s) ∧
    ∀ p : DirPatterns, p.matchDir (normalizePath s) = p.matchDir s := by
  have heq := normalizePath_eq hs
  have hcomp : components (normalizePath s) = components s := by
    rw [heq, components_pathText fun c => of_mem_components]
  have hdir := isDirText_normalizePath hs
  have hhead : (normalizePath s).head? = some 47 := by
    rw [heq, pathText]
    rcases components s with - | ⟨c, cs⟩
    · rfl
    · rw [if_neg (cons_ne_nil c cs), compsText_cons]
      rfl
  refine ⟨heq, hcomp, ?_, ?_, fun P => ?_, fun p => ?_⟩
  · refine ⟨fun h => hdir.mp (by simp [isDirText, isSuffixOf_iff_suffix.mpr h]), fun h => ?_⟩
    rw [heq, pathText]
    split_ifs with hcs htext
    · exact suffix_rfl
    · exact suffix_append _ _
    · exact (h.elim htext hcs).elim
  · rw [normalizePath_eq hhead, hcomp]
    by_cases hcs : components s = []
    · rw [heq, hcs]
      rfl
    · rw [Bool.eq_iff_iff.mpr (hdir.trans (or_iff_left hcs)), heq]
  · rw [Bool.eq_iff_iff, matchPath_iff, matchPath_iff, entryOf, entryOf, hcomp]
    refine and_congr_left' ⟨fun h => ⟨hs, hcomp ▸ h.noDots, fun htext => ?_⟩,
      fun h => ⟨hhead, hcomp ▸ h.noDots, fun htext => ?_⟩⟩
    · exact hcomp ▸ h.file (hdir.mpr (.inl htext))
    · exact hcomp ▸ (hdir.mp htext).elim h.file id
  · have hjoin {x : ByteStr} (hx : x.head? = some 47) :
        normalizePath (x ++ [47]) = dirText (components x) := by
      rw [normalizePath_eq (by rw [head?_append, hx]; rfl), components_append, components_nil,
        append_nil,
        (isDirText_iff not_mem_nil).mpr rfl, pathText_true]
    rw [DirPatterns.matchDir, DirPatterns.matchDir, hjoin hs, hjoin hhead, hcomp]

/-- **A dot in a path**: cleaning again changes nothing. -/
theorem normalizePath_sample : (text "/a/./b").head? = some 47 ∧
    normalizePath (normalizePath (text "/a/./b")) = normalizePath (text "/a/./b") :=
  ⟨rfl, (normalizePath_preserves rfl).2.2.2.1⟩

end Cleaned

/-! ### The privileges for directories -/

section Directories

open List

/-- The elements of a `DIRPATH`. -/
abbrev PathElms := {cs : List ByteStr // ∀ c ∈ cs, 47 ∉ c ∧ c ≠ [] ∧ c ≠ [46]}

/-- An argument of `read_dir` or `remove_dir`. -/
inductive DirArg where
  | dirPath (cs : PathElms)
  | subtree (cs : PathElms)

/-- The rules for `read_dir_args` and `remove_dir_args`. -/
def DirPatterns.addArg (p : DirPatterns) : DirArg → DirPatterns
  | .dirPath cs => p.addDir (dirText cs)
  -- the text up to its last slash, `s.substring(0, s.lastIndexOf('/'))`
  | .subtree cs => p.addSubtree (splitPath (dirText cs ++ text "**")).1.dropLast

/-- What an argument lets in. A directory need not be in the subtree: it is enough that the name at
its place begins with the name of the subtree. -/
def DirArg.Admits : DirArg → List ByteStr → Prop
  | .dirPath cs, ds => ds = cs
  | .subtree cs, ds => cs.1 = [] ∨ ∃ init c x rest, cs.1 = init ++ [c] ∧
    ds = init ++ (c ++ x) :: rest

/-- The patterns hold the directory with these components. -/
def DirPatterns.Holds (p : DirPatterns) (ds : List ByteStr) : Prop :=
  dirText ds ∈ p.dirs ∨ ∃ s ∈ p.subtrees, s <+: dirText ds

variable {ds cs : List ByteStr} {s c path : ByteStr}

/-- A slash at the end. -/
lemma normalizePath_slash (hs : (s ++ [47]).head? = some 47) :
    normalizePath (s ++ [47]) = dirText (components s) := by
  rw [normalizePath_eq hs, components_append, components_nil, append_nil,
    (isDirText_iff not_mem_nil).2 rfl,
    pathText_true]

/-- The text of a subtree ends in the middle of a name. -/
lemma compsText_prefix_iff (hcs : ∀ d ∈ cs, 47 ∉ d) (hc : 47 ∉ c) (hne : c ≠ [])
    (hds : ∀ d ∈ ds, 47 ∉ d) :
    compsText (cs ++ [c]) <+: dirText ds ↔ ∃ x rest, ds = cs ++ (c ++ x) :: rest := by
  have hcat (l : List ByteStr) : dirText (cs ++ l) = compsText cs ++ dirText l := by
    simp [dirText, compsText]
  rw [compsText_concat]
  constructor
  · intro h
    have hdir : dirText cs <+: dirText ds := (prefix_append _ c).trans (by simpa [dirText] using h)
    obtain ⟨l, rfl⟩ := (dirText_prefix_iff hcs hds).1 hdir
    rw [hcat, prefix_append_right_inj] at h
    cases l with
    | nil => simp [dirText, compsText, hne] at h
    | cons d l =>
      obtain ⟨-, h⟩ := cons_prefix_cons.1 (dirText_cons d l ▸ h)
      rcases prefix_or_prefix_of_prefix h (prefix_append d _) with ⟨x, rfl⟩ | ⟨x, rfl⟩
      · exact ⟨x, l, rfl⟩
      · -- what follows the name begins with a slash
        obtain ⟨w, hw⟩ := exists_dirText l
        rw [prefix_append_right_inj, hw, prefix_cons_iff] at h
        rcases h with rfl | ⟨t, rfl, -⟩
        · exact ⟨[], l, by simp⟩
        · simp at hc
  · rintro ⟨x, rest, rfl⟩
    rw [hcat, dirText_cons, prefix_append_right_inj, append_assoc]
    exact ⟨_, rfl⟩

/-- One argument adds what it lets in. -/
lemma DirPatterns.holds_addArg (p : DirPatterns) (a : DirArg) (hds : ∀ d ∈ ds, 47 ∉ d) :
    (p.addArg a).Holds ds ↔ p.Holds ds ∨ a.Admits ds := by
  rcases a with ⟨cs, hcs⟩ | ⟨cs, hcs⟩
  · obtain ⟨w, hw⟩ := exists_dirText cs
    have hclean : normalizePath (dirText cs) = dirText cs := by
      have hcomps := components_dirText hcs
      rw [dirText, components_append, components_nil, append_nil] at hcomps
      rw [dirText, normalizePath_slash (by rw [← dirText, hw]; rfl), hcomps, dirText]
    simp only [addArg, addDir, Holds, Finset.mem_insert, hclean, dirText_inj hds fun c hc =>
      (hcs c hc).1]
    rw [or_assoc, or_comm]
    rfl
  · simp only [addArg, addSubtree, Holds, mem_append, mem_singleton, or_and_right, exists_or,
      exists_eq_left,
      ← or_assoc]
    refine or_congr_right ?_
    rw [dirText, append_assoc, singleton_append, splitPath_append (by decide), dropLast_concat]
    rcases eq_nil_or_concat cs with rfl | ⟨cs, c, rfl⟩
    · simp [normalizePath, DirArg.Admits]
    · rw [concat_eq_append] at hcs
      obtain ⟨h47, hne, hdot⟩ := hcs c (by simp)
      have htext : compsText (cs ++ [c]) = pathText (cs ++ [c]) false := by simp [pathText]
      have hfile : isDirText (compsText (cs ++ [c])) = false := by
        rw [Bool.eq_false_iff, ne_eq, compsText_concat, isDirText_iff h47]
        simp [isUselessPathToken, hne, hdot]
      have hclean : normalizePath (compsText (cs ++ [c])) = compsText (cs ++ [c]) := by
        rw [normalizePath_eq (by cases cs <;> rfl), hfile, htext, components_pathText hcs]
      simp only [concat_eq_append, hclean, DirArg.Admits]
      rw [compsText_prefix_iff (fun d hd => (hcs d (by simp [hd])).1) h47 hne hds]
      simp

/-- **Which directories may be read or removed**, for every sequence of arguments: those that an
argument lets in, if there are no dots in the path. The privilege for a subtree thus extends to all
directories with a name that begins as that of the subtree.

**Proof sketch.** Induction on the arguments. The slash behind the name is cut off with the stars,
and not put back, so what is compared is the beginning of a name (`compsText_prefix_iff`). -/
theorem matchDir_addArgs_iff (args : List DirArg) (hpath : path.head? = some 47) :
    (args.foldl DirPatterns.addArg ⟨∅, []⟩).matchDir path ↔
      [46, 46] ∉ components path ∧ ∃ a ∈ args, a.Admits (components path) := by
  have hholds (args : List DirArg) : ∀ p : DirPatterns,
      (args.foldl DirPatterns.addArg p).Holds (components path) ↔
        p.Holds (components path) ∨ ∃ a ∈ args, a.Admits (components path) := by
    induction args with
    | nil => simp
    | cons a args ih =>
      intro p
      rw [foldl_cons, ih, DirPatterns.holds_addArg _ _ fun c hc => (of_mem_components hc).1]
      simp [or_assoc]
  have hempty : ¬ DirPatterns.Holds ⟨∅, []⟩ (components path) := by simp [DirPatterns.Holds]
  have hdots : containsDoubleDots (dirText (components path)) ↔ [46, 46] ∈ components path := by
    obtain ⟨w, hw⟩ := exists_dirText (components path)
    rw [containsDoubleDots_iff (by rw [hw]; rfl), components_dirText fun c => of_mem_components]
  rw [← (hholds args _).trans (or_iff_right hempty), ← hdots, DirPatterns.matchDir,
    normalizePath_slash (by rw [head?_append, hpath]; rfl)]
  simp [DirPatterns.Holds, isPrefixOf_iff_prefix]

/-- **A sibling of a subtree** is admitted. -/
theorem matchDir_sibling : (text "/ab").head? = some 47 ∧
    DirPatterns.matchDir ([.subtree ⟨[text "a"], by decide⟩].foldl DirPatterns.addArg ⟨∅, []⟩)
      (text "/ab") :=
  ⟨rfl, (matchDir_addArgs_iff _ rfl).2
    ⟨by decide, _, mem_singleton_self _, .inr ⟨[], _, text "b", [], rfl, by decide⟩⟩⟩

end Directories

/-! ### Arguments -/

/-- `ExecArgsPatterns::Arg` -/
inductive ArgPattern where
  | path (arg : PathPattern)
  | literal (arg : ByteStr)
  | anything

/-- An argument matches its pattern. -/
def ArgPattern.admits : ArgPattern → ByteStr → Bool
  | path arg, s => arg.admits s
  | literal arg, s => s = arg
  | anything, _ => true

/-- `ExecArgsPatterns::Pattern` -/
structure ExecArgsPattern where
  pathPatterns : PathPatterns
  args : List ArgPattern
  environmentVariablePatterns : EnvironmentVariablePatterns

/-- An executable, its arguments and its environment match an entry. The first argument is the name
of the executable. -/
def ExecArgsPattern.admits (base : BaseEnvironment) (p : ExecArgsPattern) (cleanedPath : ByteStr)
    (args envVars : List ByteStr) : Bool :=
  p.pathPatterns.matchPath cleanedPath &&
  decide (args.head?.getD cleanedPath = cleanedPath) &&
  decide (p.args.length = args.tail.length) &&
  (p.args.zip args.tail).all (fun a => a.1.admits a.2) &&
  p.environmentVariablePatterns.matchEnv base envVars

/-- `ExecArgsPatterns` -/
abbrev ExecArgsPatterns := AList fun _ : ByteStr => List ExecArgsPattern

namespace ExecArgsPatterns

/-- `ExecArgsPatterns::match` -/
def matchArgs (base : BaseEnvironment) (m : ExecArgsPatterns) (execPath : ByteStr)
    (args envVars : List ByteStr) (ident : ByteStr) : Bool :=
  if containsDoubleDots execPath then false
  else
    [ident, anyone].any fun user =>
      ((m.lookup user).getD []).any fun p => p.admits base (normalizePath execPath) args envVars

end ExecArgsPatterns

/-- `MonitoredUserExecArgsPatterns` -/
abbrev MonitoredUserExecArgsPatterns := AList fun _ : ByteStr => ExecArgsPatterns

namespace MonitoredUserExecArgsPatterns

/-- The patterns of a key of the map match. -/
def matchKey (base : BaseEnvironment) (m : MonitoredUserExecArgsPatterns) (execPath : ByteStr)
    (args envVars : List ByteStr) (ident key : ByteStr) : Bool :=
  match m.lookup key with
  | none => false
  | some p => p.matchArgs base execPath args envVars ident

/-- `MonitoredUserExecArgsPatterns::match` -/
def matchArgs (base : BaseEnvironment) (m : MonitoredUserExecArgsPatterns) (execPath : ByteStr)
    (args envVars : List ByteStr) (ident userName : ByteStr) : Bool :=
  m.matchKey base execPath args envVars ident userName ||
    m.matchKey base execPath args envVars ident anyone

end MonitoredUserExecArgsPatterns

/-- `Privileges`; the user and the privilege to check a path are not used by the monitor. -/
structure Privileges where
  openRead : PathPatterns
  openWrite : PathPatterns
  openAppend : PathPatterns
  readDir : DirPatterns
  readLink : PathPatterns
  renameFrom : PathPatterns
  renameTo : PathPatterns
  removeFile : PathPatterns
  removeDir : DirPatterns
  stat : PathPatterns
  monitoredExec : ExecPatterns
  userExec : ExecPatterns
  monitoredExecCheckArgs : ExecArgsPatterns
  userExecCheckArgs : ExecArgsPatterns
  monitoredUserExecCheckArgs : MonitoredUserExecArgsPatterns
  monitoredUserExec : MonitoredUserExecPatterns

end OpenWbem.Monitor
