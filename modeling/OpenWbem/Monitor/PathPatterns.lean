import Mathlib.Data.List.AList
import OpenWbem.Monitor.Paths

/-!
# Patterns of paths

The class `PathPatterns`. A pattern in the configuration of the privilege monitor is the text of a
path, with escapes. A star at its end, without an escape, stands for the rest of a name, and two
stars behind a slash stand for everything below a directory.

`convertPattern` looks for stars in the last three bytes of the text, before the escapes are
removed, and takes a backslash before a star for an escape of it, even if the backslash is itself
escaped. It cleans what is before a star as if it were a whole path, so that a single dot before a
star is lost.

## Main definitions

* `convertPattern`, `PathPatterns.addPattern`, `PathPatterns.matchPath` — the functions of the
  monitor.
* `scanEscapes`, `PathRule`, `ruleOf` — what a pattern means.
* `ReadRight` — a pattern is taken for what it means.

## Main results

* `addPatterns_matchPath_iff` — the paths that are admitted are those that a pattern names, whatever
  patterns of a set are added, iff every pattern of the set is taken for what it means.
-/

namespace OpenWbem.Monitor

open List Prod

/-! ### The functions of the monitor -/

/-- `unescapePath`; there is no result if the assertion fails that a byte is behind a backslash. -/
def unescapePath : ByteStr → Option ByteStr
  | [] => some []
  | c :: s =>
    if c = 92 then
      match s with
      | [] => none
      | d :: s => (unescapePath s).map (d :: ·)
    else (unescapePath s).map (c :: ·)

/-- `EPatternsType` -/
inductive EPatternsType where
  | path
  | wildcard
  | subtree
  deriving DecidableEq

/-- The number of a type, which is the number of stars that belong to it. -/
def EPatternsType.toNat : EPatternsType → ℕ
  | path => 0
  | wildcard => 1
  | subtree => 2

/-- The type of a pattern, by its last three bytes. -/
def patternType (s : ByteStr) : EPatternsType :=
  let n := s.length
  if s.getD (n - 1) 0 = 42 then
    if s.getD (n - 2) 0 = 42 then
      if s.getD (n - 3) 0 = 92 then .wildcard else .subtree
    else if s.getD (n - 2) 0 = 92 then .path else .wildcard
  else .path

/-- `convertPattern`; there is no result if an assertion fails. -/
def convertPattern (s : ByteStr) : Option (ByteStr × EPatternsType) :=
  if s.head? ≠ some 47 then none
  else
    (unescapePath (s.take (s.length - (patternType s).toNat))).map fun path =>
      (normalizePath path, patternType s)

/-- `PathPatterns::FileNameCase` -/
structure FileNameCase where
  fnamePrefix : ByteStr
  canExtend : Bool
  deriving DecidableEq

/-- `PathPatterns` -/
structure PathPatterns where
  map : AList fun _ : ByteStr => List FileNameCase
  subtrees : List ByteStr

namespace PathPatterns

/-- `PathPatterns::PathPatterns` -/
def empty : PathPatterns := ⟨∅, []⟩

/-- `PathPatterns::addCase` -/
def addCase (P : PathPatterns) (dirPath fnamePrefix : ByteStr) (canExtend : Bool) : PathPatterns :=
  { P with
    map := P.map.insert dirPath ((P.map.lookup dirPath).getD [] ++ [⟨fnamePrefix, canExtend⟩]) }

/-- `PathPatterns::addSubtree` -/
def addSubtree (P : PathPatterns) (dirPath : ByteStr) : PathPatterns :=
  { P with subtrees := P.subtrees ++ [normalizePath dirPath] }

/-- `PathPatterns::addPattern`; there is no result if an assertion fails. -/
def addPattern (P : PathPatterns) (pattern : ByteStr) : Option PathPatterns := do
  let (path, type) ← convertPattern pattern
  if path.head? ≠ some 47 then none
  else
    match type with
    | .subtree => if [47].isSuffixOf path then some (P.addSubtree path) else none
    | type =>
      let (dir, name) := splitPath path
      some (P.addCase dir name (type = .wildcard))

/-- A name matches a case. -/
def FileNameCase.admits (c : FileNameCase) (fname : ByteStr) : Bool :=
  if c.canExtend then c.fnamePrefix.isPrefixOf fname else fname = c.fnamePrefix

/-- `PathPatterns::match` -/
def matchPath (P : PathPatterns) (path : ByteStr) : Bool :=
  if path.head? ≠ some 47 then false
  else if containsDoubleDots path then false
  else
    let cleaned := normalizePath path
    if [47].isSuffixOf cleaned && cleaned ≠ [47] then false
    else
      let (dirname, fname) := splitPath cleaned
      if P.subtrees.any fun t => t.isPrefixOf dirname then true
      else
        match P.map.lookup dirname with
        | none => false
        | some cases => cases.any fun c => FileNameCase.admits c fname

end PathPatterns

/-- A sequence of calls of `addPattern`. -/
def addPatterns (P : PathPatterns) : List ByteStr → Option PathPatterns
  | [] => some P
  | pattern :: patterns => do
    let P ← P.addPattern pattern
    addPatterns P patterns

/-! ### What patterns mean -/

/-- The bytes of a pattern, each with whether it has been escaped: a backslash escapes the byte
behind it. -/
def scanEscapes : ByteStr → Option (List (UInt8 × Bool))
  | [] => some []
  | c :: s =>
    if c = 92 then
      match s with
      | [] => none
      | d :: s => (scanEscapes s).map ((d, true) :: ·)
    else (scanEscapes s).map ((c, false) :: ·)

/-- A star without an escape. -/
def star : UInt8 × Bool := (42, false)

/-- What a pattern names: a path, the files of a directory whose names begin with a text, or
everything below a directory. -/
inductive PathRule where
  | exact (path : ByteStr)
  | prefixed (path : ByteStr)
  | below (path : ByteStr)
  deriving DecidableEq

/-- The rule of a pattern, by the stars at its end. -/
def ruleOf (toks : List (UInt8 × Bool)) : PathRule :=
  if toks.getLast? = some star then
    if toks.dropLast.getLast? = some star then .below (toks.dropLast.dropLast.map fst)
    else .prefixed (toks.dropLast.map fst)
  else .exact (toks.map fst)

/-- The paths that a rule names, by their components. -/
def PathRule.Names : PathRule → ByteStr → Prop
  | exact u, path => components path = components u ∧ (isDirText u → components u = [])
  | prefixed u, path =>
    ∃ d t, u = d ++ 47 :: t ∧ 47 ∉ t ∧ (entryOf path).1 = components d ∧ t <+: (entryOf path).2
  | below u, path => components u <+: (entryOf path).1

/-- A pattern: an absolute path with complete escapes, where two stars at the end stand behind a
slash. -/
def IsPattern (s : ByteStr) : Prop :=
  ∃ toks, scanEscapes s = some toks ∧ s.head? = some 47 ∧
    ∀ u, ruleOf toks = .below u → u.getLast? = some 47

/-- A path that can be admitted: it is absolute, no component is two dots, and the text does not say
that it is a directory, unless it is the root. -/
structure Acceptable (path : ByteStr) : Prop where
  absolute : path.head? = some 47
  noDots : [46, 46] ∉ components path
  file : isDirText path → components path = []

/-- A path is named by one of the patterns. -/
def Admitted (patterns : List ByteStr) (path : ByteStr) : Prop :=
  Acceptable path ∧ ∃ s ∈ patterns, ∃ toks, scanEscapes s = some toks ∧ (ruleOf toks).Names path

/-- A pattern is taken for what it means: if it has a single star at its end, the text between the
last slash and the star does not end with a backslash, and is not a single dot, unless the directory
has a component of two dots and so names no path at all. -/
def ReadRight (s : ByteStr) : Prop :=
  ∀ toks u d t, scanEscapes s = some toks → ruleOf toks = .prefixed u → u = d ++ 47 :: t → 47 ∉ t →
    [46, 46] ∈ components d ∨ (t ≠ [46] ∧ t.getLast? ≠ some 92)

/-! ### Matching -/

section Entries

variable {P : PathPatterns} {path : ByteStr}

/-- Directories have no slash. -/
lemma not_mem_of_mem_dropLast {c : ByteStr} (h : c ∈ (entryOf path).1) : 47 ∉ c :=
  (of_mem_components (dropLast_subset _ h)).1

/-- Something that has been added matches the entry of a directory. -/
def PathPatterns.Holds (P : PathPatterns) (dir : List ByteStr) (name : ByteStr) : Prop :=
  (∃ t ∈ P.subtrees, t <+: dirText dir) ∨
    ∃ c ∈ (P.map.lookup (dirText dir)).getD [], PathPatterns.FileNameCase.admits c name

/-- What `match` does, by the components of the path. -/
lemma matchPath_iff :
    P.matchPath path ↔ Acceptable path ∧ P.Holds (entryOf path).1 (entryOf path).2 := by
  by_cases habs : path.head? = some 47
  swap
  · refine iff_of_false ?_ fun h => habs h.1.absolute
    simp [PathPatterns.matchPath, habs]
  by_cases hdots : [46, 46] ∈ components path
  · refine iff_of_false ?_ fun h => h.1.noDots hdots
    have := (containsDoubleDots_iff habs).mpr hdots
    simp [PathPatterns.matchPath, this]
  have hdots' : containsDoubleDots path = false := by
    rw [← Bool.not_eq_true, containsDoubleDots_iff habs]
    exact hdots
  have hclean := normalizePath_eq habs
  by_cases hfile : isDirText path → components path = []
  swap
  · refine iff_of_false ?_ fun h => hfile h.1.file
    push Not at hfile
    obtain ⟨hdir, hne⟩ := hfile
    have htext : normalizePath path = dirText (components path) := by
      rw [hclean, pathText, if_neg hne, hdir]
      rfl
    have hroot : dirText (components path) ≠ [47] := by
      obtain ⟨c, cs, hcs⟩ := exists_cons_of_ne_nil hne
      obtain ⟨w, hw⟩ := exists_dirText cs
      rw [hcs, dirText_cons, hw]
      simp
    have hsuffix : [47].isSuffixOf (dirText (components path)) :=
      isSuffixOf_iff_suffix.mpr ⟨compsText (components path), rfl⟩
    simp [PathPatterns.matchPath, htext, hsuffix, hroot]
  have htext : normalizePath path = pathText (components path) false := by
    rw [hclean, pathText, pathText]
    split
    · rfl
    case isFalse hne =>
      have hdir : isDirText path = false := by
        rw [← Bool.not_eq_true]
        exact fun h => hne (hfile h)
      rw [hdir]
  have hguard : ([47].isSuffixOf (normalizePath path) && decide (normalizePath path ≠ [47])) =
      false := by
    rw [htext, pathText]
    split
    · decide
    case isFalse hne =>
      simp only [Bool.false_eq_true, if_false, append_nil]
      rw [not_suffix_compsText (fun c hc => of_mem_components hc) hne, Bool.false_and]
  have hsplit : splitPath (normalizePath path) = (dirText (entryOf path).1, (entryOf path).2) := by
    rw [htext, splitPath_pathText fun c hc => (of_mem_components hc).1]
    rfl
  rw [PathPatterns.matchPath, if_neg (not_not.mpr habs), if_neg (by simp [hdots'])]
  simp only [hguard]
  rw [hsplit]
  simp only [PathPatterns.Holds]
  have hacc : Acceptable path := ⟨habs, hdots, hfile⟩
  simp only [hacc]
  by_cases hsub : ∃ t ∈ P.subtrees, t <+: dirText (entryOf path).1
  · simp [hsub]
  · rcases P.map.lookup (dirText (entryOf path).1) with _ | cases <;> simp

end Entries

/-! ### Adding -/

section Adding

variable {P : PathPatterns} {D : List ByteStr} {name : ByteStr}

/-- No patterns. -/
lemma not_holds_empty : ¬ PathPatterns.empty.Holds D name := by
  simp [PathPatterns.Holds, PathPatterns.empty]

/-- One subtree more. -/
lemma holds_addSubtree (u : ByteStr) :
    (P.addSubtree u).Holds D name ↔ P.Holds D name ∨ normalizePath u <+: dirText D := by
  simp only [PathPatterns.Holds, PathPatterns.addSubtree, mem_append, mem_singleton]
  constructor
  · rintro (⟨t, ht | rfl, hp⟩ | h)
    · exact .inl (.inl ⟨t, ht, hp⟩)
    · exact .inr hp
    · exact .inl (.inr h)
  · rintro ((⟨t, ht, hp⟩ | h) | h)
    · exact .inl ⟨t, .inl ht, hp⟩
    · exact .inr h
    · exact .inl ⟨_, .inr rfl, h⟩

/-- One file name more. -/
lemma holds_addCase (dir fnamePrefix : ByteStr) (canExtend : Bool) :
    (P.addCase dir fnamePrefix canExtend).Holds D name ↔ P.Holds D name ∨
      (dirText D = dir ∧ PathPatterns.FileNameCase.admits ⟨fnamePrefix, canExtend⟩ name) := by
  simp only [PathPatterns.Holds, PathPatterns.addCase]
  by_cases hdir : dirText D = dir
  · rw [hdir, AList.lookup_insert]
    simp only [Option.getD_some, mem_append, mem_singleton, true_and, or_and_right,
      exists_or, exists_eq_left, or_assoc]
  · simp [hdir]

end Adding

/-! ### Escapes -/

/-- The text of a byte of a pattern. -/
def renderTok (x : UInt8 × Bool) : ByteStr := if x.2 then [92, x.1] else [x.1]

variable {c : UInt8}

/-- A byte that is no backslash. -/
lemma scanEscapes_of_ne (hc : c ≠ 92) (s : ByteStr) :
    scanEscapes (c :: s) = (scanEscapes s).map ((c, false) :: ·) := by
  cases s <;> simp [scanEscapes, hc]

/-- A byte that is no backslash. -/
lemma unescapePath_of_ne (hc : c ≠ 92) (s : ByteStr) :
    unescapePath (c :: s) = (unescapePath s).map (c :: ·) := by
  cases s <;> simp [unescapePath, hc]

/-- A pattern is the text of its bytes. -/
lemma of_scanEscapes {s : ByteStr} {toks : List (UInt8 × Bool)} (h : scanEscapes s = some toks) :
    s = toks.flatMap renderTok ∧ ∀ x ∈ toks, x.2 = false → x.1 ≠ 92 := by
  induction s using scanEscapes.induct generalizing toks with
  | case1 => cases h; simp
  | case2 => cases h
  | case3 d s ih =>
    obtain ⟨toks', hs, rfl⟩ := Option.map_eq_some_iff.mp h
    obtain ⟨rfl, hne⟩ := ih hs
    exact ⟨by simp [renderTok], by simpa using hne⟩
  | case4 c s hc ih =>
    rw [scanEscapes_of_ne hc] at h
    obtain ⟨toks', hs, rfl⟩ := Option.map_eq_some_iff.mp h
    obtain ⟨rfl, hne⟩ := ih hs
    exact ⟨by simp [renderTok], by simpa [hc] using hne⟩

/-- Reading back an escaped path. -/
lemma unescapePath_render {toks : List (UInt8 × Bool)} (h : ∀ x ∈ toks, x.2 = false → x.1 ≠ 92) :
    unescapePath (toks.flatMap renderTok) = some (toks.map fst) := by
  induction toks with
  | nil => rfl
  | cons x toks ih =>
    obtain ⟨c, b⟩ := x
    have ih := ih fun x hx => h x (by simp [hx])
    cases b with
    | true => simp [renderTok, unescapePath, ih]
    | false => simp [renderTok, unescapePath_of_ne (h (c, false) (by simp) rfl), ih]

section Types

variable (w : ByteStr)

/-- No star at the end. -/
lemma patternType_of_ne (hc : c ≠ 42) : patternType (w ++ [c]) = .path := by
  simp [patternType, hc]

/-- One star at the end. -/
lemma patternType_of_star (hc : c ≠ 42) :
    patternType (w ++ [c, 42]) = if c = 92 then .path else .wildcard := by
  simp [patternType, hc]

/-- Two stars at the end. -/
lemma patternType_of_stars (c : UInt8) :
    patternType (w ++ [c, 42, 42]) = if c = 92 then .wildcard else .subtree := by
  simp [patternType]

end Types

/-! ### What patterns are taken for -/

/-- The last byte of the text of a pattern. -/
lemma exists_render_concat (toks : List (UInt8 × Bool)) (x : UInt8 × Bool) :
    ∃ w, (toks ++ [x]).flatMap renderTok = w ++ [x.1] ∧ (x.2 → ∃ w', w = w' ++ [92]) := by
  obtain ⟨c, b⟩ := x
  cases b with
  | false => exact ⟨toks.flatMap renderTok, by simp [renderTok], nofun⟩
  | true => exact ⟨toks.flatMap renderTok ++ [92], by simp [renderTok], fun _ => ⟨_, rfl⟩⟩

/-- What a pattern is taken for. -/
def taken : PathRule → ByteStr × EPatternsType
  | .exact u => (u, .path)
  | .prefixed u => if u.getLast? = some 92 then (u ++ [42], .path) else (u, .wildcard)
  | .below u => (u, .subtree)

/-- What a pattern that has been added matches, by the text and the type it was taken for. -/
def Stored : ByteStr × EPatternsType → List ByteStr → ByteStr → Prop
  | (u, .path), D, name => splitPath (normalizePath u) = (dirText D, name)
  | (u, .wildcard), D, name =>
    (splitPath (normalizePath u)).1 = dirText D ∧ (splitPath (normalizePath u)).2 <+: name
  | (u, .subtree), D, _ => normalizePath (normalizePath u) <+: dirText D

/-- What is stored for a file name. -/
lemma stored_iff_admits (u name : ByteStr) (D : List ByteStr) (b : Bool) :
    Stored (u, if b then .wildcard else .path) D name ↔
    dirText D = (splitPath (normalizePath u)).1 ∧
      PathPatterns.FileNameCase.admits ⟨(splitPath (normalizePath u)).2, b⟩ name := by
  cases b <;>
    simp [Stored, PathPatterns.FileNameCase.admits, Prod.ext_iff, eq_comm (a := dirText D),
    eq_comm (a := name)]

section Patterns

variable {s : ByteStr} {toks : List (UInt8 × Bool)} (h : scanEscapes s = some toks)
  (habs : s.head? = some 47) (hform : ∀ u, ruleOf toks = .below u → u.getLast? = some 47)

include h habs hform

/-- **`convertPattern` takes a pattern for what it means, but for a backslash before a star.**

**Proof sketch.** A star that is not escaped has a backslash before it only if the byte before it is
an escaped backslash. -/
lemma convertPattern_eq :
    convertPattern s = some (normalizePath (taken (ruleOf toks)).1, (taken (ruleOf toks)).2) := by
  obtain ⟨rfl, hne⟩ := of_scanEscapes h
  -- what has been established about the type and the text is enough
  have hconvert : ∀ {toks' : List (UInt8 × Bool)} {r : List (UInt8 × Bool)} {type : EPatternsType},
      toks = toks' ++ r → patternType (toks.flatMap renderTok) = type →
      (r.flatMap renderTok).length = type.toNat → convertPattern (toks.flatMap renderTok) =
        some (normalizePath (toks'.map fst), type) := by
    rintro toks' r type rfl htype hlen
    rw [convertPattern, if_neg (not_not.mpr habs), htype, ← hlen, flatMap_append,
      length_append, Nat.add_sub_cancel, take_left,
      unescapePath_render fun x hx => hne x (mem_append_left _ hx)]
    rfl
  rcases eq_nil_or_concat toks with rfl | ⟨toks0, x, rfl⟩
  · cases habs
  rw [concat_eq_append] at *
  by_cases hx : x = star
  swap
  · -- the last byte is not a star, or is escaped
    have hrule : ruleOf (toks0 ++ [x]) = .exact ((toks0 ++ [x]).map fst) := by
      simp [ruleOf, hx]
    rw [hrule]
    refine hconvert (append_nil _).symm ?_ rfl
    obtain ⟨w, hw, hesc⟩ := exists_render_concat toks0 x
    rw [hw]
    by_cases hc : x.1 = 42
    · obtain ⟨w', rfl⟩ := hesc (by
        by_contra hb
        exact hx (Prod.ext hc (Bool.not_eq_true _ ▸ hb)))
      rw [hc, append_assoc]
      exact patternType_of_star w' (by decide)
    · exact patternType_of_ne w hc
  subst hx
  rcases eq_nil_or_concat toks0 with rfl | ⟨toks1, y, rfl⟩
  · cases habs
  rw [concat_eq_append] at *
  obtain ⟨w, hw, hesc⟩ := exists_render_concat toks1 y
  have htext : (toks1 ++ [y] ++ [star]).flatMap renderTok = w ++ [y.1, 42] := by
    rw [flatMap_append, hw]
    simp [renderTok, star]
  by_cases hy : y = star
  · -- two stars, which stand behind a slash
    subst hy
    have hrule : ruleOf (toks1 ++ [star] ++ [star]) = .below (toks1.map fst) := by
      simp [ruleOf]
    have hslash := hform _ hrule
    rw [hrule]
    refine hconvert (r := [star, star]) (by simp) ?_ rfl
    rcases eq_nil_or_concat toks1 with rfl | ⟨toks2, z, rfl⟩
    · cases hslash
    rw [concat_eq_append] at *
    obtain ⟨w2, hw2, -⟩ := exists_render_concat toks2 z
    have hz : z.1 = 47 := by simpa using hslash
    have htext2 : (toks2 ++ [z] ++ [star] ++ [star]).flatMap renderTok = w2 ++ [47, 42, 42] := by
      rw [flatMap_append, flatMap_append, hw2, hz]
      simp [renderTok, star]
    rw [htext2]
    exact patternType_of_stars w2 47
  · -- one star
    have hrule : ruleOf (toks1 ++ [y] ++ [star]) = .prefixed ((toks1 ++ [y]).map fst) := by
      simp [ruleOf, hy]
    have hlast : ((toks1 ++ [y]).map fst).getLast? = some y.1 := by simp
    rw [hrule, taken, hlast]
    by_cases hc : y.1 = 42
    · obtain ⟨w', rfl⟩ := hesc (by
        by_contra hb
        exact hy (Prod.ext hc (Bool.not_eq_true _ ▸ hb)))
      rw [hc]
      refine hconvert rfl ?_ rfl
      rw [htext, hc, append_assoc]
      exact patternType_of_stars w' 92
    · by_cases hb : y.1 = 92
      · rw [hb]
        have htype : patternType ((toks1 ++ [y] ++ [star]).flatMap renderTok) = .path := by
          rw [htext, hb]
          exact patternType_of_star w (by decide)
        have hall := hconvert (append_nil _).symm htype rfl
        rwa [map_append] at hall
      · rw [if_neg (by simpa using hb)]
        refine hconvert rfl ?_ rfl
        rw [htext, patternType_of_star w hc, if_neg hb]

/-- The text that a pattern is taken for is an absolute path. -/
lemma head_taken : (taken (ruleOf toks)).1.head? = some 47 := by
  have hhead : (toks.map fst).head? = some 47 := by
    cases s with
    | nil => cases habs
    | cons c s =>
      obtain rfl : c = 47 := by simpa using habs
      rw [scanEscapes_of_ne (by decide)] at h
      obtain ⟨toks', -, rfl⟩ := Option.map_eq_some_iff.mp h
      rfl
  -- what remains without the stars is not empty
  have hdrop : ∀ {l : List (UInt8 × Bool)}, l.getLast? = some star → (l.map fst).head? = some 47 →
      (l.dropLast.map fst).head? = some 47 := by
    intro l hlast hl
    obtain ⟨l, x, rfl⟩ := (eq_nil_or_concat l).resolve_left (by rintro rfl; cases hlast)
    rw [concat_eq_append] at hl ⊢
    rw [dropLast_concat]
    cases l with
    | nil =>
      obtain rfl : x = star := by simpa using hlast
      cases hl
    | cons y l => simpa using hl
  rw [ruleOf]
  split
  case isFalse => exact hhead
  case isTrue hlast =>
    split
    case isTrue hlast2 => exact hdrop hlast2 (hdrop hlast hhead)
    case isFalse =>
      rw [taken]
      split
      · cases hu : toks.dropLast.map fst with
        | nil => simpa [hu] using hdrop hlast hhead
        | cons c u => simpa [hu] using hdrop hlast hhead
      · exact hdrop hlast hhead

/-- **Adding a pattern adds what it was taken for, and nothing else.** -/
lemma addPattern_spec (P : PathPatterns) : ∃ P', P.addPattern s = some P' ∧
      ∀ D name, P'.Holds D name ↔ P.Holds D name ∨ Stored (taken (ruleOf toks)) D name := by
  have hconvert := convertPattern_eq h habs hform
  have hu := head_taken h habs hform
  have hclean : (normalizePath (taken (ruleOf toks)).1).head? = some 47 := by
    rw [normalizePath_eq hu, pathText]
    split
    · rfl
    case isFalse hne =>
      obtain ⟨c, cs, hcs⟩ := exists_cons_of_ne_nil hne
      rw [hcs]
      rfl
  have hsuffix : ∀ u, ruleOf toks = .below u → [47].isSuffixOf (normalizePath u) := by
    intro u hrule
    have hlast := hform u hrule
    rw [hrule] at hu
    obtain ⟨u, x, rfl⟩ := (eq_nil_or_concat u).resolve_left (by rintro rfl; cases hlast)
    obtain rfl : x = 47 := by simpa using hlast
    rw [concat_eq_append] at hu ⊢
    have hu' : (u ++ [47]).head? = some 47 := hu
    rw [normalizePath_eq hu', (isDirText_iff (by simp)).mpr rfl, pathText_true,
      isSuffixOf_iff_suffix]
    exact ⟨_, rfl⟩
  rw [PathPatterns.addPattern, hconvert]
  simp only [bind, Option.bind, hclean, ne_eq]
  rcases hrule : ruleOf toks with u | u | u
  · exact ⟨_, rfl, fun D name => (holds_addCase _ _ _).trans
      (or_congr_right (stored_iff_admits u name D false).symm)⟩
  · by_cases hb : u.getLast? = some 92
    · rw [taken, if_pos hb]
      exact ⟨_, rfl, fun D name => (holds_addCase _ _ _).trans
        (or_congr_right (stored_iff_admits _ name D false).symm)⟩
    · rw [taken, if_neg hb]
      exact ⟨_, rfl, fun D name => (holds_addCase _ _ _).trans
        (or_congr_right (stored_iff_admits u name D true).symm)⟩
  · simp only [taken, hsuffix u hrule]
    refine ⟨_, rfl, fun D name => ?_⟩
    rw [holds_addSubtree]
    rfl

end Patterns

/-- Whole sequences of patterns. -/
lemma addPatterns_spec {patterns : List ByteStr} (h : ∀ s ∈ patterns, IsPattern s)
    (P : PathPatterns) :
    ∃ P', addPatterns P patterns = some P' ∧ ∀ D name, P'.Holds D name ↔ P.Holds D name ∨
      ∃ s ∈ patterns, ∃ toks, scanEscapes s = some toks ∧ Stored (taken (ruleOf toks)) D name := by
  induction patterns generalizing P with
  | nil => exact ⟨P, rfl, by simp⟩
  | cons s patterns ih =>
    obtain ⟨toks, hs, habs, hform⟩ := h s (by simp)
    obtain ⟨P1, hP1, hholds1⟩ := addPattern_spec hs habs hform P
    obtain ⟨P2, hP2, hholds2⟩ := ih (fun s hs => h s (by simp [hs])) P1
    refine ⟨P2, by rw [addPatterns, hP1]; exact hP2, fun D name => ?_⟩
    rw [hholds2, hholds1, or_assoc]
    simp [hs]

/-! ### When what is stored is what is meant -/

section Names

variable {path : ByteStr}

variable {u d t : ByteStr}

/-- What is behind the last slash of an absolute path. -/
lemma exists_cut_of_head (h : u.head? = some 47) : ∃ d t, 47 ∉ t ∧ u = d ++ 47 :: t :=
  exists_lastCut (mem_of_head? h)

/-- A path ends with a backslash if what is behind the last slash does. -/
lemma getLast?_cut (d t : ByteStr) : (d ++ 47 :: t).getLast? = some 92 ↔ t.getLast? = some 92 := by
  rw [getLast?_append, getLast?_cons]
  rcases t.getLast? with _ | c <;> simp

/-- The components of an entry. -/
lemma entryOf_eq_iff {D : List ByteStr} {name : ByteStr} (hname : name ≠ []) :
    entryOf path = (D, name) ↔ components path = D ++ [name] := by
  rw [entryOf]
  rcases eq_nil_or_concat (components path) with hcs | ⟨cs, c, hcs⟩
  · rw [hcs]
    simp [hname.symm]
  · rw [hcs]
    simp

/-- Only the root has no name. -/
lemma entryOf_snd_eq_nil : (entryOf path).2 = [] ↔ components path = [] := by
  rw [entryOf]
  rcases eq_nil_or_concat (components path) with hcs | ⟨cs, c, hcs⟩
  · simp [hcs]
  · have hc := (of_mem_components (c := c) (by rw [hcs]; simp)).2.1
    simp [hcs, hc]

/-- A path is stored as the path that it is. -/
lemma stored_path_iff (hu : u.head? = some 47) :
    Stored (u, .path) (entryOf path).1 (entryOf path).2 ↔ (PathRule.exact u).Names path := by
  obtain ⟨d, t, ht, rfl⟩ := exists_cut_of_head hu
  have hdir := isDirText_iff (d := d) ht
  rw [Stored, splitPath_normalizePath hu ht, mk.injEq, PathRule.Names, components_append,
    components_of_not_mem ht, hdir,
    dirText_inj (fun c hc => (of_mem_components hc).1) (fun c hc => not_mem_of_mem_dropLast hc)]
  cases huse : isUselessPathToken t with
  | true =>
    simp only [if_true, append_nil, forall_const, eq_comm (a := ([] : ByteStr)), entryOf_snd_eq_nil]
    constructor
    · rintro ⟨hD, hnil⟩
      rw [entryOf, hnil] at hD
      exact ⟨hnil.trans hD.symm, hD⟩
    · rintro ⟨hd, hnil⟩
      rw [hnil] at hd
      exact ⟨by rw [entryOf, hd, hnil]; rfl, hd⟩
  | false =>
    have hne : t ≠ [] := by rintro rfl; cases huse
    simp only [Bool.false_eq_true, if_false, false_implies, and_true]
    rw [← entryOf_eq_iff hne, Prod.ext_iff, eq_comm, eq_comm (a := t)]

/-- What is before a star is stored as it is, but for a single dot. -/
lemma stored_wildcard_iff (hu : (d ++ 47 :: t).head? = some 47) (ht : 47 ∉ t) :
    Stored (d ++ 47 :: t, .wildcard) (entryOf path).1 (entryOf path).2 ↔
      (entryOf path).1 = components d ∧ (if t = [46] then [] else t) <+: (entryOf path).2 := by
  rw [Stored, splitPath_normalizePath hu ht,
    dirText_inj (fun c hc => (of_mem_components hc).1) (fun c hc => not_mem_of_mem_dropLast hc),
    eq_comm]
  refine and_congr_right fun _ => ?_
  by_cases hdot : t = [46]
  · subst hdot
    rfl
  · by_cases hnil : t = []
    · subst hnil
      rfl
    · simp [isUselessPathToken, hnil]

/-- What a prefix names. -/
lemma names_prefixed_iff (ht : 47 ∉ t) : (PathRule.prefixed (d ++ 47 :: t)).Names path ↔
      (entryOf path).1 = components d ∧ t <+: (entryOf path).2 := by
  constructor
  · rintro ⟨d', t', hu, ht', h⟩
    obtain ⟨rfl, rfl⟩ := lastCut_unique ht ht' hu
    exact h
  · exact fun h => ⟨d, t, rfl, ht, h⟩

/-- A subtree is stored as the directory that it is. -/
lemma stored_subtree_iff (hu : u.head? = some 47) (hlast : u.getLast? = some 47) :
    Stored (u, .subtree) (entryOf path).1 (entryOf path).2 ↔ (PathRule.below u).Names path := by
  obtain ⟨u, x, rfl⟩ := (eq_nil_or_concat u).resolve_left (by rintro rfl; cases hlast)
  obtain rfl : x = 47 := by simpa using hlast
  rw [concat_eq_append] at hu ⊢
  have hcomps : ∀ c ∈ components (u ++ [47]), 47 ∉ c ∧ c ≠ [] ∧ c ≠ [46] := fun c hc =>
    of_mem_components hc
  have hclean : normalizePath (u ++ [47]) = dirText (components (u ++ [47])) := by
    rw [normalizePath_eq hu, (isDirText_iff (by simp)).mpr rfl, pathText_true]
  have hhead : (dirText (components (u ++ [47]))).head? = some 47 := by
    obtain ⟨w, hw⟩ := exists_dirText (components (u ++ [47]))
    rw [hw]
    rfl
  have hagain : normalizePath (dirText (components (u ++ [47]))) =
      dirText (components (u ++ [47])) := by
    rw [normalizePath_eq hhead, components_dirText hcomps, dirText,
      (isDirText_iff (by simp)).mpr rfl,
      pathText_true]
    rfl
  rw [Stored, hclean, hagain, PathRule.Names,
    dirText_prefix_iff (fun c hc => (hcomps c hc).1) fun c hc => not_mem_of_mem_dropLast hc]

/-- The directory of an acceptable path has no component of two dots. -/
lemma Acceptable.noDots_dir (h : Acceptable path) : [46, 46] ∉ (entryOf path).1 :=
  fun hm => h.noDots (dropLast_subset _ hm)

/-- A name in the directory of a pattern with a star. -/
lemma entry_of_dirText {n : ByteStr} (h47 : 47 ∉ n) (huse : isUselessPathToken n = false)
    (hdots : [46, 46] ∉ components d) (hn : n ≠ [46, 46]) :
    Acceptable (dirText (components d) ++ n) ∧ entryOf (dirText (components d) ++ n) =
      (components d, n) := by
  have hcomps : components (dirText (components d) ++ n) = components d ++ [n] := by
    rw [dirText, append_assoc, singleton_append, components_append, components_of_not_mem h47, huse]
    have := components_dirText fun c (hc : c ∈ components d) => of_mem_components hc
    rw [dirText, components_append, components_nil, append_nil] at this
    rw [this]
    rfl
  have hne : n ≠ [] := by rintro rfl; cases huse
  refine ⟨⟨?_, ?_, fun hdir => ?_⟩, (entryOf_eq_iff hne).mpr hcomps⟩
  · obtain ⟨w, hw⟩ := exists_dirText (components d)
    rw [hw]
    rfl
  · rw [hcomps]
    simp [hdots, Ne.symm hn]
  · rw [dirText, append_assoc, singleton_append, isDirText_iff h47, huse] at hdir
    cases hdir

variable {s : ByteStr} {toks : List (UInt8 × Bool)} (h : scanEscapes s = some toks)
  (habs : s.head? = some 47) (hform : ∀ u, ruleOf toks = .below u → u.getLast? = some 47)

include h habs hform

/-- A pattern that is read right matches what it means. -/
lemma stored_iff_names (hread : ReadRight s) (hpath : Acceptable path) :
    Stored (taken (ruleOf toks)) (entryOf path).1 (entryOf path).2 ↔ (ruleOf toks).Names path := by
  have hu := head_taken h habs hform
  rcases hrule : ruleOf toks with u | u | u <;> rw [hrule] at hu
  · exact stored_path_iff hu
  · have hu' : u.head? = some 47 := by
      rw [taken] at hu
      split at hu
      case isFalse => exact hu
      case isTrue hlast =>
        cases u with
        | nil => cases hlast
        | cons c u => exact hu
    obtain ⟨d, t, ht, rfl⟩ := exists_cut_of_head hu'
    rw [names_prefixed_iff ht]
    rcases hread toks _ d t h hrule rfl ht with hdots | ⟨hdot, hlast⟩
    · -- no path is in a directory with such a component
      have hno : (entryOf path).1 ≠ components d := fun he => hpath.noDots_dir (he ▸ hdots)
      refine iff_of_false (fun hst => ?_) fun hn => hno hn.1
      rw [taken] at hst
      split at hst
      · rw [append_assoc] at hst
        have hnames := (stored_path_iff (by simpa using hu')).mp hst
        refine hpath.noDots ?_
        rw [hnames.1, cons_append, components_append]
        exact mem_append_left _ hdots
      · exact hno ((stored_wildcard_iff hu' ht).mp hst).1
    · rw [taken, if_neg (mt (getLast?_cut d t).mp hlast), stored_wildcard_iff hu' ht, if_neg hdot]
  · exact stored_subtree_iff hu (hform u hrule)

/-- A pattern that is not read right matches a path that it does not name, or the other way
round. -/
lemma exists_misread (hread : ¬ ReadRight s) : ∃ path, Acceptable path ∧
      ¬ (Stored (taken (ruleOf toks)) (entryOf path).1 (entryOf path).2 ↔
        (ruleOf toks).Names path) := by
  have hu := head_taken h habs hform
  simp only [ReadRight, not_forall, not_or] at hread
  obtain ⟨toks', u, d, t, h', hrule, rfl, ht, hdots, hbad⟩ := hread
  obtain rfl : toks = toks' := Option.some.inj (h.symm.trans h')
  rw [hrule] at hu ⊢
  by_cases hlast : (d ++ 47 :: t).getLast? = some 92
  · -- the star is taken for a byte of the name
    rw [taken, if_pos hlast] at hu ⊢
    have htne : t ≠ [] := by rintro rfl; simp at hlast
    have hx47 : (47 : UInt8) ∉ t ++ [120] := by simp [ht]
    have hsx : (47 : UInt8) ∉ t ++ [42] := by simp [ht]
    have huse : ∀ c : UInt8, isUselessPathToken (t ++ [c]) = false := fun c => by
      obtain ⟨b, t, rfl⟩ := exists_cons_of_ne_nil htne
      simp [isUselessPathToken]
    have hn : t ++ [120] ≠ [46, 46] := fun he => by
      have := congrArg getLast? he
      simp at this
    obtain ⟨hacc, hentry⟩ := entry_of_dirText hx47 (huse 120) hdots hn
    refine ⟨_, hacc, fun hiff => ?_⟩
    have hnames :
        (PathRule.prefixed (d ++ 47 :: t)).Names (dirText (components d) ++ (t ++ [120])) := by
      rw [names_prefixed_iff ht, hentry]
      exact ⟨rfl, prefix_append _ _⟩
    have hst := (stored_path_iff hu).mp (hiff.mpr hnames)
    have hcs := ((entryOf_eq_iff (by simp)).mp hentry).symm.trans hst.1
    rw [append_assoc, cons_append, components_append, components_of_not_mem hsx, huse 42] at hcs
    simp at hcs
  · -- the dot is lost
    have hdot : t = [46] := by
      by_contra hne
      exact hbad ⟨hne, mt (getLast?_cut d t).mpr hlast⟩
    subst hdot
    rw [taken, if_neg hlast] at hu ⊢
    obtain ⟨hacc, hentry⟩ := entry_of_dirText (n := [120]) (by decide) rfl hdots (by decide)
    refine ⟨_, hacc, fun hiff => ?_⟩
    rw [stored_wildcard_iff hu (by decide), names_prefixed_iff (by decide), hentry] at hiff
    have := (hiff.mp ⟨rfl, by simp⟩).2
    simp at this

end Names

/-- **The paths that are admitted are those that a pattern names iff every pattern is taken
for what it means.** The left side is about every sequence of patterns of a set, and every path. -/
theorem addPatterns_matchPath_iff {S : Set ByteStr} (hS : ∀ s ∈ S, IsPattern s) :
    (∀ patterns : List ByteStr, (∀ s ∈ patterns, s ∈ S) →
      ∃ P, addPatterns .empty patterns = some P ∧
        ∀ path, P.matchPath path ↔ Admitted patterns path) ↔
      ∀ s ∈ S, ReadRight s := by
  constructor
  · intro hall s hs
    by_contra hread
    obtain ⟨toks, hscan, habs, hform⟩ := hS s hs
    obtain ⟨path, hacc, hne⟩ := exists_misread hscan habs hform hread
    obtain ⟨P, hP, hmatch⟩ := hall [s] (by simpa using hs)
    have hone : ∀ s' ∈ [s], IsPattern s' := by simpa using hS s hs
    obtain ⟨P', hP', hholds⟩ := addPatterns_spec hone .empty
    obtain rfl : P = P' := Option.some.inj (hP.symm.trans hP')
    have hpath := hmatch path
    rw [matchPath_iff, hholds, Admitted] at hpath
    simp only [hacc, true_and, not_holds_empty, false_or, mem_singleton, exists_eq_left, hscan,
      Option.some.injEq, exists_eq_left'] at hpath
    exact hne hpath
  · intro hread patterns hpatterns
    obtain ⟨P, hP, hholds⟩ := addPatterns_spec (fun s hs => hS s (hpatterns s hs)) .empty
    refine ⟨P, hP, fun path => ?_⟩
    rw [matchPath_iff, hholds]
    refine and_congr_right fun hacc => ?_
    simp only [not_holds_empty, false_or]
    constructor <;> rintro ⟨s, hs, toks, hscan, h⟩ <;> refine ⟨s, hs, toks, hscan, ?_⟩
    all_goals
      obtain ⟨toks', hscan', habs, hform⟩ := hS s (hpatterns s hs)
      obtain rfl : toks = toks' := Option.some.inj (hscan.symm.trans hscan')
    · exact (stored_iff_names hscan habs hform (hread s (hpatterns s hs)) hacc).mp h
    · exact (stored_iff_names hscan habs hform (hread s (hpatterns s hs)) hacc).mpr h

/-- The patterns `/b`, `/b*`, `/b/**` and `/b\*`, where the last star is escaped. -/
def samplePatterns : List ByteStr :=
  [[47, 98], [47, 98, 42], [47, 98, 47, 42, 42], [47, 98, 92, 42]]

/-- **The samples** are taken for what they mean. -/
theorem addPatterns_samplePatterns : (∀ s ∈ samplePatterns, IsPattern s) ∧
      ∀ patterns : List ByteStr, (∀ s ∈ patterns, s ∈ samplePatterns) →
        ∃ P, addPatterns .empty patterns = some P ∧ ∀ path, P.matchPath path ↔
        Admitted patterns path := by
  have hpattern : ∀ s ∈ samplePatterns, IsPattern s := by
    intro s hs
    simp only [samplePatterns, mem_cons, not_mem_nil, or_false] at hs
    rcases hs with rfl | rfl | rfl | rfl
    all_goals
      refine ⟨_, rfl, rfl, fun u hu => ?_⟩
      simp [ruleOf, star] at hu
      try simp [← hu]
  refine ⟨hpattern, (addPatterns_matchPath_iff (S := { s | s ∈ samplePatterns }) hpattern).mpr ?_⟩
  · intro s hs toks u d t hscan hrule hu ht
    simp only [samplePatterns, mem_cons, not_mem_nil, or_false] at hs
    rcases hs with rfl | rfl | rfl | rfl <;> cases hscan <;> simp [ruleOf, star] at hrule
    subst hrule
    obtain ⟨rfl, rfl⟩ := lastCut_unique (a := []) (by decide) ht hu
    exact .inr ⟨by decide, by decide⟩

/-- The star at the end of `/b\\*` is not escaped, since the backslash before it is. But it is taken
for a byte of the name, so that `/b\c` is not admitted. -/
theorem matchPath_escapedBackslash :
    IsPattern [47, 98, 92, 92, 42] ∧ Admitted [[47, 98, 92, 92, 42]] [47, 98, 92, 99] ∧
      (addPatterns .empty [[47, 98, 92, 92, 42]]).map (·.matchPath [47, 98, 92, 99]) =
        some false := by
  refine ⟨⟨_, rfl, rfl, fun u hu => ?_⟩, ⟨⟨rfl, by decide, by decide⟩, _, mem_singleton_self _, _,
    rfl, ?_⟩, by decide⟩
  · simp [ruleOf, star] at hu
  · exact ⟨[], [98, 92], rfl, by decide, by decide, by decide⟩

end OpenWbem.Monitor
