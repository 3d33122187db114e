import OpenWbem.Cim.Url

/-!
# Paths of files

The privilege monitor compares paths as texts, after it has cleaned them: `normalizePath` drops
empty components and components that are a single dot, and keeps a slash at the end. What a cleaned
path stands for is a list of components.

## Main definitions

* `normalizePath`, `containsDoubleDots`, `splitPath` — the functions of the monitor.
* `components`, `isDirText` — what a path stands for.
* `entryOf` — the directory that a path is in, and its name there.

## Main results

* `normalizePath_eq` — a cleaned path is the text of its components.
* `containsDoubleDots_iff` — what is rejected is a component of two dots.
-/

namespace OpenWbem.Monitor

open List Bool

/-! ### The functions of the monitor -/

/-- `isUselessPathToken` -/
def isUselessPathToken (tok : ByteStr) : Bool := tok.isEmpty || tok = [46]

/-- The components of a path, without the useless ones. -/
def components (path : ByteStr) : List ByteStr :=
  (path.splitOn 47).filter fun tok => !isUselessPathToken tok

/-- `pathAppender` -/
def pathAppender (base name : ByteStr) : ByteStr := base ++ [47] ++ name

/-- The text of a path says that it is a directory. -/
def isDirText (path : ByteStr) : Bool := [47].isSuffixOf path || [47, 46].isSuffixOf path

/-- `normalizePath` -/
def normalizePath (path : ByteStr) : ByteStr :=
  if path.head? ≠ some 47 then path
  else
    let retval := (components path).foldl pathAppender []
    let retval := if retval.isEmpty then [47] else retval
    if isDirText path && !([47].isSuffixOf retval) then retval ++ [47] else retval

/-- `containsDoubleDots` -/
def containsDoubleDots (path : ByteStr) : Bool :=
  (cutAtString [47, 46, 46, 47] path).isSome || [47, 46, 46].isSuffixOf path

/-- `splitPath` -/
def splitPath (path : ByteStr) : ByteStr × ByteStr :=
  ((path.reverse.dropWhile (· ≠ 47)).reverse, (path.reverse.takeWhile (· ≠ 47)).reverse)

/-! ### Components -/

/-- The components in two parts. -/
lemma components_append (a b : ByteStr) :
    components (a ++ 47 :: b) = components a ++ components b := by
  rw [components, splitOn, splitOnP_append_cons a b (by simp), filter_append]
  rfl

variable {t s c d : ByteStr} {cs ds : List ByteStr} {b : UInt8}

/-- One token. -/
lemma components_of_not_mem (h : 47 ∉ t) :
    components t = if isUselessPathToken t then [] else [t] := by
  rw [components, splitOn_eq_singleton h]
  cases hu : isUselessPathToken t <;> simp [hu]

/-- No components. -/
@[simp] lemma components_nil : components [] = [] := rfl

/-- The first slash, if any. -/
lemma eq_or_cut (s : ByteStr) : 47 ∉ s ∨ ∃ a b, 47 ∉ a ∧ s = a ++ 47 :: b := by
  by_cases h : 47 ∈ s
  · obtain ⟨a, b, rfl, ha⟩ := eq_append_cons_of_mem h
    exact .inr ⟨a, b, ha, rfl⟩
  · exact .inl h

/-- The last slash. -/
lemma exists_lastCut (h : 47 ∈ s) : ∃ d t, 47 ∉ t ∧ s = d ++ 47 :: t := by
  obtain ⟨a, b, hs, ha⟩ := eq_append_cons_of_mem (mem_reverse.mpr h)
  refine ⟨b.reverse, a.reverse, by simpa using ha, ?_⟩
  rw [← reverse_reverse s, hs]
  simp

/-- A component is not empty, is not a dot, and has no slash. -/
lemma of_mem_components (h : c ∈ components s) : 47 ∉ c ∧ c ≠ [] ∧ c ≠ [46] := by
  induction hn : s.length using Nat.strong_induction_on generalizing s with
  | _ n ih =>
    have hbase : ∀ {t : ByteStr}, 47 ∉ t → c ∈ components t → 47 ∉ c ∧ c ≠ [] ∧ c ≠ [46] := by
      intro t ht hc
      rw [components_of_not_mem ht] at hc
      split at hc
      case isTrue => cases hc
      case isFalse hu =>
        obtain rfl := mem_singleton.mp hc
        exact ⟨ht, by rintro rfl; exact hu rfl, by rintro rfl; exact hu rfl⟩
    rcases eq_or_cut s with hs | ⟨a, b, ha, rfl⟩
    · exact hbase hs h
    · rw [components_append, mem_append] at h
      rcases h with h | h
      · exact hbase ha h
      · exact ih b.length (by simp [← hn]; omega) h rfl

/-- Components are parts. -/
lemma infix_of_mem_components (h : c ∈ components s) : c <:+: s := by
  induction hn : s.length using Nat.strong_induction_on generalizing s with
  | _ n ih =>
    have hbase : ∀ {t : ByteStr}, 47 ∉ t → c ∈ components t → c = t := by
      intro t ht hc
      rw [components_of_not_mem ht] at hc
      split at hc
      · cases hc
      · exact mem_singleton.mp hc
    rcases eq_or_cut s with hs | ⟨a, b, ha, rfl⟩
    · exact hbase hs h ▸ infix_rfl
    · rw [components_append, mem_append] at h
      rcases h with h | h
      · exact hbase ha h ▸ (prefix_append _ _).isInfix
      · have hlt : b.length < n := by
          rw [← hn, length_append, length_cons]
          omega
        exact (ih b.length hlt h rfl).trans ((suffix_cons 47 b).trans (suffix_append _ _)).isInfix

/-! ### The texts of components -/

/-- The text of components, with a slash before each. -/
def compsText (cs : List ByteStr) : ByteStr := cs.flatMap (47 :: ·)

/-- The text of a directory. -/
def dirText (cs : List ByteStr) : ByteStr := compsText cs ++ [47]

/-- The text of a path, which may end with a slash. -/
def pathText (cs : List ByteStr) (dir : Bool) : ByteStr :=
  if cs = [] then [47] else compsText cs ++ if dir then [47] else []

/-- No components. -/
@[simp] lemma compsText_nil : compsText [] = [] := rfl

/-- One component in front. -/
lemma compsText_cons (c : ByteStr) (cs : List ByteStr) :
    compsText (c :: cs) = 47 :: (c ++ compsText cs) := by simp [compsText]

/-- One component at the end. -/
lemma compsText_concat (cs : List ByteStr) (c : ByteStr) :
    compsText (cs ++ [c]) = compsText cs ++ 47 :: c := by simp [compsText]

/-- Appending components. -/
lemma foldl_pathAppender (cs : List ByteStr) (base : ByteStr) :
    cs.foldl pathAppender base = base ++ compsText cs := by
  induction cs generalizing base with
  | nil => simp
  | cons c cs ih => simp [ih, pathAppender, compsText_cons]

/-- Whether the text of a path says that it is a directory depends on what is behind the last
slash. -/
lemma isDirText_iff (ht : 47 ∉ t) : isDirText (d ++ 47 :: t) ↔ isUselessPathToken t := by
  rw [isDirText, or_eq_true, isSuffixOf_iff_suffix, isSuffixOf_iff_suffix,
    isUselessPathToken, or_eq_true, List.isEmpty_iff, decide_eq_true_eq]
  constructor
  · rintro (⟨w, hw⟩ | ⟨w, hw⟩)
    · exact .inl (lastCut_unique (by simp) ht hw).2.symm
    · exact .inr (lastCut_unique (by decide) ht hw).2.symm
  · rintro (rfl | rfl)
    · exact .inl ⟨d, rfl⟩
    · exact .inr ⟨d, rfl⟩

/-- The last slash splits a path. -/
lemma splitPath_append (ht : 47 ∉ t) : splitPath (d ++ 47 :: t) = (d ++ [47], t) := by
  have hall : ∀ c ∈ t.reverse, decide (c ≠ 47) := by
    intro c hc
    have hne : c ≠ 47 := fun he => ht (he ▸ mem_reverse.mp hc)
    simpa using hne
  rw [splitPath, reverse_append, reverse_cons, append_assoc,
    dropWhile_append_of_pos hall, takeWhile_append_of_pos hall]
  simp

/-- The text of components does not end with a slash. -/
lemma not_suffix_compsText (hcs : ∀ c ∈ cs, 47 ∉ c ∧ c ≠ [] ∧ c ≠ [46])
    (hne : cs ≠ []) : [47].isSuffixOf (compsText cs) = false := by
  obtain ⟨cs, c, rfl⟩ := (eq_nil_or_concat cs).resolve_left hne
  rw [concat_eq_append] at hcs ⊢
  obtain ⟨h47, hc, -⟩ := hcs c (by simp)
  rw [compsText_concat, ← not_eq_true, isSuffixOf_iff_suffix]
  rintro ⟨w, hw⟩
  exact hc (lastCut_unique (by simp) h47 hw).2.symm

/-- **A cleaned path is the text of its components.** -/
lemma normalizePath_eq (hs : s.head? = some 47) :
    normalizePath s = pathText (components s) (isDirText s) := by
  rw [normalizePath, if_neg (not_not.mpr hs), foldl_pathAppender, nil_append, pathText]
  rcases hcs : components s with _ | ⟨c, cs⟩
  · simp
  · have hsuffix := not_suffix_compsText (fun c (hc : c ∈ components s) => of_mem_components hc)
      (by simp [hcs])
    rw [hcs] at hsuffix
    have hempty : (compsText (c :: cs)).isEmpty = false := by simp [compsText_cons]
    simp only [hempty, hsuffix, if_false, reduceCtorEq]
    cases isDirText s <;> simp

/-- **What is rejected is a component of two dots.** -/
lemma containsDoubleDots_iff (hs : s.head? = some 47) :
    containsDoubleDots s ↔ [46, 46] ∈ components s := by
  have hmem : ∀ {a b : ByteStr}, [46, 46] ∈ components b → [46, 46] ∈ components (a ++ 47 :: b) :=
    fun h => by rw [components_append]; exact mem_append_right _ h
  rw [containsDoubleDots, or_eq_true, isSuffixOf_iff_suffix, cutAtString_isSome_iff]
  constructor
  · rintro (⟨a, b, rfl⟩ | ⟨a, rfl⟩)
    · rw [append_assoc]
      refine hmem ?_
      rw [show [46, 46, 47].append b = [46, 46] ++ 47 :: b from rfl, components_append]
      exact mem_append_left _ (by decide)
    · exact hmem (by decide)
  · -- the components behind the first slash, one by one
    intro h
    induction hn : s.length using Nat.strong_induction_on generalizing s with
    | _ n ih =>
      obtain ⟨r, rfl⟩ : ∃ r, s = 47 :: r := by
        cases s with
        | nil => cases hs
        | cons c r => exact ⟨r, by simpa using hs⟩
      rw [show 47 :: r = [] ++ 47 :: r from rfl, components_append, components_nil, nil_append] at h
      have hone : ∀ {a : ByteStr}, 47 ∉ a → [46, 46] ∈ components a → a = [46, 46] := by
        intro a ha hc
        rw [components_of_not_mem ha] at hc
        split at hc
        · cases hc
        · exact (mem_singleton.mp hc).symm
      rcases eq_or_cut r with hr | ⟨a, b, ha, rfl⟩
      · right
        exact hone hr h ▸ suffix_rfl
      · rw [components_append, mem_append] at h
        rcases h with h | h
        · left
          rw [hone ha h]
          exact ⟨[], b, rfl⟩
        · have hb := ih (47 :: b).length (by
            rw [← hn]
            simp only [length_cons, length_append]
            omega) rfl
            (by rwa [show 47 :: b = [] ++ 47 :: b from rfl, components_append]) rfl
          have hsuffix : 47 :: b <:+ 47 :: (a ++ 47 :: b) := ⟨47 :: a, rfl⟩
          exact hb.imp (fun h => h.trans hsuffix.isInfix) fun h => h.trans hsuffix

/-! ### Directories and entries -/

/-- The directory that a path is in, and its name there. The root is in itself, with the empty
name. -/
def entryOf (path : ByteStr) : List ByteStr × ByteStr :=
  ((components path).dropLast, (components path).getLast?.getD [])

/-- One component in front. -/
lemma dirText_cons (c : ByteStr) (cs : List ByteStr) :
    dirText (c :: cs) = 47 :: (c ++ dirText cs) := by
  simp [dirText, compsText_cons]

/-- A directory begins with a slash. -/
lemma exists_dirText (cs : List ByteStr) : ∃ w, dirText cs = 47 :: w := by
  cases cs with
  | nil => exact ⟨[], rfl⟩
  | cons c cs => exact ⟨_, dirText_cons c cs⟩

/-- **The texts of directories begin with each other as their components do.** -/
lemma dirText_prefix_iff (hc : ∀ c ∈ cs, 47 ∉ c) (hd : ∀ d ∈ ds, 47 ∉ d) :
    dirText cs <+: dirText ds ↔ cs <+: ds := by
  induction cs generalizing ds with
  | nil =>
    obtain ⟨w, hw⟩ := exists_dirText ds
    exact iff_of_true ⟨w, hw.symm⟩ nil_prefix
  | cons c cs ih =>
    obtain ⟨x, hx⟩ := exists_dirText cs
    cases ds with
    | nil =>
      refine iff_of_false (fun ⟨w, hw⟩ => ?_) (by simp)
      rw [dirText_cons] at hw
      simp [dirText] at hw
    | cons d ds =>
      obtain ⟨y, hy⟩ := exists_dirText ds
      rw [cons_prefix_cons, ← ih (fun c h => hc c (by simp [h])) (fun d h => hd d (by simp [h])),
        dirText_cons, dirText_cons, hx, hy]
      constructor
      · rintro ⟨w, hw⟩
        have hw' : c ++ 47 :: (x ++ w) = d ++ 47 :: y := by simpa using hw
        obtain ⟨rfl, rfl⟩ := cut_unique (hc c (by simp)) (hd d (by simp)) hw'
        exact ⟨rfl, w, rfl⟩
      · rintro ⟨rfl, w, hw⟩
        exact ⟨w, by simpa using hw⟩

/-- The text determines the components. -/
lemma dirText_inj (hc : ∀ c ∈ cs, 47 ∉ c) (hd : ∀ d ∈ ds, 47 ∉ d) :
    dirText cs = dirText ds ↔ cs = ds := by
  refine ⟨fun h => ?_, fun h => by rw [h]⟩
  have h1 := (dirText_prefix_iff hc hd).mp (h ▸ prefix_rfl)
  have h2 := (dirText_prefix_iff hd hc).mp (h ▸ prefix_rfl)
  exact h1.eq_of_length (le_antisymm h1.length_le h2.length_le)

/-- The cleaned path of an entry, in its directory. -/
lemma splitPath_pathText (hcs : ∀ c ∈ cs, 47 ∉ c) :
    splitPath (pathText cs false) = (dirText cs.dropLast, cs.getLast?.getD []) := by
  rcases eq_nil_or_concat cs with rfl | ⟨cs, c, rfl⟩
  · decide
  · rw [concat_eq_append] at hcs ⊢
    rw [pathText, if_neg (by simp), compsText_concat]
    simp only [false_eq_true, if_false, append_nil]
    rw [splitPath_append (hcs c (by simp))]
    simp [dirText]

/-- The text of a path that may end with a slash is that of a directory. -/
lemma pathText_true (cs : List ByteStr) : pathText cs true = dirText cs := by
  rw [pathText]
  split
  case isTrue h => rw [h]; rfl
  case isFalse => rfl

/-- The components of a directory. -/
lemma components_dirText (h : ∀ c ∈ cs, 47 ∉ c ∧ c ≠ [] ∧ c ≠ [46]) :
    components (dirText cs) = cs := by
  induction cs with
  | nil => rfl
  | cons c cs ih =>
    obtain ⟨h47, hne, hdot⟩ := h c (by simp)
    have ih := ih fun c hc => h c (by simp [hc])
    have huse : isUselessPathToken c = false := by simp [isUselessPathToken, hne, hdot]
    obtain ⟨w, hw⟩ := exists_dirText cs
    rw [hw, show 47 :: w = [] ++ 47 :: w from rfl, components_append, components_nil,
      nil_append] at ih
    rw [dirText_cons, hw, show 47 :: (c ++ 47 :: w) = [] ++ 47 :: (c ++ 47 :: w) from rfl,
      components_append, components_append, ih, components_of_not_mem h47, huse]
    rfl

/-- The components of a path. -/
lemma components_pathText (h : ∀ c ∈ cs, 47 ∉ c ∧ c ≠ [] ∧ c ≠ [46]) (dir : Bool) :
    components (pathText cs dir) = cs := by
  have hdir := components_dirText h
  cases dir with
  | true => rwa [pathText_true]
  | false =>
    rw [dirText, components_append, components_nil, append_nil] at hdir
    rw [pathText, if_neg Bool.false_ne_true, append_nil]
    split_ifs with hcs
    · rw [hcs]
      rfl
    · exact hdir

/-- A byte of the text of components is a slash or a byte of one of them. -/
lemma of_mem_pathText {dir : Bool} (h : b ∈ pathText cs dir) : b = 47 ∨ ∃ c ∈ cs, b ∈ c := by
  rw [pathText] at h
  split_ifs at h <;> simp [compsText] at h <;> grind

/-- No new bytes. -/
lemma mem_of_mem_normalizePath (hs : s.head? = some 47) (h : b ∈ normalizePath s) : b ∈ s := by
  rw [normalizePath_eq hs] at h
  rcases of_mem_pathText h with rfl | ⟨c, hc, hb⟩
  · exact mem_of_mem_head? hs
  · exact (infix_of_mem_components hc).subset hb

/-- Directory and name of a path. -/
lemma splitPath_normalizePath (habs : (d ++ 47 :: t).head? = some 47) (ht : 47 ∉ t) :
    splitPath (normalizePath (d ++ 47 :: t)) =
      (dirText (components d), if isUselessPathToken t then [] else t) := by
  rw [normalizePath_eq habs, components_append, components_of_not_mem ht]
  have hdir := isDirText_iff (d := d) ht
  cases hu : isUselessPathToken t with
  | true =>
    rw [hdir.mpr hu, if_pos rfl, append_nil, pathText_true]
    exact splitPath_append (by simp)
  | false =>
    have hfile : isDirText (d ++ 47 :: t) = false := by
      rw [← not_eq_true, hdir, hu]
      simp
    rw [hfile, splitPath_pathText]
    · simp
    · intro c hc
      rcases mem_append.mp hc with hc | hc
      · exact (of_mem_components hc).1
      · rwa [mem_singleton.mp hc]

end OpenWbem.Monitor
