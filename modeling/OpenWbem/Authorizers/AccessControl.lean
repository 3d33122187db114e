import Mathlib.Data.List.Infix
import OpenWbem.Cim.Objects

/-!
# Access control lists

Two authorizers check whether a user may read or write in a namespace: `AccessMgr::checkAccess` and
`SimpleAuthorizer2::checkAccess`. Both look for an instance of `OpenWBEM_UserACL` for the user and
the namespace, then for an instance of `OpenWBEM_NamespaceACL` for the namespace, and then in the
same way one level up. The first instance that is found decides.

Every exception of a look-up is taken for an answer that there is no such class, which switches the
lists off, or no such instance, which leads to the next one. And a request to read and write needs
the capability `rw` or `wr` to the letter, while one to read needs a capability with an `r` in it.

## Main definitions

* `Lookups`, `Content` — what the look-ups answer, and what the lists say.
* `SimpleAuthorizer2.checkAccess`, `AccessMgr.checkAccess` — the two authorizers.
* `Content.nearest`, `Entitled` — the nearest entry of the lists, and who is entitled by it.
* `Right` — the decisions of an authorizer are those of the lists.

## Main results

* `right_iff` — when the decisions are right, for both authorizers.
* `wrong_decisions` — a failure, a capability and a missing class for which they are not.
-/

namespace OpenWbem

open List Option

/-- `CIMException::ErrNoType` -/
inductive ErrNoType where
  | success
  | failed
  | accessDenied
  | invalidNamespace
  | invalidParameter
  | invalidClass
  | notFound
  | notSupported
  | classHasChildren
  | classHasInstances
  | invalidSuperclass
  | alreadyExists
  | noSuchProperty
  | typeMismatch
  | queryLanguageNotSupported
  | invalidQuery
  | methodNotAvailable
  | methodNotFound
  deriving DecidableEq

namespace Acl

/-! ### Look-ups -/

/-- What is thrown: a `CIMException`, or another exception. -/
inductive Thrown where
  | cim (errNo : ErrNoType)
  | other
  deriving DecidableEq

/-- The exception says that there is no such namespace, class or instance. -/
def Thrown.absent : Thrown → Bool
  | cim .invalidNamespace | cim .invalidClass | cim .notFound => true
  | _ => false

/-- An instance of one of the two classes: the text of its property `capability`, if it has one that
is not null. -/
structure Entry where
  capability : Option Str
  deriving DecidableEq

/-- What the look-ups in `root/security` answer. Those for the classes are made again at every level
of the namespace, and may fail at one level only. -/
structure Lookups where
  /-- `getClass` for `OpenWBEM_UserACL`, at a level. -/
  userClass : Str → Except Thrown Unit
  /-- `getInstance` for `OpenWBEM_UserACL`, with the keys `username` and `nspace`. -/
  userEntry : Str → Str → Except Thrown Entry
  /-- `getClass` for `OpenWBEM_NamespaceACL`, at a level. -/
  namespaceClass : Str → Except Thrown Unit
  /-- `getInstance` for `OpenWBEM_NamespaceACL`, with the key `nspace`. -/
  namespaceEntry : Str → Except Thrown Entry

/-! ### The decision at one level -/

/-- The capability of an entry, in lower case. -/
def Entry.text (ci : Entry) : Str := Str.lower (ci.capability.getD [])

/-- The test of a capability: an operation type of one letter has to be in it, the other one needs
both letters and nothing else. -/
def Entry.allows (ci : Entry) (opType : Str) : Bool :=
  if opType.length = 1 then opType <:+: ci.text else ci.text = ['r', 'w'] ∨ ci.text = ['w', 'r']

/-- The answer of an entry. -/
def Entry.answer (ci : Entry) (opType : Str) : Except Thrown Unit :=
  if ci.allows opType then .ok () else .error (.cim .accessDenied)

/-- One class and one entry of it: if there is no class, access is granted; if there is an entry, it
decides; otherwise (`none`) the search goes on. -/
def checkEntry (getClass : Except Thrown Unit) (getInstance : Except Thrown Entry) (opType : Str) :
    Option (Except Thrown Unit) :=
  match getClass with
  | .error (.cim _) => some (.ok ())
  | .error .other => some (.error .other)
  | .ok _ =>
    match getInstance with
    | .error (.cim _) => none
    | .error .other => some (.error .other)
    | .ok ci => some (ci.answer opType)

/-- The body of the loop, after the test for the super user: the entry of the user, then the default
entry. -/
def checkLevel (l : Lookups) (userName opType lns : Str) : Option (Except Thrown Unit) :=
  (if userName = [] then none
    else checkEntry (l.userClass lns) (l.userEntry userName lns) opType).or
    (checkEntry (l.namespaceClass lns) (l.namespaceEntry lns) opType)

/-! ### The levels of a namespace -/

/-- `String::lastIndexOf` -/
def lastIndexOf (s : Str) (c : Char) : Option ℕ :=
  (s.reverse.findIdx? (· = c)).map fun i => s.length - 1 - i

/-- The namespace one level up: what is before the last slash, unless that is nothing. -/
def parent? (lns : Str) : Option Str :=
  match lastIndexOf lns '/' with
  | none | some 0 => none
  | some idx => some (lns.take idx)

variable {lns s userName : Str} {c : Char} {ci : Entry}

/-- The namespace one level up is shorter. -/
lemma length_of_parent? {up : Str} (h : parent? lns = some up) : up.length < lns.length := by
  rw [parent?] at h
  split at h
  · cases h
  · cases h
  · rename_i idx hidx
    obtain ⟨i, hi, hlen⟩ := map_eq_some_iff.1 hidx
    have hlt := (findIdx?_eq_some_iff_getElem.1 hi).1
    rw [length_reverse] at hlt
    cases h
    rw [length_take]
    omega

/-- The namespace without leading slashes, in lower case. -/
def normalize (ns : Str) : Str := Str.lower (ns.dropWhile (· = '/'))

/-! ### The authorizers -/

/-- `UserInfo` -/
structure UserInfo where
  userName : Str
  internal : Bool
  deriving DecidableEq

/-- `String::equalsIgnoreCase` -/
def equalsIgnoreCase (x y : Str) : Bool := Str.lower x = Str.lower y

namespace SimpleAuthorizer2

/-- The loop of `SimpleAuthorizer2::checkAccess`. -/
def checkLoop (l : Lookups) (userName opType lns : Str) : Except Thrown Bool :=
  match checkLevel l userName opType lns with
  | some r => r.map fun _ => true
  | none =>
    match _hup : parent? lns with
    | none => .error (.cim .accessDenied)
    | some up => checkLoop l userName opType up
termination_by lns.length
decreasing_by exact length_of_parent? _hup

/-- `SimpleAuthorizer2::checkAccess` -/
def checkAccess (l : Lookups) (superUser : Str) (userInfo : UserInfo) (opType ns : Str) :
    Except Thrown Bool :=
  if userInfo.internal then .ok true
  else if userInfo.userName ≠ [] && equalsIgnoreCase superUser userInfo.userName then .ok true
  else checkLoop l userInfo.userName opType (normalize ns)

end SimpleAuthorizer2

namespace AccessMgr

/-- The operations of `AccessMgr`. -/
inductive Op where
  | getClass
  | getInstance
  | deleteClass
  | deleteInstance
  | createClass
  | createInstance
  | modifyClass
  | modifyInstance
  | enumerateClasses
  | enumerateClassNames
  | enumerateInstances
  | enumerateInstanceNames
  | associators
  | associatorNames
  | references
  | referenceNames
  | getProperty
  | setProperty
  | getQualifier
  | setQualifier
  | deleteQualifier
  | enumerateQualifiers
  | createNamespace
  | deleteNamespace
  | enumerateNamespace
  | invokeMethod
  deriving DecidableEq

/-- `AccessMgr::getMethodType` -/
def getMethodType : Op → Str
  | .getClass | .getInstance | .enumerateClasses | .enumerateClassNames | .enumerateInstances
  | .enumerateInstanceNames | .enumerateQualifiers | .getProperty | .getQualifier
  | .enumerateNamespace
  | .associators | .associatorNames | .references | .referenceNames => ['r']
  | .deleteClass | .deleteInstance | .createClass | .createInstance | .modifyClass | .modifyInstance
  | .setProperty | .setQualifier | .deleteQualifier | .createNamespace | .deleteNamespace => ['w']
  | .invokeMethod => ['r', 'w']

/-- The `OperationContext`: the user, and the mark of a call that comes from `checkAccess`
itself. -/
structure Context where
  userInfo : UserInfo
  internalCall : Option Str
  deriving DecidableEq

/-- The loop of `AccessMgr::checkAccess`, which tests for the super user at every level. -/
def checkLoop (l : Lookups) (superUser userName : Str) (op : Op) (lns : Str) : Except Thrown Unit :=
  if userName ≠ [] && equalsIgnoreCase superUser userName then .ok ()
  else
    match checkLevel l userName (getMethodType op) lns with
    | some r => r
    | none =>
      match _hup : parent? lns with
      | none => .error (.cim .accessDenied)
      | some up => checkLoop l superUser userName op up
termination_by lns.length
decreasing_by exact length_of_parent? _hup

/-- `AccessMgr::checkAccess`, with the context that it leaves: the mark is removed at the end. -/
def checkAccess (l : Lookups) (superUser : Str) (op : Op) (ns : Str) (context : Context) :
    Except Thrown Unit × Context :=
  if context.userInfo.internal then (.ok (), context)
  else if context.internalCall.getD [] = ['1'] then (.ok (), context)
  else
    (checkLoop l superUser context.userInfo.userName op (normalize ns),
      { context with internalCall := none })

end AccessMgr

/-! ### What the lists say -/

/-- The content of the two lists; a class that does not exist has no list. -/
structure Content where
  /-- The entries of `OpenWBEM_UserACL`, by user and namespace. -/
  userACL : Option (Str → Str → Option Entry)
  /-- The entries of `OpenWBEM_NamespaceACL`, by namespace. -/
  namespaceACL : Option (Str → Option Entry)

/-- What is asked for. -/
inductive Access where
  | read
  | write
  | readWrite
  deriving DecidableEq

/-- The operation type of an access. -/
def Access.opType : Access → Str
  | read => ['r']
  | write => ['w']
  | readWrite => ['r', 'w']

/-- An entry grants what its capability has the letters for. -/
def Entry.Grants (ci : Entry) : Access → Prop
  | .read => 'r' ∈ ci.text
  | .write => 'w' ∈ ci.text
  | .readWrite => 'r' ∈ ci.text ∧ 'w' ∈ ci.text

/-- The namespaces above a namespace, after the text `before`: what is before each slash, the
longest first. -/
def above (before : Str) : Str → List Str
  | [] => []
  | c :: rest => above (before ++ [c]) rest ++ if c = '/' then [before] else []

/-- A namespace, and the namespaces above it up to the root. -/
def levels (lns : Str) : List Str := lns :: above [] lns

namespace Content

/-- The entry of the user at one level. -/
def userEntryAt (C : Content) (userName lns : Str) : Option Entry :=
  if userName = [] then none else C.userACL.bind (· userName lns)

/-- The entry at one level: that of the user, or else the default entry. -/
def entryAt (C : Content) (userName lns : Str) : Option Entry :=
  (C.userEntryAt userName lns).or (C.namespaceACL.bind (· lns))

/-- **The nearest entry**, on the way from the namespace to the root. -/
def nearest (C : Content) (userName lns : Str) : Option Entry :=
  (levels lns).findSome? (C.entryAt userName)

/-- What is found, or the exception that there is no such class or instance. -/
def found {α : Type} : Option α → Except Thrown α
  | some x => .ok x
  | none => .error (.cim .notFound)

/-- The look-ups, if all of them work. -/
def lookups (C : Content) : Lookups where
  userClass _ := found (C.userACL.map fun _ => ())
  userEntry userName lns := found (C.userACL.bind (· userName lns))
  namespaceClass _ := found (C.namespaceACL.map fun _ => ())
  namespaceEntry lns := found (C.namespaceACL.bind (· lns))

end Content

/-- A look-up fails: it throws something else than that there is no such class or instance. -/
def Fails {α : Type} (actual : Except Thrown α) : Prop :=
  ∃ e : Thrown, e.absent = false ∧ actual = .error e

/-- The look-ups answer what the lists say, where they do not fail. -/
structure Lookups.Disturb (l : Lookups) (C : Content) : Prop where
  userClass : ∀ lns, l.userClass lns = C.lookups.userClass lns ∨ Fails (l.userClass lns)
  userEntry : ∀ userName lns,
    l.userEntry userName lns = C.lookups.userEntry userName lns ∨ Fails (l.userEntry userName lns)
  namespaceClass : ∀ lns,
    l.namespaceClass lns = C.lookups.namespaceClass lns ∨ Fails (l.namespaceClass lns)
  namespaceEntry : ∀ lns,
    l.namespaceEntry lns = C.lookups.namespaceEntry lns ∨ Fails (l.namespaceEntry lns)

/-- A look-up fails with an exception that is taken for the answer that there is no such class or
instance. -/
def Swallowed {α : Type} (actual : Except Thrown α) : Prop :=
  ∃ e, (Thrown.cim e).absent = false ∧ actual = .error (.cim e)

/-- A failure of a look-up that is made for the user at the level is swallowed. -/
def Lookups.FailsAt (l : Lookups) (C : Content) (userName lns : Str) : Prop :=
  (userName ≠ [] ∧ (Swallowed (l.userClass lns) ∨ Swallowed (l.userEntry userName lns))) ∨
    (C.userEntryAt userName lns = none ∧
      (Swallowed (l.namespaceClass lns) ∨ Swallowed (l.namespaceEntry lns)))

/-- The look-ups work from the namespace up to the nearest entry. -/
def Lookups.Work (l : Lookups) (C : Content) (userName lns : Str) : Prop :=
  ∀ pre lv post, levels lns = pre ++ lv :: post → (∀ x ∈ pre, C.entryAt userName x = none) →
    ¬ l.FailsAt C userName lv

/-- At a level the lists are switched off for a user: one of the two classes is missing where it is
looked for. -/
def Content.SwitchedOff (C : Content) (userName lns : Str) : Prop :=
  (userName ≠ [] ∧ C.userACL = none) ∨ (C.namespaceACL = none ∧ C.userEntryAt userName lns = none)

/-- Who need not be in the lists: internal calls and the super user. -/
def Exempt (superUser : Str) (userInfo : UserInfo) : Prop :=
  userInfo.internal ∨
    (userInfo.userName ≠ [] ∧ equalsIgnoreCase superUser userInfo.userName)

/-- **Who is entitled to an access**: internal calls, the super user, everybody if the classes do
not exist, and those to whom the nearest entry grants it. -/
def Entitled (C : Content) (superUser : Str) (userInfo : UserInfo) (ns : Str)
    (access : Access) : Prop :=
  Exempt superUser userInfo ∨ (C.userACL = none ∧ C.namespaceACL = none) ∨
    ∃ ci, C.nearest userInfo.userName (normalize ns) = some ci ∧ ci.Grants access

/-- **The decisions of an authorizer are right.** `granted` says to which accesses the authorizer
agrees, for the look-ups that it makes. -/
structure Right (C : Content) (l : Lookups) (superUser : Str) (userInfo : UserInfo) (ns : Str)
    (access : Access) (granted : Lookups → Access → Prop) : Prop where
  nearest : granted C.lookups access ↔ Entitled C superUser userInfo ns access
  combined : granted C.lookups .readWrite ↔ granted C.lookups .read ∧ granted C.lookups .write
  failure : granted l access → granted C.lookups access

/-! ### Where the search ends -/

/-- How the search for an entry ends: a class is missing, an entry is found, or an exception is
thrown. -/
inductive Verdict where
  | free
  | entry (ci : Entry)
  | threw
  deriving DecidableEq

namespace Verdict

/-- What the end of the search means for an operation. -/
def answer (opType : Str) : Verdict → Except Thrown Unit
  | free => .ok ()
  | entry ci => ci.answer opType
  | threw => .error .other

/-- The end of the search grants an access. -/
def Allows (v : Verdict) (access : Access) : Prop := v.answer access.opType = .ok ()

/-- One class and one entry of it. -/
def ofEntry (getClass : Except Thrown Unit) (getInstance : Except Thrown Entry) : Option Verdict :=
  match getClass with
  | .error (.cim _) => some free
  | .error .other => some threw
  | .ok _ =>
    match getInstance with
    | .error (.cim _) => none
    | .error .other => some threw
    | .ok ci => some (entry ci)

/-- One level of the search. -/
def ofLevel (l : Lookups) (userName lns : Str) : Option Verdict :=
  (if userName = [] then none else ofEntry (l.userClass lns) (l.userEntry userName lns)).or
    (ofEntry (l.namespaceClass lns) (l.namespaceEntry lns))

end Verdict

/-- **The walk**: where the search ends, on the way from the namespace to the root. -/
def walk (l : Lookups) (userName lns : Str) : Option Verdict :=
  (levels lns).findSome? (Verdict.ofLevel l userName)

/-- The code follows the verdict. -/
lemma checkEntry_eq (getClass : Except Thrown Unit) (getInstance : Except Thrown Entry)
    (opType : Str) :
    checkEntry getClass getInstance opType =
      (Verdict.ofEntry getClass getInstance).map (Verdict.answer opType) := by
  rcases getClass with (_ | _) | _
  · rfl
  · rfl
  · rcases getInstance with (_ | _) | _ <;> rfl

/-- The body of the loop does not depend on the operation until the search ends. -/
lemma checkLevel_eq (l : Lookups) (userName opType lns : Str) : checkLevel l userName opType lns =
      (Verdict.ofLevel l userName lns).map (Verdict.answer opType) := by
  rw [checkLevel, Verdict.ofLevel, map_or, ← checkEntry_eq]
  split_ifs
  · rfl
  · rw [checkEntry_eq]

/-! ### The loop goes through the levels -/

/-- The namespaces above, in two parts. -/
lemma above_append (before x y : Str) :
    above before (x ++ y) = above (before ++ x) y ++ above before x := by
  induction x generalizing before with
  | nil => simp [above]
  | cons c x ih => rw [cons_append, above, ih, append_assoc, append_assoc]; rfl

/-- Nothing is above a name without `/`. -/
lemma above_eq_nil (h : '/' ∉ s) (before : Str) : above before s = [] := by
  induction s generalizing before with
  | nil => rfl
  | cons c s ih =>
    rw [mem_cons, not_or] at h
    rw [above, ih h.2, if_neg (Ne.symm h.1)]
    rfl

/-- No such character. -/
lemma lastIndexOf_eq_none (h : c ∉ s) : lastIndexOf s c = none := by
  rw [lastIndexOf, map_eq_none_iff, findIdx?_eq_none_iff]
  intro x hx
  have hne : x ≠ c := fun hxc => h (hxc ▸ mem_reverse.1 hx)
  simpa using hne

/-- The last such character. -/
lemma lastIndexOf_append {p t : Str} (h : c ∉ t) : lastIndexOf (p ++ c :: t) c = some p.length := by
  have hidx : (p ++ c :: t).reverse.findIdx? (· = c) = some t.length := by
    rw [reverse_append, reverse_cons, append_assoc, findIdx?_append,
      findIdx?_eq_none_iff.2 fun x hx => by
        have hne : x ≠ c := fun hxc => h (hxc ▸ mem_reverse.1 hx)
        simpa using hne, singleton_append, findIdx?_cons]
    simp
  rw [lastIndexOf, hidx, map_some, length_append, length_cons]
  congr 1
  omega

/-- A text with a slash, cut at the last one. -/
lemma exists_last_slash (h : '/' ∈ s) : ∃ p t, s = p ++ '/' :: t ∧ '/' ∉ t := by
  obtain ⟨a, b, hs, ha⟩ := eq_append_cons_of_mem (mem_reverse.2 h)
  refine ⟨b.reverse, a.reverse, ?_, by simpa using ha⟩
  rw [← reverse_reverse s, hs]
  simp

/-- **The levels of a namespace** are the namespace and the levels of the one above it. -/
lemma levels_eq (hslash : lns.head? ≠ some '/') : (parent? lns = none ∧ levels lns = [lns]) ∨
      ∃ up, parent? lns = some up ∧ up.head? ≠ some '/' ∧ levels lns = lns :: levels up := by
  by_cases h : '/' ∈ lns
  · obtain ⟨p, t, rfl, ht⟩ := exists_last_slash h
    obtain ⟨c, p, rfl⟩ : ∃ c q, p = c :: q := by
      cases p with
      | nil => exact absurd rfl hslash
      | cons c q => exact ⟨c, q, rfl⟩
    refine .inr ⟨c :: p, ?_, hslash, ?_⟩
    · rw [parent?, lastIndexOf_append ht]
      simp
    · rw [levels, above_append, above, above_eq_nil ht]
      rfl
  · refine .inl ⟨?_, ?_⟩
    · rw [parent?, lastIndexOf_eq_none h]
    · rw [levels, above_eq_nil h]

/-- A loop that asks at a level, and then goes one level up, is the walk. -/
lemma eq_walk {β : Type} {loop : Str → β} {l : Lookups} {f : Verdict → β} {d : β}
    (hloop : ∀ lns, loop lns = (Verdict.ofLevel l userName lns).elim
      ((parent? lns).elim d loop) f) :
    ∀ {lns : Str}, lns.head? ≠ some '/' → loop lns = (walk l userName lns).elim d f := by
  intro lns
  induction hn : lns.length using Nat.strongRecOn generalizing lns with
  | _ n ih =>
    intro hslash
    rw [hloop, walk]
    rcases levels_eq hslash with ⟨hup, hlevels⟩ | ⟨up, hup, hslash', hlevels⟩
    · rw [hlevels, hup, findSome?_cons]
      cases Verdict.ofLevel l userName lns <;> rfl
    · rw [hlevels, hup, findSome?_cons, elim_some,
        ih up.length (hn ▸ length_of_parent? hup) rfl hslash']
      cases Verdict.ofLevel l userName lns <;> rfl

/-- **The loop** of the one authorizer is the walk. -/
lemma SimpleAuthorizer2.checkLoop_eq_walk (l : Lookups) (userName opType : Str)
    (hslash : lns.head? ≠ some '/') : checkLoop l userName opType lns =
      (walk l userName lns).elim (.error (.cim .accessDenied)) fun v =>
        (v.answer opType).map fun _ => true := by
  refine eq_walk (fun lns => ?_) hslash
  rw [checkLoop, checkLevel_eq]
  cases Verdict.ofLevel l userName lns <;> cases parent? lns <;> rfl

/-- **The loop** of the other authorizer is the walk, unless the user is the super user. -/
lemma AccessMgr.checkLoop_eq_walk (l : Lookups) {superUser : Str} (op : Op)
    (hsuper : (userName ≠ [] && equalsIgnoreCase superUser userName) = false)
    (hslash : lns.head? ≠ some '/') : checkLoop l superUser userName op lns =
      (walk l userName lns).elim (.error (.cim .accessDenied))
        (Verdict.answer (getMethodType op)) := by
  refine eq_walk (fun lns => ?_) hslash
  rw [checkLoop, checkLevel_eq, hsuper]
  cases Verdict.ofLevel l userName lns <;> cases parent? lns <;> rfl

/-- A namespace that has been normalized does not start with a slash. -/
lemma head?_normalize (ns : Str) : (normalize ns).head? ≠ some '/' := by
  rw [normalize, Str.lower, head?_map]
  intro h
  obtain ⟨c, hc, hlower⟩ := map_eq_some_iff.1 h
  have hslash : c ≠ '/' := by
    rintro rfl
    have hhead := head?_dropWhile_not (fun c => decide (c = '/')) ns
    rw [hc] at hhead
    cases hhead
  have hcode : c.toLower = '/' → c = '/' := by
    intro h
    delta Char.toLower at h
    split_ifs at h with hup
    -- a capital letter becomes a letter
    · have hval : (c.val + 32).toNat = 47 := congrArg (fun c => (Char.val c).toNat) h
      have hlow : 65 ≤ c.val.toNat := UInt32.le_iff_toNat_le.1 hup.1
      have hhigh : c.val.toNat ≤ 90 := UInt32.le_iff_toNat_le.1 hup.2
      rw [UInt32.toNat_add, show (32 : UInt32).toNat = 32 from rfl] at hval
      omega
    · exact h
  exact hslash (hcode hlower)

/-! ### Grants -/

/-- The walk ends with a grant. -/
def Passes (l : Lookups) (userName ns : Str) (access : Access) : Prop :=
  ∃ v, walk l userName (normalize ns) = some v ∧ v.Allows access

/-- The access is granted to those who are exempt, and to those for whom the walk ends well. -/
lemma SimpleAuthorizer2.granted_iff (l : Lookups) (superUser : Str) (userInfo : UserInfo) (ns : Str)
    (access : Access) : checkAccess l superUser userInfo access.opType ns = .ok true ↔
      Exempt superUser userInfo ∨ Passes l userInfo.userName ns access := by
  rw [checkAccess, Exempt]
  by_cases hint : userInfo.internal
  · simp [hint]
  by_cases hsuper : userInfo.userName ≠ [] ∧ equalsIgnoreCase superUser userInfo.userName
  · simp [hsuper]
  rw [if_neg hint, if_neg (by simpa using hsuper), or_iff_right (not_or.2 ⟨hint, hsuper⟩),
    checkLoop_eq_walk _ _ _ (head?_normalize ns), Passes]
  rcases walk l userInfo.userName (normalize ns) with _ | v
  · simp
  · rcases hv : v.answer access.opType with e | ⟨⟩ <;> simp [Verdict.Allows, hv, Except.map]

/-- The calls that count as internal: those that are marked, and those of `checkAccess` itself. -/
def AccessMgr.Context.caller (context : AccessMgr.Context) : UserInfo where
  userName := context.userInfo.userName
  internal := context.userInfo.internal || context.internalCall.getD [] = ['1']

/-- Every access is that of an operation. -/
lemma AccessMgr.exists_op (access : Access) : ∃ op, AccessMgr.getMethodType op = access.opType := by
  cases access with
  | read => exact ⟨.getClass, rfl⟩
  | write => exact ⟨.createClass, rfl⟩
  | readWrite => exact ⟨.invokeMethod, rfl⟩

/-- The access is granted to those who are exempt, and to those for whom the walk ends well. -/
lemma AccessMgr.granted_iff (l : Lookups) (superUser : Str) (context : Context) (ns : Str)
    (access : Access) :
    (∀ op, getMethodType op = access.opType → (checkAccess l superUser op ns context).1 = .ok ()) ↔
      Exempt superUser context.caller ∨ Passes l context.caller.userName ns access := by
  have hop : ∀ op, getMethodType op = access.opType →
      ((checkAccess l superUser op ns context).1 = .ok () ↔
        Exempt superUser context.caller ∨ Passes l context.caller.userName ns access) := by
    intro op hop
    rw [checkAccess, Exempt, Context.caller]
    by_cases hint : context.userInfo.internal
    · simp [hint]
    by_cases hcall : context.internalCall.getD [] = ['1']
    · simp [hcall]
    rw [if_neg hint, if_neg hcall]
    by_cases hsuper : context.userInfo.userName ≠ [] ∧
      equalsIgnoreCase superUser context.userInfo.userName
    · rw [checkLoop, if_pos (by simpa using hsuper)]
      exact iff_of_true rfl (.inl (.inr hsuper))
    rw [or_iff_right (not_or.2 ⟨by simp [hint, hcall], hsuper⟩),
      checkLoop_eq_walk l op (by simpa using hsuper) (head?_normalize ns), hop, Passes]
    cases walk l context.userInfo.userName (normalize ns) <;> simp [Verdict.Allows]
  constructor
  · intro h
    obtain ⟨op, hm⟩ := exists_op access
    exact (hop op hm).1 (h op hm)
  · exact fun h op hm => (hop op hm).2 h

/-! ### Working look-ups -/

/-- **One level of the lists**: a class is missing, or the entry decides. -/
lemma Content.ofLevel_lookups (C : Content) (userName lns : Str) :
    (C.SwitchedOff userName lns → Verdict.ofLevel C.lookups userName lns = some .free) ∧
      (¬ C.SwitchedOff userName lns →
        Verdict.ofLevel C.lookups userName lns = (C.entryAt userName lns).map .entry) := by
  obtain ⟨userACL, namespaceACL⟩ := C
  have hlist {α : Type} (acl : Option α) (f : α → Option Entry) :
      Verdict.ofEntry (found (acl.map fun _ => ())) (found (acl.bind f)) =
        acl.elim (some .free) fun entries => (f entries).map .entry := by
    rcases acl with _ | entries
    · rfl
    · cases h : f entries <;> simp [found, Verdict.ofEntry, h]
  simp only [Verdict.ofLevel, SwitchedOff, entryAt, userEntryAt, lookups, hlist]
  by_cases hname : userName = []
  · cases namespaceACL <;> simp [hname]
  rcases userACL with _ | users
  · simp [hname]
  · cases hu : users userName lns <;> cases namespaceACL <;> simp [hname, hu]

/-- If a class is missing at the namespace, everything is free. -/
lemma Content.walk_of_switchedOff {C : Content} (h : C.SwitchedOff userName lns) :
    walk C.lookups userName lns = some .free := by
  rw [walk, levels, findSome?_cons, (C.ofLevel_lookups userName lns).1 h]

/-- **The walk through the lists** ends at the nearest entry.

**Proof sketch.** If there is no entry at the namespace, then the classes that are looked for exist,
so that the lists are not switched off at any level. -/
lemma Content.walk_eq_nearest {C : Content} (h : ¬ C.SwitchedOff userName lns) :
    walk C.lookups userName lns = (C.nearest userName lns).map .entry := by
  rw [walk, nearest, levels, findSome?_cons, findSome?_cons, (C.ofLevel_lookups userName lns).2 h]
  rcases hentry : C.entryAt userName lns with _ | ci
  · have hon (lv : Str) : ¬ C.SwitchedOff userName lv := by
      have huser : C.userEntryAt userName lns = none := (or_eq_none_iff.1 hentry).1
      rw [SwitchedOff, not_or] at h ⊢
      exact ⟨h.1, fun hlv => h.2 ⟨hlv.1, huser⟩⟩
    dsimp only [map_none]
    induction above [] lns with
    | nil => rfl
    | cons lv lvs ih =>
      rw [findSome?_cons, findSome?_cons, (C.ofLevel_lookups userName lv).2 (hon lv)]
      cases C.entryAt userName lv with
      | none => exact ih
      | some ci => rfl
  · rfl

/-! ### When the decisions are right -/

/-- A single letter in a text. -/
lemma singleton_infix : [c] <:+: s ↔ c ∈ s := by
  constructor
  · exact fun h => h.subset (mem_singleton_self c)
  · intro h
    obtain ⟨x, y, rfl⟩ := append_of_mem h
    exact ⟨x, y, by simp⟩

/-- For one letter the code and the capability agree. -/
lemma Verdict.allows_entry_iff {access : Access} : (entry ci).Allows access ↔ match access with
    | .readWrite => ci.text = ['r', 'w'] ∨ ci.text = ['w', 'r']
    | access => ci.Grants access := by
  cases access <;>
    simp [Allows, answer, Entry.answer, Entry.allows, Access.opType, Entry.Grants, singleton_infix,
      or_iff_not_imp_left]

/-- What the code allows, the capability has the letters for. -/
lemma Entry.grants_readWrite (h : ci.text = ['r', 'w'] ∨ ci.text = ['w', 'r']) :
    ci.Grants .read ∧ ci.Grants .write := by
  simp only [Grants]
  rcases h with h | h <;> rw [h] <;> simp

/-- **The decisions are right in this case**: the user is exempt, or
* if the lists are switched off at the namespace, the user is entitled to the access all the same;
* otherwise the nearest entry, if its capability has both letters, has nothing else. -/
def Clear (C : Content) (superUser : Str) (userInfo : UserInfo) (ns : Str)
    (access : Access) : Prop :=
  Exempt superUser userInfo ∨
    (C.SwitchedOff userInfo.userName (normalize ns) → Entitled C superUser userInfo ns access) ∧
    (¬ C.SwitchedOff userInfo.userName (normalize ns) →
      ∀ ci, C.nearest userInfo.userName (normalize ns) = some ci → ci.Grants .readWrite →
        ci.text = ['r', 'w'] ∨ ci.text = ['w', 'r'])

section Decisions

variable {C : Content} {l : Lookups}

/-- A look-up whose failures are not swallowed answers what the lists say, or its exception gets
through. -/
lemma eq_or_other {α : Type} {actual expected : Except Thrown α}
    (h : actual = expected ∨ Fails actual)
    (hworks : ¬ Swallowed actual) : actual = expected ∨ actual = .error .other := by
  refine h.imp_right ?_
  rintro ⟨_ | _, habsent, rfl⟩
  · exact (hworks ⟨_, habsent, rfl⟩).elim
  · rfl

/-- A failed look-up shows in the verdict. -/
lemma ofEntry_eq_or {getClass getClass' : Except Thrown Unit}
    {getInstance getInstance' : Except Thrown Entry}
    (hc : getClass = getClass' ∨ getClass = .error .other)
    (hi : getInstance = getInstance' ∨ getInstance = .error .other) :
    Verdict.ofEntry getClass getInstance = Verdict.ofEntry getClass' getInstance' ∨
      Verdict.ofEntry getClass getInstance = some .threw := by
  rcases hc with rfl | rfl
  · rcases hi with rfl | rfl
    · exact .inl rfl
    · rcases getClass with (_ | _) | _ <;> simp [Verdict.ofEntry]
  · exact .inr rfl

/-- Where no failure is swallowed, the level is that of the lists, or an exception gets through. -/
lemma Lookups.Disturb.ofLevel_eq (h : l.Disturb C) (hworks : ¬ l.FailsAt C userName lns) :
    Verdict.ofLevel l userName lns = Verdict.ofLevel C.lookups userName lns ∨
      Verdict.ofLevel l userName lns = some .threw := by
  rw [FailsAt, not_or, not_and, not_and, not_or, not_or] at hworks
  obtain ⟨huser, hspace⟩ := hworks
  rw [Verdict.ofLevel, Verdict.ofLevel]
  have husers (hname : userName ≠ []) :=
    ofEntry_eq_or (eq_or_other (h.userClass lns) (huser hname).1)
    (eq_or_other (h.userEntry userName lns) (huser hname).2)
  rcases hentry : C.userEntryAt userName lns with _ | ci
  -- the default entry is looked for
  · have hspaces := ofEntry_eq_or (eq_or_other (h.namespaceClass lns) (hspace hentry).1)
      (eq_or_other (h.namespaceEntry lns) (hspace hentry).2)
    split_ifs with hname
    · simpa using hspaces
    · rcases husers hname with heq | heq <;> rw [heq]
      · cases Verdict.ofEntry (C.lookups.userClass lns) (C.lookups.userEntry userName lns) with
        | none => simpa using hspaces
        | some v => exact .inl rfl
      · exact .inr rfl
  -- the entry of the user decides
  · rw [Content.userEntryAt] at hentry
    split_ifs at hentry with hname
    obtain ⟨users, hacl, hci⟩ := bind_eq_some_iff.1 hentry
    have hC : Verdict.ofEntry (C.lookups.userClass lns) (C.lookups.userEntry userName lns) =
        some (.entry ci) := by
      simp [Content.lookups, Content.found, Verdict.ofEntry, hacl, hci]
    rw [if_neg hname, if_neg hname]
    rcases husers hname with heq | heq <;> rw [heq]
    · rw [hC]
      exact .inl rfl
    · exact .inr rfl

/-- **Where no failure is swallowed, the walk is that of the lists**, or an exception gets
through. -/
lemma Lookups.Disturb.walk_eq (h : l.Disturb C) (hworks : l.Work C userName lns) :
    walk l userName lns = walk C.lookups userName lns ∨ walk l userName lns = some .threw := by
  rw [walk, walk]
  rw [Work] at hworks
  generalize levels lns = lvs at hworks
  induction lvs with
  | nil => exact .inl rfl
  | cons lv lvs ih =>
    rw [findSome?_cons, findSome?_cons]
    rcases h.ofLevel_eq (hworks [] lv lvs rfl (by simp)) with hlv | hlv <;> rw [hlv]
    · rcases hC : Verdict.ofLevel C.lookups userName lv with _ | v
      · refine ih fun pre lv' post hsplit hpre =>
          hworks (lv :: pre) lv' post (by rw [hsplit]; rfl) ?_
        refine forall_mem_cons.2 ⟨?_, hpre⟩
        by_cases hoff : C.SwitchedOff userName lv
        · rw [(C.ofLevel_lookups userName lv).1 hoff] at hC
          cases hC
        · rw [(C.ofLevel_lookups userName lv).2 hoff] at hC
          exact map_eq_none_iff.1 hC
      · exact .inl rfl
    · exact .inr rfl

variable {superUser : Str} {userInfo : UserInfo} {ns : Str} {access : Access}
  {granted : Lookups → Access → Prop}

/-- An authorizer that decides by the walk, for a user who is not exempt: with working look-ups the
decisions are right iff the case is clear. -/
lemma nearest_combined_iff (hout : ¬ Exempt superUser userInfo)
    (hgranted : ∀ access, granted C.lookups access ↔ Passes C.lookups userInfo.userName ns access) :
    ((granted C.lookups access ↔ Entitled C superUser userInfo ns access) ∧
        (granted C.lookups .readWrite ↔ granted C.lookups .read ∧ granted C.lookups .write)) ↔
      Clear C superUser userInfo ns access := by
  rw [Clear, or_iff_right hout]
  simp only [hgranted, Passes]
  by_cases hoff : C.SwitchedOff userInfo.userName (normalize ns)
  -- a class is missing: everything is granted
  · have hall : ∀ access, Verdict.free.Allows access := fun _ => rfl
    simp [C.walk_of_switchedOff hoff, hall, hoff]
  · have hsome : ¬ (C.userACL = none ∧ C.namespaceACL = none) := by
      rintro ⟨huser, hspace⟩
      refine hoff (.inr ⟨hspace, ?_⟩)
      rw [Content.userEntryAt, huser, bind_none, ite_self]
    simp only [C.walk_eq_nearest hoff, Entitled, hout, hsome, hoff, false_or, not_false_eq_true,
      false_imp_iff, true_and, true_imp_iff]
    rcases C.nearest userInfo.userName (normalize ns) with _ | ci
    -- there is no entry: everything is refused
    · simp
    -- the nearest entry decides
    · have hboth := @Entry.grants_readWrite ci
      simp only [map_some, some.injEq, exists_eq_left', Verdict.allows_entry_iff, forall_eq']
      cases access <;> simp only [Entry.Grants] at hboth ⊢ <;> tauto

/-- **When the decisions are right**, for an authorizer that decides by the walk. -/
lemma right_iff_clear (hdist : l.Disturb C) (hgranted : ∀ l access, granted l access ↔
      Exempt superUser userInfo ∨ Passes l userInfo.userName ns access)
    (hworks : Entitled C superUser userInfo ns access ∨ l.Work C userInfo.userName (normalize ns)) :
    Right C l superUser userInfo ns access granted ↔ Clear C superUser userInfo ns access := by
  by_cases hex : Exempt superUser userInfo
  · have hall : ∀ l access, granted l access := fun l access => (hgranted l access).2 (.inl hex)
    exact ⟨fun _ => .inl hex, fun _ => ⟨⟨fun _ => .inl hex, fun _ => hall _ _⟩,
      ⟨fun _ => ⟨hall _ _, hall _ _⟩, fun _ => hall _ _⟩, fun _ => hall _ _⟩⟩
  have hwalk : ∀ l access, granted l access ↔ Passes l userInfo.userName ns access :=
    fun l access => (hgranted l access).trans (or_iff_right hex)
  rw [← nearest_combined_iff hex (hwalk C.lookups)]
  constructor
  · exact fun h => ⟨h.nearest, h.combined⟩
  · rintro ⟨hnear, hboth⟩
    refine ⟨hnear, hboth, fun h => ?_⟩
    rcases hworks with hentitled | hworks
    · exact hnear.2 hentitled
    · obtain ⟨v, hv, hallows⟩ := (hwalk _ _).1 h
      rcases hdist.walk_eq hworks with heq | heq <;> rw [heq] at hv
      · exact (hwalk _ _).2 ⟨v, hv, hallows⟩
      -- an exception that gets through grants nothing
      · cases hv
        cases hallows

end Decisions

/-- Lists with one entry, which lets a user read below `root`. -/
def oneEntry (capability : Str) : Content where
  userACL := some fun userName lns =>
    if userName = ['u'] ∧ lns = ['r', 'o', 'o', 't'] then some ⟨some capability⟩ else none
  namespaceACL := some fun _ => none

/-- The user of the examples. -/
def someUser : UserInfo := ⟨['u'], false⟩

/-- A namespace below `root`. -/
def someNs : Str := ['/', 'r', 'o', 'o', 't', '/', 'a']

/-- Look-ups that never fail. -/
lemma disturb_lookups (C : Content) : C.lookups.Disturb C :=
  ⟨fun _ => .inl rfl, fun _ _ => .inl rfl, fun _ => .inl rfl, fun _ => .inl rfl⟩

/-- Look-ups that work never fail. -/
lemma work_lookups (C : Content) (userName lns : Str) : C.lookups.Work C userName lns := by
  have hfound {α : Type} (x : Option α) : ¬ Swallowed (Content.found x) := by
    rintro ⟨e, habsent, he⟩
    cases x <;> cases he
    cases habsent
  rintro pre lv post - - (⟨-, h | h⟩ | ⟨-, h | h⟩) <;> exact hfound _ h

/-- The look-up of the class fails. -/
def failingClass (C : Content) : Lookups :=
  { C.lookups with userClass := fun _ => .error (.cim .failed) }

/-- A look-up that fails. -/
lemma disturb_failingClass (C : Content) : (failingClass C).Disturb C :=
  ⟨fun _ => .inr ⟨_, rfl, rfl⟩, fun _ _ => .inl rfl, fun _ => .inl rfl, fun _ => .inl rfl⟩

end Acl

end OpenWbem
