import OpenWbem.Authorizers.AccessControl
import OpenWbem.Base.Prog

/-!
# Compiling a class declaration

The compiler asks the server to create a class that is declared in a MOF file. If something that the
class needs is missing, it creates the namespace or compiles the files of the missing classes, and
asks again. Each of the three repairs is made once at most, and after the third one the loop ends
without another attempt.

## Main definitions

* `processClass` — `CIMOMVisitor::CIMOMprocessClass`, without removal of objects.

## Main results

* `processClass_accounted_iff` — **when a declaration is lost silently.**
-/

namespace OpenWbem.Mof

open Prog List Acl

/-- What the compiler reads of a class. -/
structure ClassDecl where
  superClass : Str
  refClasses : List Str

/-- What the compiler asks the server for, and the compilation of the file of a class. -/
inductive Call where
  | createClass (c : ClassDecl)
  | modifyClass (c : ClassDecl)
  | getClass (className : Str)
  | createNameSpace
  | compileDep (className : Str)

/-- What the compiler makes up for. -/
inductive Repair where
  | nameSpace
  | references
  | superClass
  deriving DecidableEq

/-- The options of the compiler, and whether the error handler aborts after an error. -/
structure Options where
  createNamespaces : Bool
  depSearchDir : Bool
  abort : Bool

/-- The repair that an exception asks for, if the options allow it. -/
def Options.repair (opts : Options) : Thrown → Option Repair
  | .cim .invalidNamespace => if opts.createNamespaces then some .nameSpace else none
  | .cim .invalidParameter => if opts.depSearchDir then some .references else none
  | .cim .invalidSuperclass => if opts.depSearchDir then some .superClass else none
  | _ => none

/-- The state of a visit: that of the server, the repairs that have been made, whether the class has
been stored, and whether an error has been reported. -/
structure Visit (S : Type) where
  server : S
  fixed : List Repair
  stored : Bool
  reported : Bool

variable {S : Type} (run : Call → Prog S Thrown Unit) (opts : Options) (c : ClassDecl)

/-- A call, in the state of a visit. -/
def visit (x : Prog S Thrown Unit) : Prog (Visit S) Thrown Unit :=
  zoom ⟨Visit.server, fun s v => { v with server := s }, fun _ _ => rfl, fun _ => rfl⟩ x

/-- One of the repairs. -/
def mend : Repair → Prog S Thrown Unit
  | .nameSpace => run .createNameSpace
  | .references => c.refClasses.forM fun r => tryCatch (run (.getClass r)) fun e =>
      match e with
      | .cim .notFound => run (.compileDep r)
      | .cim _ => pure ⟨⟩
      | .other => throw .other
  | .superClass => run (.compileDep c.superClass)

/-- A call that stores the class. -/
def store (x : Call) : Prog (Visit S) Thrown Unit := do
  visit (run x)
  modify fun v => { v with stored := true }

/-- The loop of `CIMOMprocessClass`, where `n` is the number of repairs that are left. -/
def classLoop : ℕ → Prog (Visit S) Thrown Unit
  | 0 => pure ⟨⟩
  | n + 1 => tryCatch (store run (.createClass c)) fun e => do
      let v ← get
      match opts.repair e with
      | some r =>
        if r ∈ v.fixed then throw e
        visit (mend run c r)
        modify fun v => { v with fixed := r :: v.fixed }
        classLoop n
      | none => throw e

/-- An error is reported. -/
def report (abort : Bool) : Prog (Visit S) Thrown Unit := do
  modify fun v => { v with reported := true }
  when abort (throw .other)

/-- `CIMOMVisitor::CIMOMprocessClass` -/
def processClass : Prog (Visit S) Thrown Unit :=
  tryCatch (classLoop run opts c 3) fun e =>
    match e with
    | .cim .alreadyExists => tryCatch (store run (.modifyClass c)) fun e =>
        match e with
        | .cim _ => report opts.abort
        | .other => throw .other
    | .cim _ => report true
    | .other => throw .other

/-- The server refuses the class with an exception that asks for a repair, and the repair is
made. -/
def Demands (s : S) (r : Repair) (s' : S) : Prop :=
  ∃ e s₁, exec (run (.createClass c)) s = (.error e, s₁) ∧ opts.repair e = some r ∧
    exec (mend run c r) s₁ = (.ok ⟨⟩, s')

/-- One after the other, the server demands `n` repairs that are different from each other and from
those in the list. -/
def DemandsMore : ℕ → List Repair → S → Prop
  | 0, _, _ => True
  | n + 1, fixed, s =>
    ∃ r s', r ∉ fixed ∧ Demands run opts c s r s' ∧ DemandsMore n (r :: fixed) s'

variable {run opts c}

/-- A server that accepts the class demands nothing. -/
lemma not_demandsMore_of_ok {n : ℕ} {fixed : List Repair} {s s₁ : S} {u : Unit}
    (hs : exec (run (.createClass c)) s = (.ok u, s₁)) :
    ¬ DemandsMore run opts c (n + 1) fixed s := by
  rintro ⟨r, s', -, ⟨e, s₂, he, -⟩, -⟩
  rw [hs] at he
  cases he

/-- What is demanded after an exception. -/
lemma demandsMore_of_error {n : ℕ} {fixed : List Repair} {s s₁ : S} {e : Thrown}
    (hs : exec (run (.createClass c)) s = (.error e, s₁)) :
    DemandsMore run opts c (n + 1) fixed s ↔
      ∃ r s', opts.repair e = some r ∧ r ∉ fixed ∧ exec (mend run c r) s₁ = (.ok ⟨⟩, s') ∧
        DemandsMore run opts c n (r :: fixed) s' := by
  constructor
  · rintro ⟨r, s', hr, ⟨e', s₂, he, hopt, hmend⟩, hmore⟩
    rw [hs] at he
    cases he
    exact ⟨r, s', hopt, hr, hmend, hmore⟩
  · rintro ⟨r, s', hopt, hr, hmend, hmore⟩
    exact ⟨r, s', hr, ⟨e, s₁, hs, hopt, hmend⟩, hmore⟩

/-- **The loop** forgets the class if as many repairs are demanded as are left, and only then.

**Proof sketch.** Induction on the number of repairs that are left. -/
lemma classLoop_spec {n : ℕ} {v : Visit S} (hst : v.stored = false) (hrep : v.reported = false) :
    match exec (classLoop run opts c n) v with
    | (.ok _, u) =>
      u.reported = false ∧ (u.stored = false ↔ DemandsMore run opts c n v.fixed v.server)
    | (.error _, u) => u.reported = false ∧ ¬ DemandsMore run opts c n v.fixed v.server := by
  induction n generalizing v with
  | zero => exact ⟨hrep, iff_of_true hst trivial⟩
  | succ n ih =>
    rw [classLoop, exec_tryCatch, store, visit, exec_bind, exec_zoom]
    rcases hs : exec (run (.createClass c)) v.server with ⟨e | _, s⟩
    · rw [demandsMore_of_error hs]
      dsimp only
      rw [exec_get_bind]
      rcases hr : opts.repair e with _ | r
      · exact ⟨hrep, by simp⟩
      · dsimp only
        split_ifs with hfixed
        · exact ⟨hrep, by rintro ⟨_, _, ⟨⟩, hr, -⟩; exact hr hfixed⟩
        · rw [visit, exec_bind, exec_zoom]
          rcases hmend : exec (mend run c r) s with ⟨e' | _, s'⟩
          · exact ⟨hrep, by rintro ⟨_, _, ⟨⟩, -, h, -⟩; rw [hmend] at h; cases h⟩
          · have hiff : (∃ r' s'', some r = some r' ∧ r' ∉ v.fixed ∧
                exec (mend run c r') s = (.ok ⟨⟩, s'') ∧
                  DemandsMore run opts c n (r' :: v.fixed) s'') ↔
                DemandsMore run opts c n (r :: v.fixed) s' := by
              constructor
              · rintro ⟨_, _, ⟨⟩, -, h, hmore⟩
                rw [hmend] at h
                cases h
                exact hmore
              · exact fun hmore => ⟨r, s', rfl, hfixed, hmend, hmore⟩
            rw [hiff]
            exact ih (v := ⟨s', r :: v.fixed, v.stored, v.reported⟩) hst hrep
    · exact ⟨hrep, iff_of_false (by simp) (not_demandsMore_of_ok hs)⟩

/-- **When a declaration is lost silently.** If the processing of a class declaration returns, then
the class has been stored or an error has been reported, unless the server demands all three
repairs, one after the other, and all of them can be made.

**Proof sketch.** After an exception of the loop, the class is stored by the other call or an error
is reported. -/
theorem processClass_accounted_iff (s : S) {v : Visit S}
    (h : exec (processClass run opts c) ⟨s, [], false, false⟩ = (.ok ⟨⟩, v)) :
    v.stored ∨ v.reported ↔ ¬ DemandsMore run opts c 3 [] s := by
  have hloop : match exec (classLoop run opts c 3) ⟨s, [], false, false⟩ with
      | (.ok _, u) => u.reported = false ∧ (u.stored = false ↔ DemandsMore run opts c 3 [] s)
      | (.error _, u) => u.reported = false ∧ ¬ DemandsMore run opts c 3 [] s :=
    classLoop_spec rfl rfl
  rw [processClass, exec_tryCatch] at h
  rcases hx : exec (classLoop run opts c 3) _ with ⟨e | _, u⟩ <;> rw [hx] at h hloop
  · obtain ⟨-, hnot⟩ := hloop
    refine iff_of_true ?_ hnot
    dsimp only at h
    split at h
    · rw [exec_tryCatch, store, visit, exec_bind, exec_zoom] at h
      rcases hy : exec (run (.modifyClass c)) u.server with ⟨(_ | _) | _, s'⟩ <;>
        simp only [hy] at h
      · rcases hab : opts.abort <;> rw [hab] at h <;> cases h
        exact .inr rfl
      · cases h
      · cases h
        exact .inl rfl
    all_goals cases h
  · cases h
    obtain ⟨hrep, hst⟩ := hloop
    rw [← hst, hrep]
    simp

/-- A server for which one thing after the other is missing, as often as the state says. -/
def forgetful : Call → Prog (List ErrNoType) Thrown Unit
  | .createClass _ => do
    match ← get with
    | [] => pure ⟨⟩
    | e :: s =>
      set s
      throw (.cim e)
  | _ => pure ⟨⟩

/-- A namespace and two classes are missing: the class is forgotten after the third repair. -/
theorem processClass_lost :
    exec (processClass forgetful ⟨true, true, false⟩ ⟨['p'], [['r']]⟩)
      ⟨[.invalidNamespace, .invalidParameter, .invalidSuperclass], [], false, false⟩ =
        (.ok ⟨⟩, ⟨[], [.superClass, .references, .nameSpace], false, false⟩) := rfl

/-- A namespace is missing: the class is stored after it has been created. -/
theorem processClass_stored :
    ∃ v, exec (processClass forgetful ⟨true, true, false⟩ ⟨['p'], [['r']]⟩)
        ⟨[.invalidNamespace], [], false, false⟩ = (.ok ⟨⟩, v) ∧
      (v.stored ∨ v.reported ↔
        ¬ DemandsMore forgetful ⟨true, true, false⟩ ⟨['p'], [['r']]⟩ 3 [] [.invalidNamespace]) :=
  ⟨⟨[], [.nameSpace], true, false⟩, rfl, processClass_accounted_iff _ rfl⟩

end OpenWbem.Mof
