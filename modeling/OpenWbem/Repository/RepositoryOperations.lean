import OpenWbem.Repository.CIMRepository
import OpenWbem.Repository.MetaOperations

/-!
# Operations on the repository

The operations of a client on the repository, and what they do to the schema store: they only work
on it with the operations of the schema store.

## Main definitions

* `RepoOp` — the operations of a client, and `RepoOp.step`, what they do.

## Main results

* `CIMRepository.keeps_createClass`, `CIMRepository.ensures_modifyClass` — what creating and
  modifying a class does to the schema store.
-/

namespace OpenWbem

open Prog Keeps

variable {V : Type}

/-- What a client of the repository can do with namespaces, qualifier types and classes. -/
inductive RepoOp (V : Type) where
  | createNameSpace (ns : Str)
  | deleteNameSpace (ns : Str)
  | setQualifierType (ns : Str) (qt : CIMQualifierType V)
  | deleteQualifierType (ns : Str) (qualName : CIMName)
  | getClass (ns : Str) (className : CIMName) (req : MetaRepository.ClassRequest)
  | enumClasses (ns : Str) (className : CIMName) (deep : Bool) (f : CIMClass.Filter)
  | createClass (ns : Str) (cimClass : CIMClass V)
  | modifyClass (ns : Str) (cimClass : CIMClass V)
  | deleteClass (ns : Str) (className : CIMName)

namespace RepoOp

/-- The namespace of an operation. -/
def ns : RepoOp V → Str
  | createNameSpace ns | deleteNameSpace ns | setQualifierType ns _ | deleteQualifierType ns _
  | getClass ns _ _ | enumClasses ns _ _ _ | createClass ns _ | modifyClass ns _
  | deleteClass ns _ => ns

/-- The state after an operation, which may have ended with an exception. -/
def step [CIMValue V] (op : RepoOp V) (s : CIMRepository V) : CIMRepository V :=
  match op with
  | createNameSpace ns => (exec (CIMRepository.createNameSpace ns) s).2
  | deleteNameSpace ns => (exec (CIMRepository.deleteNameSpace ns) s).2
  | setQualifierType ns qt => (exec (CIMRepository.setQualifierType ns qt) s).2
  | deleteQualifierType ns qualName => (exec (CIMRepository.deleteQualifierType ns qualName) s).2
  | getClass ns className req => (exec (CIMRepository.getClass ns className req) s).2
  | enumClasses ns className deep f =>
    (exec (CIMRepository.enumClasses ns className (fun _ => pure ⟨⟩) deep f) s).2
  | createClass ns cimClass => (exec (CIMRepository.createClass ns cimClass) s).2
  | modifyClass ns cimClass => (exec (CIMRepository.modifyClass ns cimClass) s).2
  | deleteClass ns className => (exec (CIMRepository.deleteClass ns className) s).2

end RepoOp

namespace CIMRepository

variable {I J : MetaRepository V → Prop} {Q : CIMRepository V → Prop} {ns : Str}

variable {α : Type} {className : CIMName} {c : CIMClass V}

/-- The translation of exceptions does not change the state. -/
lemma ensures_translate {x : RepoM V α} {P : CIMRepository V → Prop}
    (h : Ensures P x fun _ s => Q s) : Ensures P (translate x) fun _ s => Q s := by
  intro s hs
  have hs' := h s hs
  rw [translate, exec_tryCatch]
  rcases hx : exec x s with ⟨e | v, t⟩ <;> rw [hx] at hs'
  · cases e <;> exact hs'
  · exact hs'

/-- Programs on the schema store, as programs on the repository. -/
lemma ensures_schema {x : MetaM V α} {Q : Except CIMException α → MetaRepository V → Prop}
    (h : Ensures I x Q) :
    Ensures (fun s : CIMRepository V => I s.mStore) (zoom schema x) fun r s => Q r s.mStore :=
  Ensures.zoom (L := schema) h

/-- A property of repositories that does not depend on the store of the namespaces and on that of
the instances. -/
structure Indifferent (Q : CIMRepository V → Prop) : Prop where
  names : ∀ x s, Q s → Q (names.set x s)
  instances : ∀ x s, Q s → Q (instances.set x s)

/-- **Creating a namespace.** -/
lemma keeps_createNameSpace (hQ : Indifferent Q)
    (h : ':' ∉ ns → Keeps Q (zoom schema (MetaRepository.createNameSpace ns))) :
    Keeps Q (createNameSpace ns) := by
  have hnames : ∀ {α : Type} (x : StoreM Unit α), Keeps Q (zoom names x) := .zoom_of_indep hQ.names
  have hinst : ∀ {α : Type} (x : StoreM (CIMInstance V) α), Keeps Q (zoom instances x) :=
    .zoom_of_indep hQ.instances
  rw [createNameSpace]
  split_ifs with hne hsep
  · exact .throw _
  · exact .throw _
  refine (hnames _).bind fun r => ?_
  split_ifs
  · exact .throw _
  refine (hinst _).bind fun r => ?_
  split_ifs
  · exact (hnames _).bind fun _ => .throw _
  refine bind (h hsep) fun r => ?_
  split_ifs
  · exact (hnames _).bind fun _ => (hinst _).bind fun _ => .throw _
  · exact .pure _

/-- **Deleting a namespace.** -/
lemma keeps_deleteNameSpace (hQ : Indifferent Q)
    (h : Keeps Q (zoom schema (MetaRepository.deleteNameSpace ns))) :
    Keeps Q (deleteNameSpace ns) := by
  rw [deleteNameSpace]
  split_ifs
  · exact .throw _
  · exact (zoom_of_indep hQ.names _).bind fun _ =>
      (zoom_of_indep hQ.instances _).bind fun _ => h

/-- **Deleting a qualifier type.** -/
lemma keeps_deleteQualifierType {qualName : CIMName}
    (h : Keeps Q (zoom schema (MetaRepository.deleteQualifierType ns qualName))) :
    Keeps Q (deleteQualifierType ns qualName) := by
  rw [deleteQualifierType]
  refine bind h fun found => ?_
  split_ifs
  · exact .pure _
  · refine .get_bind fun s hs => ?_
    split_ifs <;> exact hs

variable [CIMValue V]

omit [CIMValue V] in
/-- The check of an answer. -/
lemma keeps_checkGetClass (className : CIMName) (c : Option (CIMClass V)) :
    Keeps Q (checkGetClass ns className c) := by
  rcases c with _ | c
  · rw [checkGetClass]
    refine .get_bind fun s hs => ?_
    split_ifs <;> exact hs
  · exact .pure _

/-- Reading a class. -/
lemma keeps_getWholeClass
    (h : Keeps Q (zoom schema (MetaRepository.getCIMClass ns className .whole))) :
    Keeps Q (getWholeClass ns className) :=
  bind h fun c => keeps_checkGetClass className c

/-- **Asking for a class.** -/
lemma keeps_getClass {req : MetaRepository.ClassRequest}
    (h : Keeps Q (zoom schema (MetaRepository.getCIMClass ns className req))) :
    Keeps Q (getClass ns className req) :=
  ensures_translate (bind h fun c => keeps_checkGetClass className c)

/-- Checking the references. -/
lemma keeps_checkReferences
    (h : ∀ className, Keeps Q (zoom schema (MetaRepository.getCIMClass ns className .whole)))
    (props : List (CIMProperty V)) : Keeps Q (checkReferences ns props) := by
  induction props with
  | nil => exact .pure _
  | cons prop props ih =>
    rw [checkReferences]
    rcases prop.dataType with refClassName | type
    · refine bind (.tryCatch ((keeps_getWholeClass (h _)).bind fun _ => .pure _) fun e => ?_)
        fun _ => ih
      split <;> exact .throw _
    · exact ih

/-! ### The schema store -/

omit [CIMValue V] in
/-- What is known of the schema store only. -/
lemma indifferent_schema : Indifferent fun s : CIMRepository V => I s.mStore :=
  ⟨fun _ _ hs => hs, fun _ _ hs => hs⟩

/-- **Creating a class.** -/
lemma keeps_createClass
    (hread : ∀ className, Keeps I (MetaRepository.getCIMClass ns className .whole))
    (hcreate : Keeps I (MetaRepository.createClass ns c)) :
    Keeps (fun s : CIMRepository V => I s.mStore) (createClass ns c) := by
  refine ensures_translate (bind (keeps_checkReferences (fun className =>
    ensures_schema (hread className)) _) fun _ => ?_)
  refine bind (ensures_schema hcreate) fun c' =>
    (zoom_of_indep indifferent_schema.instances _).bind fun _ => ?_
  exact (keeps_getWholeClass (ensures_schema (hread _))).bind fun c'' =>
    .when (.zoom_of_indep (fun _ _ hs => hs) _)

/-- **Modifying a class.** -/
lemma ensures_modifyClass (hIJ : ∀ s, I s → J s)
    (hread : Keeps I (MetaRepository.getCIMClass ns c.name .whole))
    (hmodify : Ensures I (MetaRepository.modifyClass ns c) fun _ s => J s) :
    Ensures (fun s : CIMRepository V => I s.mStore) (modifyClass ns c) fun _ s => J s.mStore := by
  refine ensures_translate (Ensures.bind (keeps_getWholeClass (ensures_schema hread))
    (fun orig => ?_)
    fun _ _ hs => hIJ _ hs)
  split_ifs
  · exact .throw fun s hs => hIJ _ hs
  · exact (ensures_schema hmodify).bind (fun _ => .pure fun _ hs => hs) fun _ _ hs => hs

end CIMRepository

end OpenWbem
