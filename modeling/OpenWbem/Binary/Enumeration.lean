import OpenWbem.Binary.Levels
import Mathlib.Data.List.Forall2

/-!
# Enumerations

A list of objects is sent as a begin signature, the objects, and an end signature, which is sent
twice. `readEnum` reads object after object and hands each of them to a handler. It takes an
exception for a bad signature as a sign that there are no more objects, and then expects the end
signature.

The exception may come from anywhere: from the first byte of an object, which is then the first of
the two end signatures, but also from the inside of an object that is damaged, and from the handler.
If the next byte happens to be the end signature, then the list is reported as complete.

## Main definitions

* `Binary.readEnum` — reading an enumeration.
* `Binary.Complete` — what it means that the objects handed to the handler are all objects.
* `Binary.Damaged` — where the end of the list is taken to be, it is not.
* `EnumKind` — the five kinds of enumerations.

## Main results

* `Binary.readLoop_complete_iff` — the objects are complete, unless there is damage.
* `Binary.readLoop_of_damaged` — damage goes unnoticed.
* `Binary.readEnum_complete_iff` — the two directions together, and that lists are read back.
-/

namespace OpenWbem

open Prog Reader List ObjKind Nat

variable {s : List UInt8}

namespace Binary

/-- The state while an enumeration is read: the stream, the objects that the handler has been given,
and the state of the handler. -/
structure EnumState (α σ : Type) where
  stream : List UInt8
  handed : List α
  handler : σ

section Loop

variable {α σ : Type}

/-- The stream. -/
def EnumState.streamLens : Lens (EnumState α σ) (List UInt8) :=
  ⟨stream, fun s st => { st with stream := s }, fun _ _ => rfl, fun _ => rfl⟩

/-- The state of the handler. -/
def EnumState.handlerLens : Lens (EnumState α σ) σ :=
  ⟨handler, fun h st => { st with handler := h }, fun _ _ => rfl, fun _ => rfl⟩

variable (read : Reader ReadError α) (handle : α → Prog σ ReadError Unit) (beginsig endsig : UInt8)

/-- The handler of exceptions in `readEnum`; the result is `done`. -/
def caught (e : ReadError) : Prog (EnumState α σ) ReadError Bool :=
  if e = .badSignature then do
    zoom EnumState.streamLens (readSig endsig)
    pure true
  else throw e

/-- The body of the loop of `readEnum`; the result is `done`. -/
def readStep : Prog (EnumState α σ) ReadError Bool :=
  tryCatch
    (do
      let x ← zoom EnumState.streamLens read
      modify fun st => { st with handed := st.handed ++ [x] }
      zoom EnumState.handlerLens (handle x)
      pure false)
    (caught endsig)

/-- The loop of `readEnum`. -/
def readLoop : ℕ → Prog (EnumState α σ) ReadError Unit
  | 0 => throw .tooDeep
  | fuel + 1 => do
    let done ← readStep read handle endsig
    if done then pure ⟨⟩ else readLoop fuel

/-- `readEnum`. Each object is at least one byte long, which bounds the loop. -/
def readEnum : Prog (EnumState α σ) ReadError Unit := do
  zoom EnumState.streamLens (readSig beginsig)
  let st ← get
  readLoop read handle endsig (st.stream.length + 1)

/-- The stream begins with the encodings of the objects, which are followed by the end signature,
and the handler, in the state `h`, has handled each of them. The encodings of an object are all
those that the reader accepts. -/
def Complete (s : List UInt8) (h : σ) (l : List α) (h' : σ) : Prop :=
  (∃ bs rest, s = bs.flatten ++ endsig :: rest ∧ List.Forall₂ (Reads read) bs l) ∧
    exec (l.forM handle) h = (.ok ⟨⟩, h')

/-- A bad signature is met, and the end signature behind it, in one of two wrong places: in an
object, or in the handler. -/
inductive Damaged : List UInt8 → σ → Prop
  /-- The object does not begin with the end signature. -/
  | object {s t h} : exec read s = (.error .badSignature, endsig :: t) → s.head? ≠ some endsig →
      Damaged s h
  /-- The handler throws. -/
  | handler {s t x h h'} : exec read s = (.ok x, endsig :: t) →
      exec (handle x) h = (.error .badSignature, h') → Damaged s h
  /-- There is damage after an object that has been handled. -/
  | later {s t x h h'} : exec read s = (.ok x, t) → exec (handle x) h = (.ok ⟨⟩, h') →
      Damaged t h' → Damaged s h

variable {read handle beginsig endsig}

/-! ### One iteration -/

/-- Running `readSig`. -/
lemma exec_readSig (c : UInt8) (s : List UInt8) : exec (readSig c) s = match s with
      | [] => (.error .io, [])
      | x :: s => if x = c then (.ok ⟨⟩, s) else (.error .badSignature, s) := by
  cases s with
  | nil => rfl
  | cons x s =>
    have hbyte : exec readByte (x :: s) = (.ok x, s) := reads_byte x s
    rw [readSig, exec_bind_of_ok hbyte]
    dsimp only
    split_ifs <;> rfl

variable (st : EnumState α σ)

/-- A bad signature ends the loop, if the end signature is next. -/
lemma exec_caught_bad (h : st.stream.head? = some endsig) :
    exec (caught endsig .badSignature) st = (.ok true, { st with stream := st.stream.tail }) := by
  obtain ⟨_ | ⟨x, s⟩, acc, σ₀⟩ := st
  · cases h
  · obtain rfl : x = endsig := Option.some.inj h
    refine (exec_bind_of_ok (v := ⟨⟩) (t := ⟨s, acc, σ₀⟩) ?_).trans rfl
    rw [exec_zoom]
    simp only [EnumState.streamLens, exec_readSig, if_true]

/-- Only a bad signature in front of an end signature ends the loop. -/
lemma of_exec_caught {e : ReadError} {st st' : EnumState α σ} {done : Bool}
    (h : exec (caught endsig e) st = (.ok done, st')) :
    e = .badSignature ∧ st.stream.head? = some endsig ∧ done ∧
      st' = { st with stream := st.stream.tail } := by
  by_cases he : e = .badSignature
  · subst he
    by_cases hhead : st.stream.head? = some endsig
    · rw [exec_caught_bad st hhead] at h
      cases h
      exact ⟨rfl, hhead, rfl, rfl⟩
    · rw [caught, if_pos rfl, exec_bind, exec_zoom] at h
      simp only [EnumState.streamLens, exec_readSig] at h
      rcases hs : st.stream with _ | ⟨x, s⟩
      · simp [hs] at h
      · have hx : x ≠ endsig := fun hx => hhead (by rw [hs, hx]; rfl)
        simp [hs, hx] at h
  · rw [caught, if_neg he] at h
    cases h

/-- Running one step of the loop. -/
lemma exec_readStep : exec (readStep read handle endsig) st = match exec read st.stream with
      | (.error e, t) => exec (caught endsig e) { st with stream := t }
      | (.ok x, t) =>
        match exec (handle x) st.handler with
        | (.error e, h) => exec (caught endsig e) ⟨t, st.handed ++ [x], h⟩
        | (.ok _, h) => (.ok false, ⟨t, st.handed ++ [x], h⟩) := by
  rw [readStep, exec_tryCatch, exec_bind, exec_zoom]
  simp only [EnumState.streamLens]
  rcases exec read st.stream with ⟨e | x, t⟩
  · rfl
  dsimp only
  rw [exec_modify_bind, exec_bind, exec_zoom]
  simp only [EnumState.handlerLens]
  rcases exec (handle x) st.handler with ⟨e | u, h⟩ <;> rfl

/-! ### The loop -/

/-- Handing over one object more. -/
lemma exec_forM_cons (x : α) (l : List α) (h : σ) :
    exec ((x :: l).forM handle) h = exec (handle x >>= fun _ => l.forM handle) h := rfl

/-- An empty enumeration. -/
lemma complete_nil_iff {h : σ} : Complete read handle endsig s h [] h ↔ s.head? = some endsig := by
  constructor
  · rintro ⟨⟨bs, rest, rfl, hbs⟩, -⟩
    cases hbs
    rfl
  · intro hs
    obtain ⟨rest, rfl⟩ := head?_eq_some_iff.1 hs
    exact ⟨⟨[], rest, rfl, .nil⟩, rfl⟩

variable {l : List α} {fuel : ℕ}

variable {t : List UInt8}

/-- An enumeration with an object in front. -/
lemma complete_cons_iff (hlocal : Local read) {x : α} {h h1 h' : σ}
    (hread : exec read s = (.ok x, t)) (hhandle : exec (handle x) h = (.ok ⟨⟩, h1)) :
    Complete read handle endsig s h (x :: l) h' ↔ Complete read handle endsig t h1 l h' := by
  have hforM : exec ((x :: l).forM handle) h = exec (l.forM handle) h1 := by
    rw [exec_forM_cons, exec_bind_of_ok hhandle]
  rw [Complete, hforM]
  refine and_congr_left fun _ => ⟨?_, ?_⟩
  · rintro ⟨bs, rest, rfl, hbs⟩
    cases hbs with
    | @cons b _ bs _ hb hbs =>
      have heq := (hb (bs.flatten ++ endsig :: rest)).symm
      rw [← append_assoc, ← flatten_cons, hread] at heq
      cases heq
      exact ⟨bs, rest, rfl, hbs⟩
  · rintro ⟨bs, rest, rfl, hbs⟩
    obtain ⟨b, rfl, hb⟩ := hlocal s x _ hread
    exact ⟨b :: bs, rest, by rw [flatten_cons, append_assoc], .cons hb hbs⟩

/-- **The objects are complete, unless there is damage**, when the loop has ended normally.

**Proof sketch.** By induction on the iterations. An object that has been handled is the first of
the encodings. In the last iteration either the end signature is in the place of an object, or there
is damage. -/
lemma readLoop_complete_iff (hlocal : Local read) {acc : List α} {h : σ} {st' : EnumState α σ}
    (hrun : exec (readLoop read handle endsig fuel) ⟨s, acc, h⟩ = (.ok ⟨⟩, st')) :
    ∃ l, st'.handed = acc ++ l ∧
      (Complete read handle endsig s h l st'.handler ↔ ¬Damaged read handle endsig s h) := by
  induction fuel generalizing s acc h with
  | zero => cases hrun
  | succ fuel ih =>
    rw [readLoop, exec_bind, exec_readStep] at hrun
    rcases hread : exec read s with ⟨e | x, t⟩ <;> rw [hread] at hrun <;> dsimp only at hrun
    · -- no object is read
      rcases hc : exec (caught endsig e) (⟨t, acc, h⟩ : EnumState α σ) with ⟨e' | done, st1⟩ <;>
        rw [hc] at hrun
      · cases hrun
      obtain ⟨rfl, hhead, rfl, rfl⟩ := of_exec_caught hc
      cases hrun
      refine ⟨[], (append_nil acc).symm, complete_nil_iff.trans ⟨?_, ?_⟩⟩
      · rintro hs (⟨-, hne⟩ | ⟨hx, -⟩ | ⟨hx, -, -⟩)
        · exact hne hs
        · rw [hread] at hx
          cases hx
        · rw [hread] at hx
          cases hx
      · intro hdamaged
        by_contra hs
        obtain ⟨t', rfl⟩ := head?_eq_some_iff.1 hhead
        exact hdamaged (.object hread hs)
    rcases hhandle : exec (handle x) h with ⟨e | u, h1⟩ <;> rw [hhandle] at hrun <;>
      dsimp only at hrun
    · -- the handler throws
      rcases hc : exec (caught endsig e) (⟨t, acc ++ [x], h1⟩ : EnumState α σ) with
        ⟨e' | done, st1⟩ <;> rw [hc] at hrun
      · cases hrun
      obtain ⟨rfl, hhead, rfl, rfl⟩ := of_exec_caught hc
      cases hrun
      refine ⟨[x], rfl, ⟨?_, ?_⟩⟩
      · rintro ⟨-, hall⟩
        rw [exec_forM_cons, exec_bind, hhandle] at hall
        cases hall
      · intro hdamaged
        obtain ⟨t', rfl⟩ := head?_eq_some_iff.1 hhead
        exact absurd (.handler hread hhandle) hdamaged
    · -- the object is handled
      obtain ⟨l, hl, hiff⟩ := ih hrun
      refine ⟨x :: l, by rw [hl, append_assoc, singleton_append], ?_⟩
      rw [complete_cons_iff hlocal hread hhandle, hiff]
      refine not_congr ⟨fun hd => .later hread hhandle hd, ?_⟩
      rintro (⟨hx, -⟩ | ⟨hx, hbad⟩ | ⟨hx, hok, hd⟩)
      · rw [hread] at hx
        cases hx
      · rw [hread] at hx
        cases hx
        rw [hhandle] at hbad
        cases hbad
      · rw [hread] at hx
        cases hx
        rw [hhandle] at hok
        cases hok
        exact hd

/-- **Damage goes unnoticed**: the loop ends normally.

**Proof sketch.** By induction on the place of the damage. The objects before it are handled in one
iteration each. -/
lemma readLoop_of_damaged (hconsumes : Consumes read) {h : σ}
    (hdamaged : Damaged read handle endsig s h) (hfuel : s.length < fuel) (acc : List α) :
    ∃ st', exec (readLoop read handle endsig fuel) ⟨s, acc, h⟩ = (.ok ⟨⟩, st') := by
  obtain ⟨fuel, rfl⟩ := exists_eq_succ_of_ne_zero (ne_zero_of_lt hfuel)
  induction hdamaged generalizing fuel acc with
  | @object s t h hread hne =>
    refine ⟨⟨t, acc, h⟩, ?_⟩
    rw [readLoop, exec_bind, exec_readStep, hread]
    dsimp only
    rw [exec_caught_bad ⟨endsig :: t, acc, h⟩ rfl]
    rfl
  | @handler s t x h h' hread hhandle =>
    refine ⟨⟨t, acc ++ [x], h'⟩, ?_⟩
    rw [readLoop, exec_bind, exec_readStep, hread]
    dsimp only
    rw [hhandle]
    dsimp only
    rw [exec_caught_bad ⟨endsig :: t, acc ++ [x], h'⟩ rfl]
    rfl
  | @later s t x h h' hread hhandle hdamaged ih =>
    have hlt := hconsumes s x t hread
    obtain ⟨fuel, rfl⟩ := exists_eq_succ_of_ne_zero (show fuel ≠ 0 by omega)
    obtain ⟨st', hst'⟩ := ih (acc ++ [x]) fuel (by omega)
    refine ⟨st', ?_⟩
    rw [readLoop, exec_bind, exec_readStep, hread]
    dsimp only
    rw [hhandle]
    exact hst'

/-- **Lists are read back**, if they are followed by two end signatures. -/
lemma readLoop_of_forall₂ (hconsumes : Consumes read)
    (hend : ∀ t, exec read (endsig :: t) = (.error .badSignature, t)) {bs : List (List UInt8)}
    (hbs : List.Forall₂ (Reads read) bs l) {h h' : σ}
    (hhandle : exec (l.forM handle) h = (.ok ⟨⟩, h'))
    (hfuel : (bs.flatten ++ endsig :: endsig :: t).length < fuel) (acc : List α) :
    exec (readLoop read handle endsig fuel) ⟨bs.flatten ++ endsig :: endsig :: t, acc, h⟩ =
      (.ok ⟨⟩, ⟨t, acc ++ l, h'⟩) := by
  obtain ⟨fuel, rfl⟩ := exists_eq_succ_of_ne_zero (ne_zero_of_lt hfuel)
  induction hbs generalizing fuel acc h with
  | nil =>
    cases hhandle
    rw [readLoop, exec_bind, exec_readStep, flatten_nil, nil_append, hend]
    dsimp only
    rw [exec_caught_bad ⟨endsig :: t, acc, _⟩ rfl, append_nil]
    rfl
  | @cons b x bs l hb hbs ih =>
    obtain ⟨u, h1, hx, hhandle⟩ := exec_bind_ok hhandle
    have hread := hb (bs.flatten ++ endsig :: endsig :: t)
    rw [← append_assoc, ← flatten_cons] at hread
    have hlt := hconsumes _ _ _ hread
    obtain ⟨fuel, rfl⟩ := exists_eq_succ_of_ne_zero (show fuel ≠ 0 by omega)
    rw [readLoop, exec_bind, exec_readStep, hread]
    dsimp only
    rw [hx]
    refine (ih hhandle (acc ++ [x]) fuel (by omega)).trans ?_
    rw [append_assoc, singleton_append]

end Loop

/-- `BinarySerialization::writeString`, behind its signature `BINSIG_STR`. -/
def writeString (R : Type) [Blocxx R] (s : ByteStr) : List UInt8 := 106 :: Blocxx.writeString R s

/-- `BinarySerialization::readString` -/
def readString (R : Type) [Blocxx R] : Reader ReadError ByteStr := do
  readSig 106
  Blocxx.readString R

end Binary

/-! ### The kinds of enumerations -/

/-- The kinds of enumerations. -/
inductive EnumKind where
  | objectPath
  | cimClass
  | cimInstance
  | qualifierType
  | string
  deriving DecidableEq

namespace EnumKind

/-- The objects in an enumeration. -/
def Obj (R : Type) (n : ℕ) : EnumKind → Type
  | objectPath => ObjKind.objectPath.Obj R n
  | cimClass => ObjKind.cimClass.Obj R n
  | cimInstance => ObjKind.cimInstance.Obj R n
  | qualifierType => ObjKind.qualifierType.Obj R n
  | string => ByteStr

/-- `BINSIG_OPENUM`, `BINSIG_CLSENUM`, `BINSIG_INSTENUM`, `BINSIG_QUAL_TYPEENUM` and
`BINSIG_STRINGENUM` -/
def beginsig : EnumKind → UInt8
  | objectPath => 110
  | cimClass => 105
  | cimInstance => 111
  | qualifierType => 112
  | string => 115

/-- `END_OPENUM`, `END_CLSENUM`, `END_INSTENUM`, `END_QUALENUM` and `END_STRINGENUM` -/
def endsig : EnumKind → UInt8
  | objectPath => 151
  | cimClass => 150
  | cimInstance => 152
  | qualifierType => 153
  | string => 154

section

variable (R : Type) [Blocxx R] (n : ℕ)

/-- `readObjectPath`, `readClass`, `readInstance`, `readQualType` and `readString` -/
def read : (k : EnumKind) → Reader ReadError (k.Obj R n)
  | objectPath => ObjKind.objectPath.readObject R n
  | cimClass => ObjKind.cimClass.readObject R n
  | cimInstance => ObjKind.cimInstance.readObject R n
  | qualifierType => ObjKind.qualifierType.readObject R n
  | string => Binary.readString R

/-- `writeObjectPath`, `writeClass`, `writeInstance`, `writeQualType` and `writeString` -/
def write : (k : EnumKind) → k.Obj R n → List UInt8
  | objectPath, x => ObjKind.objectPath.writeObject R n x
  | cimClass, x => ObjKind.cimClass.writeObject R n x
  | cimInstance, x => ObjKind.cimInstance.writeObject R n x
  | qualifierType, x => ObjKind.qualifierType.writeObject R n x
  | string, x => Binary.writeString R x

omit [Blocxx R] in
/-- All parts of an object fit into the format. -/
def Fits : (k : EnumKind) → k.Obj R n → Prop
  | objectPath, x => ObjKind.objectPath.Fits R n x
  | cimClass, x => ObjKind.cimClass.Fits R n x
  | cimInstance, x => ObjKind.cimInstance.Fits R n x
  | qualifierType, x => ObjKind.qualifierType.Fits R n x
  | string, x => Short (α := UInt8) x

/-- What `BinaryRequestHandler` writes for a list of objects. -/
def writeEnum (k : EnumKind) (l : List (k.Obj R n)) : List UInt8 :=
  k.beginsig :: (l.flatMap (k.write R n) ++ [k.endsig, k.endsig])

/-- `readObjectPathEnum`, `readClassEnum`, `readInstanceEnum`, `readQualifierTypeEnum` and
`readStringEnum` -/
def readEnum {σ : Type} (k : EnumKind) (handle : k.Obj R n → Prog σ ReadError Unit) :
    Prog (Binary.EnumState (k.Obj R n) σ) ReadError Unit :=
  Binary.readEnum (k.read R n) handle k.beginsig k.endsig

end

variable {R : Type} {n m : ℕ}

/-- The object with other URLs, and else the same, at a higher level. -/
def withUrls (r : URLData → URLData) (hnm : n ≤ m) : (k : EnumKind) → k.Obj R n → k.Obj R m
  | objectPath, x => ObjKind.objectPath.withUrls r hnm x
  | cimClass, x => ObjKind.cimClass.withUrls r hnm x
  | cimInstance, x => ObjKind.cimInstance.withUrls r hnm x
  | qualifierType, x => ObjKind.qualifierType.withUrls r hnm x
  | string, x => x

variable [Blocxx R]

/-- Reading an object. -/
lemma plain_read (hR : Blocxx.Faithful R) (n : ℕ) (k : EnumKind) :
    Plain .tooDeep n (k.read R n) := by
  cases k with
  | objectPath => exact plain_readObject hR n .objectPath
  | cimClass => exact plain_readObject hR n .cimClass
  | cimInstance => exact plain_readObject hR n .cimInstance
  | qualifierType => exact plain_readObject hR n .qualifierType
  | string => exact (Binary.plain_sig _).bind fun _ => hR.plain_string n

/-- Nothing to read. -/
lemma read_nil (n : ℕ) (k : EnumKind) : exec (k.read R n) [] = (.error .io, []) := by
  cases k <;> exact exec_bind_of_error rfl

/-- No object begins with the end signature. -/
lemma read_endsig (n : ℕ) (k : EnumKind) (t : List UInt8) :
    exec (k.read R n) (k.endsig :: t) = (.error .badSignature, t) := by
  cases k <;> exact exec_bind_of_error rfl

/-- An object has bytes. -/
lemma consumes_read (hR : Blocxx.Faithful R) (n : ℕ) (k : EnumKind) : Consumes (k.read R n) := by
  refine (k.plain_read hR n).isLocal.consumes fun v h => ?_
  rw [read_nil] at h
  cases h

/-- Reading back an object. -/
lemma reads_write (hR : Blocxx.Faithful R) (hnm : n ≤ m) (k : EnumKind) {x : k.Obj R n}
    (hx : k.Fits R n x) :
    Reads (k.read R m) (k.write R n x) (k.withUrls (Binary.rereadUrl R) hnm x) := by
  have hv := Binary.roundTrips_value hR hnm
  cases k with
  | objectPath => exact Binary.roundTrips_objectPath hR hv x hx
  | cimClass => exact Binary.roundTrips_class hR hv x hx
  | cimInstance => exact Binary.roundTrips_instance hR hv x hx
  | qualifierType => exact Binary.roundTrips_qualifierType hR hv x hx
  | string => exact (Binary.reads_sig 106).bind (hR.string x hx)

end EnumKind

namespace Binary

variable {R σ : Type} [Blocxx R]

/-- An enumeration that does not begin with the begin signature is refused. -/
lemma exec_readEnum (k : EnumKind) {m : ℕ} (handle : k.Obj R m → Prog σ ReadError Unit)
    (s : List UInt8) (h : σ) : exec (k.readEnum R m handle) ⟨k.beginsig :: s, [], h⟩ =
      exec (readLoop (k.read R m) handle k.endsig (s.length + 1)) ⟨s, [], h⟩ := by
  have hsig : exec (zoom EnumState.streamLens (readSig k.beginsig))
      (⟨k.beginsig :: s, [], h⟩ : EnumState (k.Obj R m) σ) = (.ok ⟨⟩, ⟨s, [], h⟩) := by
    rw [exec_zoom]
    simp only [EnumState.streamLens, exec_readSig, if_true]
  rw [EnumKind.readEnum, readEnum, exec_bind_of_ok hsig, exec_get_bind]

/-- Only an enumeration that begins with the begin signature is read. -/
lemma exists_of_exec_readEnum {k : EnumKind} {m : ℕ} {handle : k.Obj R m → Prog σ ReadError Unit}
    {h : σ} {st' : EnumState (k.Obj R m) σ}
    (hrun : exec (k.readEnum R m handle) ⟨s, [], h⟩ = (.ok ⟨⟩, st')) :
    ∃ s', s = k.beginsig :: s' := by
  rw [EnumKind.readEnum, readEnum, exec_bind, exec_zoom] at hrun
  simp only [EnumState.streamLens, exec_readSig] at hrun
  cases s with
  | nil => cases hrun
  | cons x s =>
    by_cases hx : x = k.beginsig
    · exact ⟨s, by rw [hx]⟩
    · simp [hx] at hrun

/-- **What `readEnum` reports is complete**, for every stream and handler, iff the stream is
not damaged in a way that goes unnoticed. And lists of objects are read back. -/
theorem readEnum_complete_iff (hR : Blocxx.Faithful R) (k : EnumKind) (m : ℕ)
    (handle : k.Obj R m → Prog σ ReadError Unit) :
    (∀ (s : List UInt8) (h : σ), (∀ st', exec (k.readEnum R m handle) ⟨s, [], h⟩ = (.ok ⟨⟩, st') →
        ∃ s', s = k.beginsig :: s' ∧
        Complete (k.read R m) handle k.endsig s' h st'.handed st'.handler) ↔
      ∀ s', s = k.beginsig :: s' → ¬Damaged (k.read R m) handle k.endsig s' h) ∧
    ∀ (n : ℕ) (hnm : n ≤ m) (l : List (k.Obj R n)), (∀ x ∈ l, k.Fits R n x) → ∀ h h' t,
      exec ((l.map (k.withUrls (rereadUrl R) hnm)).forM handle) h = (.ok ⟨⟩, h') →
      exec (k.readEnum R m handle) ⟨k.writeEnum R n l ++ t, [], h⟩ =
        (.ok ⟨⟩, ⟨t, l.map (k.withUrls (rereadUrl R) hnm), h'⟩) := by
  refine ⟨fun s h => ⟨?_, ?_⟩, ?_⟩
  · rintro hcomplete s' rfl hdamaged
    obtain ⟨st', hst'⟩ := readLoop_of_damaged (k.consumes_read hR m) hdamaged (lt_succ_self _) []
    obtain ⟨l, hl, hiff⟩ := readLoop_complete_iff (k.plain_read hR m).isLocal hst'
    rw [← exec_readEnum] at hst'
    obtain ⟨s'', hs'', hc⟩ := hcomplete st' hst'
    cases hs''
    rw [hl] at hc
    exact hiff.1 hc hdamaged
  · intro hdamaged st' hst'
    obtain ⟨s', rfl⟩ := exists_of_exec_readEnum hst'
    rw [exec_readEnum] at hst'
    obtain ⟨l, hl, hiff⟩ := readLoop_complete_iff (k.plain_read hR m).isLocal hst'
    rw [hl]
    exact ⟨s', rfl, hiff.2 (hdamaged s' rfl)⟩
  · intro n hnm l hl h h' t hhandle
    have hbs : List.Forall₂ (Reads (k.read R m)) (l.map (k.write R n))
        (l.map (k.withUrls (rereadUrl R) hnm)) := by
      rw [forall₂_map_left_iff, forall₂_map_right_iff, forall₂_same]
      exact fun x hx => k.reads_write hR hnm (hl x hx)
    have hstream : k.writeEnum R n l ++ t =
        k.beginsig :: ((l.map (k.write R n)).flatten ++ k.endsig :: k.endsig :: t) := by
      simp [EnumKind.writeEnum, flatMap_def]
    rw [hstream, exec_readEnum]
    exact readLoop_of_forall₂ (k.consumes_read hR m) (k.read_endsig m) hbs hhandle
      (lt_succ_self _) []

/-- A list of one string. -/
def oneString : List (EnumKind.string.Obj Unit 0) := [ascii ['a']]

/-- The sample can be written. -/
lemma fits_oneString : ∀ x ∈ oneString, EnumKind.string.Fits Unit 0 x :=
  forall_mem_singleton.2 (by simp [EnumKind.Fits, Short, ascii])

/-- A handler that does nothing. -/
def ignore (k : EnumKind) (n : ℕ) (_ : k.Obj Unit n) : Prog Unit ReadError Unit := pure ⟨⟩

/-- The list of one string is read back. -/
theorem readEnum_complete_oneString : exec (EnumKind.string.readEnum Unit 0 (ignore .string 0))
      ⟨EnumKind.string.writeEnum Unit 0 oneString ++ [7], [], ⟨⟩⟩ =
      (.ok ⟨⟩, ⟨[7], oneString.map (EnumKind.string.withUrls (rereadUrl Unit) (Nat.le_refl 0)),
        ⟨⟩⟩) := by
  have hhandle : exec ((oneString.map
      (EnumKind.string.withUrls (rereadUrl Unit) (Nat.le_refl 0))).forM (ignore .string 0)) ⟨⟩ =
      (.ok ⟨⟩, ⟨⟩) := rfl
  have h := (readEnum_complete_iff faithful_unit .string 0 (ignore .string 0)).2
  exact h 0 (le_refl 0) oneString fits_oneString ⟨⟩ ⟨⟩ [7] hhandle

/-- An enumeration with one damaged object path is read as the empty list: the signature of the
namespace in the path is wrong, and is followed by the end signature. -/
theorem readEnum_damaged_objectPath :
    ¬∀ st', exec (EnumKind.objectPath.readEnum Unit 5 (ignore .objectPath 5))
        ⟨[110, sig 'O', sig 'X', 151], [], ⟨⟩⟩ = (.ok ⟨⟩, st') →
      ∃ s', [110, sig 'O', sig 'X', 151] = EnumKind.objectPath.beginsig :: s' ∧
        Complete (EnumKind.objectPath.read Unit 5) (ignore .objectPath 5)
          EnumKind.objectPath.endsig s' ⟨⟩
          st'.handed st'.handler := by
  intro h
  obtain ⟨s', hs', hc⟩ := h ⟨[], [], ⟨⟩⟩ rfl
  cases hs'
  exact absurd (complete_nil_iff.1 hc) (by decide)

end Binary

end OpenWbem
