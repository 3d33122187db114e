import Mathlib.Data.List.Induction
import OpenWbem.Http.Digest

/-!
# Soundness of digest authentication

That the nonce of a success was issued, was not presented since, and that the response is the digest
of the stored hash is ensured by the code. It does not ensure that there is an entry for the user,
since an unknown user has the empty hash, and it does not check the age of a nonce when it is
presented. So successes are justified as long as there is no misuse, which can be seen from the
calls and the password file.

## Main definitions

* `DigestAuthentication.Inv` — what the tables have to do with the calls.

## Main results

* `DigestAuthentication.inv_run` — the invariant holds after every sequence of calls.
* `success_justified` — all successes of a run without misuse are justified.
-/

namespace OpenWbem.Http

open List Option Prod

/-! ### The password file -/

/-- What a cut says. -/
lemma of_cutAtLast_eq_some {c : UInt8} {s a b : ByteStr} (h : cutAtLast c s = some (a, b)) :
    s = a ++ [c] ++ b ∧ c ∉ b := by
  obtain ⟨⟨x, y⟩, hcut, he⟩ := map_eq_some_iff.mp h
  obtain ⟨hs, hx⟩ := of_cutAt_eq_some hcut
  cases he
  refine ⟨?_, by simpa using hx⟩
  rw [← reverse_reverse s, hs]
  simp

variable {clock : Clock} {m : AList fun _ : ByteStr => ByteStr} {con : Connection} {info : ByteStr}
  {c : Call}

namespace DigestAuthentication

variable {md5 : ByteStr → ByteStr} {lines : List ByteStr} {d : DigestAuthentication}

/-- **The map has the entries of the password file only.** A line without a colon has a key without
a colon. -/
lemma hasEntry_of_lookup {userName realm hash : ByteStr}
    (h : (ofLines lines).passwdMap.lookup (passwdKey userName realm) = some hash) :
    HasEntry lines userName realm hash := by
  have hkey : 58 ∈ passwdKey userName realm := by simp [passwdKey]
  change (lines.foldl addLine ∅).lookup _ = _ at h
  change passwdKey userName realm ++ [58] ++ hash ∈ lines ∧ 58 ∉ hash
  generalize passwdKey userName realm = key at h hkey
  induction lines using reverseRecOn with
  | nil => cases h
  | append_singleton lines line ih =>
    rw [foldl_append, foldl_cons, foldl_nil, addLine] at h
    rcases hcut : cutAtLast 58 line with _ | ⟨k, hash'⟩ <;> rw [hcut] at h
    · have hline : 58 ∉ line := by
        have hnone := not_mem_of_cutAt_eq_none (map_eq_none_iff.mp hcut)
        simpa using hnone
      have hne : key ≠ line := fun h => hline (h ▸ hkey)
      rw [AList.lookup_insert_ne hne] at h
      exact ⟨mem_append_left _ (ih h).1, (ih h).2⟩
    · obtain ⟨rfl, hhash⟩ := of_cutAtLast_eq_some hcut
      by_cases hk : key = k
      · subst hk
        rw [AList.lookup_insert] at h
        cases h
        exact ⟨by simp, hhash⟩
      · rw [AList.lookup_insert_ne hk] at h
        exact ⟨mem_append_left _ (ih h).1, (ih h).2⟩

/-- The hash of a key, or the empty one. -/
def hashOf (d : DigestAuthentication) (key : ByteStr) : ByteStr := (d.passwdMap.lookup key).getD []

/-- **A look-up does not change the hashes**, although it adds an empty one. -/
lemma hashOf_getHash (d : DigestAuthentication) (userName realm key : ByteStr) :
    (d.getHash userName realm).2.hashOf key = d.hashOf key := by
  rw [getHash]
  rcases hlookup : d.passwdMap.lookup (passwdKey userName realm) with _ | h
  · by_cases hkey : key = passwdKey userName realm
    · subst hkey
      simp [hashOf, hlookup]
    · simp [hashOf, AList.lookup_insert_ne hkey]
  · rfl

/-- The hash of a user. -/
lemma getHash_fst (d : DigestAuthentication) (userName realm : ByteStr) :
    (d.getHash userName realm).1 = d.hashOf (passwdKey userName realm) := by
  rw [getHash, hashOf]
  split <;> simp [*]

/-! ### A call -/

/-- The state when the nonce of a call has been taken. -/
def afterPresent (d : DigestAuthentication) (c : Call) : DigestAuthentication :=
  match c.presents with
  | some nonce => (d.takeNonce nonce).2
  | none => d

/-- Taking a nonce keeps the hashes. -/
lemma hashOf_takeNonce (d : DigestAuthentication) (nonce key : ByteStr) :
    (d.takeNonce nonce).2.hashOf key = d.hashOf key := by
  rw [takeNonce]
  split_ifs <;> rfl

/-- Two states have the same tables. -/
structure Like (d d' : DigestAuthentication) : Prop where
  nonces : d'.nonces = d.nonces
  dateTimes : d'.dateTimes = d.dateTimes
  hashes : ∀ key, d'.hashOf key = d.hashOf key

/-- Nothing has changed. -/
lemma Like.refl (d : DigestAuthentication) : Like d d := ⟨rfl, rfl, fun _ => rfl⟩

/-- A look-up only adds an empty hash. -/
lemma like_getHash (d : DigestAuthentication) (userName realm : ByteStr) :
    Like d (d.getHash userName realm).2 := by
  refine ⟨?_, ?_, hashOf_getHash d userName realm⟩ <;> rw [getHash] <;> split <;> rfl

/-- The state ends with a new nonce, whatever the answer is. -/
lemma checkResponse_state (md5 : ByteStr → ByteStr) (d : DigestAuthentication) (clock : Clock)
    (m : AList fun _ : ByteStr => ByteStr) (con : Connection) (found : Bool) :
    ∃ d', (d.checkResponse md5 clock m con found).2 = (d'.generateNewNonce md5 clock).2 ∧
    Like d d' := by
  have hhash := like_getHash d (field m "username") (field m "realm")
  rw [checkResponse]
  dsimp only
  split_ifs
  iterate 5 exact ⟨d, rfl, .refl d⟩
  all_goals exact ⟨_, rfl, hhash⟩

/-- **What a call does to the state:** the nonce that is presented leaves the table, and then a new
nonce is issued, unless the call throws. -/
lemma step_state (md5 : ByteStr → ByteStr) (d : DigestAuthentication) (c : Call) :
    ∃ d', Like (afterPresent d c) d' ∧ ((c.issues md5 = none ∧ d.step md5 c = d') ∨
      (c.issues md5 = some (newNonce md5 c.clock, c.clock.now) ∧
        d.step md5 c = (d'.generateNewNonce md5 c.clock).2)) := by
  cases c with
  | challenge clock realm => exact ⟨d, .refl d, .inr ⟨rfl, rfl⟩⟩
  | authenticate clock info con =>
    simp only [afterPresent, Call.presents, Call.infoMap, Call.issues, Call.clock, step,
      authenticate]
    by_cases hinfo : info = []
    · simp only [hinfo, if_true, true_or]
      exact ⟨d, .refl d, .inr ⟨trivial, rfl⟩⟩
    rcases hparse : parseInfo info with _ | m
    · simp only [hinfo, if_false, false_or, isSome_none, Bool.false_eq_true]
      exact ⟨d, .refl d, .inl ⟨trivial, rfl⟩⟩
    · simp only [hinfo, if_false, false_or, isSome_some, if_true, bind_some,
        authenticateFields]
      split_ifs with hnonce
      · exact ⟨d, .refl d, .inr ⟨trivial, rfl⟩⟩
      · obtain ⟨d', hd', hlike⟩ := checkResponse_state md5
          (d.takeNonce (field m "nonce")).2 clock m con (d.takeNonce (field m "nonce")).1
        exact ⟨d', hlike, .inr ⟨trivial, hd'⟩⟩

/-- A success: the nonce was in the table, and the response is the expected one for the hash. -/
lemma of_checkResponse_success {found : Bool}
    (h : (d.checkResponse md5 clock m con found).1.result = .success) :
    found ∧ Complete m ∧ field m "response" =
      expectedResponse md5 m con (d.hashOf (passwdKey (field m "username") (field m "realm"))) := by
  rw [← getHash_fst]
  rw [checkResponse] at h
  dsimp only at h
  split_ifs at h with h1 h2 h3 h4 h5 h6 h7
  iterate 5 cases h
  · exact ⟨h7, by simp [Complete, *], h6.symm⟩
  all_goals cases h

/-- **What a success says about the state before the call.** -/
lemma of_succeeds (h : d.Succeeds md5 (.authenticate clock info con)) :
    ∃ m, parseInfo info = some m ∧ field m "nonce" ∈ d.nonces ∧ Complete m ∧
      field m "response" = expectedResponse md5 m con
        (d.hashOf (passwdKey (field m "username") (field m "realm"))) := by
  obtain ⟨a, ha, hresult⟩ := h
  rw [authenticate] at ha
  split_ifs at ha with hinfo
  · cases ha
    cases hresult
  rcases hparse : parseInfo info with _ | m <;> rw [hparse] at ha
  · cases ha
  cases ha
  refine ⟨m, rfl, ?_⟩
  rw [authenticateFields] at hresult
  split_ifs at hresult with hnonce
  · cases hresult
  obtain ⟨hfound, hcomplete, hresponse⟩ := of_checkResponse_success hresult
  rw [hashOf_takeNonce] at hresponse
  refine ⟨?_, hcomplete, hresponse⟩
  by_contra hmem
  rw [takeNonce, if_neg hmem] at hfound
  cases hfound

/-! ### The invariant -/

/-- A nonce with its time in the table: it was issued by a call at that time, and it can still be
there. -/
def IssuedBy (md5 : ByteStr → ByteStr) (calls : List Call) (n : ByteStr) (t : Int) : Prop :=
  ∃ pre c post, calls = pre ++ c :: post ∧ c.issues md5 = some (n, t) ∧
    Kept md5 n t post calls

/-- What the tables have to do with the calls. -/
structure Inv (md5 : ByteStr → ByteStr) (lines : List ByteStr) (calls : List Call)
    (d : DigestAuthentication) : Prop where
  nodup : d.nonces.Nodup
  length_le : d.nonces.length ≤ (issued md5 calls).length
  length_eq : d.dateTimes.length = d.nonces.length
  table : ∀ (i : ℕ) n t, d.nonces[i]? = some n → d.dateTimes[i]? = some t → IssuedBy md5 calls n t
  hashes : ∀ key, d.hashOf key = (ofLines lines).hashOf key

/-- The nonces presented in two runs. -/
lemma presented_append (l l' : List Call) : presented (l ++ l') = presented l ++ presented l' :=
  filterMap_append

/-- And in one call. -/
lemma presented_singleton (c : Call) : presented [c] = c.presents.toList := by
  rw [presented, filterMap_cons]
  cases c.presents <;> rfl

/-- The nonces issued in two runs. -/
lemma issued_append (l l' : List Call) : issued md5 (l ++ l') = issued md5 l ++ issued md5 l' :=
  filterMap_append

/-- And in one call. -/
lemma issued_singleton (c : Call) : issued md5 [c] = (c.issues md5).toList := by
  rw [issued, filterMap_cons]
  cases c.issues md5 <;> rfl

/-- The nonces that are still in the table when a nonce has been taken. -/
structure Taken (d d' : DigestAuthentication) (c : Call) : Prop where
  sublist : d'.nonces <+ d.nonces
  length_eq : d'.dateTimes.length = d'.nonces.length
  at_old : ∀ (i : ℕ) n, d'.nonces[i]? = some n → n ∉ presented [c] ∧
    ∃ j : ℕ, d.nonces[j]? = some n ∧ d'.dateTimes[i]? = d.dateTimes[j]?
  hashes : ∀ key, d'.hashOf key = d.hashOf key

/-- What presenting a nonce does. -/
lemma taken_afterPresent (hnodup : d.nonces.Nodup) (hlen : d.dateTimes.length = d.nonces.length)
    (c : Call) : Taken d (afterPresent d c) c := by
  rw [afterPresent]
  rcases hp : c.presents with _ | nonce
  · exact ⟨.refl _, hlen, fun i n hn => ⟨by simp [presented_singleton, hp], i, hn, rfl⟩,
      fun _ => rfl⟩
  dsimp only
  have hpresented (n : ByteStr) : n ∉ presented [c] ↔ n ≠ nonce := by simp [presented_singleton, hp]
  simp only [takeNonce]
  split_ifs with hmem
  · refine ⟨eraseIdx_sublist _ _, by
      rw [length_eraseIdx, length_eraseIdx, hlen], fun i n hn => ⟨?_, ?_⟩, fun _ => rfl⟩
    · have herase : n ∈ d.nonces.erase nonce := by
        rw [erase_eq_eraseIdx_of_idxOf rfl]
        exact mem_of_getElem? hn
      exact (hpresented n).2 ((hnodup.mem_erase_iff).mp herase).1
    · dsimp only at hn ⊢
      rw [getElem?_eraseIdx] at hn ⊢
      split_ifs at hn ⊢ with hi
      · exact ⟨i, hn, rfl⟩
      · exact ⟨i + 1, hn, rfl⟩
  · exact ⟨.refl _, hlen, fun i n hn =>
      ⟨(hpresented n).2 (ne_of_mem_of_not_mem (mem_of_getElem? hn) hmem),
      i, hn, rfl⟩, fun _ => rfl⟩

/-- The loop of `generateNewNonce` drops all nonces that are too old. -/
lemma le_of_expired_le (now : Int) {t : Int} {dateTimes : List Int} {k i : ℕ}
    (hi : dateTimes[i]? = some t)
    (hik : i < k) (h : expired now dateTimes k ≤ i) : now - 60 ≤ t := by
  induction k with
  | zero => omega
  | succ k ih =>
    rw [expired] at h
    split_ifs at h with hk
    · omega
    · rcases Nat.lt_succ_iff_lt_or_eq.1 hik with hlt | rfl
      · exact ih hlt h
      · rw [getD_eq_getElem?_getD, hi] at hk
        exact not_lt.1 hk

/-- The start of the loop, for short arrays. -/
lemma loopStart_eq {size : ℕ} (h : size ≤ 2 ^ 15) : loopStart size = size := by
  have hsize : ((size : ℤ) - 1).bmod Int16.size = size - 1 :=
    Int.bmod_eq_of_le (by simp [Int16.size]; omega)
    (by simp [Int16.size]; omega)
  rw [loopStart, Int16.toInt_ofInt, hsize]
  omega

/-- And then only likeness. -/
lemma Taken.of_like {d₁ d₂ : DigestAuthentication} (h : Taken d d₁ c) (hlike : Like d₁ d₂) :
    Taken d d₂ c := by
  obtain ⟨nonces, dateTimes, map⟩ := d₂
  obtain ⟨rfl, rfl, hhash⟩ := hlike
  exact ⟨h.sublist, h.length_eq, h.at_old, fun key => (hhash key).trans (h.hashes key)⟩

/-- A nonce that is still in the table after a call. -/
lemma IssuedBy.concat {calls : List Call} {n : ByteStr} {t : Int} (h : IssuedBy md5 calls n t)
    (hn : n ∉ presented [c]) (hc : (∀ x ∈ issued md5 [c], x.2 ≤ t + 60) ∨
      2 ^ 15 < (issued md5 (calls ++ [c])).length) : IssuedBy md5 (calls ++ [c]) n t := by
  obtain ⟨pre, c', post, rfl, hissue, hpost, hlast⟩ := h
  refine ⟨pre, c', post ++ [c], by simp, hissue, ?_, ?_⟩
  · rw [presented_append, mem_append, not_or]
    exact ⟨hpost, hn⟩
  · rcases hlast with hlast | hmany
    · refine hc.imp_left fun hc x hx => ?_
      rw [issued_append] at hx
      exact (mem_append.1 hx).elim (hlast x) (hc x)
    · right
      rw [issued_append, length_append]
      omega

/-- **A new nonce keeps the invariant.** -/
lemma Inv.newNonce {calls : List Call} {d' : DigestAuthentication} (h : Inv md5 lines calls d)
    (htaken : Taken d d' c) (hdistinct : ((issued md5 (calls ++ [c])).map fst).Nodup)
    (hissue : c.issues md5 = some (newNonce md5 c.clock, c.clock.now)) :
    Inv md5 lines (calls ++ [c]) (d'.generateNewNonce md5 c.clock).2 := by
  have hone : issued md5 [c] = [(Http.newNonce md5 c.clock, c.clock.now)] := by
    rw [issued_singleton, hissue]
    rfl
  rw [issued_append, hone] at hdistinct
  have hlen : (issued md5 (calls ++ [c])).length = (issued md5 calls).length + 1 := by
    rw [issued_append, hone, length_append, length_singleton]
  have hle := htaken.sublist.length_le.trans h.length_le
  have hold (i : ℕ) (n : ByteStr) (t : Int) (hn : d'.nonces[i]? = some n)
      (ht : d'.dateTimes[i]? = some t) : IssuedBy md5 calls n t ∧ n ∉ presented [c] := by
    obtain ⟨hnot, j, hj, htj⟩ := htaken.at_old i n hn
    exact ⟨h.table j n t hj (htj ▸ ht), hnot⟩
  rw [generateNewNonce]
  set k := expired c.clock.now d'.dateTimes (loopStart d'.nonces.length) with hk
  refine ⟨?_, ?_, ?_, fun i n t hn ht => ?_, fun key => (htaken.hashes key).trans (h.hashes key)⟩
  · refine List.Nodup.append ((h.nodup.sublist htaken.sublist).sublist (drop_sublist _ _))
      (nodup_singleton _) fun n hn hnew => ?_
    obtain ⟨j, hj⟩ := getElem?_of_mem (htaken.sublist.subset (mem_of_mem_drop hn))
    obtain ⟨t, ht⟩ : ∃ t, d.dateTimes[j]? = some t := by
      rw [← isSome_iff_exists, isSome_getElem?, h.length_eq]
      exact (List.getElem?_eq_some_iff.1 hj).1
    obtain ⟨pre, c', post, rfl, hissue', -⟩ := h.table j n t hj ht
    rw [map_append, nodup_append] at hdistinct
    exact hdistinct.2.2 n (mem_map.mpr ⟨_, mem_filterMap.mpr ⟨c', by simp, hissue'⟩, rfl⟩) n
      (by simpa using hnew) rfl
  · simp only [length_append, length_drop, length_singleton, hlen]
    omega
  · simp [htaken.length_eq]
  · simp only [getElem?_append, length_drop, htaken.length_eq] at hn ht
    split_ifs at hn ht with hi
    · rw [getElem?_drop] at hn ht
      obtain ⟨hissued, hnot⟩ := hold _ n t hn ht
      refine hissued.concat hnot ((Nat.lt_or_ge (2 ^ 15) _).symm.imp_left fun hmany x hx => ?_)
      rw [hone, mem_singleton] at hx
      have hage := le_of_expired_le c.clock.now (k := loopStart d'.nonces.length) ht
        (by rw [loopStart_eq (by omega)]; omega) (by omega)
      rw [hx]
      dsimp only
      omega
    · obtain ⟨hi', rfl⟩ := List.getElem?_eq_some_iff.1 hn
      obtain ⟨-, rfl⟩ := List.getElem?_eq_some_iff.1 ht
      simp only [getElem_singleton]
      exact ⟨calls, c, [], rfl, hissue, not_mem_nil, .inl (by simp [issued])⟩

/-- **A call keeps the invariant.** -/
lemma Inv.step {calls : List Call} (h : Inv md5 lines calls d) (c : Call)
    (hdistinct : ((issued md5 (calls ++ [c])).map fst).Nodup) :
    Inv md5 lines (calls ++ [c]) (d.step md5 c) := by
  obtain ⟨d', hlike, hcases⟩ := step_state md5 d c
  have htaken := (taken_afterPresent h.nodup h.length_eq c).of_like hlike
  rcases hcases with ⟨hissue, hstep⟩ | ⟨hissue, hstep⟩ <;> rw [hstep]
  · have hnone : issued md5 [c] = [] := by
      rw [issued_singleton, hissue]
      rfl
    refine ⟨h.nodup.sublist htaken.sublist, ?_, htaken.length_eq, fun i n t hn ht => ?_,
      fun key => (htaken.hashes key).trans (h.hashes key)⟩
    · rw [issued_append, hnone, append_nil]
      exact htaken.sublist.length_le.trans h.length_le
    · obtain ⟨hnot, j, hj, htj⟩ := htaken.at_old i n hn
      exact (h.table j n t hj (htj ▸ ht)).concat hnot (.inl (by simp [hnone]))
  · exact h.newNonce htaken hdistinct hissue

/-- **The invariant holds after every sequence of calls.** -/
lemma inv_run (lines : List ByteStr) (calls : List Call)
    (hdistinct : ((issued md5 calls).map fst).Nodup) :
    Inv md5 lines calls (run md5 lines calls) := by
  induction calls using reverseRecOn with
  | nil => exact ⟨nodup_nil, le_rfl, rfl, fun i n t hn => absurd hn (by simp [run, ofLines]),
    fun _ => rfl⟩
  | append_singleton calls c ih =>
    have hbefore : ((issued md5 calls).map fst).Nodup := by
      rw [issued_append, map_append] at hdistinct
      exact hdistinct.sublist (sublist_append_left _ _)
    rw [run, foldl_append]
    exact (ih hbefore).step c hdistinct

end DigestAuthentication

open DigestAuthentication

/-! ### Soundness -/

/-- **All successes of a run without misuse are justified.**

**Proof sketch.** The nonce was in the table, so it was issued and not presented since. The hash
that the response was compared with is that of the password file. -/
theorem success_justified (md5 : ByteStr → ByteStr) (lines : List ByteStr) (calls : List Call)
    (hdistinct : ((issued md5 calls).map fst).Nodup)
    (hcalls : ∀ before c after, calls = before ++ c :: after → ¬ Misuse md5 lines before c) :
    ∀ before c after, calls = before ++ c :: after → (run md5 lines before).Succeeds md5 c →
      Justified md5 lines before c := by
  rintro before c after rfl hsuccess
  have hnot := hcalls before c after rfl
  cases c with
  | challenge clock realm => exact hsuccess
  | authenticate clock info con =>
    rw [issued_append, map_append] at hdistinct
    have hinv := inv_run lines before (hdistinct.sublist (sublist_append_left _ _))
    obtain ⟨m, hparse, hmem, hcomplete, hresponse⟩ := of_succeeds hsuccess
    obtain ⟨i, hi⟩ := getElem?_of_mem hmem
    obtain ⟨t, ht⟩ : ∃ t, (run md5 lines before).dateTimes[i]? = some t := by
      rw [← isSome_iff_exists, isSome_getElem?, hinv.length_eq]
      exact (List.getElem?_eq_some_iff.1 hi).1
    obtain ⟨pre, c, post, heq, hissue, hkept⟩ := hinv.table i _ t hi ht
    rw [hinv.hashes] at hresponse
    have hsafe (h : fileHash lines m = none ∨ t + 60 < clock.now ∨
        field m "nonce" ∈ presented (pre ++ [c])) : False :=
      hnot ⟨m, pre, c, post, t, hparse, hcomplete, hresponse, heq, hissue, hkept, h⟩
    refine ⟨m, hparse, ?_, ⟨t, mem_filterMap.mpr ⟨c, by simp [heq], hissue⟩, ?_⟩, ?_⟩
    · rcases hfile : fileHash lines m with _ | hash
      · exact (hsafe (.inl hfile)).elim
      · refine ⟨hash, hasEntry_of_lookup hfile, ?_⟩
        rw [hresponse]
        exact congrArg (fun h => expectedResponse md5 m con (h.getD [])) hfile
    · by_contra hold
      exact hsafe (.inr (.inl (by omega)))
    · rw [heq, append_cons, presented_append, mem_append, not_or]
      exact ⟨fun h => hsafe (.inr (.inr h)), hkept.1⟩

/-- The text of an answer of the user `u` in the realm `r`, with the nonce of a challenge at time
`0` and the digest of a hash, where `md5` does nothing. -/
def sampleInfo (hash : ByteStr) : ByteStr :=
  text "Digest username=\"u\", realm=\"r\", nc=1, cnonce=c, nonce=\"" ++ newNonce id ⟨0, []⟩ ++
    text "\", response=" ++ digestCalcResponse id hash (newNonce id ⟨0, []⟩) (text "1") (text "c")
      (text "auth") (text "POST") (text "/cimom") []

/-- A call with that answer. -/
def sampleCall (now : Int) (hash : ByteStr) : Call :=
  .authenticate ⟨now, []⟩ (sampleInfo hash) ⟨text "host", text "POST", text "/cimom"⟩

/-- The challenge at time `0`. -/
def sampleChallenge : Call := .challenge ⟨0, []⟩ (text "r")

/-- A result of success. -/
lemma succeeds_of_result {md5 : ByteStr → ByteStr} {d : DigestAuthentication}
    (h : (d.authenticate md5 clock info con).1.map (·.result) = some .success) :
    d.Succeeds md5 (.authenticate clock info con) := map_eq_some_iff.mp h

/-- A user of the password file answers after ten seconds. -/
theorem success_justified_sample :
    (run id [text "u:r:h"] [sampleChallenge]).Succeeds id (sampleCall 10 (text "h")) ∧
      Justified id [text "u:r:h"] [sampleChallenge] (sampleCall 10 (text "h")) := by
  have hsuccess : (run id [text "u:r:h"] [sampleChallenge]).Succeeds id
    (sampleCall 10 (text "h")) :=
    succeeds_of_result (by decide +kernel)
  refine ⟨hsuccess, success_justified id [text "u:r:h"]
    [sampleChallenge, sampleCall 10 (text "h")] (by decide +kernel) ?_ [sampleChallenge] _ []
      rfl hsuccess⟩
  intro before c after hcalls
  rcases before with _ | ⟨c1, _ | ⟨c2, before⟩⟩
  · obtain ⟨rfl, -⟩ := cons.inj hcalls
    exact id
  · obtain ⟨rfl, htail⟩ := cons.inj hcalls
    obtain ⟨rfl, -⟩ := cons.inj htail
    rintro ⟨m, pre, c, post, t, hm, -, -, hbefore, hissue, -, hbad⟩
    obtain ⟨rfl, hcons⟩ : pre = [] ∧ [sampleChallenge] = c :: post := by
      rcases pre with _ | ⟨_, pre⟩
      · exact ⟨rfl, hbefore⟩
      · simp at hbefore
    obtain ⟨rfl, rfl⟩ := cons.inj hcons
    obtain ⟨-, rfl⟩ := mk.inj (some.inj hissue)
    rcases hbad with hnone | hold | hpresented
    · have hfile : (parseInfo (sampleInfo (text "h"))).bind (fileHash [text "u:r:h"]) =
          some (text "h") := by
        decide +kernel
      rw [hm, bind_some, hnone] at hfile
      cases hfile
    · exact absurd hold (by decide)
    · cases hpresented
  · simp at hcalls

/-- The user `u` is unknown, so that the digest of the empty hash is accepted. And a nonce is
accepted after a thousand seconds, since no other nonce was issued in between. -/
theorem success_unjustified : (((issued id [sampleChallenge, sampleCall 5 []]).map fst).Nodup ∧
      (run id [] [sampleChallenge]).Succeeds id (sampleCall 5 []) ∧
      ¬ Justified id [] [sampleChallenge] (sampleCall 5 [])) ∧
    (((issued id [sampleChallenge, sampleCall 1000 (text "h")]).map fst).Nodup ∧
      (run id [text "u:r:h"] [sampleChallenge]).Succeeds id (sampleCall 1000 (text "h")) ∧
      ¬ Justified id [text "u:r:h"] [sampleChallenge] (sampleCall 1000 (text "h"))) := by
  refine ⟨⟨by decide +kernel, succeeds_of_result (by decide +kernel), ?_⟩,
    by decide +kernel, succeeds_of_result (by decide +kernel), ?_⟩
  · rintro ⟨m, -, ⟨hash, ⟨hentry, -⟩, -⟩, -⟩
    cases hentry
  · rintro ⟨m, -, -, ⟨t, ht, hage⟩, -⟩
    have hnow : (⟨1000, []⟩ : Clock).now = 1000 := rfl
    simp only [issued, sampleChallenge, Call.issues, filterMap_cons, filterMap_nil,
      mem_singleton, Prod.mk.injEq] at ht
    rw [ht.2, hnow] at hage
    cases hage

end OpenWbem.Http
