import Mathlib.Data.List.Induction
import OpenWbem.Http.ServedRequests

/-!
# Users of the trust store

A server with the automatic update of the trust store remembers the certificate of a client under
the name of its user; later the certificate is enough to log in. So the certificate should be added
only by a call of `authenticate` that succeeds. But the test is whether the result of the call, an
enumeration, is zero: a negotiation that needs another round is not zero either, and the user name
can be the one of an attempt that has failed.

Calls of `authenticate` exclude each other by a mutex, and nothing else of a connection has to do
with the trust store, so that the turns of all connections can be taken one after the other.

## Main definitions

* `TrustStore` — what is assumed about the trust store, which is not part of the repository.
* `Server`, `Server.step`, `Server.run` — a server with many connections.
* `TrustRight` — the law: certificates are added by successful calls only, and who logs in by
  certificate has logged in before with this certificate, or was in the trust store from the start.

## Main results

* `trust_right_iff` — the law holds of a run iff no call with a certificate asks for another round.
-/

namespace OpenWbem.Http

open Prog List

/-! ### The server -/

/-- The trust store: who is found for a certificate has been added for it, or was found before. -/
structure TrustStore (σ : Type) where
  getUser : σ → ByteStr → Option ByteStr
  addCertificate : σ → ByteStr → ByteStr → σ
  getUser_add : ∀ {s : σ} {fp user fp' user' : ByteStr},
    getUser (addCertificate s fp user) fp' = some user' → fp' = fp ∧ user' = user ∨
      getUser s fp' = some user'

/-- A call of `authenticate` on one of the connections. -/
structure HistoryEntry where
  conn : ℕ
  call : AuthCall

/-- A server: the connections and whether they are open, the trust store, and the calls of
`authenticate`. -/
structure Server (σ : Type) where
  conns : ℕ → Conn × Bool
  store : σ
  history : List HistoryEntry

/-- A server at its start. -/
def Server.start {σ : Type} (store : σ) : Server σ := ⟨fun _ => (Conn.new, true), store, []⟩

/-- The call that a note is about. -/
def Note.call? : Note → Option AuthCall
  | .authenticated call => some call
  | .served _ _ => none

section Server

variable {σ : Type} (T : TrustStore σ) (cfg : ServerConfig) (certs : ℕ → Option Certificate)

/-- The user of a certificate, if there is one. -/
def TrustStore.userOf (store : σ) (cert : Option Certificate) : Option ByteStr :=
  cert.bind fun x => T.getUser store x.fingerprint

/-- The user of the certificate is what the trust store has. -/
def Request.withUser (r : Request) (user : Option ByteStr) : Request :=
  { r with auth := { r.auth with certUser := user } }

/-- An event in which the user of the certificate is what the trust store has. -/
def Event.withUser (user : Option ByteStr) : Event → Event
  | .request r => .request (r.withUser user)
  | e => e

/-- A call adds the certificate to the trust store. -/
def TrustStore.update (cert : Option Certificate) (store : σ) (call : AuthCall) : σ :=
  match cert, call.result.trusted with
  | some x, some user => T.addCertificate store x.fingerprint user
  | _, _ => store

/-- The calls that have been added to the notes of a connection. -/
def newCalls (c c' : Conn) : List AuthCall := (c'.notes.drop c.notes.length).filterMap Note.call?

/-- A turn of one of the connections, if it is open. -/
def Server.step (S : Server σ) (op : ℕ × Turn) : Server σ :=
  if (S.conns op.1).2 then
    let event := op.2.event.withUser (T.userOf S.store (certs op.1))
    let out := afterTurn cfg (certs op.1) { op.2 with event } (S.conns op.1).1
    let calls := newCalls (S.conns op.1).1 out.1
    { conns := Function.update S.conns op.1 out
      store := calls.foldl (T.update (certs op.1)) S.store
      history := S.history ++ calls.map fun call => ⟨op.1, call⟩ }
  else S

/-- The turns of all connections, in the order in which they happen. -/
def Server.run (S : Server σ) (ops : List (ℕ × Turn)) : Server σ :=
  ops.foldl (Server.step T cfg certs) S

end Server

/-! ### The law -/

section Law

variable {σ : Type} (T : TrustStore σ) (cfg : ServerConfig) (certs : ℕ → Option Certificate)

/-- A user has been authenticated over a connection with a certificate. -/
def HasLoggedIn (history : List HistoryEntry) (fp user : ByteStr) : Prop :=
  ∃ e ∈ history, e.call.succeeded ∧ e.call.result.userName = user ∧
    (certs e.conn).map Certificate.fingerprint = some fp

/-- Certificates are added by successful calls only, for the user of the call. -/
def AddedRight (history : List HistoryEntry) : Prop :=
  ∀ e ∈ history, ∀ user, e.call.result.trusted = some user →
    e.call.succeeded ∧ e.call.result.userName = user

/-- Who logs in by certificate has logged in before with this certificate, or was in the trust store
from the start. -/
def LoginRight (store₀ : σ) (history : List HistoryEntry) : Prop :=
  ∀ before e after, history = before ++ e :: after → e.call.result.scheme = .certificate →
    e.call.succeeded → ∃ cert, certs e.conn = some cert ∧
      (T.getUser store₀ cert.fingerprint = some e.call.result.userName ∨
        HasLoggedIn certs before cert.fingerprint e.call.result.userName)

/-- **The law.** -/
def TrustRight (store₀ : σ) (history : List HistoryEntry) : Prop :=
  AddedRight history ∧ LoginRight T certs store₀ history

end Law

/-! ### A turn -/

section Turns

variable {σ : Type} (T : TrustStore σ) (cfg : ServerConfig) (certs : ℕ → Option Certificate)

/-- The new calls are among the new notes. -/
lemma newCalls_of_append {c c' : Conn} {l : List Note} (h : c'.notes = c.notes ++ l) :
    newCalls c c' = l.filterMap Note.call? := by
  rw [newCalls, h, drop_left]

/-- A turn makes at most one call of `authenticate`. -/
lemma newCalls_turn (cert : Option Certificate) (turn : Turn) (c : Conn) :
    newCalls c (afterTurn cfg cert turn c).1 = [] ∨ ∃ r, turn.event = .request r ∧
        newCalls c (afterTurn cfg cert turn c).1 = [c.session.call cfg cert r] := by
  have hauth (r : Request) : (c.session.authenticate cfg cert r).notes = c.notes ∨
      (c.session.authenticate cfg cert r).notes =
        c.notes ++ [.authenticated (c.session.call cfg cert r)] := by
    rw [Session.authenticate]
    split_ifs
    · exact .inl rfl
    · exact .inl rfl
    · exact .inr rfl
  rcases session_turn cfg cert turn c with h | ⟨r, hevent, h | ⟨-, -, method, h⟩⟩ <;>
    have hnotes := congrArg Session.notes h
  · refine .inl (newCalls_of_append (l := []) ?_)
    rw [append_nil]
    exact hnotes
  · rcases hauth r with hr | hr
    · refine .inl (newCalls_of_append (l := []) ?_)
      rw [append_nil]
      exact hnotes.trans hr
    · exact .inr ⟨r, hevent, newCalls_of_append (hnotes.trans hr)⟩
  · change _ = (c.session.authenticate cfg cert r).notes ++ [_] at hnotes
    rcases hauth r with hr | hr <;> rw [hr] at hnotes
    · exact .inl (newCalls_of_append hnotes)
    · rw [append_assoc] at hnotes
      exact .inr ⟨r, hevent, newCalls_of_append hnotes⟩

/-- A call of `authenticate` on a connection with a certificate. -/
def Genuine (cert : Option Certificate) (call : AuthCall) : Prop :=
  ∃ userName, call.result = authenticate cfg cert userName call.info call.outcomes

/-- **What a turn does to the server**: at most one call, which looks into the trust store and
updates it. -/
lemma step_cases (S : Server σ) (op : ℕ × Turn) :
    (S.step T cfg certs op).history = S.history ∧ (S.step T cfg certs op).store = S.store ∨
      ∃ call, Genuine cfg (certs op.1) call ∧ call.outcomes.certUser =
        T.userOf S.store (certs op.1) ∧
        (S.step T cfg certs op).history = S.history ++ [⟨op.1, call⟩] ∧
        (S.step T cfg certs op).store = T.update (certs op.1) S.store call := by
  rw [Server.step]
  split_ifs
  · dsimp only
    have hcalls := newCalls_turn cfg (certs op.1)
      { op.2 with event := op.2.event.withUser (T.userOf S.store (certs op.1)) } (S.conns op.1).1
    rcases hcalls with h | ⟨r, hevent, h⟩ <;> rw [h]
    · exact .inl ⟨append_nil _, rfl⟩
    · refine .inr ⟨_, ⟨_, rfl⟩, ?_, rfl, rfl⟩
      cases hop : op.2.event with
      | request r0 =>
        rw [hop] at hevent
        cases hevent
        rfl
      | _ =>
        rw [hop] at hevent
        cases hevent
  · exact .inl ⟨rfl, rfl⟩

end Turns

/-! ### Runs -/

section Runs

variable {σ : Type} {T : TrustStore σ} {cfg : ServerConfig} {certs : ℕ → Option Certificate}

/-- The history grows. -/
lemma HasLoggedIn.mono {history : List HistoryEntry} {fp user : ByteStr} (e : HistoryEntry)
    (h : HasLoggedIn certs history fp user) : HasLoggedIn certs (history ++ [e]) fp user := by
  obtain ⟨x, hx, hrest⟩ := h
  exact ⟨x, mem_append_left _ hx, hrest⟩

/-- All calls of a run are genuine. -/
lemma genuine_run (S : Server σ) (ops : List (ℕ × Turn))
    (h : ∀ e ∈ S.history, Genuine cfg (certs e.conn) e.call) :
    ∀ e ∈ (S.run T cfg certs ops).history, Genuine cfg (certs e.conn) e.call := by
  induction ops generalizing S with
  | nil => exact h
  | cons op ops ih =>
    refine ih (S.step T cfg certs op) ?_
    rcases step_cases T cfg certs S op with ⟨hhistory, -⟩ | ⟨call, hcall, -, hhistory, -⟩ <;>
      rw [hhistory]
    · exact h
    · intro e he
      rcases mem_append.1 he with he | he
      · exact h e he
      · obtain rfl := mem_singleton.1 he
        exact hcall

/-- **The invariant.** Who is in the trust store was there from the start, or has logged in. -/
structure Server.Right (T : TrustStore σ) (certs : ℕ → Option Certificate) (store₀ : σ)
    (S : Server σ) :
    Prop where
  law : TrustRight T certs store₀ S.history
  store : ∀ fp user, T.getUser S.store fp = some user →
    T.getUser store₀ fp = some user ∨ HasLoggedIn certs S.history fp user

/-- A call that does not ask for another round keeps the invariant. -/
lemma right_call {store₀ : σ} {S S' : Server σ} {i : ℕ} {call : AuthCall}
    (h : S.Right T certs store₀)
    (hcall : Genuine cfg (certs i) call)
    (huser : call.outcomes.certUser = T.userOf S.store (certs i))
    (hmore : ¬ AsksForMore cfg (certs i) call.info call.outcomes)
    (hhistory : S'.history = S.history ++ [⟨i, call⟩])
    (hstore : S'.store = T.update (certs i) S.store call) :
    S'.Right T certs store₀ := by
  obtain ⟨userName, hresult⟩ := hcall
  -- the certificate is added only if the call has succeeded
  have hadded (user : ByteStr) (ht : call.result.trusted = some user) :
      call.succeeded ∧ call.result.userName = user := by
    rw [hresult] at ht
    obtain ⟨hname, hanswer⟩ := trusted_authenticate ht
    rw [AuthCall.succeeded_iff, hresult]
    exact ⟨hanswer.resolve_right hmore, hname.symm⟩
  refine ⟨⟨?_, ?_⟩, ?_⟩
  · rw [hhistory]
    intro e he user ht
    rcases mem_append.1 he with he | he
    · exact h.law.1 e he user ht
    · obtain rfl := mem_singleton.1 he
      exact hadded user ht
  · rw [hhistory]
    intro before e after hsplit hscheme hsucceeded
    rcases eq_snoc_cases hsplit with ⟨rfl, rfl⟩ | ⟨after', hl⟩
    · rw [AuthCall.succeeded_iff] at hsucceeded
      have hcert : call.outcomes.certUser = some call.result.userName := by
        rw [hresult] at hscheme hsucceeded ⊢
        exact certUser_of_success hscheme hsucceeded
      rw [huser] at hcert
      obtain ⟨cert, hcert, hfound⟩ := Option.bind_eq_some_iff.1 hcert
      exact ⟨cert, hcert, h.store _ _ hfound⟩
    · exact h.law.2 before e after' hl hscheme hsucceeded
  · intro fp user hfound
    have hold (hold : T.getUser S.store fp = some user) :
        T.getUser store₀ fp = some user ∨ HasLoggedIn certs S'.history fp user := by
      rw [hhistory]
      exact (h.store fp user hold).imp_right (HasLoggedIn.mono _)
    rw [hstore] at hfound
    unfold TrustStore.update at hfound
    split at hfound
    · next cert trusted hcert htrusted =>
      rcases T.getUser_add hfound with ⟨rfl, rfl⟩ | hfound
      · obtain ⟨hsucceeded, hname⟩ := hadded _ htrusted
        refine .inr ⟨⟨i, call⟩, ?_, hsucceeded, hname, ?_⟩
        · rw [hhistory]
          exact mem_append_right _ (mem_singleton_self _)
        · exact congrArg (Option.map Certificate.fingerprint) hcert
      · exact hold hfound
    · exact hold hfound

/-- A run in which no call asks for another round keeps the invariant. -/
lemma right_server_run {store₀ : σ} {S : Server σ} (h : S.Right T certs store₀)
    (ops : List (ℕ × Turn)) (hmore : ∀ e ∈ (S.run T cfg certs ops).history,
      ¬ AsksForMore cfg (certs e.conn) e.call.info e.call.outcomes) :
    (S.run T cfg certs ops).Right T certs store₀ := by
  induction ops using reverseRecOn with
  | nil => exact h
  | append_singleton ops op ih =>
    have hrun : S.run T cfg certs (ops ++ [op]) = (S.run T cfg certs ops).step T cfg certs op :=
      foldl_append
    rw [hrun] at hmore ⊢
    rcases step_cases T cfg certs (S.run T cfg certs ops) op with
      ⟨hhistory, hstore⟩ | ⟨call, hcall, huser, hhistory, hstore⟩ <;> rw [hhistory] at hmore
    · obtain ⟨hlaw, hfound⟩ := ih hmore
      exact ⟨hhistory ▸ hlaw, by rwa [hstore, hhistory]⟩
    · refine right_call (ih fun e he => hmore e (mem_append_left _ he)) hcall huser ?_
        hhistory hstore
      exact hmore ⟨op.1, call⟩ (mem_append_right _ (mem_singleton_self _))

end Runs

/-- **When only proved users are trusted.** In a run of a server with any number of connections, all
certificates are added by successful calls, for the user of the call, and who logs in by certificate
has logged in before over a connection with the same certificate or was in the trust store from the
start, iff no call with a certificate, and with the automatic update, asks for another round.

**Proof sketch.** By `step_cases` a turn makes at most one call of `authenticate`. Such a call adds
the certificate for its user if it succeeds or asks for another round (`trusted_authenticate`).
Without the latter, everyone who is found in the trust store has logged in, or was there from the
start. A call that does ask for another round adds the certificate without a success. -/
theorem trust_right_iff {σ : Type} (T : TrustStore σ) (cfg : ServerConfig)
    (certs : ℕ → Option Certificate) (store₀ : σ) (ops : List (ℕ × Turn)) :
    TrustRight T certs store₀ ((Server.start store₀).run T cfg certs ops).history ↔
      ∀ e ∈ ((Server.start store₀).run T cfg certs ops).history,
        ¬ AsksForMore cfg (certs e.conn) e.call.info e.call.outcomes := by
  constructor
  · intro h e he hmore
    obtain ⟨userName, hresult⟩ :=
      genuine_run (Server.start store₀) ops (fun e he => by cases he) e he
    obtain ⟨htrusted, hanswer⟩ := trusted_of_asksForMore userName hmore
    rw [← hresult] at htrusted hanswer
    have hsucceeded := AuthCall.succeeded_iff.1 (h.1 e he _ htrusted).1
    rw [hanswer] at hsucceeded
    cases hsucceeded
  · intro hmore
    have hstart : (Server.start store₀).Right T certs store₀ :=
      ⟨⟨fun e he => (by cases he), fun before e after h => by simp [Server.start] at h⟩,
        fun _ _ => .inl⟩
    exact (right_server_run hstart ops hmore).law

/-! ### A certificate for a user who has not proved an identity -/

/-- A trust store that is a list; what was added last is found first. -/
def listStore : TrustStore (List (ByteStr × ByteStr)) where
  getUser store fp := (store.find? fun x => x.1 = fp).map Prod.snd
  addCertificate store fp user := (fp, user) :: store
  getUser_add {s fp user fp' user'} h := by
    rw [find?_cons] at h
    by_cases hfp : fp = fp'
    · simp only [hfp, decide_true, Option.map_some, Option.some.injEq] at h
      exact .inl ⟨hfp.symm, h.symm⟩
    · simp only [hfp, decide_false] at h
      exact .inr h

/-- The outcomes of a client that gives a wrong password for root, and then starts a negotiation. -/
def intruderOutcomes : AuthOutcomes :=
  { owlocal := ⟨[], none, [], .ok .fail⟩
    digest := ⟨[], none, [], .ok .fail⟩
    decodes := true
    basic := ⟨text "root", text "Wrong password", .ok false⟩
    negotiate := spnegoAuthenticate (text "root") (text "Negotiate YIIB") (.continue (text "oYIB"))
    certUser := none
    addFails := false
    digestChallenge := [] }

/-- A turn with a request to trace, for an authorization. -/
def intruderTurn (authorization : List (ByteStr × ByteStr)) : Turn :=
  { event := .request
      { line := [text "TRACE", text "/", text "HTTP/1.1"]
        headers := (text "host", text "localhost") :: authorization
        length := .ok 0
        counter := 40
        auth := intruderOutcomes
        getRequestHandler := fun _ => none
        language := none
        split := fun s => ([], s)
        eat := none }
    socket := ⟨false, false, false⟩
    date := text "Thu, 01 Jan 2004 00:00:00 GMT"
    eatAfter := none }

/-- The certificate of the intruder; it is verified on the second connection. -/
def intruderCerts : ℕ → Option Certificate
  | 0 => some ⟨text "4D:BF:75", false⟩
  | 1 => some ⟨text "4D:BF:75", true⟩
  | _ => none

/-- A wrong password, the start of a negotiation, and a login with the certificate. -/
def intruderOps : List (ℕ × Turn) :=
  [(0, intruderTurn [(text "authorization", text "Basic cm9vdDp3cm9uZw==")]),
    (0, intruderTurn [(text "authorization", text "Negotiate YIIB")]),
    (1, intruderTurn [])]

/-- **A certificate is trusted for root without a proof of identity**, and then it is enough to log
in. -/
theorem intruder_trusted :
    ¬ AddedRight ((Server.start []).run listStore rootOnly intruderCerts intruderOps).history ∧
      ¬ LoginRight listStore intruderCerts []
        ((Server.start []).run listStore rootOnly intruderCerts intruderOps).history := by
  -- a failure, another round that adds the certificate for root, and a success by certificate
  have hmap : ((Server.start []).run listStore rootOnly intruderCerts intruderOps).history.map
      (fun e => (e.conn, e.call.result.scheme, e.call.succeeded, e.call.result.userName,
        e.call.result.trusted)) =
    [(0, .basic, false, text "root", none), (0, .negotiate, false, text "root", some (text "root")),
      (1, .certificate, true, text "root", none)] := rfl
  generalize ((Server.start []).run listStore rootOnly intruderCerts intruderOps).history = history
    at hmap ⊢
  obtain ⟨e0, l, rfl, h0, hmap⟩ := map_eq_cons_iff.1 hmap
  obtain ⟨e1, l, rfl, h1, hmap⟩ := map_eq_cons_iff.1 hmap
  obtain ⟨e2, l, rfl, h2, hmap⟩ := map_eq_cons_iff.1 hmap
  simp only [Prod.mk.injEq] at h0 h1 h2
  constructor
  · intro h
    have hsucceeded := (h e1 (by simp) (text "root") h1.2.2.2.2).1
    rw [h1.2.2.1] at hsucceeded
    cases hsucceeded
  · intro h
    obtain ⟨cert, -, hstore | ⟨e, he, hsucceeded, -⟩⟩ := h [e0, e1] e2 l rfl h2.2.1 h2.2.2.1
    · cases hstore
    · simp only [mem_cons, not_mem_nil, or_false] at he
      rcases he with rfl | rfl
      · rw [h0.2.2.1] at hsucceeded
        cases hsucceeded
      · rw [h1.2.2.1] at hsucceeded
        cases hsucceeded

end OpenWbem.Http
