import OpenWbem.Http.Connection

/-!
# Which requests a connection serves

A request is served, by `trace`, `options` or `post`, if the connection is authenticated. It should
be so for a user who has been authenticated on this connection and whom the configuration allows.
All schemes check the latter, except for the certificates: the user that the trust store has for a
verified certificate is taken without a look at the list of allowed users.

## Main definitions

* `Session` — what a connection knows about its user, and what has happened.
* `ServedRight` — the law: every request was served for an allowed user, after the success of that
  user.

## Main results

* `session_turn` — what a turn of the loop does to the session.
* `served_right_iff` — the law holds of all runs iff the trust store has only allowed users for
  the certificate.
-/

namespace OpenWbem.Http

open Prog List

/-! ### Sessions -/

/-- What a connection knows about its user, and what has happened. -/
structure Session where
  authenticated : Bool
  user : ByteStr
  contextUser : Option ByteStr
  notes : List Note

/-- The session of a connection. -/
def Conn.session (c : Conn) : Session := ⟨c.isAuthenticated, c.userName, c.contextUser, c.notes⟩

/-- A call of `authenticate` has succeeded. -/
def AuthCall.succeeded (call : AuthCall) : Bool :=
  match call.result.answer with
  | .ok .success => true
  | _ => false

/-- Success is the answer. -/
lemma AuthCall.succeeded_iff {call : AuthCall} :
    call.succeeded ↔ call.result.answer = .ok .success := by
  rw [AuthCall.succeeded]
  split
  · next h => simp [h]
  · next h => simpa using h

/-- The session after a call of `authenticate`; a call that throws does not reach the context. -/
def Session.afterCall (s : Session) (call : AuthCall) : Session :=
  { authenticated := call.succeeded
    user := call.result.userName
    contextUser := match call.result.answer with
      | .ok _ => some call.result.userName
      | .error _ => s.contextUser
    notes := s.notes ++ [.authenticated call] }

/-- A program that has nothing to do with the session. -/
def Quiet {ε α : Type} (x : Prog Conn ε α) : Prop := ∀ c, (exec x c).2.session = c.session

namespace Quiet

variable {ε α β : Type} {x : Prog Conn ε α} {f : α → Prog Conn ε β}

/-- The rule for `pure`. -/
lemma pure (v : α) : Quiet (Pure.pure v : Prog Conn ε α) := fun _ => rfl

/-- The rule for `throw`. -/
lemma throw (e : ε) : Quiet (MonadExcept.throw e : Prog Conn ε α) := fun _ => rfl

/-- The rule for `modify`. -/
lemma modify {g : Conn → Conn} (h : ∀ c, (g c).session = c.session) :
    Quiet (modify g : Prog Conn ε PUnit) := h

/-- One program after the other. -/
lemma bind (hx : Quiet x) (hf : ∀ v, Quiet (f v)) : Quiet (x >>= f) := by
  intro c
  have hc := hx c
  rw [exec_bind]
  rcases hxc : exec x c with ⟨e | v, c'⟩ <;> rw [hxc] at hc
  · exact hc
  · exact (hf v c').trans hc

/-- After `get`. -/
lemma get_bind {g : Conn → Prog Conn ε β} (h : ∀ c, Quiet (g c)) : Quiet (get >>= g) :=
  fun c => h c c

variable {p : Prop}

/-- Either of two. -/
lemma ite [Decidable p] {y : Prog Conn ε α} (hx : Quiet x) (hy : Quiet y) :
    Quiet (if p then x else y) := by
  split_ifs
  · exact hx
  · exact hy

/-- Under a condition. -/
lemma when [Decidable p] {y : Prog Conn ε PUnit} (hy : Quiet y) : Quiet (when p y) :=
  .ite hy (.pure _)

end Quiet

section Blocks

variable {ε : Type}

/-- A header. -/
lemma quiet_addHeader (key value : ByteStr) : Quiet (addHeader key value : Prog Conn ε PUnit) :=
  .modify fun _ => rfl

/-- A trailer. -/
lemma quiet_addTrailer (key value : ByteStr) : Quiet (addTrailer key value : Prog Conn ε PUnit) :=
  .modify fun _ => rfl

/-- Bytes. -/
lemma quiet_write (bytes : ByteStr) : Quiet (write bytes : Prog Conn ε PUnit) :=
  .modify fun _ => rfl

/-- The details of an error. -/
lemma quiet_setErrorDetails (details : ByteStr) :
    Quiet (setErrorDetails details : Prog Conn ε PUnit) := .modify fun _ => rfl

/-- All headers. -/
lemma quiet_sendHeaders (sc : ℕ) (len : Int) : Quiet (sendHeaders sc len : Prog Conn ε PUnit) :=
  .bind (.when (quiet_addHeader _ _)) fun _ => fun _ => rfl

/-- All trailers. -/
lemma quiet_outputTrailers : Quiet (outputTrailers : Prog Conn ε PUnit) := .modify fun _ => rfl

/-- An error. -/
lemma quiet_sendError (socket : SocketState) (code : ℕ) :
    Quiet (sendError socket code : Prog Conn ε PUnit) := .ite (.pure _) fun _ => rfl

/-- A refusal. -/
lemma quiet_refuse (code : ErrorCode) (details : ByteStr) : Quiet (refuse code details) :=
  .bind (quiet_setErrorDetails _) fun _ => .throw _

/-- An exception. -/
lemma quiet_mayThrow (thrown : Option Thrown) : Quiet (mayThrow thrown) := by
  cases thrown with
  | none => exact .pure _
  | some t => exact .throw t

/-- The request line. -/
lemma quiet_processRequestLine (line : List ByteStr) : Quiet (processRequestLine line) := by
  have hversion : Quiet (checkVersion line) :=
    .bind (.when (quiet_refuse _ _)) fun _ => .bind (fun _ => rfl) fun _ => .when (quiet_refuse _ _)
  exact hversion.bind fun _ => .bind (fun _ => rfl) fun _ =>
    .bind (.when (quiet_refuse _ _)) fun _ => .pure _

variable (cfg : ServerConfig) (r : Request)

/-- The checks of the entity. -/
lemma quiet_checkEntity : Quiet (checkEntity cfg r) := by
  have hhost : Quiet (checkHost r) := .get_bind fun _ => .when (quiet_refuse _ _)
  have hpersistent : Quiet (checkPersistent r) := .modify fun c => by split_ifs <;> rfl
  have hcoding : Quiet (checkCoding r) := fun _ => rfl
  have hread : Quiet (readLength r) := by
    refine .when ?_
    split
    · exact .throw _
    · exact .bind (fun _ => rfl) fun _ => .when (quiet_refuse _ _)
  have hlength : Quiet checkLength :=
    .get_bind fun _ => .ite (.when (quiet_refuse _ _)) (.when (quiet_refuse _ _))
  have hencoding : Quiet (checkEncoding cfg r) :=
    .bind (fun _ => rfl) fun _ => .when (.ite (fun _ => rfl) (.when (quiet_refuse _ _)))
  exact hhost.bind fun _ => hpersistent.bind fun _ => hcoding.bind fun _ => .get_bind fun _ =>
    .bind (.when (hread.bind fun _ => hlength)) fun _ => hencoding

/-- The other checks. -/
lemma quiet_checkRest : Quiet (checkRest cfg r) := by
  have haccept : Quiet (checkAccept cfg r) :=
    .get_bind fun _ => .bind (.when (quiet_refuse _ _)) fun _ =>
      .bind (.when (quiet_refuse _ _)) fun _ => .when fun _ => rfl
  have htrailers : Quiet (checkTrailers r) := .modify fun c => by split_ifs <;> rfl
  have hforbidden : Quiet (checkForbidden r) := .when (quiet_refuse _ _)
  have hfind (ct : ByteStr) : Quiet (findHandler r ct) :=
    .bind (fun _ => rfl) fun _ => .when (quiet_refuse _ _)
  have htype : Quiet (checkContentType r) :=
    .get_bind fun _ => .when (.ite (hfind _) (quiet_refuse _ _))
  have hman : Quiet (checkMan r) :=
    .get_bind fun _ => .when (.ite (.when (quiet_refuse _ _)) (quiet_refuse _ _))
  exact haccept.bind fun _ => htrailers.bind fun _ => hforbidden.bind fun _ =>
    htype.bind fun _ => hman

end Blocks

/-! ### Serving a request -/

/-- The session after a request has been served. -/
def Session.served (s : Session) (method : Method) : Session :=
  { s with notes := s.notes ++ [.served method s.contextUser] }

/-- A program that serves a request serves one. -/
def Serves {α : Type} (method : Method) (x : Prog Conn Thrown α) : Prop :=
  ∀ c, (exec x c).2.session = c.session.served method

/-- One note for a served request. -/
lemma serves_of_quiet {α : Type} {method : Method} {f : PUnit → Prog Conn Thrown α}
    (h : Quiet (f ⟨⟩)) :
    Serves method (noteServed method >>= f) := by
  intro c
  exact h _

section Answers

variable (cfg : ServerConfig) (r : Request)

/-- The method `TRACE`. -/
lemma serves_trace : Serves .trace (trace r) :=
  serves_of_quiet <| (quiet_addHeader _ _).bind fun _ => .get_bind fun _ =>
    (quiet_sendHeaders _ _).bind fun _ => (quiet_write _).bind fun _ => quiet_outputTrailers

/-- The method `OPTIONS`. -/
lemma serves_options : Serves .options (options r cfg) := by
  have hgroups (hp : ByteStr) (cf : CIMFeatures) : Quiet (addGroups hp cf) := by
    rw [addGroups]
    split
    · exact .bind (.when (quiet_addHeader _ _)) fun _ => quiet_addHeader _ _
    · exact .bind (.when (quiet_addHeader _ _)) fun _ => quiet_addHeader _ _
    · exact .throw _
  have hadd (hp : ByteStr) (cf : CIMFeatures) : Quiet (addFeatures hp cf) :=
    (quiet_addHeader _ _).bind fun _ => (quiet_addHeader _ _).bind fun _ =>
      (hgroups _ _).bind fun _ =>
      .bind (.when (quiet_addHeader _ _)) fun _ => .bind (.when (quiet_addHeader _ _)) fun _ =>
        .when (quiet_addHeader _ _)
  have hget : Quiet (getFeatures r) := by
    rw [getFeatures]
    split
    · exact .throw _
    · split
      · exact .throw _
      · exact .pure _
  exact serves_of_quiet <| (quiet_addHeader _ _).bind fun _ =>
    .bind (.when (quiet_addHeader _ _)) fun _ =>
    .bind (fun _ => rfl) fun _ => hget.bind fun _ => (hadd _ _).bind fun _ => .get_bind fun _ =>
      quiet_sendHeaders _ _

/-- The beginning of a response. -/
lemma quiet_beginPostResponse (h : Handler) : Quiet (beginPostResponse r h) :=
  (quiet_addHeader _ _).bind fun _ => .get_bind fun _ =>
    .bind (.when (quiet_addHeader _ _)) fun _ =>
    (quiet_addHeader _ _).bind fun _ => .bind (fun _ => rfl) fun _ =>
      .bind (.when (quiet_addHeader _ _)) fun _ => .when <|
        (quiet_addHeader _ _).bind fun _ => (quiet_addHeader _ _).bind fun _ =>
          (quiet_addHeader _ _).bind fun _ => quiet_sendHeaders _ _

/-- The handler. -/
lemma quiet_process (h : Handler) : Quiet (process h) :=
  .get_bind fun _ => .bind (.when (quiet_write _)) fun _ => quiet_mayThrow _

/-- A collected response. -/
lemma quiet_sendCollected (h : Handler) : Quiet (sendCollected r h) := by
  have hheaders (c : Conn) : Quiet (sendCollectedHeaders c h) :=
    .ite ((quiet_addHeader _ _).bind fun _ => (quiet_addHeader _ _).bind fun _ =>
      quiet_sendHeaders _ _)
      (.ite (quiet_addHeader _ _) (quiet_sendHeaders _ _))
  have hbody (c : Conn) : Quiet (sendBody c h) :=
    .ite ((quiet_write _).bind fun _ => quiet_outputTrailers) (quiet_write _)
  exact .get_bind fun c => .bind (.when (quiet_addHeader _ _)) fun _ =>
    (quiet_addHeader _ _).bind fun _ =>
    (hheaders c).bind fun _ => .when (hbody c)

/-- A chunked response. -/
lemma quiet_sendChunked (h : Handler) : Quiet (sendChunked r h) := by
  have herror (c : Conn) (code : Int32) (descr : ByteStr) :
    Quiet (addErrorTrailers c h code descr) :=
    (quiet_addTrailer _ _).bind fun _ => .bind (.when (quiet_addTrailer _ _)) fun _ =>
      .when (quiet_addTrailer _ _)
  have hterm (c : Conn) : Quiet (termOutput c h) := by
    rw [termOutput]
    split
    · exact (herror _ _ _).bind fun _ => quiet_write _
    · exact quiet_write _
  exact .get_bind fun c => .bind (.when (quiet_addTrailer _ _)) fun _ => (hterm c).bind fun _ =>
    quiet_outputTrailers

/-- The method `POST`. -/
lemma serves_post (method : Method) (h : Handler) : Serves method (post r method h) :=
  serves_of_quiet <| (quiet_beginPostResponse r h).bind fun _ => (quiet_process h).bind fun _ =>
    .get_bind fun _ => .ite (quiet_sendChunked r h) (quiet_sendCollected r h)

/-- A request whose headers are right is served, or it has no entity. -/
lemma session_dispatch (c c' : Conn) : (exec (dispatch cfg r c) c').2.session = c'.session ∨
      ∃ method, (exec (dispatch cfg r c) c').2.session = c'.session.served method := by
  have hpost : (exec (postEntity r c) c').2.session = c'.session ∨
      ∃ method, (exec (postEntity r c) c').2.session = c'.session.served method := by
    rw [postEntity]
    split
    · split_ifs
      · exact .inr ⟨_, serves_post r _ _ c'⟩
      · exact .inl rfl
    · exact .inl rfl
  rw [dispatch]
  split
  · exact .inr ⟨_, serves_trace r c'⟩
  · exact .inr ⟨_, serves_options cfg r c'⟩
  · exact hpost
  · exact hpost
  · exact .inl rfl

/-- The end of a request. -/
lemma quiet_rest (r : Request) : Quiet (do
      mayThrow r.eat
      let c ← get
      pure (!c.isClose) : Prog Conn Thrown Bool) :=
  (quiet_mayThrow _).bind fun _ => .get_bind fun _ => .pure _

/-- What can become of a session when a request is served. -/
lemma session_serve (socket : SocketState) (c : Conn) :
    (exec (serve cfg socket r) c).2.session = c.session ∨
      ∃ method, (exec (serve cfg socket r) c).2.session = c.session.served method := by
  rw [serve, exec_get_bind]
  split_ifs
  · refine .inl ?_
    have hnever : Quiet (neverHappens socket r) :=
      (quiet_setErrorDetails _).bind fun _ => .bind (fun _ => rfl) fun _ =>
        (quiet_mayThrow _).bind fun _ =>
        (quiet_sendError _ _).bind fun _ => .pure _
    exact hnever c
  · have hdispatch := session_dispatch cfg r c c
    rw [exec_bind]
    rcases hd : exec (dispatch cfg r c) c with ⟨e | v, c'⟩ <;> rw [hd] at hdispatch
    · exact hdispatch
    · rw [quiet_rest r c']
      exact hdispatch

end Answers

/-! ### A turn of the loop -/

variable {c : Conn}

section Turns

variable (cfg : ServerConfig) (cert : Option Certificate)

/-- The call of `authenticate` for a request. -/
def Session.call (cfg : ServerConfig) (cert : Option Certificate) (r : Request) (s : Session) :
    AuthCall :=
  ⟨r.value "authorization", r.auth, authenticate cfg cert s.user (r.value "authorization") r.auth⟩

/-- The session after the authentication of a request. -/
def Session.authenticate (cfg : ServerConfig) (cert : Option Certificate) (r : Request)
    (s : Session) :
    Session :=
  if cfg.allowAnonymous then { s with authenticated := true }
  else if s.authenticated then { s with contextUser := some s.user }
  else s.afterCall (s.call cfg cert r)

/-- A connection that is not authenticated: the call is remembered, and its answer decides. -/
lemma session_performAuthentication (r : Request) (hc : c.isAuthenticated = false) :
    (∃ rv c', (c.session.call cfg cert r).result.answer = .ok rv ∧
      exec (performAuthentication cfg cert r) c = (.ok ⟨⟩, c') ∧
      c'.session =
        { c.session.afterCall (c.session.call cfg cert r) with contextUser := c.contextUser }) ∨
    ∃ t e c', (c.session.call cfg cert r).result.answer = .error t ∧
      exec (performAuthentication cfg cert r) c = (.error e, c') ∧
      c'.session = c.session.afterCall (c.session.call cfg cert r) := by
  rw [performAuthentication, exec_get_bind]
  have hcall : c.session.call cfg cert r = ⟨r.value "authorization", r.auth,
    authenticate cfg cert c.userName (r.value "authorization") r.auth⟩ := rfl
  rw [hcall]
  generalize hres : authenticate cfg cert c.userName (r.value "authorization") r.auth = res
  rcases res with ⟨scheme, userName, details, headers, t | rv, trusted⟩
  · refine .inr ⟨t, ?_⟩
    cases t <;> refine ⟨_, _, rfl, rfl, ?_⟩ <;> change Session.mk c.isAuthenticated _ _ _ = _ <;>
      rw [hc] <;>
      rfl
  · refine .inl ⟨rv, ?_⟩
    cases rv
    case success => exact ⟨_, rfl, rfl, rfl⟩
    all_goals
      refine ⟨_, rfl, rfl, ?_⟩
      change Session.mk c.isAuthenticated _ _ _ = _
      rw [hc]
      rfl

/-- The session after authentication. -/
lemma session_checkAuthentication (r : Request) (c : Conn) :
    (exec (checkAuthentication cfg cert r) c).2.session = c.session.authenticate cfg cert r ∧
      (cfg.allowAnonymous = false → (exec (checkAuthentication cfg cert r) c).1 = .ok ⟨⟩ →
        (exec (checkAuthentication cfg cert r) c).2.session.contextUser =
          some (exec (checkAuthentication cfg cert r) c).2.session.user) := by
  rw [checkAuthentication, Session.authenticate]
  rcases hanon : cfg.allowAnonymous with - | -
  swap
  · exact ⟨rfl, by simp⟩
  rw [if_neg (by decide), if_neg (by decide), exec_get_bind]
  rcases hc : c.isAuthenticated with - | -
  · rw [when, if_pos rfl, if_neg (by simp [Conn.session, hc])]
    rcases session_performAuthentication cfg cert r hc with
      ⟨rv, c', hanswer, hexec, hsession⟩ | ⟨t, e, c', -, hexec, hsession⟩
    · rw [exec_bind_of_ok hexec]
      refine ⟨?_, fun _ _ => rfl⟩
      have hafter : (c.session.afterCall (c.session.call cfg cert r)).contextUser =
          some (c.session.call cfg cert r).result.userName := by
        rw [Session.afterCall, hanswer]
      change { c'.session with contextUser := some c'.session.user } = _
      rw [hsession]
      exact congrArg (fun x => Session.mk _ _ x _) hafter.symm
    · rw [exec_bind_of_error hexec]
      exact ⟨hsession, by simp⟩
  · rw [when, if_neg (by decide), if_pos (by simp [Conn.session, hc])]
    exact ⟨rfl, fun _ _ => rfl⟩

/-- What `processHeaders` does to the session: a request is right if the session is authenticated,
and the context has its user. -/
lemma session_processHeaders (r : Request) (c : Conn) :
    (exec (processHeaders cfg cert r) c).2.session = c.session ∧
        (∀ code, (exec (processHeaders cfg cert r) c).1 ≠ .ok code) ∨
      (exec (processHeaders cfg cert r) c).2.session = c.session.authenticate cfg cert r ∧
        ((exec (processHeaders cfg cert r) c).1 = .ok 200 →
          (c.session.authenticate cfg cert r).authenticated ∧
          (cfg.allowAnonymous = false → (c.session.authenticate cfg cert r).contextUser =
            some (c.session.authenticate cfg cert r).user)) ∧
        (∀ code, (exec (processHeaders cfg cert r) c).1 = .ok code → code = 200 ∨ code = 401) := by
  have hentity := quiet_checkEntity cfg r c
  rw [processHeaders, exec_bind]
  rcases hexec : exec (checkEntity cfg r) c with ⟨e | _, c1⟩ <;> rw [hexec] at hentity
  · exact .inl ⟨hentity, nofun⟩
  refine .inr ?_
  obtain ⟨hauth, hcontext⟩ := session_checkAuthentication cfg cert r c1
  dsimp only
  rw [exec_bind]
  rw [hentity] at hauth
  rcases hexec1 : exec (checkAuthentication cfg cert r) c1 with ⟨e | _, c2⟩ <;>
    rw [hexec1] at hauth hcontext
  · exact ⟨hauth, nofun, nofun⟩
  have hrest := quiet_checkRest cfg r c2
  dsimp only
  rw [exec_bind]
  rcases hexec2 : exec (checkRest cfg r) c2 with ⟨e | _, c3⟩ <;> rw [hexec2] at hrest
  · exact ⟨hrest.trans hauth, nofun, nofun⟩
  dsimp only
  rw [exec_get_bind]
  refine ⟨hrest.trans hauth, fun h => ?_, fun code h => ?_⟩
  · rw [← hauth]
    refine ⟨?_, fun hanon => hcontext hanon rfl⟩
    rw [← hrest]
    by_contra hno
    change ¬ c3.isAuthenticated at hno
    rw [if_neg hno] at h
    cases h
  · cases h
    split_ifs
    · exact .inl rfl
    · exact .inr rfl

/-- What a turn can do to the session: nothing, an authentication, and then also a request that is
served. -/
def Session.Turned (cfg : ServerConfig) (cert : Option Certificate) (event : Event)
    (s s' : Session) : Prop :=
  s' = s ∨ ∃ r, event = .request r ∧
    (s' = s.authenticate cfg cert r ∨
      (s.authenticate cfg cert r).authenticated ∧
        (cfg.allowAnonymous = false →
          (s.authenticate cfg cert r).contextUser = some (s.authenticate cfg cert r).user) ∧
        ∃ method, s' = (s.authenticate cfg cert r).served method)

/-- A refused request. -/
lemma quiet_refused (socket : SocketState) (r : Request) (code : ℕ) :
    Quiet (refused socket r code) :=
  (quiet_sendError _ _).bind fun _ => .ite (.pure _) ((quiet_mayThrow _).bind fun _ => .pure _)

/-- The stream of the entity. -/
lemma quiet_convertToFiniteStream : Quiet convertToFiniteStream :=
  .get_bind fun _ => .when (.throw _)

/-- A program after one that has nothing to do with the session. -/
lemma session_bind {ε α β : Type} {x : Prog Conn ε α} {f : α → Prog Conn ε β}
    {P : Session → Prop} (hx : Quiet x) (hc : P c.session)
    (hf : ∀ v c', exec x c = (.ok v, c') → c'.session = c.session → P (exec (f v) c').2.session) :
    P (exec (x >>= f) c).2.session := by
  have h := hx c
  rw [exec_bind]
  rcases hexec : exec x c with ⟨e | v, c'⟩ <;> rw [hexec] at h
  · rw [h]
    exact hc
  · exact hf v c' hexec h

/-- With a status code. -/
lemma quiet_returning {x : Prog Conn Stop ℕ} (hx : Quiet x) : Quiet (returning x) := by
  intro c
  have h := hx c
  rw [exec_returning]
  rcases hexec : exec x c with ⟨(t | code) | code, c'⟩ <;> rw [hexec] at h <;> exact h

/-- A request with an error. -/
lemma quiet_handleEntity (socket : SocketState) (r : Request) {code : ℕ} (hcode : 300 ≤ code) :
    Quiet (handleEntity cfg socket r code) := by
  rw [handleEntity]
  refine .bind (fun _ => rfl) fun _ => quiet_convertToFiniteStream.bind fun _ => ?_
  rw [if_pos hcode]
  exact quiet_refused socket r code

/-- A request whose headers are right is served, or nothing happens. -/
lemma session_handleEntity (socket : SocketState) (r : Request) (c : Conn) :
    (exec (handleEntity cfg socket r 200) c).2.session = c.session ∨
      ∃ method, (exec (handleEntity cfg socket r 200) c).2.session = c.session.served method := by
  rw [handleEntity, exec_modify_bind]
  refine session_bind (P := fun s => s = c.session ∨ ∃ method, s = c.session.served method)
    quiet_convertToFiniteStream (.inl rfl) fun _ c' _ hc' => ?_
  have hserve := session_serve cfg r socket c'
  rwa [hc'] at hserve

/-- The session after the headers. -/
lemma session_handleHeaders (socket : SocketState) (r : Request) (c : Conn) :
    c.session.Turned cfg cert (.request r)
      (exec (handleHeaders cfg cert socket r) c).2.session := by
  rw [handleHeaders, exec_bind, exec_returning]
  have hheaders := session_processHeaders cfg cert r c
  rcases hexec : exec (processHeaders cfg cert r) c with ⟨(t | code) | code, c'⟩ <;>
    rw [hexec] at hheaders
  · rcases hheaders with ⟨h, -⟩ | ⟨h, -⟩
    · exact .inl h
    · exact .inr ⟨r, rfl, .inl h⟩
  · have hquiet := quiet_handleEntity cfg socket r (le_trans (by decide) code.le_toNat) c'
    rcases hheaders with ⟨h, -⟩ | ⟨h, -⟩
    · exact .inl (hquiet.trans h)
    · exact .inr ⟨r, rfl, .inl (hquiet.trans h)⟩
  · rcases hheaders with ⟨-, h⟩ | ⟨h, hready, hcodes⟩
    · exact absurd rfl (h code)
    rcases hcodes code rfl with rfl | rfl
    · obtain ⟨hauth, hcontext⟩ := hready rfl
      have hentity := session_handleEntity cfg socket r c'
      rcases hentity with hentity | ⟨method, hentity⟩
      · exact .inr ⟨r, rfl, .inl (hentity.trans h)⟩
      · refine .inr ⟨r, rfl, .inr ⟨hauth, hcontext, method, ?_⟩⟩
        rw [← h]
        exact hentity
    · have hquiet := quiet_handleEntity cfg socket r (show 300 ≤ 401 by decide) c'
      exact .inr ⟨r, rfl, .inl (hquiet.trans h)⟩

variable (turn : Turn)

/-- The session after a request. -/
lemma session_iteration (c : Conn) :
    c.session.Turned cfg cert turn.event (exec (iteration cfg cert turn) c).2.session := by
  have hreset : Quiet (resetConn turn.date) :=
    .bind (fun _ => rfl) fun _ => (quiet_addHeader _ _).bind fun _ =>
      (quiet_addHeader _ _).bind fun _ =>
      quiet_addHeader _ _
  have hgiveUp (code : ℕ) (details : ByteStr) : Quiet (giveUp turn.socket code details) :=
    .bind (fun _ => rfl) fun _ => (quiet_sendError _ _).bind fun _ => .pure _
  rw [iteration]
  refine session_bind hreset (.inl rfl) fun _ c' _ hc' => ?_
  rw [← hc']
  split
  · exact .inl rfl
  · exact .inl (hgiveUp _ _ c')
  · exact .inl (hgiveUp _ _ c')
  · exact .inl (hgiveUp _ _ c')
  · exact .inl rfl
  · exact .inl (hgiveUp _ _ c')
  · next r hevent =>
    rw [hevent]
    refine session_bind
      (quiet_returning (quiet_processRequestLine r.line)) (.inl rfl) fun code c1 _ hc1 => ?_
    rw [← hc1]
    split_ifs
    · exact .inl ((quiet_sendError turn.socket code).bind (fun _ => .pure false) _)
    · exact session_handleHeaders cfg cert turn.socket r _

/-- The handler of exceptions. -/
lemma quiet_catchThrown (t : Thrown) : Quiet (catchThrown turn t) := by
  have hcaught (details : ByteStr) (code : ℕ) : Quiet (sendCaught turn details code) :=
    (quiet_setErrorDetails _).bind fun _ => (quiet_mayThrow _).bind fun _ => quiet_sendError _ _
  cases t with
  | cimError message => exact (quiet_addHeader _ _).bind fun _ => .get_bind fun _ => hcaught _ _
  | authentication message => exact hcaught _ _
  | exception message => exact hcaught _ _
  | iosFailure => exact .pure _
  | stdException what => exact hcaught _ _
  | cancelled => exact hcaught _ _
  | unknown => exact hcaught _ _

/-- The handlers of `run` have nothing to do with the session. -/
lemma session_afterTurn (c : Conn) :
    (afterTurn cfg cert turn c).1.session = (exec (iteration cfg cert turn) c).2.session := by
  rw [afterTurn]
  rcases exec (iteration cfg cert turn) c with ⟨t | more, c'⟩
  · exact quiet_catchThrown turn t c'
  · rfl

/-- **What a turn does to the session.** -/
lemma session_turn (c : Conn) :
    c.session.Turned cfg cert turn.event (afterTurn cfg cert turn c).1.session := by
  rw [session_afterTurn]
  exact session_iteration cfg cert turn c

end Turns

/-! ### The law -/

/-- **The law.** Every request was served for an allowed user who has been authenticated before, on
the same connection. -/
def ServedRight (cfg : ServerConfig) (notes : List Note) : Prop :=
  ∀ before method user after, notes = before ++ .served method user :: after →
    ∃ call, .authenticated call ∈ before ∧ call.succeeded ∧ user = some call.result.userName ∧
      cfg.isAllowedUser call.result.userName

section Law

variable {cfg : ServerConfig} {cert : Option Certificate} {users : Set ByteStr}

/-- An element of a list to which another one has been added is the new one, or one of the old
ones. -/
lemma eq_snoc_cases {α : Type} {l before after : List α} {n x : α}
    (h : l ++ [n] = before ++ x :: after) :
    l = before ∧ n = x ∨ ∃ after', l = before ++ x :: after' := by
  rcases eq_nil_or_concat after with rfl | ⟨after', y, rfl⟩
  · obtain ⟨rfl, hlast⟩ := append_inj' h rfl
    exact .inl ⟨rfl, singleton_inj.1 hlast⟩
  · rw [concat_eq_append, ← cons_append, ← append_assoc] at h
    exact .inr ⟨after', (append_inj' h rfl).1⟩

/-- Nothing is served. -/
lemma servedRight_nil : ServedRight cfg [] := fun before method user after h => by simp at h

/-- One note more. -/
lemma servedRight_snoc {notes : List Note} {n : Note} (h : ServedRight cfg notes)
    (hn : ∀ method user, n = .served method user → ∃ call, .authenticated call ∈ notes ∧
      call.succeeded ∧
      user = some call.result.userName ∧ cfg.isAllowedUser call.result.userName) :
    ServedRight cfg (notes ++ [n]) := by
  intro before method user after hsplit
  rcases eq_snoc_cases hsplit with ⟨rfl, hlast⟩ | ⟨after', hl⟩
  · exact hn method user hlast
  · exact h before method user after' hl

/-- In a run, the trust store has only certain users for the certificate. -/
def UsersIn (users : Set ByteStr) (turn : Turn) : Prop :=
  ∀ r, turn.event = .request r → ∀ user, r.auth.certUser = some user → user ∈ users

/-- **The invariant.** A session that is authenticated has a call that has succeeded, for its user,
who is allowed. -/
structure Session.Right (cfg : ServerConfig) (s : Session) : Prop where
  served : ServedRight cfg s.notes
  call : s.authenticated → ∃ call, .authenticated call ∈ s.notes ∧ call.succeeded ∧
    s.user = call.result.userName ∧ cfg.isAllowedUser call.result.userName

variable (husers : CertificateLogin cfg cert → ∀ user ∈ users, cfg.isAllowedUser user)

include husers

variable {s : Session}

/-- A success is for an allowed user, if the trust store has only allowed users. -/
lemma allowed_call {r : Request} (hr : ∀ user, r.auth.certUser = some user → user ∈ users)
    (h : (s.call cfg cert r).succeeded) :
    cfg.isAllowedUser (s.call cfg cert r).result.userName := by
  rw [AuthCall.succeeded_iff] at h
  by_cases hscheme : (authenticate cfg cert s.user (r.value "authorization") r.auth).scheme =
    .certificate
  · have hlogin := certificate_selected (scheme_authenticate.symm.trans hscheme)
    exact husers hlogin _ (hr _ (certUser_of_success hscheme h))
  · exact allowed_of_success h hscheme

variable (hanon : cfg.allowAnonymous = false)

include hanon

/-- Authentication keeps a session right. -/
lemma right_authenticate {r : Request} (hr : ∀ user, r.auth.certUser = some user → user ∈ users)
    (h : s.Right cfg) : (s.authenticate cfg cert r).Right cfg := by
  rw [Session.authenticate, if_neg (by simp [hanon])]
  split_ifs with hs
  · exact ⟨h.served, h.call⟩
  · refine ⟨servedRight_snoc h.served nofun, fun hcall => ?_⟩
    exact ⟨_, mem_append_right _ (mem_singleton_self _), hcall, rfl, allowed_call husers hr hcall⟩

/-- So does a request. -/
lemma right_turned {s' : Session} {turn : Turn} (hturn : UsersIn users turn) (h : s.Right cfg)
    (hs' : s.Turned cfg cert turn.event s') : s'.Right cfg := by
  rcases hs' with rfl | ⟨r, hevent, rfl | ⟨hauth, hcontext, method, rfl⟩⟩
  · exact h
  · exact right_authenticate husers hanon (hturn r hevent) h
  · have hright := right_authenticate husers hanon (hturn r hevent) h
    obtain ⟨call, hmem, hsucceeded, huser, hallowed⟩ := hright.call hauth
    refine ⟨servedRight_snoc hright.served fun method' user hn => ?_, fun _ => ?_⟩
    · cases hn
      exact ⟨call, hmem, hsucceeded, (hcontext hanon).trans (congrArg some huser), hallowed⟩
    · exact ⟨call, mem_append_left _ hmem, hsucceeded, huser, hallowed⟩

/-- And a whole connection. -/
lemma right_run {turns : List Turn} (hturns : ∀ turn ∈ turns, UsersIn users turn)
    (h : c.session.Right cfg) :
    (run cfg cert turns c).session.Right cfg := by
  induction turns generalizing c with
  | nil => exact h
  | cons turn turns ih =>
    have hturn :=
      right_turned husers hanon (hturns turn mem_cons_self) h (session_turn cfg cert turn c)
    rw [run]
    split_ifs
    · exact ih (fun turn' hturn' => hturns turn' (mem_cons_of_mem _ hturn')) hturn
    · exact hturn

end Law

/-! ### A user who is not allowed -/

section Converse

/-- All schemes fail, but the trust store has a user for the certificate. -/
def certificateOutcomes (user : ByteStr) : AuthOutcomes :=
  { owlocal := ⟨[], none, [], .ok .fail⟩
    digest := ⟨[], none, [], .ok .fail⟩
    decodes := false
    basic := ⟨[], [], .ok false⟩
    negotiate := ⟨[], none, [], .ok .fail⟩
    certUser := some user
    addFails := false
    digestChallenge := [] }

/-- A request to trace. -/
def traceRequest (user : ByteStr) : Request :=
  { line := [text "TRACE", text "/"]
    headers := []
    length := .ok 0
    counter := 40
    auth := certificateOutcomes user
    getRequestHandler := fun _ => none
    language := none
    split := fun s => ([], s)
    eat := none }

/-- The only turn of a client that wants its request traced. -/
def traceTurn (user : ByteStr) : Turn :=
  ⟨.request (traceRequest user), ⟨false, false, false⟩, text "Thu, 01 Jan 2004 00:00:00 GMT", none⟩

variable {cfg : ServerConfig} {cert : Option Certificate}

/-- The result of a login with a certificate. -/
def certificateCall (user : ByteStr) : AuthCall :=
  ⟨[], certificateOutcomes user, ⟨.certificate, user, none, [], .ok .success, none⟩⟩

/-- The sample logs in. -/
lemma authenticate_traceRequest (hlogin : CertificateLogin cfg cert) (user : ByteStr) :
    authenticate cfg cert [] ((traceRequest user).value "authorization") (traceRequest user).auth =
      (certificateCall user).result := by
  have hselect : cfg.selectScheme cert [] = .certificate := by
    rw [ServerConfig.selectScheme, if_neg (fun h => absurd h.2 (by decide)), if_pos hlogin]
  change authenticate cfg cert [] [] (certificateOutcomes user) = _
  rw [authenticate, hselect]
  rfl

/-- The connection after that. -/
lemma checkAuthentication_traceRequest (hanon : cfg.allowAnonymous = false)
    (hlogin : CertificateLogin cfg cert) (user : ByteStr) (hc : c.isAuthenticated = false)
    (huser : c.userName = []) :
    exec (checkAuthentication cfg cert (traceRequest user)) c = (.ok ⟨⟩, { c with
      isAuthenticated := true
      userName := user
      contextUser := some user
      notes := c.notes ++ [.authenticated (certificateCall user)] }) := by
  have hperform : exec (performAuthentication cfg cert (traceRequest user)) c = (.ok ⟨⟩, { c with
      isAuthenticated := true
      userName := user
      notes := c.notes ++ [.authenticated (certificateCall user)] }) := by
    rw [performAuthentication, exec_get_bind, huser, authenticate_traceRequest hlogin]
    rfl
  rw [checkAuthentication, if_neg (by simp [hanon]), exec_get_bind, when, if_pos hc,
    exec_bind_of_ok hperform, exec_modify]

variable (user : ByteStr)

/-- Its request line. -/
lemma processRequestLine_traceRequest (c : Conn) :
    exec (processRequestLine (traceRequest user).line) c =
      (.ok 200, { c with httpVersion := .v10, method := .trace }) := by
  rfl

/-- It has no headers. -/
lemma hasKey_traceRequest (key : String) : (traceRequest user).hasKey key = false := rfl

/-- The checks of its entity. -/
lemma checkEntity_traceRequest (hversion : c.httpVersion = .v10) (hmethod : c.method = .trace) :
    exec (checkEntity cfg (traceRequest user)) c = (.ok ⟨⟩, { c with
      isClose := true
      contentLength := -1
      chunkedIn := false
      deflateCompressionIn := false }) := by
  have hhost : exec (checkHost (traceRequest user)) c = (.ok ⟨⟩, c) := by
    rw [checkHost, exec_get_bind, exec_when_neg (by simp [hversion])]
  have hpersistent : exec (checkPersistent (traceRequest user)) c =
      (.ok ⟨⟩, { c with isClose := true }) := by
    rw [checkPersistent, exec_modify, if_pos (.inl (by simp [hversion]))]
  have hread (c : Conn) : exec (readLength (traceRequest user)) c = (.ok ⟨⟩, c) :=
    exec_when_neg (fun h => absurd h.1 (by simp [hasKey_traceRequest])) _ c
  have hlength (c : Conn) (hmethod : c.method = .trace) (hchunked : c.chunkedIn = false)
      (hlength : c.contentLength = -1) : exec (when (c.chunkedIn = false) (do
        readLength (traceRequest user)
        checkLength)) c = (.ok ⟨⟩, c) := by
    rw [exec_when_pos hchunked, exec_bind_of_ok (hread c), checkLength, exec_get_bind,
      if_neg (by simp [hmethod, Method.isPost]), exec_when_neg (by simp [hlength])]
  have hencoding (c : Conn) : exec (checkEncoding cfg (traceRequest user)) c =
      (.ok ⟨⟩, { c with deflateCompressionIn := false }) := by
    rw [checkEncoding, exec_modify_bind, exec_when_neg (by simp [hasKey_traceRequest])]
  rw [checkEntity, exec_bind_of_ok hhost, exec_bind_of_ok hpersistent, checkCoding,
    exec_modify_bind, exec_get_bind]
  exact (exec_bind_of_ok (hlength _ (by exact hmethod) rfl rfl)).trans (hencoding _)

/-- The other checks. -/
lemma checkRest_traceRequest (hmethod : c.method = .trace) :
    exec (checkRest cfg (traceRequest user)) c = (.ok ⟨⟩, c) := by
  have hpart : hasPart ((traceRequest user).value "te") "trailers" = false := by
    change hasPart [] "trailers" = false
    decide
  have hpost : ¬ c.method.isPost := by simp [hmethod, Method.isPost]
  have haccept : exec (checkAccept cfg (traceRequest user)) c = (.ok ⟨⟩, c) := by
    rw [checkAccept, exec_get_bind, exec_bind_of_ok (exec_when_neg (fun h => hpost h.1) _ c),
      exec_bind_of_ok (exec_when_neg (fun h => hpost h.1) _ c), exec_when_neg (fun h => hpost h.1)]
  have htrailers : exec (checkTrailers (traceRequest user)) c = (.ok ⟨⟩, c) := by
    rw [checkTrailers, exec_modify, if_neg (by simp [hpart])]
  have hforbidden : exec (checkForbidden (traceRequest user)) c = (.ok ⟨⟩, c) :=
    exec_when_neg (by simp [hasKey_traceRequest]) _ c
  have htype : exec (checkContentType (traceRequest user)) c = (.ok ⟨⟩, c) := by
    rw [checkContentType, exec_get_bind, exec_when_neg hpost]
  have hman : exec (checkMan (traceRequest user)) c = (.ok ⟨⟩, c) := by
    rw [checkMan, exec_get_bind, exec_when_neg (by simp [hmethod])]
  rw [checkRest, exec_bind_of_ok haccept, exec_bind_of_ok htrailers, exec_bind_of_ok hforbidden,
    exec_bind_of_ok htype, hman]

/-- A request to trace is served. -/
lemma session_handleEntity_trace (socket : SocketState) (r : Request) (hmethod : c.method = .trace)
    (hdeflate : c.deflateCompressionIn = false) :
    (exec (handleEntity cfg socket r 200) c).2.session = c.session.served .trace := by
  have hconvert : exec convertToFiniteStream { c with resCode := 200 } =
      (.ok ⟨⟩, { c with resCode := 200 }) := by
    rw [convertToFiniteStream, exec_get_bind, when, if_neg (by simp [hdeflate])]
    rfl
  have hdispatch (c' : Conn) (hc' : c'.method = .trace) : dispatch cfg r c' = trace r := by
    rw [dispatch, hc']
  have htrace := serves_trace r { c with resCode := 200 }
  rw [handleEntity, exec_modify_bind, exec_bind_of_ok hconvert, if_neg (by decide), serve,
    exec_get_bind, if_neg (by simp [hmethod]), hdispatch { c with resCode := 200 } hmethod,
    exec_bind]
  rcases hexec : exec (trace r) { c with resCode := 200 } with ⟨t | v, c'⟩ <;> rw [hexec] at htrace
  · exact htrace
  · exact (quiet_rest r c').trans htrace

/-- The client is served, for the user that the trust store has for its certificate. -/
lemma notes_handleHeaders_trace (hanon : cfg.allowAnonymous = false)
    (hlogin : CertificateLogin cfg cert)
    (socket : SocketState) (user : ByteStr) (hversion : c.httpVersion = .v10)
    (hmethod : c.method = .trace) (hsession : c.session = Conn.new.session) :
    (exec (handleHeaders cfg cert socket (traceRequest user)) c).2.session.notes =
      [.authenticated (certificateCall user), .served .trace (some user)] := by
  obtain ⟨hauth, huser, -, hnotes⟩ := Session.mk.injEq .. ▸ hsession
  have hheaders : exec (processHeaders cfg cert (traceRequest user)) c = (.ok 200, { c with
      isClose := true
      contentLength := -1
      chunkedIn := false
      deflateCompressionIn := false
      isAuthenticated := true
      userName := user
      contextUser := some user
      notes := c.notes ++ [.authenticated (certificateCall user)] }) := by
    rw [processHeaders, exec_bind_of_ok (checkEntity_traceRequest user hversion hmethod)]
    refine (exec_bind_of_ok
      (checkAuthentication_traceRequest hanon hlogin user (by exact hauth) (by exact huser))).trans
        ?_
    exact exec_bind_of_ok (checkRest_traceRequest user (by exact hmethod))
  rw [handleHeaders, exec_bind_of_ok (returning_of_ok hheaders),
    session_handleEntity_trace socket _ (by exact hmethod) rfl]
  rw [hnotes]
  rfl

/-- What is noted. -/
lemma notes_traceTurn (hanon : cfg.allowAnonymous = false) (hlogin : CertificateLogin cfg cert)
    (user : ByteStr) : (run cfg cert [traceTurn user] Conn.new).notes =
      [.authenticated (certificateCall user), .served .trace (some user)] := by
  have hrun : (run cfg cert [traceTurn user] Conn.new).notes =
      (afterTurn cfg cert (traceTurn user) Conn.new).1.session.notes := by
    rw [run]
    split_ifs <;> rfl
  have hreset : ∃ c, exec (resetConn (traceTurn user).date) Conn.new = (.ok ⟨⟩, c) ∧
      c.session = Conn.new.session := ⟨_, rfl, rfl⟩
  obtain ⟨c, hc, hsession⟩ := hreset
  have hline := returning_of_ok (processRequestLine_traceRequest user c)
  rw [hrun, session_afterTurn, iteration, exec_bind_of_ok hc]
  change (exec (handleRequest cfg cert _ (traceRequest user)) c).2.session.notes = _
  rw [handleRequest, exec_bind_of_ok hline]
  exact notes_handleHeaders_trace hanon hlogin _ user rfl rfl hsession

end Converse

/-- **Which servers serve only allowed users.** Consider a server without anonymous access, a client
certificate, and the users that the trust store may have for it. In all runs of a connection,
whatever the schemes answer, requests are served only for an allowed user who has been authenticated
on the connection, iff the certificate is no way to log in, or all those users are allowed.

**Proof sketch.** By `session_turn` a turn changes the session by at most one call of
`authenticate`, before a request is served, and the call is repeated until one succeeds. A success
is for an allowed user, except by certificate (`allowed_of_success`), where it is for a user of the
trust store. Conversely, a client with the certificate is served for any of these users. -/
theorem served_right_iff (cfg : ServerConfig) (hanon : cfg.allowAnonymous = false)
    (cert : Option Certificate) (users : Set ByteStr) :
    (∀ turns : List Turn, (∀ turn ∈ turns, UsersIn users turn) →
      ServedRight cfg (run cfg cert turns Conn.new).notes) ↔
    (CertificateLogin cfg cert → ∀ user ∈ users, cfg.isAllowedUser user) := by
  constructor
  · intro h hlogin user huser
    have hlaw := h [traceTurn user] (by
      rintro turn hturn r hevent user' huser'
      obtain rfl := mem_singleton.1 hturn
      cases hevent
      cases huser'
      exact huser)
    obtain ⟨call, hmem, -, -, hallowed⟩ :=
      hlaw [.authenticated (certificateCall user)] .trace (some user) []
        (notes_traceTurn hanon hlogin user)
    cases mem_singleton.1 hmem
    exact hallowed
  · intro husers turns hturns
    exact (right_run husers hanon hturns ⟨servedRight_nil, fun h => by cases h⟩).served

/-- A server for root only, which takes certificates. -/
def rootOnly : ServerConfig :=
  { allowAnonymous := false
    allowLocalAuthentication := false
    allowDigestAuthentication := true
    allowBasicAuthentication := true
    allowSPNEGOAuthentication := true
    authenticationRealm := text "openwbem"
    defaultAuthChallenge := .digest
    verifyMode := .autoupdate
    allowedUsers := [text "root"]
    allowAllUsers := false
    enableDeflate := true }

/-- A client whose certificate is in the trust store for root is served by a server for root
only. -/
theorem served_right_for_root :
    let notes :=
      (run rootOnly (some ⟨text "4D:BF:75", true⟩) [traceTurn (text "root")] Conn.new).notes
    notes = [.authenticated (certificateCall (text "root")), .served .trace (some (text "root"))] ∧
      ServedRight rootOnly notes := by
  refine ⟨notes_traceTurn rfl (by decide) _,
    (served_right_iff rootOnly rfl _ {text "root"}).2 ?_ _ ?_⟩
  · rintro - user rfl
    decide
  · rintro turn hturn r hevent user huser
    obtain rfl := mem_singleton.1 hturn
    cases hevent
    cases huser
    rfl

/-- A client whose certificate is in the trust store for another user is served by a server for root
only. -/
theorem served_although_not_allowed : ¬ ServedRight rootOnly
      (run rootOnly (some ⟨text "4D:BF:75", true⟩) [traceTurn (text "guest")] Conn.new).notes := by
  intro h
  obtain ⟨call, hmem, -, -, hallowed⟩ := h [.authenticated (certificateCall (text "guest"))] .trace
    (some (text "guest")) [] (notes_traceTurn rfl (by decide) _)
  cases mem_singleton.1 hmem
  revert hallowed
  decide

end OpenWbem.Http
