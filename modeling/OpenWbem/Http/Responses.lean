import OpenWbem.Http.Connection

/-!
# Responses of a connection

What a connection writes should be well-formed responses, one for each request that is answered. It
is so as long as the texts that get into lines have no line breaks and every request that is served
goes to a request handler that behaves. It is not so in the following cases: `trace` and `options`
do not say how far their body extends; a collected output with a CIM error is sent without its
headers; an empty output that is to be compressed is announced as chunked, but no chunk follows; a
request handler that throws after chunks have been written gets a second status line; and an output
of 2 GiB has no right length.

## Main definitions

* `Answered` — at most one well-formed response has been written.
* `Turn.Clean` — the texts have no line breaks.
* `Proper` — a request that is served goes to a request handler that behaves.
* `ResponsesRight` — the law for a run.

## Main results

* `answered_turn` — a turn writes at most one response.
* `responses_right` — the law holds of every run whose turns are clean and proper.
-/

namespace OpenWbem.Http

open Prog List Runs

/-! ### Texts without line breaks -/

/-- The message of an exception has no line break. -/
def Thrown.Clean : Thrown → Prop
  | .cimError message => IsLine message
  | .authentication message => IsLine message
  | .exception message => IsLine message
  | .stdException what => IsLine what
  | _ => True

/-- A check ends with an exception whose message has no line break, or with a status code. -/
def Stop.Clean : Stop → Prop
  | .thrown t => t.Clean
  | .status _ => True

/-- The texts of a scheme have no line breaks. -/
structure SchemeOutcome.Clean (o : SchemeOutcome) : Prop where
  errorDetails : ∀ d, o.errorDetails = some d → IsLine d
  headers : ∀ h ∈ o.headers, IsLine h.2
  answer : ∀ t, o.answer = .error t → t.Clean

/-- The texts of all schemes have no line breaks. -/
structure AuthOutcomes.Clean (o : AuthOutcomes) : Prop where
  owlocal : o.owlocal.Clean
  digest : o.digest.Clean
  basic : IsLine o.basic.details ∧ ∀ t, o.basic.answer = .error t → t.Clean
  negotiate : o.negotiate.Clean
  digestChallenge : IsLine o.digestChallenge

/-- The texts of a request handler have no line breaks; the description of an error is put on one
line, but for carriage returns. -/
structure Handler.Clean (h : Handler) : Prop where
  contentType : IsLine h.contentType
  cimError : IsLine h.cimError
  failure : ∀ code descr, h.failure = some (code, descr) → 13 ∉ descr
  thrown : ∀ t, h.thrown = some t → t.Clean

/-- The texts of a request, and of what is done with it, have no line breaks, and the rest of the
entity can be read, unless the client closes the connection. -/
structure Request.Clean (r : Request) : Prop where
  line : ∀ w ∈ r.line, IsLine w
  headers : ∀ h ∈ r.headers, IsLine h.2
  length : ∀ message, r.length = .error message → IsLine message
  auth : r.auth.Clean
  language : ∀ l, r.language = some l → IsLine l
  eat : r.eat = none ∨ r.eat = some .iosFailure

/-- The texts of a turn have no line breaks. -/
structure Turn.Clean (turn : Turn) : Prop where
  date : IsLine turn.date
  request : ∀ r, turn.event = .request r → r.Clean

/-- The value of a header. -/
lemma Request.Clean.value {r : Request} (hr : r.Clean) (key : String) : IsLine (r.value key) := by
  unfold Request.value
  cases hfind : r.headers.find? fun h => h.1 = text key with
  | none => exact ⟨not_mem_nil, not_mem_nil⟩
  | some h => exact hr.headers h (mem_of_find?_eq_some hfind)

/-- The language. -/
lemma Request.Clean.getD_language {r : Request} (hr : r.Clean) : IsLine (r.language.getD []) := by
  cases hl : r.language with
  | none => exact ⟨not_mem_nil, not_mem_nil⟩
  | some l => exact hr.language l hl

/-- A word of the request line. -/
lemma Request.Clean.word {r : Request} (hr : r.Clean) (i : ℕ) : IsLine (r.line.getD i []) := by
  rcases lt_or_ge i r.line.length with hi | hi
  · rw [getD_eq_getElem _ _ hi]
    exact hr.line _ (getElem_mem hi)
  · rw [getD_eq_default _ _ hi]
    decide

/-- Parts have no separators. -/
lemma of_mem_splitOnP {s l : ByteStr} {p : UInt8 → Bool} (h : l ∈ s.splitOnP p) :
    ∀ b ∈ l, b ∈ s ∧ ¬ p b := by
  induction s generalizing l with
  | nil =>
    rw [splitOnP_nil, mem_singleton] at h
    subst h
    exact nofun
  | cons x s ih =>
    rw [splitOnP_cons_eq_if_modifyHead] at h
    split_ifs at h with hx
    · rcases mem_cons.1 h with rfl | h
      · exact nofun
      · exact fun b hb => ⟨mem_cons_of_mem _ (ih h b hb).1, (ih h b hb).2⟩
    · intro b hb
      rcases hsplit : s.splitOnP p with - | ⟨y, l'⟩
      · exact absurd hsplit (splitOnP_ne_nil _ _)
      · rw [hsplit] at h ih
        rcases mem_cons.1 h with rfl | h
        · rcases mem_cons.1 hb with rfl | hb
          · exact ⟨mem_cons_self, hx⟩
          · have hy := ih mem_cons_self b hb
            exact ⟨mem_cons_of_mem _ hy.1, hy.2⟩
        · have hl := ih (mem_cons_of_mem _ h) b hb
          exact ⟨mem_cons_of_mem _ hl.1, hl.2⟩

variable {descr key value : ByteStr} {c : Conn} {t : Thrown}

/-- The description of an error is put on one line. -/
lemma isLine_oneLine (h : 13 ∉ descr) : IsLine (oneLine descr) := by
  have hbyte (b : UInt8) (hb : b ∈ oneLine descr) : b = 32 ∨ b ∈ descr ∧ b ≠ 10 := by
    obtain ⟨l, hl, hb⟩ := mem_flatMap.1 hb
    rcases mem_append.1 hb with hb | hb
    · have hpart := of_mem_splitOnP (mem_of_mem_filter hl) b hb
      exact .inr ⟨hpart.1, by simpa using hpart.2⟩
    · exact .inl (mem_singleton.1 hb)
  constructor
  · intro hmem
    rcases hbyte 13 hmem with h13 | ⟨h13, -⟩
    · revert h13
      decide
    · exact h h13
  · intro hmem
    rcases hbyte 10 hmem with h10 | ⟨-, h10⟩
    · revert h10
      decide
    · exact h10 rfl

/-! ### Answers -/

/-- At most one well-formed response has been written. -/
def Answered (out out' : ByteStr) : Prop :=
  out' = out ∨ ∃ m : Message, m.WellFormed ∧ out' = out ++ m.bytes

/-- Nothing has been written yet, and the headers so far are plain. -/
structure Ready (out : ByteStr) (c : Conn) : Prop where
  out : c.out = out
  headers : ∀ l ∈ c.responseHeaders, PlainLine l
  trailers : c.trailers = []
  details : IsLine c.errDetails

/-- A program that writes nothing; its exceptions have no line breaks. -/
def Tidy {ε α : Type} (E : ε → Prop) (x : Prog Conn ε α) : Prop :=
  ∀ out, Ensures (Ready out) x fun r c => Ready out c ∧ ∀ e, r = .error e → E e

namespace Tidy

variable {ε α β : Type} {E : ε → Prop} {x : Prog Conn ε α} {f : α → Prog Conn ε β}

/-- The rule for `pure`. -/
lemma pure (v : α) : Tidy E (Pure.pure v : Prog Conn ε α) := fun _ _ hc => ⟨hc, nofun⟩

/-- The rule for `throw`. -/
lemma throw {e : ε} (he : E e) : Tidy E (MonadExcept.throw e : Prog Conn ε α) :=
  fun _ _ hc => ⟨hc, fun _ h => by cases h; exact he⟩

/-- The rule for `modify`. -/
lemma modify {g : Conn → Conn} (h : ∀ out c, Ready out c → Ready out (g c)) :
    Tidy E (modify g : Prog Conn ε PUnit) := fun out c hc => ⟨h out c hc, nofun⟩

/-- One program after the other. -/
lemma bind (hx : Tidy E x) (hf : ∀ v, Tidy E (f v)) : Tidy E (x >>= f) := fun out =>
  Ensures.bind (hx out) (fun v => (hf v out).weaken (fun _ h => h.1) fun _ _ h => h) fun e _ h =>
    ⟨h.1, fun _ he => by cases he; exact h.2 e rfl⟩

/-- After `get`. -/
lemma get_bind {g : Conn → Prog Conn ε β} (h : ∀ c, Tidy E (g c)) : Tidy E (get >>= g) :=
  fun out => Ensures.get_bind fun c hc => h c out c hc

variable {p : Prop}

/-- Either of two. -/
lemma ite [Decidable p] {y : Prog Conn ε α} (hx : Tidy E x) (hy : Tidy E y) :
    Tidy E (if p then x else y) := by
  split_ifs
  · exact hx
  · exact hy

/-- Under a condition. -/
lemma when [Decidable p] {y : Prog Conn ε PUnit} (hy : Tidy E y) : Tidy E (when p y) :=
  .ite hy (.pure _)

end Tidy

section Blocks

variable {ε : Type} {E : ε → Prop}

variable {details : ByteStr}

/-- A refusal. -/
lemma tidy_refuse (code : ErrorCode) (h : IsLine details) : Tidy Stop.Clean (refuse code details) :=
  .bind (.modify fun _ _ hc => { hc with details := h }) fun _ => .throw trivial

/-- With a status code. -/
lemma tidy_returning {x : Prog Conn Stop ℕ} (hx : Tidy Stop.Clean x) :
    Tidy Thrown.Clean (returning x) := by
  intro out c hc
  have h := hx out c hc
  rw [exec_returning]
  rcases hexec : exec x c with ⟨(t | code) | code, c'⟩ <;> rw [hexec] at h
  · exact ⟨h.1, fun e he => by cases he; exact h.2 _ rfl⟩
  · exact ⟨h.1, nofun⟩
  · exact ⟨h.1, nofun⟩

variable {r : Request}

/-- The request line. -/
lemma tidy_processRequestLine (hr : r.Clean) : Tidy Stop.Clean (processRequestLine r.line) := by
  have hversion : Tidy Stop.Clean (checkVersion r.line) := by
    refine .bind (.when (tidy_refuse _ ?_)) fun _ =>
      .bind (.modify fun _ _ hc => { hc with }) fun _ =>
      .when (tidy_refuse _ ?_)
    · exact isLine_append.2 ⟨by decide, isLine_number _⟩
    · exact isLine_append.2 ⟨isLine_append.2 ⟨by decide, hr.word 2⟩, by decide⟩
  refine hversion.bind fun _ => .bind (.modify fun _ _ hc => { hc with }) fun _ =>
    .bind (.when (tidy_refuse _ ?_)) fun _ => .pure _
  exact isLine_append.2 ⟨by decide, hr.word 0⟩

variable (cfg : ServerConfig)

/-- The checks of the entity. -/
lemma tidy_checkEntity (hr : r.Clean) : Tidy Stop.Clean (checkEntity cfg r) := by
  have hhost : Tidy Stop.Clean (checkHost r) := .get_bind fun _ => .when (tidy_refuse _ (by decide))
  have hpersistent : Tidy Stop.Clean (checkPersistent r) :=
    .modify fun _ _ hc => by split_ifs <;> exact { hc with }
  have hcoding : Tidy Stop.Clean (checkCoding r) := .modify fun _ _ hc => { hc with }
  have hread : Tidy Stop.Clean (readLength r) := by
    refine .when ?_
    split
    · next message hlength => exact .throw (hr.length message hlength)
    · exact .bind (.modify fun _ _ hc => { hc with }) fun _ => .when (tidy_refuse _ (by decide))
  have hlength : Tidy Stop.Clean checkLength :=
    .get_bind fun _ => .ite (.when (tidy_refuse _ (by decide))) (.when (tidy_refuse _ (by decide)))
  have hencoding : Tidy Stop.Clean (checkEncoding cfg r) := by
    refine .bind (.modify fun _ _ hc => { hc with }) fun _ =>
      .when (.ite (.modify fun _ _ hc => { hc with }) (.when (tidy_refuse _ ?_)))
    exact isLine_append.2 ⟨isLine_append.2 ⟨by decide, hr.value _⟩, by decide⟩
  exact hhost.bind fun _ => hpersistent.bind fun _ => hcoding.bind fun _ => .get_bind fun _ =>
    .bind (.when (hread.bind fun _ => hlength)) fun _ => hencoding

/-- The other checks. -/
lemma tidy_checkRest (hr : r.Clean) : Tidy Stop.Clean (checkRest cfg r) := by
  have haccept : Tidy Stop.Clean (checkAccept cfg r) :=
    .get_bind fun _ => .bind (.when (tidy_refuse _ (by decide))) fun _ =>
      .bind (.when (tidy_refuse _ (by decide))) fun _ => .when (.modify fun _ _ hc => { hc with })
  have htrailers : Tidy Stop.Clean (checkTrailers r) :=
    .modify fun _ _ hc => by split_ifs <;> exact { hc with }
  have hforbidden : Tidy Stop.Clean (checkForbidden r) := .when (tidy_refuse _ (by decide))
  have hfind (ct : ByteStr) (hct : IsLine ct) : Tidy Stop.Clean (findHandler r ct) :=
    .bind (.modify fun _ _ hc => { hc with }) fun _ => .when (tidy_refuse _
      (isLine_append.2 ⟨isLine_append.2 ⟨by decide, hct⟩, by decide⟩))
  have htake (s : ByteStr) (hs : IsLine s) : IsLine (s.takeWhile (· ≠ 59)) :=
    ⟨fun h => hs.1 (( takeWhile_prefix _).subset h), fun h => hs.2 (( takeWhile_prefix _).subset h)⟩
  have htype : Tidy Stop.Clean (checkContentType r) :=
    .get_bind fun _ => .when (.ite (hfind _ (htake _ (hr.value _))) (tidy_refuse _ (by decide)))
  have hman : Tidy Stop.Clean (checkMan r) :=
    .get_bind fun _ => .when (.ite (.when (tidy_refuse _ (by decide))) (tidy_refuse _ (by decide)))
  exact haccept.bind fun _ => htrailers.bind fun _ => hforbidden.bind fun _ =>
    htype.bind fun _ => hman

end Blocks

/-! ### The authentication -/

/-- The texts of a result have no line breaks. -/
structure AuthResult.Clean (res : AuthResult) : Prop where
  errorDetails : ∀ d, res.errorDetails = some d → IsLine d
  headers : ∀ h ∈ res.headers, IsLine h.2
  answer : ∀ t, res.answer = .error t → t.Clean

section Authentication

variable {cfg : ServerConfig} {cert : Option Certificate} {o : AuthOutcomes}

/-- The restriction to some users. -/
lemma clean_restricted (scheme : Scheme) {so : SchemeOutcome} (h : so.Clean) :
    (cfg.restricted scheme so).Clean := by
  refine ⟨h.errorDetails, h.headers, fun t ht => h.answer t ?_⟩
  rw [ServerConfig.restricted] at ht
  rcases hanswer : so.answer with t' | rv <;> rw [hanswer] at ht
  · cases ht
    rfl
  · cases ht

/-- The update of the trust store. -/
lemma clean_updateTrust {res : AuthResult} (h : res.Clean) :
    (cfg.updateTrust cert o res).Clean := by
  obtain ⟨trusted, heq⟩ := updateTrust_eq cfg cert o res
  rw [heq]
  exact ⟨h.errorDetails, h.headers, h.answer⟩

/-- The challenge of `Basic`. -/
lemma isLine_basicChallenge (hcfg : IsLine cfg.authenticationRealm) :
    ∀ h ∈ [cfg.basicChallenge], IsLine h.2 := by
  intro h hh
  obtain rfl := mem_singleton.1 hh
  exact isLine_append.2 ⟨isLine_append.2 ⟨by decide, hcfg⟩, by decide⟩

/-- The answer of `Basic`. -/
lemma clean_authenticateBasic (hcfg : IsLine cfg.authenticationRealm) (ho : o.Clean)
    (userName : ByteStr) :
    (cfg.authenticateBasic userName o).Clean := by
  rw [ServerConfig.authenticateBasic]
  split_ifs
  · rcases hanswer : o.basic.answer with t | accepted
    · exact ⟨by simp, by simp, fun t' h => by cases h; exact ho.basic.2 t hanswer⟩
    · dsimp only
      generalize cfg.restrict o.basic.userName (if accepted then .success else .fail) = rv
      split_ifs
      · exact ⟨fun _ h => (by cases h; exact ho.basic.1), isLine_basicChallenge hcfg, by simp⟩
      · exact ⟨by simp, by simp, by simp⟩
  · exact ⟨fun _ h => (by cases h; decide), isLine_basicChallenge hcfg, by simp⟩

/-- The answer of any scheme. -/
lemma clean_authenticate (cert : Option Certificate) (hcfg : IsLine cfg.authenticationRealm)
    (ho : o.Clean) (userName info : ByteStr) :
    (authenticate cfg cert userName info o).Clean := by
  rw [authenticate]
  cases cfg.selectScheme cert info with
  | owlocal => exact clean_restricted _ ho.owlocal
  | certificate =>
    cases o.certUser <;> exact ⟨by simp, by simp, by simp⟩
  | digest => exact clean_updateTrust (clean_restricted _ ho.digest)
  | basic => exact clean_updateTrust (clean_authenticateBasic hcfg ho userName)
  | negotiate => exact clean_updateTrust (clean_restricted _ ho.negotiate)
  | challenge =>
    refine ⟨fun _ h => (by cases h; decide), fun h hh => ?_, by simp⟩
    obtain rfl := mem_singleton.1 hh
    rw [ServerConfig.challengeHeader]
    split
    · exact ho.digestChallenge
    · exact isLine_basicChallenge hcfg _ (mem_singleton_self _)
    · decide

/-- The headers of an answer. -/
lemma ready_withAuth {out : ByteStr} (hc : Ready out c) {call : AuthCall}
    (hcall : call.result.Clean) : Ready out (c.withAuth call) := by
  have hname (h : AuthHeader) : PlainKey h.name := by cases h <;> decide
  have hheaders (hs : List (AuthHeader × ByteStr)) (hhs : ∀ h ∈ hs, IsLine h.2) (l : List ByteStr)
      (hl : ∀ x ∈ l, PlainLine x) :
      ∀ x ∈ hs.foldl (fun l h => insertHeader l h.1.name h.2) l, PlainLine x := by
    induction hs generalizing l with
    | nil => exact hl
    | cons h hs ih =>
      exact ih (fun h' hh' => hhs h' (mem_cons_of_mem _ hh')) _
        (plain_insertHeader hl (hname h.1) (hhs h mem_cons_self))
  refine ⟨hc.out, hheaders _ hcall.headers _ hc.headers, hc.trailers, ?_⟩
  rw [Conn.withAuth]
  rcases hdetails : call.result.errorDetails with - | d
  · exact hc.details
  · exact hcall.errorDetails d hdetails

/-- The authentication. -/
lemma tidy_checkAuthentication (hcfg : IsLine cfg.authenticationRealm) {r : Request}
    (hr : r.Clean) :
    Tidy Stop.Clean (checkAuthentication cfg cert r) := by
  have hperform : Tidy Stop.Clean (performAuthentication cfg cert r) := by
    intro out c hc
    have hclean := clean_authenticate cert hcfg hr.auth c.userName (r.value "authorization")
    rw [performAuthentication, exec_get_bind, exec_set_bind]
    have hready : Ready out (c.withAuth ⟨r.value "authorization", r.auth,
      authenticate cfg cert c.userName (r.value "authorization") r.auth⟩) :=
        ready_withAuth hc hclean
    split
    · exact ⟨{ hready with }, nofun⟩
    · exact ⟨hready, nofun⟩
    · next message hanswer => exact tidy_refuse _ (hclean.answer _ hanswer) out _ hready
    · next t _ hanswer => exact ⟨hready, fun _ h => by cases h; exact hclean.answer _ hanswer⟩
  exact .ite (.modify fun _ _ hc => { hc with }) (.get_bind fun _ => .bind (.when hperform) fun _ =>
    .modify fun _ _ hc => { hc with })

/-- All headers. -/
lemma tidy_processHeaders (hcfg : IsLine cfg.authenticationRealm) {r : Request} (hr : r.Clean) :
    Tidy Stop.Clean (processHeaders cfg cert r) :=
  (tidy_checkEntity cfg hr).bind fun _ => (tidy_checkAuthentication hcfg hr).bind fun _ =>
    (tidy_checkRest cfg hr).bind fun _ => .get_bind fun _ => .pure _

end Authentication

/-! ### Errors -/

/-- **An error is one response.** -/
lemma answered_sendError {ε : Type} (socket : SocketState) (code : ℕ) {out : ByteStr}
    (hc : Ready out c) :
    ∃ c', exec (sendError socket code : Prog Conn ε PUnit) c = (.ok ⟨⟩, c') ∧
    Answered out c'.out := by
  rw [sendError]
  split_ifs
  · exact ⟨c, rfl, .inl hc.out⟩
  · refine ⟨_, exec_modify _ c, .inr ?_⟩
    dsimp only
    have hdetails : IsLine (errorCode socket code c.errDetails).2 := by
      rw [errorCode]
      split_ifs
      · decide
      · decide
      · exact hc.details
    generalize errorCode socket code c.errDetails = e at hdetails ⊢
    have hplain : ∀ l ∈ (if e.1 = 401 then c.responseHeaders
        else insertHeader c.responseHeaders (text "Connection") (text "close")), PlainLine l := by
      split_ifs
      · exact hc.headers
      · exact plain_insertHeader hc.headers (by decide) (by decide)
    have hzero : text "0" = number 0 := by decide
    rw [hzero, insertHeader_lengthLine hplain, hc.out]
    refine ⟨_, wellFormed_content (isStatusLine_error c.httpVersion e.1 hdetails) hplain [], ?_⟩
    simp [errorText, Message.bytes, Body.bytes]

/-! ### Responses with an entity -/

/-- Headers that say that the body is chunked. -/
def ChunkedHeaders (headers : List ByteStr) : Prop :=
  ∃ a b, headers = a ++ chunkedLine :: b ∧ (∀ l ∈ a, PlainLine l) ∧ ∀ l ∈ b, PlainLine l

/-- Another header. -/
lemma chunkedHeaders_insertHeader {headers : List ByteStr} (h : ChunkedHeaders headers)
    (hkey : PlainKey key) (hvalue : IsLine value) :
    ChunkedHeaders (insertHeader headers key value) := by
  obtain ⟨a, b, rfl, ha, hb⟩ := h
  rw [insertHeader]
  split_ifs
  · exact ⟨a, b, rfl, ha, hb⟩
  · refine ⟨a, b ++ [headerLine key value], by rw [append_assoc, cons_append], ha, fun l hl => ?_⟩
    rcases mem_append.1 hl with hl | hl
    · exact hb l hl
    · obtain rfl := mem_singleton.1 hl
      exact plainLine_headerLine hkey hvalue

/-- The state before headers about the body have been added. -/
structure Begun (out : ByteStr) (chunked deflate : Bool) (pre : ByteStr) (c : Conn) : Prop extends
    Ready out c where
  chunkedOut : c.chunkedOut = chunked
  deflateOut : c.deflateCompressionOut = deflate
  respHeaderPrefix : c.respHeaderPrefix = pre

/-- The state after the header for a chunked body has been added. -/
structure Chunking (out : ByteStr) (chunked : Bool) (pre : ByteStr) (c : Conn) : Prop where
  out : c.out = out
  headers : ChunkedHeaders c.responseHeaders
  trailers : c.trailers = []
  chunkedOut : c.chunkedOut = chunked
  respHeaderPrefix : c.respHeaderPrefix = pre

/-- The headers for a chunked body and some of its chunks have been written. -/
structure Streaming (out : ByteStr) (chunked : Bool) (pre : ByteStr) (chunks : List ByteStr)
    (c : Conn) :
    Prop where
  out : ∃ code headers, ChunkedHeaders headers ∧
    c.out = out ++ headersText code headers ++ chunks.flatMap chunk
  trailers : ∀ l ∈ c.trailers, IsLine l ∧ l ≠ []
  chunkedOut : c.chunkedOut = chunked
  respHeaderPrefix : c.respHeaderPrefix = pre

section Entities

variable {out pre : ByteStr} {chunked deflate : Bool}

/-- A header of the response. -/
lemma begun_addHeader (hkey : PlainKey key) (hvalue : IsLine value) :
    Runs (Begun out chunked deflate pre) (addHeader key value : Prog Conn Thrown PUnit) (.ok ⟨⟩)
      (Begun out chunked deflate pre) :=
  .modify fun _ hc => { hc with headers := plain_insertHeader hc.headers hkey hvalue }

/-- A header for chunks. -/
lemma chunking_addHeader (hkey : PlainKey key) (hvalue : IsLine value) :
    Runs (Chunking out chunked pre) (addHeader key value : Prog Conn Thrown PUnit) (.ok ⟨⟩)
      (Chunking out chunked pre) :=
  .modify fun _ hc => { hc with headers := chunkedHeaders_insertHeader hc.headers hkey hvalue }

/-- The header that says so. -/
lemma begun_transferEncoding : Runs (Begun out chunked deflate pre)
      (addHeader (text "Transfer-Encoding") (text "chunked") : Prog Conn Thrown PUnit) (.ok ⟨⟩)
      (Chunking out chunked pre) := by
  refine .modify fun c hc => ⟨hc.out, ?_, hc.trailers, hc.chunkedOut, hc.respHeaderPrefix⟩
  exact ⟨c.responseHeaders, [], insertHeader_chunkedLine hc.headers, hc.headers, nofun⟩

/-- Sending the headers. -/
lemma chunking_sendHeaders (code : ℕ) :
    Runs (Chunking out chunked pre) (sendHeaders code (-1) : Prog Conn Thrown PUnit) (.ok ⟨⟩)
      (Streaming out chunked pre []) := by
  refine .bind (.when_neg (by decide)) (.modify fun c hc =>
    ⟨?_, ?_, hc.chunkedOut, hc.respHeaderPrefix⟩)
  · refine ⟨code, c.responseHeaders, hc.headers, ?_⟩
    rw [flatMap_nil, append_nil, hc.out]
  · intro l hl
    rw [hc.trailers] at hl
    cases hl

/-- Sending chunks. -/
lemma streaming_write (chunks data : List ByteStr) :
    Runs (Streaming out chunked pre chunks) (write (data.flatMap chunk) : Prog Conn Thrown PUnit)
      (.ok ⟨⟩)
      (Streaming out chunked pre (chunks ++ data)) := by
  refine .modify fun c hc => { hc with out := ?_ }
  obtain ⟨code, headers, hheaders, hout⟩ := hc.out
  refine ⟨code, headers, hheaders, ?_⟩
  rw [hout, flatMap_append, ← append_assoc]

variable {chunks : List ByteStr}

/-- A trailer. -/
lemma streaming_addTrailer (hkey : IsLine key) (hvalue : IsLine value) :
    Runs (Streaming out chunked pre chunks) (addTrailer key value : Prog Conn Thrown PUnit) (.ok ⟨⟩)
      (Streaming out chunked pre chunks) := by
  refine .modify fun c hc => { hc with trailers := fun l hl => ?_ }
  rcases mem_append.1 hl with hl | hl
  · exact hc.trailers l hl
  · obtain rfl := mem_singleton.1 hl
    refine ⟨?_, headerLine_ne_nil⟩
    rw [headerLine]
    split_ifs
    · exact isLine_append (s := [32]).2 ⟨by decide, hvalue⟩
    · rw [isLine_append, isLine_append]
      exact ⟨⟨hkey, by decide⟩, hvalue⟩

/-- **A chunked response ends** with the last chunk and the trailers. -/
lemma answered_of_streaming {data : List ByteStr} : Runs (Streaming out chunked pre chunks) (do
      write (data.flatMap chunk ++ lastChunk)
      outputTrailers : Prog Conn Thrown PUnit) (.ok ⟨⟩) fun c => Answered out c.out := by
  intro c hc
  obtain ⟨code, headers, ⟨a, b, rfl, ha, hb⟩, hout⟩ := hc.out
  refine ⟨_, rfl, .inr ⟨_, wellFormed_chunked (isStatusLine_headers code) ha hb (chunks ++ data)
    hc.trailers, ?_⟩⟩
  change c.out ++ _ ++ linesText c.trailers ++ crlf = _
  rw [hout]
  simp only [Message.bytes, Body.bytes, headersText, flatMap_chunk_filter, flatMap_append,
    append_assoc]

/-- What the names of the headers of a response start with. -/
def prefixOf (r : Request) : ByteStr := getCounterStr r.counter ++ text "-"

/-- The name of the header. -/
lemma plainKey_operation (n : Fin 100) :
    PlainKey (getCounterStr n ++ text "-" ++ text "CIMOperation") := by
  revert n
  decide +kernel

/-- The counter. -/
lemma isLine_getCounterStr (n : Fin 100) : IsLine (getCounterStr n) := by
  rw [getCounterStr]
  split_ifs
  · exact isLine_append.2 ⟨by decide, isLine_number _⟩
  · exact isLine_number _

variable {r : Request} {h : Handler}

/-- Its text. -/
lemma isLine_prefixOf : IsLine (prefixOf r) := isLine_append.2 ⟨isLine_getCounterStr _, by decide⟩

/-- The headers that all responses with an entity have. -/
lemma begun_post (hh : h.Clean) {f : Conn → PUnit → Prog Conn Thrown PUnit} {Q : Conn → Prop}
    (hf : ∀ c, Begun out chunked deflate pre c →
      Runs (Begun out chunked deflate (prefixOf r)) (f c ⟨⟩) (.ok ⟨⟩) Q) :
    Runs (Begun out chunked deflate pre) (do
      addHeader (text "Content-Type") (h.contentType ++ text "; charset=\"utf-8\"")
      let c ← get
      when (c.method = .mpost) (addHeader (text "Ext") [])
      addHeader (text "Man") (text "http://www.dmtf.org/cim/mapping/http/v1.0 ; ns=" ++
        getCounterStr r.counter)
      let u ← modify fun c => { c with respHeaderPrefix := prefixOf r }
      f c u) (.ok ⟨⟩) Q := by
  refine (begun_addHeader (by decide) (isLine_append.2 ⟨hh.contentType, by decide⟩)).bind ?_
  refine .get_bind fun c hc => ?_
  refine (when fun _ => begun_addHeader (by decide) (by decide)).bind ?_
  refine (begun_addHeader (by decide) (isLine_append.2 ⟨by decide, isLine_getCounterStr _⟩)).bind ?_
  exact (modify fun c' hc' => { hc' with respHeaderPrefix := rfl }).bind (hf c hc)

/-- Beginning a collected response. -/
lemma begin_collected (hh : h.Clean) :
    Runs (Begun out false deflate pre) (beginPostResponse r h) (.ok ⟨⟩)
      (Begun out false deflate (prefixOf r)) := by
  refine begun_post hh fun c hc => ?_
  refine (when_neg (by simp [hc.chunkedOut])).bind (.when_neg (by simp [hc.chunkedOut]))

/-- Beginning a chunked response. -/
lemma begin_chunked (hh : h.Clean) :
    Runs (Begun out true deflate pre) (beginPostResponse r h) (.ok ⟨⟩)
      (Streaming out true (prefixOf r) []) := by
  refine begun_post hh fun c hc => ?_
  refine (when fun _ => begun_addHeader (by decide) (by decide)).bind (.when_pos hc.chunkedOut ?_)
  refine begun_transferEncoding.bind ?_
  refine (chunking_addHeader (plainKey_operation _) (by decide)).bind ?_
  refine (chunking_addHeader (by decide) ?_).bind (chunking_sendHeaders _)
  have hpre : IsLine (getCounterStr r.counter) ∧ IsLine (text "-") :=
    ⟨isLine_getCounterStr _, by decide⟩
  split_ifs <;> simp only [isLine_append] <;>
    exact ⟨⟨⟨⟨⟨hpre, by decide⟩, hpre⟩, by decide⟩, hpre⟩, by decide⟩

/-- A request handler whose output is collected writes nothing. -/
lemma process_collected (hthrown : h.thrown = none) :
    Runs (Begun out false deflate pre) (process h) (.ok ⟨⟩) (Begun out false deflate pre) := by
  refine .get_bind fun c hc => (when_neg (by simp [hc.chunkedOut])).bind ?_
  rw [hthrown]
  exact .pure _

/-- A handler that throws. -/
lemma process_throws (hthrown : h.thrown = some t) :
    Runs (Begun out false deflate pre) (process h) (.error t) (Begun out false deflate pre) := by
  refine .get_bind fun c hc => (when_neg (by simp [hc.chunkedOut])).bind ?_
  rw [hthrown]
  exact .throw t

/-- The output of a request handler that does not throw, in chunks. -/
lemma process_chunked (hthrown : h.thrown = none) :
    Runs (Streaming out true pre []) (process h) (.ok ⟨⟩) (Streaming out true pre h.chunks) := by
  refine .get_bind fun c hc => (when_pos hc.chunkedOut (streaming_write [] h.chunks)).bind ?_
  rw [hthrown]
  exact .pure _

/-- Sending a collected response. -/
lemma begun_collected (hr : r.Clean) {Q : Conn → Prop}
    (hf : ∀ c, Begun out false deflate (prefixOf r) c →
      Runs (Begun out false deflate (prefixOf r)) (do
      sendCollectedHeaders c h
      when (0 < h.clen) (sendBody c h)) (.ok ⟨⟩) Q) :
    Runs (Begun out false deflate (prefixOf r)) (sendCollected r h) (.ok ⟨⟩) Q := by
  refine .get_bind fun c hc => ?_
  refine (when fun _ => begun_addHeader (by decide) hr.getD_language).bind ?_
  rw [hc.respHeaderPrefix]
  exact (begun_addHeader (plainKey_operation _) (by decide)).bind (hf c hc)

/-- An output that is collected and not compressed is sent with its length. -/
lemma answered_content (hr : r.Clean) (herror : h.cimError = [])
    (hlength : h.body.length < 2 ^ 31) :
    Runs (Begun out false false (prefixOf r)) (sendCollected r h) (.ok ⟨⟩) fun c =>
      Answered out c.out := by
  have hclen : h.clen = h.body.length := Int32.toInt_ofNat_of_lt hlength
  refine begun_collected hr fun c hc => ?_
  have hheaders : Runs (Begun out false false (prefixOf r)) (sendCollectedHeaders c h)
      (.ok ⟨⟩) fun c' =>
      ∃ headers, (∀ l ∈ headers, PlainLine l) ∧
        c'.out = out ++ headersText c.resCode (headers ++ [lengthLine h.body.length]) := by
    rw [sendCollectedHeaders, if_neg (by simp [hc.deflateOut]), if_neg (by simp [herror]), hclen]
    have hadd : Runs (Begun out false false (prefixOf r))
        (addHeader (text "Content-Length") (number h.body.length) : Prog Conn Thrown PUnit) (.ok ⟨⟩)
        fun c' => c'.out = out ∧ ∃ headers, (∀ l ∈ headers, PlainLine l) ∧
          c'.responseHeaders = headers ++ [lengthLine h.body.length] :=
      .modify fun c' hc' => ⟨hc'.out, c'.responseHeaders, hc'.headers,
        insertHeader_lengthLine hc'.headers _⟩
    refine (when_pos (by omega) hadd).bind (.modify ?_)
    rintro c' ⟨hout, headers, hplain, hheaders⟩
    exact ⟨headers, hplain, by rw [hout, hheaders]⟩
  refine hheaders.bind ?_
  rintro c' ⟨headers, hplain, hout⟩
  have hanswered : Answered out (c'.out ++ h.body) := by
    refine .inr ⟨_, wellFormed_content (isStatusLine_headers c.resCode) hplain h.body, ?_⟩
    rw [hout]
    simp only [Message.bytes, Body.bytes, headersText, append_assoc]
  by_cases hpos : 0 < h.clen
  · rw [exec_when_pos hpos, sendBody, if_neg (by simp [hc.deflateOut])]
    exact ⟨_, rfl, hanswered⟩
  · rw [exec_when_neg hpos]
    have hnil : h.body = [] := eq_nil_of_length_eq_zero (by omega)
    rw [hnil, append_nil] at hanswered
    exact ⟨_, rfl, hanswered⟩

/-- An output that is collected and compressed is sent in chunks, if there is any. -/
lemma answered_deflated (hr : r.Clean) (hclen : 0 < h.clen) :
    Runs (Begun out false true (prefixOf r)) (sendCollected r h) (.ok ⟨⟩) fun c =>
      Answered out c.out := by
  refine begun_collected hr fun c hc => ?_
  have hheaders : Runs (Begun out false true (prefixOf r)) (sendCollectedHeaders c h) (.ok ⟨⟩)
      (Streaming out false (prefixOf r) []) := by
    rw [sendCollectedHeaders, if_pos hc.deflateOut]
    refine begun_transferEncoding.bind ((chunking_addHeader (by decide) (by decide)).bind ?_)
    exact chunking_sendHeaders _
  refine hheaders.bind (.when_pos hclen ?_)
  rw [sendBody, if_pos hc.deflateOut]
  have hdata : h.deflated.1.flatMap chunk ++ chunk h.deflated.2 =
      (h.deflated.1 ++ [h.deflated.2]).flatMap chunk := by
    rw [flatMap_append, flatMap_singleton]
  rw [hdata]
  exact answered_of_streaming

/-- The trailers for an error are lines. -/
lemma streaming_addErrorTrailers (hh : h.Clean) {code : Int32}
    (hfailure : h.failure = some (code, descr)) (hc : c.respHeaderPrefix = prefixOf r) :
    Runs (Streaming out true (prefixOf r) chunks) (addErrorTrailers c h code descr) (.ok ⟨⟩)
      (Streaming out true (prefixOf r) chunks) := by
  have hkey (s : ByteStr) (hs : IsLine s) : IsLine (c.respHeaderPrefix ++ s) := by
    rw [hc]
    exact isLine_append.2 ⟨isLine_prefixOf, hs⟩
  refine (streaming_addTrailer (hkey _ (by split_ifs <;> decide)) (isLine_number _)).bind ?_
  refine (when fun _ => streaming_addTrailer (hkey _ (by split_ifs <;> decide))
    (isLine_oneLine (hh.failure code descr hfailure))).bind ?_
  exact when fun _ => streaming_addTrailer (hkey _ (by decide)) hh.cimError

/-- An output in chunks ends with the last chunk and the trailers. -/
lemma answered_chunked (hr : r.Clean) (hh : h.Clean) :
    Runs (Streaming out true (prefixOf r) chunks) (sendChunked r h) (.ok ⟨⟩) fun c =>
      Answered out c.out := by
  refine .get_bind fun c hc => ?_
  refine (when fun _ => streaming_addTrailer (by decide) hr.getD_language).bind ?_
  rcases hfailure : h.failure with - | ⟨code, descr⟩
  · have hterm : termOutput c h = write ([h.pending].flatMap chunk ++ lastChunk) := by
      rw [termOutput, hfailure, flatMap_singleton]
    rw [hterm]
    exact answered_of_streaming
  · have hterm : termOutput c h = (do
        addErrorTrailers c h code descr
        write ([].flatMap chunk ++ lastChunk)) := by
      rw [termOutput, hfailure]
      rfl
    rw [hterm, bind_assoc]
    exact (streaming_addErrorTrailers hh hfailure hc.respHeaderPrefix).bind answered_of_streaming

/-- A request handler that behaves: it does not throw once chunks are written; and if its output is
collected, there is no CIM error and the length is below 2 GiB or, if the output is compressed, it
is not empty. -/
def HandlerBehaves (h : Handler) (chunked deflate : Bool) : Prop :=
  if chunked then h.thrown = none
  else h.thrown = none →
    if deflate then 0 < h.clen else h.cimError = [] ∧ h.body.length < 2 ^ 31

/-- **A request handler that behaves** leads to one response, or it throws before anything is
written. -/
lemma answered_post (hr : r.Clean) (hh : h.Clean) (method : Method)
    (hbehaves : HandlerBehaves h chunked deflate) (hc : Begun out chunked deflate pre c) :
    (∃ c', exec (post r method h) c = (.ok ⟨⟩, c') ∧ Answered out c'.out) ∨
      ∃ t c', exec (post r method h) c = (.error t, c') ∧ Ready out c' ∧ t.Clean := by
  have hnote : Runs (Begun out chunked deflate pre) (noteServed method) (.ok ⟨⟩)
      (Begun out chunked deflate pre) := .modify fun _ hc => { hc with }
  rw [HandlerBehaves] at hbehaves
  cases chunked with
  | true =>
    refine .inl ?_
    refine hnote.bind (((begin_chunked hh).bind ((process_chunked hbehaves).bind ?_))) c hc
    refine .get_bind fun c' hc' => ?_
    rw [if_pos hc'.chunkedOut]
    exact answered_chunked hr hh
  | false =>
    rcases hthrown : h.thrown with - | t
    · refine .inl ?_
      refine hnote.bind ((begin_collected hh).bind ((process_collected hthrown).bind ?_)) c hc
      refine .get_bind fun c' hc' => ?_
      rw [if_neg (by simp [hc'.chunkedOut])]
      have hcollected := hbehaves hthrown
      cases deflate with
      | true => exact answered_deflated hr hcollected
      | false => exact answered_content hr hcollected.1 hcollected.2
    · have hpost : Runs (Begun out false deflate pre) (post r method h) (.error t)
          (Begun out false deflate (prefixOf r)) :=
        hnote.bind ((begin_collected hh).bind (process_throws hthrown).bind_error)
      obtain ⟨c', hexec, hc'⟩ := hpost c hc
      exact .inr ⟨t, c', hexec, hc'.toReady, hh.thrown t hthrown⟩

end Entities

/-! ### A turn -/

/-- In a turn of the connection `c`, the request `r` is served in the state `c'`. -/
def Serving (cfg : ServerConfig) (cert : Option Certificate) (turn : Turn) (c : Conn) (r : Request)
    (c' : Conn) : Prop :=
  turn.event = .request r ∧ ∃ c₁ c₂ code code', exec (resetConn turn.date) c = (.ok ⟨⟩, c₁) ∧
    exec (processRequestLine r.line) c₁ = (.ok code, c₂) ∧ code < 300 ∧
    exec (processHeaders cfg cert r) { c₂ with resCode := code } = (.ok code', c') ∧ code' < 300

/-- A request that is served goes to a request handler that behaves. -/
structure ServedProperly (c : Conn) : Prop where
  method : c.method.isPost
  handler : ∀ h, c.requestHandler = some h →
    h.Clean ∧ HandlerBehaves h c.chunkedOut c.deflateCompressionOut

/-- A request that is served in a turn of the connection goes to a request handler that behaves. -/
def Proper (cfg : ServerConfig) (cert : Option Certificate) (turn : Turn) (c : Conn) : Prop :=
  ∀ r c', Serving cfg cert turn c r c' → ServedProperly c'

/-- What a part of a turn has led to: at most one response, or an exception before anything was
written, or after that one because the client has closed the connection. -/
def Settled {α : Type} (out : ByteStr) (x : Except Thrown α × Conn) : Prop :=
  match x with
  | (.ok _, c) => Answered out c.out
  | (.error t, c) => Ready out c ∧ t.Clean ∨ t = .iosFailure ∧ Answered out c.out

section Turns

variable {cfg : ServerConfig} {cert : Option Certificate} {out : ByteStr}

/-- An exception. -/
lemma settled_error {α : Type} (hc : Ready out c) (ht : t.Clean) :
    @Settled α out (.error t, c) := .inl ⟨hc, ht⟩

/-- A part that writes nothing, followed by another one. -/
lemma settled_bind {α β : Type} {x : Prog Conn Thrown α} {f : α → Prog Conn Thrown β}
    (hx : Tidy Thrown.Clean x) (hc : Ready out c)
    (hf : ∀ v c', exec x c = (.ok v, c') → Ready out c' → Settled out (exec (f v) c')) :
    Settled out (exec (x >>= f) c) := by
  obtain ⟨hready, hclean⟩ := hx out c hc
  rw [exec_bind]
  rcases hexec : exec x c with ⟨t | v, c'⟩ <;> rw [hexec] at hready hclean
  · exact settled_error hready (hclean t rfl)
  · exact hf v c' hexec hready

/-- After the response, the rest of the entity is read. -/
lemma settled_eat {α β : Type} {x : Prog Conn Thrown α} {f : Prog Conn Thrown β}
    {eat : Option Thrown} (heat : eat = none ∨ eat = some .iosFailure) (hx : Settled out (exec x c))
    (hf : ∀ c', Answered out c'.out → ∃ v c'', exec f c' = (.ok v, c'') ∧ c''.out = c'.out) :
    Settled out (exec (do
      let _ ← x
      mayThrow eat
      f) c) := by
  rw [exec_bind]
  rcases hexec : exec x c with ⟨t | v, c'⟩ <;> rw [hexec] at hx
  · exact hx
  · rcases heat with rfl | rfl
    · obtain ⟨v', c'', hexec', hout⟩ := hf c' hx
      change Settled out (exec f c')
      rw [hexec']
      change Answered out c''.out
      rwa [hout]
    · exact .inr ⟨rfl, hx⟩

variable {socket : SocketState} {turn : Turn}

/-- A refusal. -/
lemma settled_refused {r : Request} (hr : r.Clean) (code : ℕ)
    (hc : Ready out c) : Settled out (exec (refused socket r code) c) := by
  obtain ⟨c', hexec, hanswered⟩ := answered_sendError socket code hc
  rw [refused, exec_bind_of_ok hexec]
  rcases hr.eat with heat | heat <;> rw [heat] <;> exact hanswered

/-- Serving a request. -/
lemma settled_serve {r : Request} (hr : r.Clean) (hc : Ready out c)
    (hserved : ServedProperly c) : Settled out (exec (serve cfg socket r) c) := by
  have hpost : Settled out (exec (postEntity r c) c) := by
    rw [postEntity]
    rcases hhandler : c.requestHandler with - | h
    · exact settled_error hc trivial
    · obtain ⟨hclean, hbehaves⟩ := hserved.handler h hhandler
      split_ifs
      · have hbegun : Begun out c.chunkedOut c.deflateCompressionOut c.respHeaderPrefix c :=
          { hc with chunkedOut := rfl, deflateOut := rfl, respHeaderPrefix := rfl }
        rcases answered_post hr hclean c.method hbehaves hbegun with
          ⟨c', hexec, hanswered⟩ | ⟨t, c', hexec, hready, ht⟩ <;> rw [hexec]
        · exact hanswered
        · exact settled_error hready ht
      · exact settled_error hc (show IsLine _ by decide)
  have hdispatch : dispatch cfg r c = postEntity r c := by
    have hmethod := hserved.method
    rw [dispatch]
    cases hm : c.method <;> rw [hm] at hmethod
    all_goals exact absurd hmethod (by decide)
  have hbad : c.method ≠ .bad := fun h => by
    have hmethod := hserved.method
    rw [h] at hmethod
    cases hmethod
  rw [serve, exec_get_bind, if_neg hbad, hdispatch]
  exact settled_eat hr.eat hpost fun c' _ => ⟨_, c', rfl, rfl⟩

/-- The rest of a request. -/
lemma settled_handleEntity {r : Request} (hr : r.Clean) (code : ℕ) (hc : Ready out c)
    (hserved : code < 300 → ServedProperly c) :
    Settled out (exec (handleEntity cfg socket r code) c) := by
  have hconvert : Tidy Thrown.Clean convertToFiniteStream :=
    .get_bind fun _ => .when (.throw (show IsLine _ by decide))
  have hsame (c c' : Conn) (h : exec convertToFiniteStream c = (.ok ⟨⟩, c')) : c' = c := by
    rw [convertToFiniteStream, exec_get_bind] at h
    by_cases hcond : c.deflateCompressionIn ∧ (c.chunkedIn ∨ 0 < c.contentLength)
    · rw [exec_when_pos hcond] at h
      cases h
    · rw [exec_when_neg hcond] at h
      cases h
      rfl
  rw [handleEntity, exec_modify_bind]
  refine settled_bind hconvert { hc with } fun _ c' hexec hc' => ?_
  obtain rfl := hsame _ _ hexec
  split_ifs with hcode
  · exact settled_refused hr code hc'
  · exact settled_serve hr hc' { hserved (by omega) with }

/-- A whole request. -/
lemma settled_handleRequest (hcfg : IsLine cfg.authenticationRealm) {r : Request} (hr : r.Clean)
    (hevent : turn.event = .request r) {c₁ : Conn} (hproper : Proper cfg cert turn c)
    (hreset : exec (resetConn turn.date) c = (.ok ⟨⟩, c₁)) (hc1 : Ready out c₁) :
    Settled out (exec (handleRequest cfg cert turn.socket r) c₁) := by
  rw [handleRequest]
  refine settled_bind (tidy_returning (tidy_processRequestLine hr)) hc1 fun code c₂ hline hc2 => ?_
  rw [exec_modify_bind]
  split_ifs with hcode
  · obtain ⟨c', hexec, hanswered⟩ := answered_sendError turn.socket code
      (c := { c₂ with resCode := code }) { hc2 with }
    rw [exec_bind_of_ok hexec]
    exact hanswered
  · rw [handleHeaders]
    refine settled_bind (tidy_returning (tidy_processHeaders hcfg hr))
      { hc2 with } fun code' c' hheaders hc' => settled_handleEntity hr code' hc' fun hcode' => ?_
    exact hproper r c' ⟨hevent, c₁, c₂, code, code', hreset,
      of_returning hline (by omega), by omega,
      of_returning hheaders hcode', hcode'⟩

/-- The reset before a request. -/
lemma exec_resetConn (hdate : IsLine turn.date) (c : Conn) :
    ∃ c₁, exec (resetConn turn.date) c = (.ok ⟨⟩, c₁) ∧ Ready c.out c₁ := by
  have hplain : ∀ l ∈ ([] : List ByteStr), PlainLine l := nofun
  refine ⟨_, rfl, rfl, ?_, rfl, show IsLine [] by decide⟩
  change ∀ l ∈ insertHeader (insertHeader (insertHeader [] (text "Date") turn.date)
    (text "Cache-Control")
    (text "no-cache")) (text "Server") (text "openwbem/4.2.0 (CIMOM)"), PlainLine l
  exact plain_insertHeader (plain_insertHeader (plain_insertHeader hplain (by decide) hdate)
    (by decide) (by decide)) (by decide) (by decide)

/-- **A turn of the loop is settled.** -/
lemma settled_iteration (hcfg : IsLine cfg.authenticationRealm) (hclean : turn.Clean)
    (hproper : Proper cfg cert turn c) : Settled c.out (exec (iteration cfg cert turn) c) := by
  obtain ⟨c₁, hreset, hc1⟩ := exec_resetConn hclean.date c
  have hgiveUp (code : ℕ) {details : ByteStr} (hdetails : IsLine details) :
      Settled c.out (exec (giveUp turn.socket code details) c₁) := by
    obtain ⟨c', hexec, hanswered⟩ := answered_sendError turn.socket code
      (c := { c₁ with resCode := code, errDetails := details }) { hc1 with details := hdetails }
    rw [giveUp, exec_modify_bind, exec_bind_of_ok hexec]
    exact hanswered
  rw [iteration, exec_bind_of_ok hreset]
  split
  · exact settled_error hc1 (show IsLine _ by decide)
  · exact hgiveUp _ (by decide)
  · exact hgiveUp _ (by decide)
  · exact hgiveUp _ (by decide)
  · exact .inl hc1.out
  · exact hgiveUp _ (by decide)
  · next r hevent =>
      exact settled_handleRequest hcfg (hclean.request r hevent) hevent hproper hreset hc1

/-- **A turn writes at most one response.** -/
lemma answered_turn (hcfg : IsLine cfg.authenticationRealm) (hclean : turn.Clean)
    (hproper : Proper cfg cert turn c) : Answered c.out (afterTurn cfg cert turn c).1.out := by
  have hsettled := settled_iteration hcfg hclean hproper
  have hcaught {details : ByteStr} (hdetails : IsLine details) (code : ℕ) {c' : Conn}
      (hc' : Ready c.out c') :
      Answered c.out (exec (sendCaught turn details code) c').2.out := by
    rw [sendCaught]
    rcases turn.eatAfter with - | t
    · obtain ⟨c'', hexec, hanswered⟩ := answered_sendError turn.socket code
        (c := { c' with errDetails := details }) { hc' with details := hdetails }
      change Answered c.out (exec (sendError turn.socket code)
        { c' with errDetails := details }).2.out
      rw [hexec]
      exact hanswered
    · exact .inl hc'.out
  rw [afterTurn]
  rcases hexec : exec (iteration cfg cert turn) c with ⟨t | more, c'⟩ <;> rw [hexec] at hsettled
  · rcases hsettled with ⟨hc', ht⟩ | ⟨rfl, hanswered⟩
    · cases t with
      | cimError message =>
        refine hcaught ?_ _ { hc' with headers := plain_insertHeader hc'.headers (by decide) ht }
        split_ifs
        · exact isLine_append.2 ⟨by decide, ht⟩
        · exact hc'.details
      | authentication message => exact hcaught ht _ hc'
      | exception message => exact hcaught ht _ hc'
      | iosFailure => exact .inl hc'.out
      | stdException what =>
        exact hcaught (isLine_append.2 ⟨isLine_append.2 ⟨by decide, ht⟩, by decide⟩) _ hc'
      | cancelled => exact hcaught (by decide) _ hc'
      | unknown => exact hcaught (by decide) _ hc'
    · exact hanswered
  · exact hsettled

end Turns

/-! ### Runs -/

section Runs

variable (cfg : ServerConfig) (cert : Option Certificate)

/-- How many turns of a run are taken. -/
def taken : List Turn → Conn → ℕ
  | [], _ => 0
  | turn :: turns, c =>
    1 + if (afterTurn cfg cert turn c).2 then taken turns (afterTurn cfg cert turn c).1 else 0

/-- **The law.** The bytes that are written are well-formed responses, at most one for each turn
that is taken. -/
def ResponsesRight (turns : List Turn) (c : Conn) : Prop :=
  ∃ answers : List (Option Message), answers.length = taken cfg cert turns c ∧
    (∀ m, some m ∈ answers → m.WellFormed) ∧
    (run cfg cert turns c).out = c.out ++ answers.flatMap fun m => m.elim [] Message.bytes

/-- All turns of a run are clean and proper. -/
def RunProper : List Turn → Conn → Prop
  | [], _ => True
  | turn :: turns, c => turn.Clean ∧ Proper cfg cert turn c ∧
    ((afterTurn cfg cert turn c).2 → RunProper turns (afterTurn cfg cert turn c).1)

end Runs

/-- **When all answers are well-formed.** In every run of a connection whose turns are clean and
proper, from every state, the bytes that are written are well-formed responses, one for each request
that is answered.

**Proof sketch.** A request is checked without writing anything, and the headers are plain so far
(`tidy_processHeaders`). An error is sent with the length zero (`answered_sendError`), and an entity
with its length or in chunks (`answered_post`). So a turn writes at most one response
(`answered_turn`); the rest is an induction over the turns. -/
theorem responses_right (cfg : ServerConfig) (hcfg : IsLine cfg.authenticationRealm)
    (cert : Option Certificate) (turns : List Turn) (c : Conn) (h : RunProper cfg cert turns c) :
    ResponsesRight cfg cert turns c := by
  induction turns generalizing c with
  | nil => exact ⟨[], rfl, nofun, (append_nil _).symm⟩
  | cons turn turns ih =>
    obtain ⟨hclean, hproper, hrest⟩ := h
    have hanswer : ∃ a : Option Message, (∀ m, a = some m → m.WellFormed) ∧
        (afterTurn cfg cert turn c).1.out = c.out ++ a.elim [] Message.bytes := by
      rcases answered_turn hcfg hclean hproper with hout | ⟨m, hm, hout⟩
      · exact ⟨none, nofun, by rw [hout]; exact (append_nil _).symm⟩
      · exact ⟨some m, fun m' hm' => (by cases hm'; exact hm), hout⟩
    obtain ⟨a, ha, hout⟩ := hanswer
    rw [ResponsesRight, taken, run]
    split_ifs with hmore
    · obtain ⟨answers, hlength, hwell, hrun⟩ := ih _ (hrest hmore)
      refine ⟨a :: answers, ?_, fun m hm => ?_, ?_⟩
      · rw [length_cons, hlength, Nat.add_comm]
      · rcases mem_cons.1 hm with hm | hm
        · exact ha m hm.symm
        · exact hwell m hm
      · rw [hrun, hout, flatMap_cons, append_assoc]
    · refine ⟨[a], rfl, fun m hm => ha m (mem_singleton.1 hm).symm, ?_⟩
      rw [hout, flatMap_singleton]

/-! ### A request that is answered, and one that is not -/

/-- A server with anonymous access. -/
def openServer : ServerConfig :=
  { allowAnonymous := true
    allowLocalAuthentication := false
    allowDigestAuthentication := false
    allowBasicAuthentication := false
    allowSPNEGOAuthentication := false
    authenticationRealm := text "openwbem"
    defaultAuthChallenge := .basic
    verifyMode := .disabled
    allowedUsers := []
    allowAllUsers := true
    enableDeflate := false }

/-- A request handler that answers with an entity, or with an error for a CIM error. -/
def sampleHandler (cimError : ByteStr) : Handler :=
  { contentType := text "application/xml"
    chunks := []
    pending := text "<CIM/>"
    entity := text "<CIM/>"
    error := text "<CIM/>"
    failure := if cimError = [] then none else some (1, cimError)
    cimError := cimError
    thrown := none
    deflated := ([], [])
    options := .error .unknown }

/-- A request for the request handler. -/
def sampleRequest (cimError : ByteStr) : Request :=
  { line := [text "POST", text "/cimom", text "HTTP/1.1"]
    headers := [(text "host", text "localhost"), (text "content-type", text "application/xml"),
      (text "content-length", text "6")]
    length := .ok 6
    counter := 40
    auth := ⟨⟨[], none, [], .ok .fail⟩, ⟨[], none, [], .ok .fail⟩, false, ⟨[], [], .ok false⟩,
      ⟨[], none, [], .ok .fail⟩, none, false, []⟩
    getRequestHandler := fun _ => some (sampleHandler cimError)
    language := none
    split := fun s => ([], s)
    eat := none }

/-- A turn with the request. -/
def sampleTurn (cimError : ByteStr) : Turn :=
  ⟨.request (sampleRequest cimError), ⟨false, false, false⟩,
    text "Thu, 01 Jan 2004 00:00:00 GMT", none⟩

/-- The sample is clean. -/
lemma clean_sampleTurn : (sampleTurn []).Clean := by
  have hscheme : SchemeOutcome.Clean ⟨[], none, [], .ok .fail⟩ := ⟨nofun, nofun, nofun⟩
  refine ⟨by decide, fun r hr => ?_⟩
  cases hr
  exact
    { line := by decide
      headers := by decide
      length := nofun
      auth := ⟨hscheme, hscheme, ⟨by decide, nofun⟩, hscheme, by decide⟩
      language := nofun
      eat := .inl rfl }

/-- A request without a CIM error gets a well-formed response. -/
theorem responses_right_sample : ResponsesRight openServer none [sampleTurn []] Conn.new := by
  refine responses_right openServer (by decide) none [sampleTurn []] Conn.new
    ⟨clean_sampleTurn, fun r c' hserving => ?_, fun _ => trivial⟩
  obtain ⟨hr, c₁, c₂, code, code', hreset, hline, -, hheaders, -⟩ := hserving
  cases hr
  obtain rfl := congrArg Prod.snd hreset
  obtain rfl := congrArg Prod.snd hline
  obtain rfl := congrArg Prod.snd hheaders
  refine ⟨rfl, fun h hh => ?_⟩
  have hhandler : h = sampleHandler [] := by
    refine Option.some.inj (hh.symm.trans ?_)
    rfl
  subst hhandler
  refine ⟨⟨by decide, by decide, nofun, nofun⟩, ?_⟩
  exact fun _ => ⟨rfl, by decide⟩

/-- **A CIM error is sent without a status line and headers**, if the client does not want
trailers. -/
theorem cimError_without_headers :
    ¬ ResponsesRight openServer none [sampleTurn (text "request-not-valid")] Conn.new := by
  rintro ⟨answers, hlength, hwell, hout⟩
  have hrun : (run openServer none [sampleTurn (text "request-not-valid")] Conn.new).out =
      text "<CIM/>" := by
    decide +kernel
  have htaken : taken openServer none [sampleTurn (text "request-not-valid")] Conn.new = 1 := by
    decide +kernel
  rw [htaken] at hlength
  rw [hrun] at hout
  obtain ⟨a, rfl⟩ := length_eq_one_iff.1 hlength
  rw [flatMap_singleton] at hout
  change text "<CIM/>" = [] ++ a.elim [] Message.bytes at hout
  rw [nil_append] at hout
  cases a with
  | none => exact absurd hout (by decide)
  | some m =>
    obtain ⟨-, version, code, reason, hversion, hline⟩ := (hwell m mem_cons_self).statusLine
    have hhead : (text "<CIM/>").head? = some 72 := by
      rw [hout]
      change m.bytes.head? = _
      rw [Message.bytes, hline]
      rcases hversion with rfl | rfl <;> rfl
    cases hhead

end OpenWbem.Http
