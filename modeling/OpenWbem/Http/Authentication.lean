import OpenWbem.Http.Digest

/-!
# Authentication by the HTTP server

The function `HTTPServer::authenticate`. The first word of the client's authorization selects a
scheme; a verified certificate takes precedence over all schemes but the local one. What a scheme
does is an input: it may change the user name, set the error details, add headers, and answer or
throw.

With the automatic update of the trust store, the certificate of a client is added under the user
name. This happens unless the scheme has failed, so also if it needs another round.

## Main definitions

* `SchemeOutcome`, `AuthOutcomes` — what the schemes do.
* `ServerConfig` — the configuration of the server.
* `authenticate` — `HTTPServer::authenticate`.
-/

namespace OpenWbem.Http

/-! ### Exceptions and outcomes -/

/-- What can be thrown while a request is handled. -/
inductive Thrown where
  /-- `CIMErrorException`, with its message. -/
  | cimError (message : ByteStr)
  /-- `AuthenticationException` -/
  | authentication (message : ByteStr)
  /-- Another `Exception`. -/
  | exception (message : ByteStr)
  /-- `std::ios_base::failure` -/
  | iosFailure
  /-- Another `std::exception`. -/
  | stdException (what : ByteStr)
  /-- `ThreadCancelledException` -/
  | cancelled
  /-- Anything else. -/
  | unknown
deriving DecidableEq

/-- The headers that the schemes add. -/
inductive AuthHeader where
  | wwwAuthenticate
  | authenticationInfo
deriving DecidableEq

/-- What a scheme does: the user name afterwards, the error details if it sets them, the headers
that it adds, and its answer. -/
structure SchemeOutcome where
  userName : ByteStr
  errorDetails : Option ByteStr
  headers : List (AuthHeader × ByteStr)
  answer : Except Thrown EAuthenticateResult

/-- What the helper process for negotiations answers. -/
inductive HelperAnswer where
  | success (user challenge : ByteStr)
  | failure (details : ByteStr)
  | continue (challenge : ByteStr)
  | unknown
  | ioError (message : ByteStr)

/-- `SPNEGOAuthentication::authenticate` -/
def spnegoAuthenticate (userName info : ByteStr) (answer : HelperAnswer) : SchemeOutcome :=
  if 10 ∈ info then ⟨userName, some (text "Newline not allowed"), [], .ok .fail⟩
  else if (text "Negotiate ").isPrefixOf info then
    match answer with
    | .success user challenge =>
      ⟨user, none, [(.wwwAuthenticate, text "Negotiate " ++ challenge)], .ok .success⟩
    | .failure details => ⟨userName, some details, [], .ok .fail⟩
    | .continue challenge =>
      ⟨userName, some (text "SPNEGO continue"),
        [(.wwwAuthenticate, text "Negotiate " ++ challenge)],
        .ok .continue⟩
    | .unknown => ⟨userName, none, [], .ok .fail⟩
    | .ioError message =>
      ⟨userName, some (text "Error communicating with owspnego_helper: " ++ message), [], .ok .fail⟩
  else ⟨userName, some (text "Internal error. !info.startsWith(\"Negotiate: \")"), [], .ok .fail⟩

/-- What `authenticate` of the environment does for a user and a password. -/
structure BasicOutcome where
  userName : ByteStr
  details : ByteStr
  answer : Except Thrown Bool

/-- What happens when a request is authenticated. -/
structure AuthOutcomes where
  owlocal : SchemeOutcome
  digest : SchemeOutcome
  /-- `decodeBasicCreds` does not throw. -/
  decodes : Bool
  basic : BasicOutcome
  negotiate : SchemeOutcome
  /-- The user that the trust store has for the certificate. -/
  certUser : Option ByteStr
  /-- `addCertificate` throws. -/
  addFails : Bool
  /-- `getChallenge` of the scheme for digests. -/
  digestChallenge : ByteStr

/-- `SSLOpts::verifyMode` -/
inductive VerifyMode where
  | disabled
  | required
  | optional
  | autoupdate
deriving DecidableEq

/-- The scheme of the default challenge. -/
inductive DefaultChallenge where
  | digest
  | basic
  | spnego
deriving DecidableEq

/-- The configuration of the server. -/
structure ServerConfig where
  allowAnonymous : Bool
  allowLocalAuthentication : Bool
  allowDigestAuthentication : Bool
  allowBasicAuthentication : Bool
  allowSPNEGOAuthentication : Bool
  authenticationRealm : ByteStr
  defaultAuthChallenge : DefaultChallenge
  verifyMode : VerifyMode
  allowedUsers : List ByteStr
  allowAllUsers : Bool
  enableDeflate : Bool

/-- `isAllowedUser` -/
def ServerConfig.isAllowedUser (cfg : ServerConfig) (user : ByteStr) : Bool :=
  user ∈ cfg.allowedUsers || cfg.allowAllUsers

/-- The certificate that a client presents; it is known by its fingerprint. -/
structure Certificate where
  fingerprint : ByteStr
  verified : Bool

/-! ### The function -/

/-- The schemes. -/
inductive Scheme where
  | owlocal
  | certificate
  | digest
  | basic
  | negotiate
  /-- No scheme: the default challenge is sent. -/
  | challenge
deriving DecidableEq

/-- What `authenticate` does: the user name, the error details if they are set, and the headers that
are added; the answer; and the user that the certificate is added to the trust store for. -/
structure AuthResult where
  scheme : Scheme
  userName : ByteStr
  errorDetails : Option ByteStr
  headers : List (AuthHeader × ByteStr)
  answer : Except Thrown EAuthenticateResult
  trusted : Option ByteStr

/-- Words of a text. -/
def words (s : ByteStr) : List ByteStr := (s.splitOnP isSpace).filter (· ≠ [])

/-- The scheme of an authorization. -/
def schemeName (info : ByteStr) : ByteStr := ((words info).headD []).map lowerByte

section Authenticate

variable (cfg : ServerConfig)

/-- A success for a user who is not allowed is a failure. -/
def ServerConfig.restrict (user : ByteStr) (rv : EAuthenticateResult) : EAuthenticateResult :=
  if rv = .success ∧ ¬ cfg.isAllowedUser user then .fail else rv

/-- The certificate is a way to log in. -/
def CertificateLogin (cert : Option Certificate) : Prop :=
  cfg.verifyMode ≠ .disabled ∧ (cert.map Certificate.verified).getD false

instance (cert : Option Certificate) : Decidable (CertificateLogin cfg cert) :=
  inferInstanceAs (Decidable (_ ∧ _))

/-- The scheme that `authenticate` uses. -/
def ServerConfig.selectScheme (cert : Option Certificate) (info : ByteStr) : Scheme :=
  if cfg.allowLocalAuthentication ∧ schemeName info = text "owlocal" then .owlocal
  else if CertificateLogin cfg cert then .certificate
  else if cfg.allowDigestAuthentication ∧ schemeName info = text "digest" then .digest
  else if cfg.allowBasicAuthentication ∧ schemeName info = text "basic" then .basic
  else if cfg.allowSPNEGOAuthentication ∧ (text "Negotiate").isPrefixOf info then .negotiate
  else .challenge

/-- The result of a scheme whose users must be allowed. -/
def ServerConfig.restricted (scheme : Scheme) (o : SchemeOutcome) : AuthResult :=
  ⟨scheme, o.userName, o.errorDetails, o.headers, o.answer.map (cfg.restrict o.userName), none⟩

/-- The challenge of the basic scheme. -/
def ServerConfig.basicChallenge : AuthHeader × ByteStr :=
  (.wwwAuthenticate, text "Basic realm=\"" ++ cfg.authenticationRealm ++ text "\"")

/-- The basic scheme. -/
def ServerConfig.authenticateBasic (userName : ByteStr) (o : AuthOutcomes) : AuthResult :=
  if ¬ o.decodes then
    ⟨.basic, userName, some (text "Problem decoding credentials"), [cfg.basicChallenge],
      .ok .fail, none⟩
  else
    match o.basic.answer with
    | .error e => ⟨.basic, o.basic.userName, none, [], .error e, none⟩
    | .ok accepted =>
      let rv := cfg.restrict o.basic.userName (if accepted then .success else .fail)
      if rv = .fail then
        ⟨.basic, o.basic.userName, some o.basic.details, [cfg.basicChallenge], .ok .fail, none⟩
      else ⟨.basic, o.basic.userName, none, [], .ok rv, none⟩

/-- The default challenge. -/
def ServerConfig.challengeHeader (o : AuthOutcomes) : AuthHeader × ByteStr :=
  match cfg.defaultAuthChallenge with
  | .digest => (.wwwAuthenticate, o.digestChallenge)
  | .basic => cfg.basicChallenge
  | .spnego => (.wwwAuthenticate, text "Negotiate")

/-- The automatic update of the trust store, which all results but a failure lead to. -/
def ServerConfig.updateTrust (cert : Option Certificate) (o : AuthOutcomes) (r : AuthResult) :
    AuthResult :=
  match r.answer with
  | .ok .fail => r
  | .ok _ =>
    if cfg.verifyMode = .autoupdate ∧ cert.isSome ∧ o.addFails = false then
      { r with trusted := some r.userName }
    else r
  | .error _ => r

/-- `HTTPServer::authenticate`, for a connection with the user name so far. -/
def authenticate (cert : Option Certificate) (userName info : ByteStr) (o : AuthOutcomes) :
    AuthResult :=
  match cfg.selectScheme cert info with
  | .owlocal => cfg.restricted .owlocal o.owlocal
  | .certificate =>
    match o.certUser with
    | none => ⟨.certificate, userName, none, [], .ok .fail, none⟩
    | some user => ⟨.certificate, user, none, [], .ok .success, none⟩
  | .digest => cfg.updateTrust cert o (cfg.restricted .digest o.digest)
  | .basic => cfg.updateTrust cert o (cfg.authenticateBasic userName o)
  | .negotiate => cfg.updateTrust cert o (cfg.restricted .negotiate o.negotiate)
  | .challenge =>
    ⟨.challenge, userName, some (text "You must authenticate to access this resource"),
      [cfg.challengeHeader o], .ok .continue, none⟩

end Authenticate

/-! ### What it answers -/

section Answers

variable {cfg : ServerConfig} {cert : Option Certificate} {userName info : ByteStr}
    {o : AuthOutcomes}

variable {user : ByteStr} {rv : EAuthenticateResult} {s : SchemeOutcome}

/-- Only allowed users succeed. -/
lemma restrict_success (h : cfg.restrict user rv = .success) : cfg.isAllowedUser user := by
  rw [ServerConfig.restrict] at h
  split_ifs at h with hcond
  by_contra hallowed
  exact hcond ⟨h, hallowed⟩

/-- The update of the trust store changes nothing else. -/
lemma updateTrust_eq (cfg : ServerConfig) (cert : Option Certificate) (o : AuthOutcomes)
    (r : AuthResult) :
    ∃ trusted, cfg.updateTrust cert o r = { r with trusted } := by
  rw [ServerConfig.updateTrust]
  split
  · exact ⟨r.trusted, rfl⟩
  · split_ifs
    · exact ⟨_, rfl⟩
    · exact ⟨r.trusted, rfl⟩
  · exact ⟨r.trusted, rfl⟩

/-- The answer stays. -/
@[simp] lemma answer_updateTrust (r : AuthResult) :
    (cfg.updateTrust cert o r).answer = r.answer := by
  obtain ⟨trusted, h⟩ := updateTrust_eq cfg cert o r
  rw [h]

/-- The user stays. -/
@[simp] lemma userName_updateTrust (r : AuthResult) :
    (cfg.updateTrust cert o r).userName = r.userName := by
  obtain ⟨trusted, h⟩ := updateTrust_eq cfg cert o r
  rw [h]

/-- Success is for allowed users. -/
lemma allowed_restricted {scheme : Scheme} (h : (cfg.restricted scheme s).answer = .ok .success) :
    cfg.isAllowedUser (cfg.restricted scheme s).userName := by
  rw [ServerConfig.restricted] at h ⊢
  rcases hs : s.answer with e | rv <;> rw [hs] at h
  · cases h
  · exact restrict_success (Except.ok.inj h)

/-- Also with `Basic`. -/
lemma allowed_authenticateBasic (h : (cfg.authenticateBasic userName o).answer = .ok .success) :
    cfg.isAllowedUser (cfg.authenticateBasic userName o).userName := by
  rw [ServerConfig.authenticateBasic] at h ⊢
  by_cases hdecodes : o.decodes
  · rw [if_neg (not_not.mpr hdecodes)] at h ⊢
    rcases hb : o.basic.answer with e | accepted
    · rw [hb] at h
      cases h
    · rw [hb] at h
      dsimp only at h ⊢
      generalize (if accepted then EAuthenticateResult.success else .fail) = rv at h ⊢
      split_ifs at h ⊢ with hfail
      · cases h
      · exact restrict_success (Except.ok.inj h)
  · rw [if_pos hdecodes] at h
    cases h

/-- **All schemes but the certificates check whether the user is allowed.** -/
lemma allowed_of_success (h : (authenticate cfg cert userName info o).answer = .ok .success)
    (hscheme : (authenticate cfg cert userName info o).scheme ≠ .certificate) :
    cfg.isAllowedUser (authenticate cfg cert userName info o).userName := by
  rw [authenticate] at h hscheme ⊢
  cases hselect : cfg.selectScheme cert info <;> rw [hselect] at h hscheme <;>
    dsimp only at h hscheme ⊢
  case owlocal => exact allowed_restricted h
  case certificate =>
    rcases hcert : o.certUser with - | user <;> rw [hcert] at hscheme <;> exact absurd rfl hscheme
  case digest =>
    rw [answer_updateTrust] at h
    rw [userName_updateTrust]
    exact allowed_restricted h
  case basic =>
    rw [answer_updateTrust] at h
    rw [userName_updateTrust]
    exact allowed_authenticateBasic h
  case negotiate =>
    rw [answer_updateTrust] at h
    rw [userName_updateTrust]
    exact allowed_restricted h
  case challenge => cases h

/-- The scheme stays. -/
@[simp] lemma scheme_updateTrust (r : AuthResult) :
    (cfg.updateTrust cert o r).scheme = r.scheme := by
  obtain ⟨trusted, h⟩ := updateTrust_eq cfg cert o r
  rw [h]

/-- The restriction asks for nothing more. -/
lemma restrict_continue : cfg.restrict user rv = .continue ↔ rv = .continue := by
  rw [ServerConfig.restrict]
  split_ifs with h
  · simp [h.1]
  · rfl

/-- `Basic` never asks for more, and trusts no certificate. -/
lemma authenticateBasic_spec :
    (cfg.authenticateBasic userName o).scheme = .basic ∧
      (cfg.authenticateBasic userName o).trusted = none ∧
      (cfg.authenticateBasic userName o).answer ≠ .ok .continue := by
  rw [ServerConfig.authenticateBasic]
  split_ifs
  · split
    · simp
    · dsimp only
      split_ifs <;> simp [restrict_continue]
  · simp

/-- The scheme of the result is the one that was selected. -/
lemma scheme_authenticate :
    (authenticate cfg cert userName info o).scheme = cfg.selectScheme cert info := by
  rw [authenticate]
  cases hselect : cfg.selectScheme cert info with
  | owlocal => rfl
  | certificate => cases o.certUser <;> rfl
  | digest => exact scheme_updateTrust _
  | basic => exact (scheme_updateTrust _).trans authenticateBasic_spec.1
  | negotiate => exact scheme_updateTrust _
  | challenge => rfl

/-- A certificate is used if it has been verified. -/
lemma certificate_selected (h : cfg.selectScheme cert info = .certificate) :
    CertificateLogin cfg cert := by
  rw [ServerConfig.selectScheme] at h
  split_ifs at h with _ hcert
  exact hcert

/-- A success by certificate is for the user that the trust store has for it. -/
lemma certUser_of_success (hscheme : (authenticate cfg cert userName info o).scheme = .certificate)
    (h : (authenticate cfg cert userName info o).answer = .ok .success) :
    o.certUser = some (authenticate cfg cert userName info o).userName := by
  rw [scheme_authenticate] at hscheme
  rw [authenticate, hscheme] at h ⊢
  rcases hcert : o.certUser with - | user
  · rw [hcert] at h
    cases h
  · rfl

/-- The certificate is added, unless the scheme has failed. -/
lemma trusted_updateTrust {r : AuthResult} (hr : r.trusted = none) :
    (cfg.updateTrust cert o r).trusted = some user ↔
      user = r.userName ∧ cfg.verifyMode = .autoupdate ∧ cert.isSome ∧ o.addFails = false ∧
        (r.answer = .ok .success ∨ r.answer = .ok .continue) := by
  rw [ServerConfig.updateTrust]
  rcases hanswer : r.answer with t | rv
  · simp [hr]
  · cases rv with
    | fail => simp [hr]
    | success =>
      split_ifs with hcond
      · simp [hcond, eq_comm]
      · simp only [hr, reduceCtorEq, false_iff, true_or, and_true]
        exact fun h => hcond ⟨h.2.1, h.2.2.1, h.2.2.2⟩
    | «continue» =>
      split_ifs with hcond
      · simp [hcond, eq_comm]
      · simp only [hr, reduceCtorEq, false_iff, or_true, and_true]
        exact fun h => hcond ⟨h.2.1, h.2.2.1, h.2.2.2⟩

/-- Only the scheme asks for more. -/
lemma answer_restricted_continue (cfg : ServerConfig) (scheme : Scheme) :
    (cfg.restricted scheme s).answer = .ok .continue ↔ s.answer = .ok .continue := by
  rw [ServerConfig.restricted]
  rcases s.answer with t | rv
  · simp [Except.map]
  · simp [Except.map, restrict_continue]

/-- A scheme asks for another round, with a certificate that is then added to the trust store. -/
def AsksForMore (cfg : ServerConfig) (cert : Option Certificate) (info : ByteStr)
    (o : AuthOutcomes) : Prop :=
  cfg.verifyMode = .autoupdate ∧ cert.isSome ∧ o.addFails = false ∧
    (cfg.selectScheme cert info = .digest ∧ o.digest.answer = .ok .continue ∨
      cfg.selectScheme cert info = .negotiate ∧ o.negotiate.answer = .ok .continue)

/-- **Who a certificate is added for**: the user of the call, if it succeeds or asks for another
round. -/
lemma trusted_authenticate (h : (authenticate cfg cert userName info o).trusted = some user) :
    user = (authenticate cfg cert userName info o).userName ∧
      ((authenticate cfg cert userName info o).answer = .ok .success ∨
        AsksForMore cfg cert info o) := by
  rw [authenticate] at h ⊢
  cases hselect : cfg.selectScheme cert info <;> rw [hselect] at h <;> dsimp only at h ⊢
  case owlocal => cases h
  case certificate => rcases hcert : o.certUser with - | user <;> rw [hcert] at h <;> cases h
  case digest =>
    obtain ⟨huser, hmode, hcert, hadd, hanswer⟩ := (trusted_updateTrust rfl).1 h
    rw [userName_updateTrust, answer_updateTrust]
    refine ⟨huser, hanswer.imp_right fun hanswer => ⟨hmode, hcert, hadd, .inl ⟨hselect, ?_⟩⟩⟩
    exact (answer_restricted_continue cfg _).1 hanswer
  case basic =>
    obtain ⟨-, htrusted, hne⟩ := @authenticateBasic_spec cfg userName o
    obtain ⟨huser, hmode, hcert, hadd, hanswer⟩ := (trusted_updateTrust htrusted).1 h
    rw [userName_updateTrust, answer_updateTrust]
    exact ⟨huser, .inl (hanswer.resolve_right hne)⟩
  case negotiate =>
    obtain ⟨huser, hmode, hcert, hadd, hanswer⟩ := (trusted_updateTrust rfl).1 h
    rw [userName_updateTrust, answer_updateTrust]
    refine ⟨huser, hanswer.imp_right fun hanswer => ⟨hmode, hcert, hadd, .inr ⟨hselect, ?_⟩⟩⟩
    exact (answer_restricted_continue cfg _).1 hanswer
  case challenge => cases h

/-- A call that asks for another round adds the certificate without a success. -/
lemma trusted_of_asksForMore (userName : ByteStr) (h : AsksForMore cfg cert info o) :
    (authenticate cfg cert userName info o).trusted =
        some (authenticate cfg cert userName info o).userName ∧
      (authenticate cfg cert userName info o).answer = .ok .continue := by
  obtain ⟨hmode, hcert, hadd, ⟨hselect, hanswer⟩ | ⟨hselect, hanswer⟩⟩ := h <;>
    rw [authenticate, hselect] <;>
    dsimp only <;> rw [userName_updateTrust, answer_updateTrust]
  · have hcontinue := (answer_restricted_continue cfg .digest).2 hanswer
    exact ⟨(trusted_updateTrust rfl).2 ⟨rfl, hmode, hcert, hadd, .inr hcontinue⟩, hcontinue⟩
  · have hcontinue := (answer_restricted_continue cfg .negotiate).2 hanswer
    exact ⟨(trusted_updateTrust rfl).2 ⟨rfl, hmode, hcert, hadd, .inr hcontinue⟩, hcontinue⟩

end Answers

end OpenWbem.Http
