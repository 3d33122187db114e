import Mathlib.Data.List.AList
import OpenWbem.Cim.Url

/-!
# Digest authentication

The class `DigestAuthentication`. The server issues nonces, and a client that knows the hash of its
password answers with a digest of that hash, the nonce and the request. A nonce can be presented
once: it leaves the table of nonces when it is presented. Nonces that are older than a minute leave
the table too, but only when the next one is issued.

The clock and the random numbers are inputs of a call, and `md5` is an arbitrary function.

## Main definitions

* `DigestAuthentication` — the tables of nonces and of hashes.
* `DigestAuthentication.authenticate`, `DigestAuthentication.getChallenge` — the calls.
* `Call`, `DigestAuthentication.run` — sequences of calls.
-/

namespace OpenWbem.Http

/-! ### `HTTPUtils` -/

/-- A character of the alphabet of base 64. -/
def base64Char (n : UInt8) : UInt8 :=
  if n < 26 then 65 + n
  else if n < 52 then 71 + n
  else if n < 62 then n - 4
  else if n = 62 then 43
  else 47

/-- `HTTPUtils::base64Encode` -/
def base64Encode : ByteStr → ByteStr
  | [] => []
  | [x] => [base64Char (x >>> 2), base64Char ((x <<< 4) &&& (0x30 : UInt8)), 61, 61]
  | [x, y] =>
    [base64Char (x >>> 2), base64Char ((x <<< 4) &&& (0x30 : UInt8) ||| y >>> 4),
      base64Char ((y <<< 2) &&& (0x3c : UInt8)), 61]
  | x :: y :: z :: s =>
    base64Char (x >>> 2) :: base64Char ((x <<< 4) &&& (0x30 : UInt8) ||| y >>> 4) ::
      base64Char ((y <<< 2) &&& (0x3c : UInt8) ||| z >>> 6) :: base64Char (z &&& (0x3f : UInt8)) ::
        base64Encode s

/-- `HTTPUtils::DigestCalcResponse` -/
def digestCalcResponse (md5 : ByteStr → ByteStr)
    (sHA1 sNonce sNonceCount sCNonce sQop sMethod sDigestUri sHEntity : ByteStr) : ByteStr :=
  let sHA2Hex := md5 (sMethod ++ [58] ++ sDigestUri ++
    if equalsIgnoreCase sQop (text "auth-int") then [58] ++ sHEntity else [])
  md5 (sHA1 ++ [58] ++ sNonce ++ [58] ++
    (if sQop = [] then [] else sNonceCount ++ [58] ++ sCNonce ++ [58] ++ sQop ++ [58]) ++ sHA2Hex)

/-! ### The class -/

/-- What is read while a call is executed: the clock, and random numbers. -/
structure Clock where
  now : Int
  rand : List UInt32

/-- The text of a number with the format `%08x`. -/
def hex8 (n : UInt32) : ByteStr :=
  (List.range 8).reverse.map fun i =>
    let d := n.toNat / 16 ^ i % 16
    if d < 10 then .ofNat (48 + d) else .ofNat (87 + d)

/-- The nonce of `generateNewNonce`. -/
def newNonce (md5 : ByteStr → ByteStr) (clock : Clock) : ByteStr :=
  let sDateTime := number clock.now
  let sPrivateData := clock.rand.flatMap hex8
  base64Encode (sDateTime ++ md5 (sDateTime ++ [58] ++ text "ETag" ++ [58] ++ sPrivateData))

/-- `DigestAuthentication` -/
structure DigestAuthentication where
  nonces : List ByteStr
  dateTimes : List Int
  passwdMap : AList fun _ : ByteStr => ByteStr

/-- `EAuthenticateResult` -/
inductive EAuthenticateResult where
  | success
  | fail
  | continue
deriving DecidableEq

/-- What `authenticate` reads of the connection. -/
structure Connection where
  hostName : ByteStr
  method : ByteStr
  uri : ByteStr

/-- What `authenticate` answers, and what it tells the connection. -/
structure Answer where
  result : EAuthenticateResult
  userName : ByteStr
  errorDetails : Option ByteStr
  header : ByteStr × ByteStr

/-- What is before and behind the last occurrence of a byte. -/
def cutAtLast (c : UInt8) (s : ByteStr) : Option (ByteStr × ByteStr) :=
  (cutAt c s.reverse).map fun (a, b) => (b.reverse, a.reverse)

/-- An item of an answer: a name, and a value that may be quoted. -/
def parseItem (item : ByteStr) : Option (ByteStr × ByteStr) :=
  match cutAt 61 item with
  | none => none
  | some (lhs, rhs) =>
    if rhs = [] then none
    else
      let rhs := trim rhs
      some (trim lhs, if rhs.head? = some 34 then rhs.tail.dropLast else rhs)

/-- `parseInfo`; there is no result if it throws. -/
def parseInfo (pinfo : ByteStr) : Option (AList fun _ : ByteStr => ByteStr) :=
  match cutAtString (text "Digest") pinfo with
  | none => none
  | some _ =>
    (((pinfo.drop 7).splitOn 44).filter (!·.isEmpty)).foldlM
      (fun m item => (parseItem item).map fun (lhs, rhs) => m.insert lhs rhs) ∅

/-- `infoMap[name]` -/
def field (infoMap : AList fun _ : ByteStr => ByteStr) (name : String) : ByteStr :=
  (infoMap.lookup (text name)).getD []

namespace DigestAuthentication

/-- A line of the password file. If it has no colon, then all of it is the key, and the value as
well. -/
def addLine (m : AList fun _ : ByteStr => ByteStr) (line : ByteStr) :
    AList fun _ : ByteStr => ByteStr :=
  match cutAtLast 58 line with
  | some (key, hash) => m.insert key hash
  | none => m.insert line line

/-- `DigestAuthentication::DigestAuthentication`, for the lines of the password file. -/
def ofLines (lines : List ByteStr) : DigestAuthentication := ⟨[], [], lines.foldl addLine ∅⟩

/-- The key of a user in a realm. -/
def passwdKey (sUserName sRealm : ByteStr) : ByteStr := sUserName ++ [58] ++ sRealm

/-- `getHash`: an empty hash is inserted if there is none. -/
def getHash (d : DigestAuthentication) (sUserName sRealm : ByteStr) :
    ByteStr × DigestAuthentication :=
  match d.passwdMap.lookup (passwdKey sUserName sRealm) with
  | some hash => (hash, d)
  | none => ([], { d with passwdMap := d.passwdMap.insert (passwdKey sUserName sRealm) [] })

/-- The loop of `generateNewNonce`, from the index below the counter down: how many nonces are
dropped. -/
def expired (now : Int) (dateTimes : List Int) : ℕ → ℕ
  | 0 => 0
  | k + 1 => if dateTimes.getD k 0 < now - 60 then k + 1 else expired now dateTimes k

/-- Where the loop starts: the index is a number of 16 bits. -/
def loopStart (size : ℕ) : ℕ := ((Int16.ofInt (size - 1)).toInt + 1).toNat

variable (md5 : ByteStr → ByteStr)

/-- `generateNewNonce` -/
def generateNewNonce (d : DigestAuthentication) (clock : Clock) : ByteStr × DigestAuthentication :=
  let n := expired clock.now d.dateTimes (loopStart d.nonces.length)
  (newNonce md5 clock,
    { d with
      nonces := d.nonces.drop n ++ [newNonce md5 clock]
      dateTimes := d.dateTimes.drop n ++ [clock.now] })

/-- `getChallenge` -/
def getChallenge (d : DigestAuthentication) (clock : Clock) (realm : ByteStr) :
    ByteStr × DigestAuthentication :=
  let out := d.generateNewNonce md5 clock
  (text "Digest realm=\"" ++ realm ++ text "\", qop=\"auth\", nonce=\"" ++ out.1 ++
    text "\"", out.2)

/-- The answer with a new challenge. -/
def challengeAnswer (d : DigestAuthentication) (clock : Clock) (con : Connection)
    (result : EAuthenticateResult) (userName : ByteStr) (details : String) (suffix : String) :
    Answer × DigestAuthentication :=
  let out := d.getChallenge md5 clock con.hostName
  (⟨result, userName, some (text details), text "WWW-Authenticate", out.1 ++ text suffix⟩, out.2)

/-- The loop of `authenticate`: a nonce that is found leaves the table. -/
def takeNonce (d : DigestAuthentication) (sNonce : ByteStr) : Bool × DigestAuthentication :=
  if sNonce ∈ d.nonces then
    let i := d.nonces.idxOf sNonce
    (true, { d with nonces := d.nonces.eraseIdx i, dateTimes := d.dateTimes.eraseIdx i })
  else (false, d)

/-- The digest that `authenticate` compares the response with. -/
def expectedResponse (infoMap : AList fun _ : ByteStr => ByteStr) (con : Connection)
    (sHA1 : ByteStr) : ByteStr :=
  digestCalcResponse md5 sHA1 (field infoMap "nonce") (field infoMap "nc") (field infoMap "cnonce")
    (text "auth") con.method con.uri []

/-- `authenticate`, after the nonce has been taken. -/
def checkResponse (d : DigestAuthentication) (clock : Clock)
    (infoMap : AList fun _ : ByteStr => ByteStr) (con : Connection) (nonceFound : Bool) :
    Answer × DigestAuthentication :=
  let userName := field infoMap "username"
  if userName = [] then d.challengeAnswer md5 clock con .fail [] "No user name was provided" ""
  else if field infoMap "realm" = [] then
    d.challengeAnswer md5 clock con .fail userName "No realm was provided" ""
  else if field infoMap "nc" = [] then
    d.challengeAnswer md5 clock con .fail userName "No Nonce Count was provided" ""
  else if field infoMap "cnonce" = [] then
    d.challengeAnswer md5 clock con .fail userName "No cnonce value provided" ""
  else if field infoMap "response" = [] then
    d.challengeAnswer md5 clock con .fail userName "The response was zero length" ""
  else
    let hash := d.getHash userName (field infoMap "realm")
    if expectedResponse md5 infoMap con hash.1 = field infoMap "response" then
      if nonceFound then
        let next := hash.2.generateNewNonce md5 clock
        (⟨.success, userName, none, text "Authentication-Info",
          text "qop=\"auth\", nextnonce=\"" ++ next.1 ++ text "\""⟩, next.2)
      else hash.2.challengeAnswer md5 clock con .fail userName "Nonce not found." ", stale=true"
    else hash.2.challengeAnswer md5 clock con .fail userName "User name or password not valid" ""

/-- `authenticate`, after the fields of the answer have been read. -/
def authenticateFields (d : DigestAuthentication) (clock : Clock)
    (infoMap : AList fun _ : ByteStr => ByteStr) (con : Connection) :
    Answer × DigestAuthentication :=
  let sNonce := field infoMap "nonce"
  if sNonce = [] then d.challengeAnswer md5 clock con .fail [] "No nonce value was provided" ""
  else
    let taken := d.takeNonce sNonce
    taken.2.checkResponse md5 clock infoMap con taken.1

/-- `authenticate`; there is no answer if it throws. -/
def authenticate (d : DigestAuthentication) (clock : Clock) (info : ByteStr) (con : Connection) :
    Option Answer × DigestAuthentication :=
  if info = [] then
    let out := d.challengeAnswer md5 clock con .continue []
      "You must authenticate to access this resource" ""
    (some out.1, out.2)
  else
    match parseInfo info with
    | none => (none, d)
    | some infoMap =>
      let out := d.authenticateFields md5 clock infoMap con
      (some out.1, out.2)

end DigestAuthentication

/-! ### Calls -/

/-- A call of an object. -/
inductive Call where
  | challenge (clock : Clock) (realm : ByteStr)
  | authenticate (clock : Clock) (info : ByteStr) (con : Connection)

namespace Call

/-- The clock at a call. -/
def clock : Call → Clock
  | challenge clock _ | authenticate clock _ _ => clock

/-- What is read from the text of an answer. -/
def infoMap : Call → Option (AList fun _ : ByteStr => ByteStr)
  | challenge _ _ => none
  | authenticate _ info _ => if info = [] then none else parseInfo info

/-- The nonce that a call presents. -/
def presents (c : Call) : Option ByteStr :=
  c.infoMap.bind fun m => if field m "nonce" = [] then none else some (field m "nonce")

/-- The nonce that a call issues, and when. A call that throws issues none. -/
def issues (md5 : ByteStr → ByteStr) (c : Call) : Option (ByteStr × Int) :=
  match c with
  | challenge clock _ => some (newNonce md5 clock, clock.now)
  | authenticate clock info _ =>
    if info = [] ∨ (parseInfo info).isSome then some (newNonce md5 clock, clock.now) else none

end Call

namespace DigestAuthentication

variable (md5 : ByteStr → ByteStr)

/-- The state after a call. -/
def step (d : DigestAuthentication) : Call → DigestAuthentication
  | .challenge clock realm => (d.getChallenge md5 clock realm).2
  | .authenticate clock info con => (d.authenticate md5 clock info con).2

/-- The state after a sequence of calls. -/
def run (lines : List ByteStr) (calls : List Call) : DigestAuthentication :=
  calls.foldl (step md5) (ofLines lines)

/-- A call answers with success. -/
def Succeeds (d : DigestAuthentication) : Call → Prop
  | .challenge _ _ => False
  | .authenticate clock info con =>
    ∃ a, (d.authenticate md5 clock info con).1 = some a ∧ a.result = .success

end DigestAuthentication

/-! ### What is claimed -/

section Statement

variable (md5 : ByteStr → ByteStr)

/-- The nonces that were issued, and when. -/
def issued (calls : List Call) : List (ByteStr × Int) := calls.filterMap (Call.issues md5)

/-- The nonces that were presented. -/
def presented (calls : List Call) : List ByteStr := calls.filterMap Call.presents

/-- The password file has an entry for a user in a realm. -/
def HasEntry (lines : List ByteStr) (userName realm hash : ByteStr) : Prop :=
  DigestAuthentication.passwdKey userName realm ++ [58] ++ hash ∈ lines ∧ 58 ∉ hash

/-- **A success is justified**: the response is made from the hash of an entry for the user, and the
nonce was issued in the last minute and never presented. -/
def Justified (lines : List ByteStr) (before : List Call) : Call → Prop
  | .challenge _ _ => False
  | .authenticate clock info con => ∃ m, parseInfo info = some m ∧
    (∃ hash, HasEntry lines (field m "username") (field m "realm") hash ∧
      field m "response" = DigestAuthentication.expectedResponse md5 m con hash) ∧
    (∃ t, (field m "nonce", t) ∈ issued md5 before ∧ clock.now - t ≤ 60) ∧
    field m "nonce" ∉ presented before

/-- The hash that the password file has for the user and the realm of an answer. -/
def fileHash (lines : List ByteStr) (m : AList fun _ : ByteStr => ByteStr) : Option ByteStr :=
  (DigestAuthentication.ofLines lines).passwdMap.lookup
    (DigestAuthentication.passwdKey (field m "username") (field m "realm"))

/-- A nonce that was issued at `t`, before other calls, can still be in the table: none of these
calls presented it or was more than a minute later, or the nonces are too many for a counter of 16
bits. -/
def Kept (n : ByteStr) (t : Int) (post before : List Call) : Prop :=
  n ∉ presented post ∧
    ((∀ x ∈ issued md5 post, x.2 ≤ t + 60) ∨ 2 ^ 15 < (issued md5 before).length)

/-- No field of an answer is missing. -/
def Complete (m : AList fun _ : ByteStr => ByteStr) : Prop :=
  ∀ name ∈ ["username", "realm", "nc", "cnonce", "response"], field m name ≠ []

/-- **A call is a misuse** if it answers to a nonce that can still be in the table with the digest
of the hash in the password file, or of the empty hash if there is none, although there is none, or
the nonce is more than a minute old, or it had been presented before it was issued. -/
def Misuse (lines : List ByteStr) (before : List Call) : Call → Prop
  | .challenge _ _ => False
  | .authenticate clock info con => ∃ m pre c post t, parseInfo info = some m ∧ Complete m ∧
    field m "response" = DigestAuthentication.expectedResponse md5 m con
      ((fileHash lines m).getD []) ∧
    before = pre ++ c :: post ∧ c.issues md5 = some (field m "nonce", t) ∧
    Kept md5 (field m "nonce") t post before ∧
    (fileHash lines m = none ∨ t + 60 < clock.now ∨ field m "nonce" ∈ presented (pre ++ [c]))

end Statement

end OpenWbem.Http
