import OpenWbem.Http.Authentication
import OpenWbem.Http.Messages

/-!
# Connections of the HTTP server

The class `HTTPSvrConnection`, for a server with support for digests, certificates and compression.
A connection handles requests one after the other. The headers of a request are checked, the client
is authenticated once for the connection, and then the request is traced, answered with the options
of the server, or handed to a request handler. Its output is sent in chunks, if the client
understands them, and else it is collected first, so that its length is known.

What the rest of the system does is an input of a request: the schemes of authentication, the
request handler, and how stream buffers cut their contents. Failures of the socket while something
is written are left out.

## Main definitions

* `Conn` — the state of a connection, with the bytes that have been written.
* `Request`, `Event` — requests, and what else can happen on a connection.
* `processRequestLine`, `processHeaders`, `trace`, `post`, `options` — the parts.
* `iteration`, `run` — `HTTPSvrConnection::run`.
-/

namespace OpenWbem.Http

open Prog

/-! ### Data -/

/-- The methods of requests. -/
inductive Method where
  | mpost
  | post
  | trace
  | options
  | bad
deriving DecidableEq

/-- A request with an entity for a request handler. -/
def Method.isPost (m : Method) : Bool := m = .mpost || m = .post

/-- `CIMFeatures::CIMProduct_t` -/
inductive CIMProduct where
  | server
  | client
  | listener
deriving DecidableEq

/-- `CIMFeatures` -/
structure CIMFeatures where
  cimProduct : CIMProduct
  extURL : ByteStr
  supportedGroups : List ByteStr
  supportsBatch : Bool
  supportedQueryLanguages : List ByteStr
  validation : ByteStr
  cimom : ByteStr
  protocolVersion : ByteStr

/-- What a request handler does with a request. -/
structure Handler where
  contentType : ByteStr
  /-- What comes out of the buffer of the chunked stream, piece by piece. -/
  chunks : List ByteStr
  /-- What is left in that buffer. -/
  pending : ByteStr
  /-- The entity, if it is collected. -/
  entity : ByteStr
  /-- What is written to the stream for errors. -/
  error : ByteStr
  /-- `hasError`, with code and description. -/
  failure : Option (Int32 × ByteStr)
  cimError : ByteStr
  thrown : Option Thrown
  /-- What comes out of the compressor, as for `chunks` and `pending`. -/
  deflated : List ByteStr × ByteStr
  /-- `RequestHandlerIFC::options` -/
  options : Except Thrown CIMFeatures

/-- The socket, when an error is sent. -/
structure SocketState where
  /-- The output stream is not usable. -/
  closed : Bool
  receiveTimeOutExpired : Bool
  shutdown : Bool

/-- A counter of two digits can be zero. The instance has a name, so that all samples refer to the
same one. -/
instance neZeroCounter : NeZero 100 := inferInstance

/-- A request, and what the rest of the system does with it. -/
structure Request where
  /-- The words of the request line. -/
  line : List ByteStr
  /-- The headers, with keys in small letters. -/
  headers : List (ByteStr × ByteStr)
  /-- `toInt64` of the length of the entity. -/
  length : Except ByteStr Int64
  /-- `HTTPCounter::getNextCounter` -/
  counter : Fin 100
  auth : AuthOutcomes
  getRequestHandler : ByteStr → Option Handler
  /-- The language of the contents, if the client or a provider has set it. -/
  language : Option ByteStr
  /-- How the buffer of a chunked stream cuts a text: what comes out, and what is left. -/
  split : ByteStr → List ByteStr × ByteStr
  /-- What `cleanUpIStreams` throws. -/
  eat : Option Thrown

/-- `HTTPUtils::headerHasKey` -/
def Request.hasKey (r : Request) (key : String) : Bool := r.headers.any fun h => h.1 = text key

/-- `HTTPUtils::getHeaderValue` -/
def Request.value (r : Request) (key : String) : ByteStr :=
  ((r.headers.find? fun h => h.1 = text key).map Prod.snd).getD []

/-- A call of `HTTPServer::authenticate`, with its result. -/
structure AuthCall where
  info : ByteStr
  outcomes : AuthOutcomes
  result : AuthResult

/-- What is remembered about a connection. -/
inductive Note where
  | authenticated (call : AuthCall)
  /-- A request has reached `trace`, `options` or `post`, with a user in the context. -/
  | served (method : Method) (user : Option ByteStr)

/-- `HTTPSvrConnection`, with the user in the operation context and the bytes that have been
written. -/
structure Conn where
  resCode : ℕ
  responseHeaders : List ByteStr
  trailers : List ByteStr
  httpVersion : HttpVersion
  method : Method
  isClose : Bool
  contentLength : Int
  chunkedIn : Bool
  deflateCompressionIn : Bool
  deflateCompressionOut : Bool
  errDetails : ByteStr
  respHeaderPrefix : ByteStr
  isAuthenticated : Bool
  chunkedOut : Bool
  userName : ByteStr
  clientIsOpenWBEM2 : Bool
  requestHandler : Option Handler
  contextUser : Option ByteStr
  notes : List Note
  out : ByteStr

/-- A new connection. -/
def Conn.new : Conn :=
  ⟨200, [], [], .bad, .bad, false, -1, false, false, false, [], [], false, false, [], false, none,
    none, [], []⟩

/-! ### Writing -/

section Writing

variable {ε : Type}

/-- `addHeader` -/
def addHeader (key value : ByteStr) : Prog Conn ε PUnit :=
  modify fun c => { c with responseHeaders := insertHeader c.responseHeaders key value }

/-- `addTrailer` -/
def addTrailer (key value : ByteStr) : Prog Conn ε PUnit :=
  modify fun c => { c with trailers := c.trailers ++ [headerLine key value] }

/-- Bytes are written to the socket. -/
def write (bytes : ByteStr) : Prog Conn ε PUnit := modify fun c => { c with out := c.out ++ bytes }

/-- `setErrorDetails` -/
def setErrorDetails (details : ByteStr) : Prog Conn ε PUnit :=
  modify fun c => { c with errDetails := details }

/-- `sendHeaders`; a length below zero is not sent. -/
def sendHeaders (sc : ℕ) (len : Int) : Prog Conn ε PUnit := do
  when (0 ≤ len) (addHeader (text "Content-Length") (number len))
  modify fun c => { c with out := c.out ++ headersText sc c.responseHeaders }

/-- `outputTrailers` -/
def outputTrailers : Prog Conn ε PUnit :=
  modify fun c => { c with out := c.out ++ linesText c.trailers ++ crlf }

/-- The code and the details that `sendError` uses. -/
def errorCode (socket : SocketState) (resCode : ℕ) (errDetails : ByteStr) : ℕ × ByteStr :=
  if socket.receiveTimeOutExpired then (408, text "Timeout waiting for request.")
  else if socket.shutdown then (503, text "The server is shutting down.  Please try again later.")
  else (resCode, errDetails)

/-- `sendError` -/
def sendError (socket : SocketState) (resCode : ℕ) : Prog Conn ε PUnit :=
  if socket.closed then pure ()
  else
    modify fun c =>
      let (code, details) := errorCode socket resCode c.errDetails
      let headers := if code = 401 then c.responseHeaders
        else insertHeader c.responseHeaders (text "Connection") (text "close")
      let headers := insertHeader headers (text "Content-Length") (text "0")
      { c with
        errDetails := details
        responseHeaders := headers
        out := c.out ++ errorText c.httpVersion code details headers }

end Writing

/-! ### Checking a request -/

/-- The status codes for requests that are refused. -/
inductive ErrorCode where
  | badRequest
  | methodNotAllowed
  | notAcceptable
  | lengthRequired
  | unsupportedMediaType
  | internalServerError
  | httpVersionNotSupported
  | notExtended

/-- The number of a status code. -/
def ErrorCode.toNat : ErrorCode → ℕ
  | badRequest => 400
  | methodNotAllowed => 405
  | notAcceptable => 406
  | lengthRequired => 411
  | unsupportedMediaType => 415
  | internalServerError => 500
  | httpVersionNotSupported => 505
  | notExtended => 510

/-- Errors are codes from 400 on. -/
lemma ErrorCode.le_toNat (code : ErrorCode) : 400 ≤ code.toNat := by cases code <;> decide

/-- Why the check of a request ends. -/
inductive Stop where
  /-- An exception. -/
  | thrown (t : Thrown)
  /-- The request is answered with a status code. -/
  | status (code : ErrorCode)

/-- The status code that a check returns. -/
def statusCode : Except Stop ℕ → Prog Conn Thrown ℕ
  | .ok code => pure code
  | .error (.status code) => pure code.toNat
  | .error (.thrown t) => throw t

/-- A check that returns a status code. -/
def returning (x : Prog Conn Stop ℕ) : Prog Conn Thrown ℕ := do
  let c ← get
  set (exec x c).2
  statusCode (exec x c).1

/-- Running `returning`. -/
lemma exec_returning (x : Prog Conn Stop ℕ) (c : Conn) :
    exec (returning x) c = exec (statusCode (exec x c).1) (exec x c).2 := rfl

variable {x : Prog Conn Stop ℕ} {c c' : Conn} {code : ℕ}

/-- Without an error. -/
lemma returning_of_ok (h : exec x c = (.ok code, c')) : exec (returning x) c = (.ok code, c') := by
  rw [exec_returning, h]
  rfl

/-- A status code below 300 is not one of a refusal. -/
lemma of_returning
    (h : exec (returning x) c = (.ok code, c')) (hcode : code < 300) :
    exec x c = (.ok code, c') := by
  rw [exec_returning] at h
  rcases hexec : exec x c with ⟨(t | code') | code', c''⟩ <;> rw [hexec] at h
  · cases h
  · cases h
    exact absurd (code'.le_toNat) (by omega)
  · cases h
    rfl

/-- The request is refused. -/
def refuse (code : ErrorCode) (details : ByteStr) : Prog Conn Stop PUnit := do
  setErrorDetails details
  throw (.status code)

/-- The version and the method of a request line. -/
def requestVersion (line : List ByteStr) : HttpVersion :=
  match line with
  | [_, _] => .v10
  | [_, _, v] =>
    if equalsIgnoreCase v (text "HTTP/1.1") then .v11
    else if equalsIgnoreCase v (text "HTTP/1.0") then .v10
    else .bad
  | _ => .bad

/-- The method of a request line. -/
def requestMethod (name : ByteStr) : Method :=
  if name = text "M-POST" then .mpost
  else if name = text "POST" then .post
  else if name = text "TRACE" then .trace
  else if name = text "OPTIONS" then .options
  else .bad

/-- The version of the protocol is checked. -/
def checkVersion (line : List ByteStr) : Prog Conn Stop PUnit := do
  when (line.length ≠ 2 ∧ line.length ≠ 3)
    (refuse .badRequest (text "Invalid number of tokens on request line: " ++ number line.length))
  modify fun c => { c with httpVersion := requestVersion line }
  when (requestVersion line = .bad)
    (refuse .httpVersionNotSupported (text "The HTTP protocol version " ++ line.getD 2 [] ++
    text " is not supported by this server."))

/-- `processRequestLine` -/
def processRequestLine (line : List ByteStr) : Prog Conn Stop ℕ := do
  checkVersion line
  modify fun c => { c with method := requestMethod (line.getD 0 []) }
  when (requestMethod (line.getD 0 []) = .bad)
    (refuse .methodNotAllowed (text "Method not allowed by server: " ++ line.getD 0 []))
  pure 200

/-- A text has another as a part. -/
def hasPart (s : ByteStr) (w : String) : Bool := (cutAtString (text w) s).isSome

section Headers

variable (cfg : ServerConfig) (cert : Option Certificate) (r : Request)

/-- The header `Host` is required. -/
def checkHost : Prog Conn Stop PUnit := do
  let c ← get
  when (c.httpVersion = .v11 ∧ r.hasKey "host" = false)
    (refuse .badRequest
      (text ("Your browser sent a request that this server couldnot understand.  " ++
      "Client sent HTTP/1.1 request without hostname (see RFC2068 section 9, and 14.23)")))

/-- Whether the connection is persistent. -/
def checkPersistent : Prog Conn Stop PUnit :=
  modify fun c =>
    if c.httpVersion ≠ .v11 ∨ (r.hasKey "connection" ∧ r.value "connection" = text "close") then
      { c with isClose := true }
    else c

/-- The transfer coding of the entity. -/
def checkCoding : Prog Conn Stop PUnit :=
  modify fun c => { c with
    contentLength := -1
    chunkedIn := r.hasKey "transfer-encoding" && r.value "transfer-encoding" ≠ text "identity" }

/-- The length of the entity. -/
def readLength : Prog Conn Stop PUnit :=
  when (r.hasKey "content-length" ∧ r.value "content-length" ≠ [])
    (match r.length with
    | .error message => throw (.thrown (.exception message))
    | .ok n => do
      modify fun c => { c with contentLength := n.toInt }
      when (n < 0) (refuse .badRequest (text "Bad (negative) Content-Length")))

/-- An entity needs a length, and must not come with `TRACE`. -/
def checkLength : Prog Conn Stop PUnit := do
  let c ← get
  if c.method.isPost then
    when (c.contentLength < 0 ∧ c.httpVersion = .v11)
      (refuse .lengthRequired (text "No Content-Length or Transfer-Encoding was specified."))
  else
    when (c.method = .trace ∧ 0 < c.contentLength)
      (refuse .badRequest (text "An entity cannot be supplied with the TRACE method."))

/-- The content encoding of the entity. -/
def checkEncoding : Prog Conn Stop PUnit := do
  modify fun c => { c with deflateCompressionIn := false }
  when (r.hasKey "content-encoding")
    (if equalsIgnoreCase (r.value "content-encoding") (text "deflate") then
      modify fun c =>
        { c with deflateCompressionIn := true, deflateCompressionOut := cfg.enableDeflate }
    else
      when (r.value "content-encoding" ≠ text "identity")
        (refuse .notAcceptable (text "Invalid Content-Encoding: " ++ r.value "content-encoding" ++
          text "  Only \"deflate\" is supported.")))

/-- The name of a header of a scheme. -/
def AuthHeader.name : AuthHeader → ByteStr
  | wwwAuthenticate => text "WWW-Authenticate"
  | authenticationInfo => text "Authentication-Info"

/-- The connection after a call of `authenticate`. -/
def Conn.withAuth (c : Conn) (call : AuthCall) : Conn :=
  { c with
    userName := call.result.userName
    errDetails := call.result.errorDetails.getD c.errDetails
    responseHeaders :=
      call.result.headers.foldl (fun l h => insertHeader l h.1.name h.2) c.responseHeaders
    notes := c.notes ++ [.authenticated call] }

/-- `performAuthentication`, for a connection that is not authenticated. -/
def performAuthentication : Prog Conn Stop PUnit := do
  let c ← get
  let res := authenticate cfg cert c.userName (r.value "authorization") r.auth
  set (c.withAuth ⟨r.value "authorization", r.auth, res⟩)
  match res.answer with
  | .ok .success => modify fun c => { c with isAuthenticated := true }
  | .ok _ => pure ()
  | .error (.authentication message) => refuse .internalServerError message
  | .error t => throw (.thrown t)

/-- The authentication. -/
def checkAuthentication : Prog Conn Stop PUnit :=
  if cfg.allowAnonymous then modify fun c => { c with isAuthenticated := true }
  else do
    let c ← get
    when (c.isAuthenticated = false) (performAuthentication cfg cert r)
    modify fun c => { c with contextUser := some c.userName }

/-- What the client accepts. -/
def checkAccept : Prog Conn Stop PUnit := do
  let c ← get
  when (c.method.isPost ∧ r.hasKey "accept" ∧
      ¬ (["text/xml", "application/xml", "*/*", "text/*", "application/*"].any fun w =>
        hasPart (r.value "accept") w))
    (refuse .notAcceptable
      (text "Only entities of type \"text/xml\" or \"application/xml\" are supported."))
  when (c.method.isPost ∧ r.hasKey "accept-charset" ∧ ¬ hasPart (r.value "accept-charset") "utf-8")
    (refuse .notAcceptable (text "Only the utf-8 charset is acceptable."))
  when (c.method.isPost ∧ r.hasKey "accept-encoding" ∧
    hasPart (r.value "accept-encoding") "deflate")
    (modify fun c => { c with deflateCompressionOut := cfg.enableDeflate })

/-- Whether the client understands trailers. -/
def checkTrailers : Prog Conn Stop PUnit :=
  modify fun c =>
    if hasPart (r.value "te") "trailers" then
      { c with
        chunkedOut := r.value "user-agent" ≠ text "RPT-HTTPClient/0.3-2"
        clientIsOpenWBEM2 :=
          if (text "openwbem/2").isPrefixOf (r.value "user-agent") then true
            else c.clientIsOpenWBEM2 }
    else c

/-- Headers that are not allowed. -/
def checkForbidden : Prog Conn Stop PUnit :=
  when (["accept-ranges", "content-range", "if-range", "range"].any r.hasKey)
    (refuse .notAcceptable
      (text "Illegal header in request.  See: http://www.dmtf.org/cim/mapping/http/v1.0"))

/-- The request handler for the type of the entity. -/
def findHandler (ct : ByteStr) : Prog Conn Stop PUnit := do
  modify fun c => { c with requestHandler := r.getRequestHandler ct }
  when ((r.getRequestHandler ct).isNone)
    (refuse .unsupportedMediaType (text "Content-Type \"" ++ ct ++ text "\" is not supported."))

/-- The type of the entity, without its parameters. -/
def checkContentType : Prog Conn Stop PUnit := do
  let c ← get
  when (c.method.isPost)
    (if r.hasKey "content-type" then findHandler r ((r.value "content-type").takeWhile (· ≠ 59))
    else refuse .notAcceptable (text "A Content-Type must be specified"))

/-- The header `Man`. -/
def checkMan : Prog Conn Stop PUnit := do
  let c ← get
  when (c.method = .mpost)
    (if r.hasKey "man" then
      when (¬ hasPart (r.value "man") "http://www.dmtf.org/cim/mapping/http/v1.0")
        (refuse .notExtended (text "Unknown extension URI"))
    else
      refuse .notExtended (text ("Cannot use M-POST method with no Man: header.  " ++
        "See: http://www.ietf.org/rfc/rfc2774.txt")))

/-- What is checked before the authentication. -/
def checkEntity : Prog Conn Stop PUnit := do
  checkHost r
  checkPersistent r
  checkCoding r
  let c ← get
  when (c.chunkedIn = false) (do
    readLength r
    checkLength)
  checkEncoding cfg r

/-- What is checked after the authentication, also if it has failed. -/
def checkRest : Prog Conn Stop PUnit := do
  checkAccept cfg r
  checkTrailers r
  checkForbidden r
  checkContentType r
  checkMan r

/-- `processHeaders` -/
def processHeaders : Prog Conn Stop ℕ := do
  checkEntity cfg r
  checkAuthentication cfg cert r
  checkRest cfg r
  let c ← get
  pure (if c.isAuthenticated then 200 else 401)

end Headers

/-! ### Answering a request -/

section Answers

variable (r : Request)

/-- What is remembered when a request is served. -/
def noteServed (method : Method) : Prog Conn Thrown PUnit :=
  modify fun c => { c with notes := c.notes ++ [.served method c.contextUser] }

/-- The text that `trace` sends back. -/
def traceText : ByteStr :=
  (r.line.flatMap fun w => w ++ [32]) ++ crlf ++ linesText (r.headers.map fun h =>
    h.1 ++ text ": " ++ h.2)

/-- `trace` -/
def trace : Prog Conn Thrown PUnit := do
  noteServed .trace
  addHeader (text "TransferEncoding") (text "chunked")
  let c ← get
  sendHeaders c.resCode (-1)
  let (chunks, pending) := r.split (traceText r)
  write (chunks.flatMap chunk ++ chunk pending ++ lastChunk)
  outputTrailers

/-- The names in a list, with commas. -/
def commaList (l : List ByteStr) : ByteStr := (text ", ").intercalate l

/-- The groups of a product, and whether it supports batches. -/
def addGroups (hp : ByteStr) (cf : CIMFeatures) : Prog Conn Thrown PUnit :=
  match cf.cimProduct with
  | .server => do
    when cf.supportsBatch (addHeader (hp ++ text "CIMSupportsMultipleOperations") [])
    addHeader (hp ++ text "CIMSupportedFunctionalGroups") (commaList cf.supportedGroups)
  | .listener => do
    when cf.supportsBatch (addHeader (hp ++ text "CIMSupportsMultipleExports") [])
    addHeader (hp ++ text "CIMSupportedExportGroups") (commaList cf.supportedGroups)
  | .client => throw (.exception (text "assertion failed"))

/-- The headers for the features of a request handler. -/
def addFeatures (hp : ByteStr) (cf : CIMFeatures) : Prog Conn Thrown PUnit := do
  addHeader (text "Opt") (cf.extURL ++ text " ; ns=" ++ hp)
  let hp := hp ++ text "-"
  addHeader (hp ++ text "CIMProtocolVersion") cf.protocolVersion
  addGroups hp cf
  when (cf.cimom ≠ []) (addHeader (hp ++ text "CIMOM") cf.cimom)
  when (cf.validation ≠ []) (addHeader (hp ++ text "CIMValidation") cf.validation)
  when (cf.supportedQueryLanguages ≠ [])
    (addHeader (hp ++ text "CIMSupportedQueryLanguages") (commaList cf.supportedQueryLanguages))

/-- The features of the request handler for XML. -/
def getFeatures : Prog Conn Thrown CIMFeatures :=
  match r.getRequestHandler (text "application/xml") with
  | none => throw (.exception (text "OPTIONS is only implemented for XML requests"))
  | some h =>
    match h.options with
    | .error t => throw t
    | .ok cf => pure cf

/-- `options` -/
def options (cfg : ServerConfig) : Prog Conn Thrown PUnit := do
  noteServed .options
  addHeader (text "Allow") (text "POST, M-POST, OPTIONS, TRACE")
  when cfg.enableDeflate (addHeader (text "Accept-Encoding") (text "deflate"))
  modify fun c => { c with requestHandler := r.getRequestHandler (text "application/xml") }
  let cf ← getFeatures r
  addFeatures (getCounterStr r.counter) cf
  let c ← get
  sendHeaders c.resCode (-1)

/-- `beginPostResponse` -/
def beginPostResponse (h : Handler) : Prog Conn Thrown PUnit := do
  addHeader (text "Content-Type") (h.contentType ++ text "; charset=\"utf-8\"")
  let c ← get
  when (c.method = .mpost) (addHeader (text "Ext") [])
  addHeader (text "Man") (text "http://www.dmtf.org/cim/mapping/http/v1.0 ; ns=" ++
    getCounterStr r.counter)
  let pre := getCounterStr r.counter ++ text "-"
  modify fun c => { c with respHeaderPrefix := pre }
  when (c.deflateCompressionOut ∧ c.chunkedOut)
    (addHeader (text "Content-Encoding") (text "deflate"))
  when c.chunkedOut (do
    addHeader (text "Transfer-Encoding") (text "chunked")
    addHeader (pre ++ text "CIMOperation") (text "MethodResponse")
    addHeader (text "Trailer") (if c.clientIsOpenWBEM2 then
        pre ++ text "CIMError, " ++ pre ++ text "CIMErrorCode, " ++ pre ++
          text "CIMErrorDescription"
      else pre ++ text "CIMError, " ++ pre ++ text "CIMStatusCode, " ++ pre ++
        text "CIMStatusDescription")
    sendHeaders c.resCode (-1))

/-- A part of the system that may throw. -/
def mayThrow (thrown : Option Thrown) : Prog Conn Thrown PUnit :=
  match thrown with
  | some t => throw t
  | none => pure ()

/-- The request handler runs. -/
def process (h : Handler) : Prog Conn Thrown PUnit := do
  let c ← get
  when c.chunkedOut (write (h.chunks.flatMap chunk))
  mayThrow h.thrown

/-- What is sent of a collected output. -/
def Handler.body (h : Handler) : ByteStr := if h.failure.isSome then h.error else h.entity

/-- The size of a collected output, in an `int`. -/
def Handler.clen (h : Handler) : Int := (Int32.ofNat h.body.length).toInt

/-- The headers for a collected output. They are not sent if there is a CIM error. -/
def sendCollectedHeaders (c : Conn) (h : Handler) : Prog Conn Thrown PUnit :=
  if c.deflateCompressionOut then do
    addHeader (text "Transfer-Encoding") (text "chunked")
    addHeader (text "Content-Encoding") (text "deflate")
    sendHeaders c.resCode (-1)
  else if h.cimError ≠ [] then addHeader (c.respHeaderPrefix ++ text "CIMError") h.cimError
  else sendHeaders c.resCode h.clen

/-- A collected output is sent. -/
def sendBody (c : Conn) (h : Handler) : Prog Conn Thrown PUnit :=
  if c.deflateCompressionOut then do
    write (h.deflated.1.flatMap chunk ++ chunk h.deflated.2 ++ lastChunk)
    outputTrailers
  else write h.body

/-- `sendPostResponse`, if the output was collected. -/
def sendCollected (h : Handler) : Prog Conn Thrown PUnit := do
  let c ← get
  when r.language.isSome (addHeader (text "Content-Language") (r.language.getD []))
  addHeader (c.respHeaderPrefix ++ text "CIMOperation") (text "MethodResponse")
  sendCollectedHeaders c h
  when (0 < h.clen) (sendBody c h)

/-- The description of an error, on one line. -/
def oneLine (descr : ByteStr) : ByteStr :=
  ((descr.splitOn 10).filter (· ≠ [])).flatMap fun l => l ++ [32]

/-- The trailers for an error. -/
def addErrorTrailers (c : Conn) (h : Handler) (code : Int32) (descr : ByteStr) :
    Prog Conn Thrown PUnit := do
  addTrailer (c.respHeaderPrefix ++
    if c.clientIsOpenWBEM2 then text "CIMErrorCode" else text "CIMStatusCode") (number code.toInt)
  when (descr ≠ []) (addTrailer (c.respHeaderPrefix ++
    if c.clientIsOpenWBEM2 then text "CIMErrorDescription"
      else text "CIMStatusDescription") (oneLine descr))
  when (h.cimError ≠ []) (addTrailer (c.respHeaderPrefix ++ text "CIMError") h.cimError)

/-- The end of a chunked output. The last piece is dropped if there was an error. -/
def termOutput (c : Conn) (h : Handler) : Prog Conn Thrown PUnit :=
  match h.failure with
  | some (code, descr) => do
    addErrorTrailers c h code descr
    write lastChunk
  | none => write (chunk h.pending ++ lastChunk)

/-- `sendPostResponse`, if the output is chunked. -/
def sendChunked (h : Handler) : Prog Conn Thrown PUnit := do
  let c ← get
  when r.language.isSome (addTrailer (text "Content-Language") (r.language.getD []))
  termOutput c h
  outputTrailers

/-- `post` -/
def post (method : Method) (h : Handler) : Prog Conn Thrown PUnit := do
  noteServed method
  beginPostResponse r h
  process h
  let c ← get
  if c.chunkedOut then sendChunked r h else sendCollected r h

end Answers

/-! ### The connection -/

/-- What can happen on a connection. -/
inductive Event where
  /-- `select` fails. -/
  | selectError
  /-- No request comes in time. -/
  | timeout
  /-- The server shuts down. -/
  | pipe
  /-- The request cannot be parsed. -/
  | unparsed (shutdown closed : Bool)
  | request (r : Request)

/-- An event, the state of the socket, the date, and what is thrown if the rest of the input is read
after an exception. -/
structure Turn where
  event : Event
  socket : SocketState
  date : ByteStr
  eatAfter : Option Thrown

section Run

variable (cfg : ServerConfig) (cert : Option Certificate)

/-- The connection is made ready for the next request. -/
def resetConn (date : ByteStr) : Prog Conn Thrown PUnit := do
  modify fun c => { c with
    errDetails := []
    responseHeaders := []
    trailers := []
    resCode := 200
    contentLength := -1
    chunkedIn := false }
  addHeader (text "Date") date
  addHeader (text "Cache-Control") (text "no-cache")
  addHeader (text "Server") (text "openwbem/4.2.0 (CIMOM)")

/-- An answer to an event that ends the connection. -/
def giveUp (socket : SocketState) (code : ℕ) (details : ByteStr) : Prog Conn Thrown Bool := do
  modify fun c => { c with resCode := code, errDetails := details }
  sendError socket code
  pure false

/-- A request whose headers are refused. The connection stays open for another round of the
authentication. -/
def refused (socket : SocketState) (r : Request) (code : ℕ) : Prog Conn Thrown Bool := do
  sendError socket code
  if r.eat = some .iosFailure then pure false
  else do
    mayThrow r.eat
    pure (code = 401)

/-- A request is handed to its handler. -/
def postEntity (r : Request) (c : Conn) : Prog Conn Thrown PUnit :=
  match c.requestHandler with
  | some h =>
    if c.chunkedIn ∨ 0 < c.contentLength then post r c.method h
    else throw (.exception (text "POST, but no content-length or chunking"))
  | none => throw .unknown

/-- The part of the server for the method of a request. -/
def dispatch (r : Request) (c : Conn) : Prog Conn Thrown PUnit :=
  match c.method with
  | .trace => trace r
  | .options => options r cfg
  | .mpost => postEntity r c
  | .post => postEntity r c
  | .bad => pure ()

/-- A request with another method, which `processRequestLine` has refused. -/
def neverHappens (socket : SocketState) (r : Request) : Prog Conn Thrown Bool := do
  setErrorDetails (text "This should never happen.")
  modify fun c => { c with resCode := 500 }
  mayThrow r.eat
  sendError socket 500
  pure false

/-- A request whose headers are right is served, and the rest of its entity is read. -/
def serve (socket : SocketState) (r : Request) : Prog Conn Thrown Bool := do
  let c ← get
  if c.method = .bad then neverHappens socket r
  else do
    dispatch cfg r c
    mayThrow r.eat
    let c ← get
    pure (!c.isClose)

/-- `convertToFiniteStream`: an entity that is compressed cannot be read. -/
def convertToFiniteStream : Prog Conn Thrown PUnit := do
  let c ← get
  when (c.deflateCompressionIn ∧ (c.chunkedIn ∨ 0 < c.contentLength))
    (throw (.exception (text ("Attempting to deflate request, but " ++
      "we're not linked with zlib!  (shouldn't happen)"))))

/-- What happens after the check of the headers. -/
def handleEntity (socket : SocketState) (r : Request) (code : ℕ) : Prog Conn Thrown Bool := do
  modify fun c => { c with resCode := code }
  convertToFiniteStream
  if 300 ≤ code then refused socket r code else serve cfg socket r

/-- A request whose first line is right. -/
def handleHeaders (socket : SocketState) (r : Request) : Prog Conn Thrown Bool := do
  let code ← returning (processHeaders cfg cert r)
  handleEntity cfg socket r code

/-- A request that has been parsed. -/
def handleRequest (socket : SocketState) (r : Request) : Prog Conn Thrown Bool := do
  let code ← returning (processRequestLine r.line)
  modify fun c => { c with resCode := code }
  if 300 ≤ code then do
    sendError socket code
    pure false
  else handleHeaders cfg cert socket r

/-- One turn of the loop in `run`: whether there is another one. -/
def iteration (turn : Turn) : Prog Conn Thrown Bool := do
  resetConn turn.date
  match turn.event with
  | .selectError => throw (.exception (text "Error occurred during select()"))
  | .timeout => giveUp turn.socket 408 (text "Timeout waiting for request.")
  | .pipe => giveUp turn.socket 503 (text "Server is shutting down.  Please try again later.")
  | .unparsed true _ => giveUp turn.socket 500 (text "Server is shutting down!")
  | .unparsed false true => pure false
  | .unparsed false false =>
    giveUp turn.socket 400 (text "There was a problem parsing the request Header")
  | .request r => handleRequest cfg cert turn.socket r

/-- The messages of `CIMErrorException` for which the server says that something is not
implemented. -/
def notImplemented : List ByteStr :=
  [text "unsupported-protocol-version", text "multiple-requests-unsupported",
    text "unsupported-cim-version",
    text "unsupported-dtd-version"]

/-- The error details are set, the input is read, and the error is sent. -/
def sendCaught (turn : Turn) (details : ByteStr) (code : ℕ) : Prog Conn Thrown PUnit := do
  setErrorDetails details
  mayThrow turn.eatAfter
  sendError turn.socket code

/-- The handlers of `run`. -/
def catchThrown (turn : Turn) : Thrown → Prog Conn Thrown PUnit
  | .cimError message => do
    addHeader (text "CIMError") message
    let c ← get
    sendCaught turn (if c.errDetails = [] then text "CIMError: " ++ message else c.errDetails)
      (if message ∈ notImplemented then 501 else 400)
  | .authentication message => sendCaught turn message 500
  | .exception message => sendCaught turn message 500
  | .iosFailure => pure ()
  | .stdException what =>
    sendCaught turn (text "Caught std::exception (" ++ what ++
      text ") in HTTPSvrConnection::run()") 500
  | .cancelled => sendCaught turn (text "HTTP Server thread cancelled") 500
  | .unknown => sendCaught turn (text "HTTP Server caught unknown exception") 500

/-- The connection after a turn, and whether there is another one. -/
def afterTurn (turn : Turn) (c : Conn) : Conn × Bool :=
  match exec (iteration cfg cert turn) c with
  | (.ok more, c') => (c', more)
  | (.error t, c') => ((exec (catchThrown turn t) c').2, false)

/-- `HTTPSvrConnection::run`, for the events on a connection. -/
def run : List Turn → Conn → Conn
  | [], c => c
  | turn :: turns, c =>
    if (afterTurn cfg cert turn c).2 then run turns (afterTurn cfg cert turn c).1
    else (afterTurn cfg cert turn c).1

end Run

end OpenWbem.Http
