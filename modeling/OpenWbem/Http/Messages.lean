import Mathlib.Data.List.TakeWhile
import OpenWbem.Cim.Url

/-!
# HTTP messages

How the server writes the lines and the chunks of its responses (`HTTPUtils`, `HTTPChunkedOStream`),
and what a well-formed response is: one status line, header lines without a line break, an empty
line, and a body that extends as far as the headers say.

## Main definitions

* `insertHeader`, `chunk`, `headersText`, `errorText` — what is written.
* `Message`, `Message.bytes`, `Message.WellFormed` — responses.
* `PlainLine` — header lines that say nothing about the body.

## Main results

* `wellFormed_content`, `wellFormed_chunked` — responses with plain headers and one more.
-/

namespace OpenWbem.Http

open List

/-! ### What is written -/

/-- The versions of the protocol. -/
inductive HttpVersion where
  | bad
  | v10
  | v11
deriving DecidableEq

/-- The protocol in the status line of an error. -/
def HttpVersion.protocol (version : HttpVersion) : ByteStr :=
  if version = .v11 then text "HTTP/1.1" else text "HTTP/1.0"

/-- The end of a line. -/
def crlf : ByteStr := [13, 10]

/-- `HTTPUtils::status2String` -/
def status2String : ℕ → ByteStr
  | 100 => text "Continue"
  | 101 => text "Switching protocols"
  | 200 => text "Ok"
  | 201 => text "Created"
  | 202 => text "Accepted"
  | 203 => text "Non-authoritative"
  | 204 => text "No content"
  | 205 => text "Reset content"
  | 206 => text "Partial content"
  | 300 => text "Multiple choices"
  | 301 => text "Moved permanentently"
  | 302 => text "Moved temporarily"
  | 303 => text "See other"
  | 304 => text "Not modified"
  | 305 => text "Use proxy"
  | 400 => text "Bad request"
  | 401 => text "Unauthorized"
  | 402 => text "Payment required"
  | 403 => text "Forbidden"
  | 404 => text "Not found"
  | 405 => text "Method not allowed"
  | 406 => text "Not acceptable"
  | 407 => text "Proxy auth required"
  | 408 => text "Request timeout"
  | 409 => text "Conflict"
  | 410 => text "Gone"
  | 411 => text "Length required"
  | 412 => text "Precondition failed"
  | 413 => text "Request entity too large"
  | 414 => text "Request URI too large"
  | 415 => text "Unsupported media type"
  | 500 => text "Internal server error"
  | 501 => text "Not implemented"
  | 502 => text "Bad gateway"
  | 503 => text "Service unavailable"
  | 504 => text "Gateway timeout"
  | 505 => text "HTTP version not supported"
  | 510 => text "Not Extended"
  | _ => []

/-- A header or a trailer. -/
def headerLine (key value : ByteStr) : ByteStr :=
  if trim key = [] then 32 :: value else key ++ text ": " ++ value

/-- `HTTPUtils::addHeader` -/
def insertHeader (headers : List ByteStr) (key value : ByteStr) : List ByteStr :=
  if trim key ≠ [] ∧ headerLine key value ∈ headers then headers
    else headers ++ [headerLine key value]

/-- Lines. -/
def linesText (lines : List ByteStr) : ByteStr := lines.flatMap fun l => l ++ crlf

/-- A piece of the chunked coding; nothing is written for an empty one. -/
def chunk (data : ByteStr) : ByteStr :=
  if data = [] then [] else ascii (Nat.toDigits 16 data.length) ++ crlf ++ data ++ crlf

/-- The last chunk, of length zero. -/
def lastChunk : ByteStr := text "0" ++ crlf

/-- `HTTPUtils::getCounterStr` -/
def getCounterStr (count : Fin 100) : ByteStr :=
  if count.val < 10 then text "0" ++ number count.val else number count.val

/-- What `sendHeaders` writes. -/
def headersText (sc : ℕ) (headers : List ByteStr) : ByteStr :=
  text "HTTP/1.1 " ++ number sc ++ text " " ++ status2String sc ++ crlf ++ linesText headers ++ crlf

/-- What `sendError` writes. -/
def errorText (version : HttpVersion) (code : ℕ) (details : ByteStr) (headers : List ByteStr) :
    ByteStr :=
  version.protocol ++ text " " ++ number code ++ text " " ++ status2String code ++ text ": " ++
    details ++
    crlf ++ linesText headers ++ crlf

/-! ### Well-formed responses -/

/-- A text without a line break. -/
def IsLine (s : ByteStr) : Prop := 13 ∉ s ∧ 10 ∉ s

instance (s : ByteStr) : Decidable (IsLine s) := inferInstanceAs (Decidable (_ ∧ _))

/-- The values of the headers with a name; names are compared without regard to case. -/
def fieldValues (name : String) (headers : List ByteStr) : List ByteStr :=
  headers.filterMap fun l => (cutAt 58 l).bind fun x =>
    if x.1.map lowerByte = text name then some (trim x.2) else none

/-- The body of a response. -/
inductive Body where
  | content (bytes : ByteStr)
  | chunked (chunks trailers : List ByteStr)

/-- The bytes of a body. -/
def Body.bytes : Body → ByteStr
  | content bytes => bytes
  | chunked chunks trailers => chunks.flatMap chunk ++ lastChunk ++ linesText trailers ++ crlf

/-- The headers declare the extent of the body: they give its length, or they say that it is
chunked. -/
def Body.Declared (headers : List ByteStr) : Body → Prop
  | content bytes =>
    fieldValues "content-length" headers = [number bytes.length] ∧
      fieldValues "transfer-encoding" headers = []
  | chunked chunks trailers =>
    fieldValues "content-length" headers = [] ∧
      fieldValues "transfer-encoding" headers = [text "chunked"] ∧
      (∀ c ∈ chunks, c ≠ []) ∧ ∀ l ∈ trailers, IsLine l ∧ l ≠ []

/-- A response. -/
structure Message where
  statusLine : ByteStr
  headers : List ByteStr
  body : Body

/-- The bytes of a response. -/
def Message.bytes (m : Message) : ByteStr :=
  m.statusLine ++ crlf ++ linesText m.headers ++ crlf ++ m.body.bytes

/-- A status line: the protocol, a status code and its description. -/
def IsStatusLine (l : ByteStr) : Prop :=
  IsLine l ∧ ∃ (version : ByteStr) (code : ℕ) (reason : ByteStr),
    (version = text "HTTP/1.1" ∨ version = text "HTTP/1.0") ∧
      l = version ++ text " " ++ number code ++ text " " ++ reason

/-- **Well-formed responses.** -/
structure Message.WellFormed (m : Message) : Prop where
  statusLine : IsStatusLine m.statusLine
  headers : ∀ l ∈ m.headers, IsLine l ∧ l ≠ []
  body : m.body.Declared m.headers

/-! ### Lines -/

section Lines

variable {s t : ByteStr}

/-- A line in two parts. -/
lemma isLine_append : IsLine (s ++ t) ↔ IsLine s ∧ IsLine t := by
  simp only [IsLine, mem_append]
  tauto

/-- A number. -/
lemma isLine_number (n : Int) : IsLine (number n) := by
  constructor <;> intro h <;> rcases of_mem_number h with h | ⟨h, -⟩ <;> revert h <;> decide

/-- A status text. -/
lemma isLine_status2String (code : ℕ) : IsLine (status2String code) := by
  unfold status2String
  split <;> decide

/-- A number has no blanks. -/
lemma not_isSpace_of_mem_number {n : Int} {b : UInt8} (h : b ∈ number n) : ¬ isSpace b := by
  rcases of_mem_number h with rfl | ⟨hlow, hhigh⟩
  · decide
  · simp only [isSpace, Bool.or_eq_true, Bool.and_eq_true, decide_eq_true_eq, UInt8.le_iff_toNat_le,
      ← UInt8.toNat_inj, UInt8.reduceToNat] at hlow hhigh ⊢
    omega

/-- A blank in front. -/
lemma trim_space_cons (h : ∀ b ∈ s, ¬ isSpace b) : trim (32 :: s) = s := by
  have hdrop (l : ByteStr) (hl : ∀ b ∈ l, ¬ isSpace b) : l.dropWhile isSpace = l := by
    rw [dropWhile_eq_self_iff]
    intro hpos
    exact hl _ (getElem_mem hpos)
  rw [trim, dropWhile_cons_of_pos (by decide), hdrop s h,
    hdrop s.reverse fun b hb => h b (mem_reverse.1 hb), reverse_reverse]

end Lines

/-! ### Headers -/

/-- A key of a header that says nothing about the body. -/
def PlainKey (key : ByteStr) : Prop :=
  trim key ≠ [] ∧ 58 ∉ key ∧ IsLine key ∧ key.map lowerByte ≠ text "content-length" ∧
    key.map lowerByte ≠ text "transfer-encoding"

instance (key : ByteStr) : Decidable (PlainKey key) := inferInstanceAs (Decidable (_ ∧ _))

/-- A header line that says nothing about the body. -/
structure PlainLine (l : ByteStr) : Prop where
  line : IsLine l
  ne_nil : l ≠ []
  contentLength : fieldValues "content-length" [l] = []
  transferEncoding : fieldValues "transfer-encoding" [l] = []

section Headers

variable {headers headers' : List ByteStr} {key value : ByteStr}

/-- The fields in two parts. -/
lemma fieldValues_append (name : String) :
    fieldValues name (headers ++ headers') = fieldValues name headers ++
      fieldValues name headers' :=
  filterMap_append

/-- A header line is not empty. -/
lemma headerLine_ne_nil : headerLine key value ≠ [] := by
  rw [headerLine]
  split_ifs
  · exact cons_ne_nil _ _
  · intro h
    exact absurd (append_eq_nil_iff.1 (append_eq_nil_iff.1 h).1).2 (by decide)

/-- The field of a header line. -/
lemma fieldValues_headerLine (name : String) (hkey : trim key ≠ []) (hcolon : 58 ∉ key) :
    fieldValues name [headerLine key value] =
      if key.map lowerByte = text name then [trim (32 :: value)] else [] := by
  have hcut : cutAt 58 (headerLine key value) = some (key, 32 :: value) := by
    rw [headerLine, if_neg hkey, append_assoc]
    exact cutAt_append _ hcolon
  rw [fieldValues, filterMap_cons, hcut]
  by_cases h : key.map lowerByte = text name <;> simp [h]

/-- **A header with a plain key is a plain line.** -/
lemma plainLine_headerLine (hkey : PlainKey key) (hvalue : IsLine value) :
    PlainLine (headerLine key value) := by
  obtain ⟨htrim, hcolon, hline, hlength, hcoding⟩ := hkey
  refine ⟨?_, ?_, ?_, ?_⟩
  · rw [headerLine, if_neg htrim, isLine_append, isLine_append]
    exact ⟨⟨hline, by decide⟩, hvalue⟩
  · exact headerLine_ne_nil
  · rw [fieldValues_headerLine _ htrim hcolon, if_neg hlength]
  · rw [fieldValues_headerLine _ htrim hcolon, if_neg hcoding]

/-- A plain line more. -/
lemma plain_insertHeader (h : ∀ l ∈ headers, PlainLine l) (hkey : PlainKey key)
    (hvalue : IsLine value) :
    ∀ l ∈ insertHeader headers key value, PlainLine l := by
  intro l hl
  rw [insertHeader] at hl
  split_ifs at hl
  · exact h l hl
  · rcases mem_append.1 hl with hl | hl
    · exact h l hl
    · obtain rfl := mem_singleton.1 hl
      exact plainLine_headerLine hkey hvalue

/-- Plain lines say nothing about the length. -/
lemma fieldValues_plain (h : ∀ l ∈ headers, PlainLine l) :
    fieldValues "content-length" headers = [] ∧ fieldValues "transfer-encoding" headers = [] := by
  induction headers with
  | nil => exact ⟨rfl, rfl⟩
  | cons l headers ih =>
    obtain ⟨hlength, hcoding⟩ := ih fun l' hl' => h l' (mem_cons_of_mem _ hl')
    have hl := h l mem_cons_self
    rw [← singleton_append, fieldValues_append, fieldValues_append, hl.contentLength,
      hl.transferEncoding, hlength, hcoding]
    exact ⟨rfl, rfl⟩

/-- The header for the length of a body. -/
def lengthLine (n : Int) : ByteStr := headerLine (text "Content-Length") (number n)

/-- The header for a chunked body. -/
def chunkedLine : ByteStr := headerLine (text "Transfer-Encoding") (text "chunked")

/-- The line with the length. -/
lemma fieldValues_lengthLine (n : Int) : fieldValues "content-length" [lengthLine n] = [number n] ∧
      fieldValues "transfer-encoding" [lengthLine n] = [] := by
  rw [lengthLine, fieldValues_headerLine _ (by decide) (by decide), if_pos (by decide),
    trim_space_cons fun b => not_isSpace_of_mem_number]
  exact ⟨rfl, rfl⟩

/-- The line for chunks. -/
lemma fieldValues_chunkedLine : fieldValues "content-length" [chunkedLine] = [] ∧
      fieldValues "transfer-encoding" [chunkedLine] = [text "chunked"] := by
  decide +kernel

/-- A header that is not plain is not among plain ones, so that it is added. -/
lemma insertHeader_lengthLine (h : ∀ l ∈ headers, PlainLine l) (n : Int) :
    insertHeader headers (text "Content-Length") (number n) = headers ++ [lengthLine n] := by
  rw [insertHeader, if_neg]
  · rfl
  · rintro ⟨-, hmem⟩
    have hlength := (h _ hmem).contentLength
    change fieldValues _ [lengthLine n] = [] at hlength
    cases hlength

/-- It is appended. -/
lemma insertHeader_chunkedLine (h : ∀ l ∈ headers, PlainLine l) :
    insertHeader headers (text "Transfer-Encoding") (text "chunked") =
      headers ++ [chunkedLine] := by
  rw [insertHeader, if_neg]
  · rfl
  · rintro ⟨-, hmem⟩
    have hcoding := (h _ hmem).transferEncoding
    change fieldValues _ [chunkedLine] = [] at hcoding
    cases hcoding

/-- **A response with its length** is well-formed, if all other headers are plain. -/
lemma wellFormed_content {statusLine : ByteStr} (hstatus : IsStatusLine statusLine)
    (h : ∀ l ∈ headers, PlainLine l) (bytes : ByteStr) :
    Message.WellFormed ⟨statusLine, headers ++ [lengthLine bytes.length], .content bytes⟩ := by
  obtain ⟨hlength, hcoding⟩ := fieldValues_plain h
  obtain ⟨hlength', hcoding'⟩ := fieldValues_lengthLine bytes.length
  refine ⟨hstatus, fun l hl => ?_, ?_, ?_⟩
  · rcases mem_append.1 hl with hl | hl
    · exact ⟨(h l hl).line, (h l hl).ne_nil⟩
    · obtain rfl := mem_singleton.1 hl
      refine ⟨?_, headerLine_ne_nil⟩
      rw [lengthLine, headerLine, if_neg (by decide), isLine_append]
      exact ⟨by decide, isLine_number _⟩
  · rw [fieldValues_append, hlength, hlength', nil_append]
  · rw [fieldValues_append, hcoding, hcoding', nil_append]

/-- **A chunked response** is well-formed, if all other headers are plain. -/
lemma wellFormed_chunked {statusLine : ByteStr} (hstatus : IsStatusLine statusLine)
    (h : ∀ l ∈ headers, PlainLine l) (h' : ∀ l ∈ headers', PlainLine l) (chunks : List ByteStr)
    {trailers : List ByteStr} (htrailers : ∀ l ∈ trailers, IsLine l ∧ l ≠ []) : Message.WellFormed
      ⟨statusLine, headers ++ chunkedLine :: headers',
        .chunked (chunks.filter (· ≠ [])) trailers⟩ := by
  obtain ⟨hlength, hcoding⟩ := fieldValues_plain h
  obtain ⟨hlength', hcoding'⟩ := fieldValues_plain h'
  obtain ⟨hlength'', hcoding''⟩ := fieldValues_chunkedLine
  have hsplit : headers ++ chunkedLine :: headers' = headers ++ ([chunkedLine] ++ headers') := rfl
  refine ⟨hstatus, fun l hl => ?_, ?_, ?_, ?_, htrailers⟩
  · rcases mem_append.1 hl with hl | hl
    · exact ⟨(h l hl).line, (h l hl).ne_nil⟩
    · rcases mem_cons.1 hl with rfl | hl
      · decide
      · exact ⟨(h' l hl).line, (h' l hl).ne_nil⟩
  · rw [hsplit, fieldValues_append, fieldValues_append, hlength, hlength']
    rfl
  · rw [hsplit, fieldValues_append, fieldValues_append, hcoding, hcoding']
    rfl
  · simp

/-- The status line of an error. -/
lemma isStatusLine_error (version : HttpVersion) (code : ℕ) {details : ByteStr}
    (h : IsLine details) :
    IsStatusLine (version.protocol ++ text " " ++ number code ++ text " " ++ status2String code ++
      text ": " ++ details) := by
  have hversion : IsLine version.protocol := by cases version <;> decide
  refine ⟨?_, version.protocol, code, status2String code ++ text ": " ++ details, ?_, ?_⟩
  · simp only [isLine_append]
    exact ⟨⟨⟨⟨⟨⟨hversion, by decide⟩, isLine_number _⟩, by decide⟩, isLine_status2String _⟩,
      by decide⟩, h⟩
  · cases version <;> decide
  · simp only [append_assoc]

/-- The status line of a response. -/
lemma isStatusLine_headers (code : ℕ) :
    IsStatusLine (text "HTTP/1.1 " ++ number code ++ text " " ++ status2String code) := by
  refine ⟨?_, text "HTTP/1.1", code, status2String code, .inl rfl, ?_⟩
  · simp only [isLine_append]
    exact ⟨⟨⟨by decide, isLine_number _⟩, by decide⟩, isLine_status2String _⟩
  · have hspace : text "HTTP/1.1 " = text "HTTP/1.1" ++ text " " := by decide
    rw [hspace]

/-- Empty pieces are not written. -/
lemma flatMap_chunk_filter (chunks : List ByteStr) :
    (chunks.filter (· ≠ [])).flatMap chunk = chunks.flatMap chunk := by
  induction chunks with
  | nil => rfl
  | cons c chunks ih =>
    by_cases hc : c = []
    · subst hc
      rw [filter_cons_of_neg (by simp), ih]
      rfl
    · rw [filter_cons_of_pos (by simpa using hc), flatMap_cons, flatMap_cons, ih]

end Headers

end OpenWbem.Http
