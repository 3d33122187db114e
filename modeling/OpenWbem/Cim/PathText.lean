import OpenWbem.Cim.Data

/-!
# The text of object paths

`CIMObjectPath::toString` writes a path as a text, and `CIMObjectPath::parse` reads such a text. The
text has the protocol, the host and the port, unless the path is local, then the namespace, the
class name, and the names and values of the keys, in quotes and with escapes.

The values of the keys are strings here, as they always are after `parse`.

## Main definitions

* `escape`, `unEscape` — the texts between the quotes.
* `OPData.toString` — the text of a path.
* `scanKeys` — the loop of `parse` that extracts the keys.
* `OPData.parse` — the path of a text.
-/

namespace OpenWbem

/-! ### Escapes -/

/-- The escape of a byte in `CIMObjectPath::escape`. -/
def escapeByte (c : UInt8) : ByteStr :=
  if c = 8 then [92, 98]
  else if c = 9 then [92, 116]
  else if c = 10 then [92, 110]
  else if c = 12 then [92, 102]
  else if c = 13 then [92, 114]
  else if c = 34 then [92, 34]
  else if c = 92 then [92, 92]
  else [c]

/-- `CIMObjectPath::escape` -/
def escape (s : ByteStr) : ByteStr := s.flatMap escapeByte

/-- The value of a hexadecimal digit. -/
def hexDigit? (c : UInt8) : Option ℕ :=
  if 48 ≤ c && c ≤ 57 then some (c - 48).toNat
  else if 65 ≤ c && c ≤ 70 then some (c - 55).toNat
  else if 97 ≤ c && c ≤ 102 then some (c - 87).toNat
  else none

/-- The hexadecimal digits behind `\x`, four at most. -/
def hexDigits (s : ByteStr) : List ℕ :=
  ((s.take 4).map hexDigit?).takeWhile Option.isSome |>.reduceOption

/-- `parseHexString`: a byte, or the replacement character if the number is no `char`. -/
def parseHexString (digits : List ℕ) : ByteStr :=
  let hex := digits.foldl (fun n d => 16 * n + d) 0
  if digits.isEmpty then []
  else if 127 < hex then [0xef, 0xbf, 0xbd]
  else [UInt8.ofNat hex]

/-- What a byte behind a backslash, with the text behind it, stands for, and how many bytes of that
text belong to it. -/
def unEscapeByte (c : UInt8) (s : ByteStr) : ByteStr × ℕ :=
  if c = 98 then ([8], 0)
  else if c = 116 then ([9], 0)
  else if c = 110 then ([10], 0)
  else if c = 102 then ([12], 0)
  else if c = 114 then ([13], 0)
  else if c = 34 then ([34], 0)
  else if c = 39 then ([39], 0)
  else if c = 92 then ([92], 0)
  else if c = 120 || c = 88 then (parseHexString (hexDigits s), (hexDigits s).length)
  else ([92, c], 0)

/-- The loop of `CIMObjectPath::unEscape`, with the number of bytes that have already been read. -/
def unEscapeFrom : ByteStr → ℕ → ByteStr
  | [], _ => []
  | _ :: s, n + 1 => unEscapeFrom s n
  | c :: s, 0 =>
    if c = 92 then
      match s with
      | [] => []
      | d :: s' => (unEscapeByte d s').1 ++ unEscapeFrom s ((unEscapeByte d s').2 + 1)
    else c :: unEscapeFrom s 0

/-- `CIMObjectPath::unEscape` -/
def unEscape (s : ByteStr) : ByteStr := unEscapeFrom s 0

/-! ### Writing -/

/-- `CIMUrl::CIMUrl`, from the components. -/
def URLData.ofParts (R : Type) [Blocxx R] (protocol host file : ByteStr) (port : Int32) : URLData :=
  URLData.setDefaultValues R { URLData.empty with protocol, host, port, file }

/-- `CIMNameSpace::setNameSpace` -/
def setNameSpace (ns : ByteStr) : ByteStr := ((trim ns).dropWhile (· = 47)).takeWhile (· ≠ 0)

/-- `CIMNameSpace::CIMNameSpace` -/
def NSData.ofUrl (url : URLData) (ns : ByteStr) : NSData :=
  ⟨if ns.isEmpty then [] else setNameSpace ns, url⟩

namespace OPData

/-- The text of a key. -/
def keyText (p : PROPData ByteStr) : ByteStr :=
  p.name ++ [61, 34] ++ (match p.cimValue with
    | some v => escape v
    | none => ascii ['n', 'u', 'l', 'l']) ++ [34]

/-- The texts of the keys in `CIMObjectPath::modelPath`. -/
def keysText : (first : Bool) → List (PROPData ByteStr) → ByteStr
  | _, [] => []
  | first, p :: keys => (if first then 46 else 44) :: keyText p ++ keysText false keys

/-- `CIMObjectPath::modelPath` -/
def modelPath (path : OPData ByteStr) : ByteStr := path.objectName ++ keysText true path.keys

variable (R : Type) [Blocxx R]

/-- `CIMObjectPath::toString` -/
def toString (path : OPData ByteStr) : ByteStr :=
  let url := path.nameSpace.url
  (if url.localHost then []
    else
      (if url.protocol.isEmpty then ascii ['H', 'T', 'T', 'P'] else url.protocol) ++
        ascii [':', '/', '/'] ++
        (if url.host.isEmpty then ascii ['l', 'o', 'c', 'a', 'l', 'h', 'o', 's', 't']
          else url.host) ++
        (if url.port ≠ 5988 then 58 :: Blocxx.int32Text R url.port else [])) ++
    47 :: path.nameSpace.nameSpace ++ 58 :: path.modelPath

end OPData

/-! ### Reading -/

/-- What `CIMObjectPath::parse` throws. -/
inductive PathError where
  /-- `CIMException::INVALID_PARAMETER` -/
  | invalidParameter (msg : ByteStr)
  /-- `CIMException::NOT_FOUND` -/
  | notFound (msg : ByteStr)
  deriving DecidableEq

/-- A key with a string: `CIMProperty::setValue` and `CIMProperty::setDataType`. -/
def stringKey (name value : ByteStr) : PROPData ByteStr where
  name
  qualifiers := []
  propertyDataType := ⟨ValueType.string.code, 1, 0, []⟩
  sizeDataType := -1
  override := []
  originClass := []
  cimValue := some value
  propagated := false

/-- The variables of the loop that extracts the keys. -/
structure ScanState where
  i : ℕ
  keystart : ℕ
  equalspos : ℕ
  inquote : Bool
  keys : List (PROPData ByteStr)
  deriving DecidableEq

/-- A part of a string, by its position and its length. -/
def sub (s : ByteStr) (i n : ℕ) : ByteStr := (s.drop i).take n

/-- The key that ends before the position `i`. -/
def extractKey (values : ByteStr) (keystart equalspos i : ℕ) : PROPData ByteStr :=
  stringKey (sub values keystart (equalspos - keystart - 1))
    (if values.getD equalspos 0 ≠ 34 then unEscape (sub values equalspos (i - equalspos))
      else unEscape (sub values (equalspos + 1) (i - equalspos - 2)))

/-- The body of the loop that extracts the keys. The special case of a single key without a name is
left out, since `singleKey` is never true. -/
def scanStep (values : ByteStr) (s : ScanState) : Except PathError ScanState :=
  let ch := values.getD s.i 0
  if s.i < values.length - 1 && ch = 92 then .ok { s with i := s.i + 2 }
  else
    let inquote := if ch = 34 then !s.inquote else s.inquote
    if inquote then .ok { s with i := s.i + 1, inquote }
    else
      let equalspos := if ch = 61 then s.i + 1 else s.equalspos
      if ch = 44 || s.i + 1 = values.length then
        let i := if s.i + 1 = values.length then s.i + 1 else s.i
        if equalspos = 0 then
          .error (.notFound (ascii "Bad key in string (".toList ++ values ++ ascii [')']))
        else .ok ⟨i + 2, i + 1, 0, inquote, s.keys ++ [extractKey values s.keystart equalspos i]⟩
      else .ok { s with i := s.i + 1, equalspos, inquote }

/-- The loop that extracts the keys. Every round goes at least one byte further, so that there are
at most as many rounds as there are bytes left. -/
def scanKeys (values : ByteStr) :
    (rounds : ℕ) → ScanState → Except PathError (List (PROPData ByteStr))
  | 0, s => .ok s.keys
  | rounds + 1, s =>
    if s.i < values.length then do
      let s ← scanStep values s
      scanKeys values rounds s
    else .ok s.keys

namespace OPData

variable (R : Type) [Blocxx R]

/-- The host and the port of a text, with `instanceNameArg` for the messages. -/
def parseHost (host : ByteStr) : Except PathError (ByteStr × Int32) :=
  match cutAt 58 host with
  | none => .ok (host, 5988)
  | some (host, port) =>
    match Blocxx.toInt32 R port with
    | some port => .ok (host, port)
    | none =>
      .error (.invalidParameter (ascii "Invalid port (".toList ++ port ++
        ascii ") in Object Path".toList))

/-- The part of `CIMObjectPath::parse` before the namespace: the URL and the rest of the text. -/
def parseUrl (instanceNameArg instanceName : ByteStr) : Except PathError (URLData × ByteStr) :=
  match cutAtString (ascii [':', '/', '/']) instanceName with
  | some (protocol, rest) =>
    match cutAt 47 rest with
    | none => .error (.invalidParameter (ascii "Invalid instance name: ".toList ++ instanceNameArg))
    | some (host, rest) => do
      let (host, port) ← parseHost R host
      .ok (URLData.ofParts R protocol host [] port, rest)
  | none =>
    .ok (URLData.ofParts R (ascii ['H', 'T', 'T', 'P'])
      (ascii ['l', 'o', 'c', 'a', 'l', 'h', 'o', 's', 't']) [] 5988,
      if instanceName.head? = some 47 then instanceName.drop 1 else instanceName)

/-- `CIMObjectPath::parse`; the result `none` is the null path. -/
def parse (instanceNameArg : ByteStr) : Except PathError (Option (OPData ByteStr)) :=
  let instanceName := trim instanceNameArg
  if instanceName.isEmpty then .ok none
  else do
    let (url, instanceName) ← parseUrl R instanceNameArg instanceName
    let (nameSpace, instanceName) :=
      (cutAt 58 instanceName).getD (ascii ['r', 'o', 'o', 't'], instanceName)
    match cutAt 46 instanceName with
    | none =>
      .error (.invalidParameter (ascii "class name not found in instance name: ".toList ++
        instanceNameArg))
    | some (className, values) =>
      if values.isEmpty then
        .error (.invalidParameter (ascii "No key values found in instance name: ".toList ++
          instanceNameArg))
      else do
        let keys ← scanKeys values values.length ⟨0, 0, 0, false, []⟩
        .ok (some ⟨NSData.ofUrl url nameSpace, className, keys⟩)

end OPData

end OpenWbem
