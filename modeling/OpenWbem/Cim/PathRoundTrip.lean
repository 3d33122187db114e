import Mathlib.Data.List.TakeWhile
import OpenWbem.Cim.PathScan

/-!
# Reading back the text of a path

A path that is written as a text and read again should be the same path. It is, unless the text is
misread before the keys are reached. `CIMObjectPath::parse` looks for `://` in the whole text, and
so finds it in the value of a key if the path is local and the text begins with a slash. It ends the
host at the first slash or colon. The text of a local path has no port, so that another port than
5988 is lost.

## Main definitions

* `OPData.Printable` — the paths that are considered.
* `OPData.RoundTrips` — a path is read back.
* `OPData.TextSafe` — the text of a path is not misread.

## Main results

* `parse_toString_iff` — a path is read back iff its text is not misread.
-/

namespace OpenWbem

open List

namespace OPData

/-- The names and values of the keys. -/
def keyPairs (p : OPData ByteStr) : List (ByteStr × Option ByteStr) :=
  p.keys.map fun k => (k.name, k.cimValue)

/-- An instance path with a namespace, identifiers and strings as they are usual. If the path is not
local, its host has been through `CIMUrl::setLocalHost`, its port is positive, and its protocol does
not have the separator in it that ends the protocol. -/
structure Printable (p : OPData ByteStr) : Prop where
  ns_trim : trim p.nameSpace.nameSpace = p.nameSpace.nameSpace
  ns_slash : p.nameSpace.nameSpace.head? ≠ some 47
  ns_colon : 58 ∉ p.nameSpace.nameSpace
  ns_nul : 0 ∉ p.nameSpace.nameSpace
  className : IsIdentifier p.objectName
  keys_ne : p.keys ≠ []
  keyName : ∀ k ∈ p.keys, IsIdentifier k.name
  keyValue : ∀ k ∈ p.keys, k.cimValue ≠ none
  remote : p.nameSpace.url.localHost = false →
    p.nameSpace.url.setLocalHost = p.nameSpace.url ∧ 0 < p.nameSpace.url.port ∧
      ¬ schemeEnd <:+: p.nameSpace.url.protocol

/-- A path is written as a text and read back, with the same namespace, host, port, class and
keys. -/
def RoundTrips (R : Type) [Blocxx R] (p : OPData ByteStr) : Prop :=
  ∃ p', parse R (toString R p) = .ok (some p') ∧
    p'.nameSpace.nameSpace = p.nameSpace.nameSpace ∧ p'.nameSpace.url.host = p.nameSpace.url.host ∧
    p'.nameSpace.url.port = p.nameSpace.url.port ∧ p'.objectName = p.objectName ∧
    p'.keyPairs = p.keyPairs

/-- The text of a path is not misread: a local path has the default port and the separator `://` in
no value, and the host of another path has no slash and no colon. -/
def TextSafe (p : OPData ByteStr) : Prop :=
  if p.nameSpace.url.localHost then
    p.nameSpace.url.host = localAddress ∧ p.nameSpace.url.port = 5988 ∧
      ∀ k ∈ p.keys, ∀ v, k.cimValue = some v → ¬ schemeEnd <:+: v
  else 47 ∉ p.nameSpace.url.host ∧ 58 ∉ p.nameSpace.url.host

end OPData

/-! ### Strings -/

variable {c : UInt8} {z a y s host : ByteStr} {port : Int32}

/-- A byte behind a part in which it does not occur. -/
lemma split_of_not_mem {w : ByteStr} (hw : c ∉ w) (h : w ++ z = a ++ c :: y) :
    ∃ a', a = w ++ a' ∧ z = a' ++ c :: y := by
  rcases append_eq_append_iff.mp h with ⟨a', rfl, hz⟩ | ⟨b, rfl, hz⟩
  · exact ⟨a', rfl, hz⟩
  · rcases b with _ | ⟨d, b⟩
    · exact ⟨[], by simp, by simpa using hz.symm⟩
    · obtain ⟨rfl, -⟩ := cons.inj hz
      simp at hw

/-- `trim` drops blanks at the beginning only if the text ends with another byte. -/
lemma trim_concat (hc : isSpace c = false) : trim (s ++ [c]) = s.dropWhile isSpace ++ [c] := by
  rw [trim, dropWhile_append_cons hc, reverse_append, reverse_singleton,
    singleton_append, dropWhile_cons_of_neg (by simp [hc]), reverse_cons,
    reverse_reverse]

/-- A namespace that is kept. -/
lemma setNameSpace_eq {ns : ByteStr} (htrim : trim ns = ns) (hslash : ns.head? ≠ some 47)
    (hnul : 0 ∉ ns) : setNameSpace ns = ns := by
  have hdrop : ns.dropWhile (· = 47) = ns := by
    cases ns with
    | nil => rfl
    | cons c ns => exact dropWhile_cons_of_neg (by simpa using hslash)
  have htake : ns.takeWhile (· ≠ 0) = ns := by
    refine takeWhile_eq_self_iff.mpr fun c hc => ?_
    have hne : c ≠ 0 := fun h => hnul (h ▸ hc)
    simpa using hne
  rw [setNameSpace, htrim, hdrop, htake]

/-! ### URLs -/

section Url

variable (R : Type) [Blocxx R]

/-- The host of a URL depends on the given host only. -/
lemma URLData.host_ofParts (protocol host file : ByteStr) (port : Int32) :
    (ofParts R protocol host file port).host = (localForm host).1 := by
  rw [ofParts, setDefaultValues_eq]
  rfl

/-- A port that is kept. -/
lemma URLData.port_ofParts (protocol host file : ByteStr) (hport : 0 < port) :
    (ofParts R protocol host file port).port = port := by
  rw [ofParts, setDefaultValues_eq]
  exact if_neg (Int32.not_le.mpr hport)

end Url

/-! ### The text of a path -/

/-- A key with a string, as a pair. -/
def textPair (q : ByteStr × ByteStr) : ByteStr × Option ByteStr := (q.1, some q.2)

/-- The pair of a key determines it. -/
lemma textPair_injective : Function.Injective textPair := by
  rintro ⟨k, v⟩ ⟨k', v'⟩ h
  simpa [textPair] using h

namespace OPData

/-- The keys of a path, as pairs of strings. -/
lemma Printable.exists_pairs {p : OPData ByteStr} (hp : p.Printable) :
    ∃ k v l, p.keyPairs = ((k, v) :: l).map textPair ∧ ∀ q ∈ (k, v) :: l, IsIdentifier q.1 := by
  obtain ⟨q, keys, hkeys⟩ := exists_cons_of_ne_nil hp.keys_ne
  have hname := hp.keyName
  have hvalue := hp.keyValue
  rw [keyPairs]
  rw [hkeys] at hname hvalue ⊢
  have hpair : ∀ q' ∈ q :: keys, (q'.name, q'.cimValue) =
      textPair (q'.name, q'.cimValue.getD []) := by
    intro q' hq'
    obtain ⟨v, hv⟩ := Option.ne_none_iff_exists'.mp (hvalue q' hq')
    simp [textPair, hv]
  refine ⟨q.name, q.cimValue.getD [], keys.map fun q => (q.name, q.cimValue.getD []), ?_, ?_⟩
  · rw [← map_cons (f := fun q : PROPData ByteStr => (q.name, q.cimValue.getD [])), map_map]
    exact map_congr_left hpair
  · rw [← map_cons (f := fun q : PROPData ByteStr => (q.name, q.cimValue.getD []))]
    intro r hr
    obtain ⟨q', hq', rfl⟩ := mem_map.mp hr
    exact hname q' hq'

/-- The text of the keys. -/
lemma keysText_eq {keys : List (PROPData ByteStr)} {k v : ByteStr} {l : List (ByteStr × ByteStr)}
    (h : keys.map (fun q => (q.name, q.cimValue)) = ((k, v) :: l).map textPair) (first : Bool) :
    keysText first keys = (if first then 46 else 44) :: (k ++ [61, 34] ++ keysFrom v l) := by
  induction l generalizing keys k v first with
  | nil =>
    rcases keys with _ | ⟨q, _ | ⟨q', keys⟩⟩
    · cases h
    · obtain ⟨⟨rfl, hv⟩, -⟩ : (q.name = k ∧ q.cimValue = some v) ∧ True := by
        simpa [textPair] using h
      simp [keysText, keyText, hv, keysFrom]
    · simp at h
  | cons r l ih =>
    rcases keys with _ | ⟨q, keys⟩
    · cases h
    · obtain ⟨hq, htail⟩ := cons.inj h
      obtain ⟨rfl, hv⟩ : q.name = k ∧ q.cimValue = some v := by simpa [textPair] using hq
      simp [keysText, keyText, hv, keysFrom, ih htail false]

/-- The part of the text of a path behind the host. -/
def tailText (p : OPData ByteStr) (k v : ByteStr) (l : List (ByteStr × ByteStr)) : ByteStr :=
  p.nameSpace.nameSpace ++ 58 :: (p.objectName ++ 46 :: (k ++ [61, 34] ++ keysFrom v l))

/-- It ends with a quotation mark. -/
lemma keysFrom_eq_concat (v : ByteStr) (l : List (ByteStr × ByteStr)) :
    ∃ w, keysFrom v l = w ++ [34] := by
  induction l generalizing v with
  | nil => exact ⟨escape v, rfl⟩
  | cons q l ih =>
    obtain ⟨w, hw⟩ := ih q.2
    exact ⟨escape v ++ [34, 44] ++ q.1 ++ [61, 34] ++ w, by simp [keysFrom, hw]⟩

/-- So does the rest of the path. -/
lemma tailText_eq_concat (p : OPData ByteStr) (k v : ByteStr) (l : List (ByteStr × ByteStr)) :
    ∃ w, p.tailText k v l = w ++ [34] := by
  obtain ⟨w, hw⟩ := keysFrom_eq_concat v l
  exact ⟨p.nameSpace.nameSpace ++ 58 :: (p.objectName ++ 46 :: (k ++ [61, 34] ++ w)), by
    simp [tailText, hw]⟩

/-! ### The separator in the text of a local path -/

/-- An escaped text begins with a slash only if the text does. -/
lemma slash_of_escape {v : ByteStr} (h : escape v ++ 34 :: y = 47 :: z) :
    ∃ v', v = 47 :: v' ∧ escape v' ++ 34 :: y = z := by
  cases v with
  | nil => cases (cons.inj h).1
  | cons c v =>
    rw [escape_cons] at h
    rcases escapeByte_cases c with ⟨hc, -⟩ | ⟨d, hc, -⟩ <;> rw [hc] at h
    · obtain ⟨rfl, htail⟩ := cons.inj h
      exact ⟨v, rfl, htail⟩
    · cases (cons.inj h).1

variable {b : ByteStr} {q : ByteStr × ByteStr}

/-- A separator in an escaped text with its closing quote is one in the text. -/
lemma schemeEnd_of_escape {v : ByteStr} (h : escape v ++ 34 :: y = a ++ schemeEnd ++ b) :
    schemeEnd <:+: v ∨ ∃ a', y = a' ++ schemeEnd ++ b := by
  induction v generalizing a with
  | nil =>
    right
    rcases a with _ | ⟨c, a⟩
    · cases (cons.inj h).1
    · exact ⟨a, by simpa using (cons.inj h).2⟩
  | cons c v ih =>
    rw [escape_cons] at h
    rcases escapeByte_cases c with ⟨hc, -⟩ | ⟨d, hc, -, -, hd, -⟩ <;> rw [hc] at h
    · rcases a with _ | ⟨w, a⟩
      · obtain ⟨rfl, htail⟩ := cons.inj h
        obtain ⟨v1, rfl, htail1⟩ := slash_of_escape htail
        obtain ⟨v2, rfl, -⟩ := slash_of_escape htail1
        exact .inl ⟨[], v2, rfl⟩
      · exact (ih (cons.inj h).2).imp_left infix_cons
    · rcases a with _ | ⟨w, _ | ⟨w', a⟩⟩
      · cases (cons.inj h).1
      · exact absurd (cons.inj (cons.inj h).2).1 hd
      · exact (ih (cons.inj (cons.inj h).2).2).imp_left infix_cons

/-- A separator in the text of keys is one in a value. -/
lemma schemeEnd_of_keysFrom {k v : ByteStr} {l : List (ByteStr × ByteStr)}
    (hl : ∀ q ∈ l, IsIdentifier q.1)
    (h : keysFrom v l = a ++ schemeEnd ++ b) : ∃ q ∈ (k, v) :: l, schemeEnd <:+: q.2 := by
  induction l generalizing k v a with
  | nil =>
    rcases schemeEnd_of_escape h with hv | ⟨a', ha⟩
    · exact ⟨(k, v), by simp, hv⟩
    · simp [schemeEnd] at ha
  | cons q l ih =>
    obtain ⟨k', v'⟩ := q
    have hk' : IsIdentifier k' := hl (k', v') (by simp)
    have h' : escape v ++ 34 :: (44 :: (k' ++ [61, 34]) ++ keysFrom v' l) =
        a ++ schemeEnd ++ b := by
      simpa [keysFrom] using h
    rcases schemeEnd_of_escape h' with hv | ⟨a', ha⟩
    · exact ⟨(k, v), by simp, hv⟩
    · rw [append_assoc] at ha
      obtain ⟨a'', -, hz⟩ := split_of_not_mem (by simp [hk'.not_mem (d := 58) rfl]) ha
      obtain ⟨q, hq, hv⟩ :=
        ih (fun q hq => hl q (mem_cons_of_mem _ hq)) (by simpa [schemeEnd] using hz)
      exact ⟨q, mem_cons_of_mem _ hq, hv⟩

/-- A separator in a value is one in the text of keys. -/
lemma schemeEnd_infix_keysFrom {k v : ByteStr} {l : List (ByteStr × ByteStr)}
    (hq : q ∈ (k, v) :: l) (h : schemeEnd <:+: q.2) : schemeEnd <:+: keysFrom v l := by
  have hescape : ∀ {v : ByteStr}, schemeEnd <:+: v → schemeEnd <:+: escape v := by
    rintro v ⟨a, b, rfl⟩
    exact ⟨escape a, escape b, by simp [escape, schemeEnd, escapeByte]⟩
  induction l generalizing k v with
  | nil =>
    obtain rfl := mem_singleton.mp hq
    exact (hescape h).trans ⟨[], [34], by simp [keysFrom]⟩
  | cons q' l ih =>
    rcases mem_cons.mp hq with rfl | hq
    · exact (hescape h).trans (List.IsPrefix.isInfix ⟨_, by
        simp only [keysFrom, append_assoc]; rfl⟩)
    · exact (ih hq).trans (List.IsSuffix.isInfix ⟨_, rfl⟩)

/-- In the text of a local path, the first separator is behind the first name of a key. -/
lemma Printable.suffix_of_schemeEnd {p : OPData ByteStr} (hp : p.Printable) {k v : ByteStr}
    {l : List (ByteStr × ByteStr)} (hk : IsIdentifier k)
    (h : 47 :: p.tailText k v l = a ++ schemeEnd ++ b) :
    ∃ a', keysFrom v l = a' ++ schemeEnd ++ b := by
  have hns : (58 : UInt8) ∉ 47 :: p.nameSpace.nameSpace := by simp [hp.ns_colon]
  have h' : (47 :: p.nameSpace.nameSpace) ++
      58 :: (p.objectName ++ 46 :: (k ++ [61, 34] ++ keysFrom v l)) =
        a ++ 58 :: (47 :: 47 :: b) := by
    simpa [tailText, schemeEnd] using h
  obtain ⟨a1, -, h1⟩ := split_of_not_mem hns h'
  rcases a1 with _ | ⟨c, a1⟩
  · -- the colon behind the namespace is followed by the name of the class
    obtain ⟨c, w, hc⟩ := exists_cons_of_ne_nil hp.className.1
    rw [hc] at h1
    have h47 : c = 47 := (cons.inj (cons.inj h1).2).1
    have hname : isNameByte c := hp.className.2 c (by simp [hc])
    exact absurd h47 (ne_of_isNameByte hname rfl)
  · have hnot : (58 : UInt8) ∉ p.objectName ++ 46 :: (k ++ [61, 34]) := by
      simp [hp.className.not_mem (d := 58) rfl, hk.not_mem (d := 58) rfl]
    obtain ⟨a2, -, h2⟩ := split_of_not_mem hnot (by simpa using (cons.inj h1).2)
    exact ⟨a2, by simpa [schemeEnd] using h2⟩

/-! ### Reading -/

section Reading

variable {R : Type} [Blocxx R]

variable {arg : ByteStr} {url : URLData}

/-- What is read behind the host is the namespace, the class and the keys. -/
lemma Printable.parse_of_parseUrl {p : OPData ByteStr} (hp : p.Printable) {k v : ByteStr}
    {l : List (ByteStr × ByteStr)} (hl : ∀ q ∈ (k, v) :: l, IsIdentifier q.1)
    (hne : trim arg ≠ []) (h : parseUrl R arg (trim arg) = .ok (url, p.tailText k v l)) :
    parse R arg = .ok (some ⟨⟨p.nameSpace.nameSpace, url⟩, p.objectName,
      ((k, v) :: l).map fun q => stringKey q.1 q.2⟩) := by
  have hns : NSData.ofUrl url p.nameSpace.nameSpace = ⟨p.nameSpace.nameSpace, url⟩ := by
    rw [NSData.ofUrl]
    split
    case isTrue hnil => rw [List.isEmpty_iff.mp hnil]
    case isFalse => rw [setNameSpace_eq hp.ns_trim hp.ns_slash hp.ns_nul]
  have hkeys : (k ++ [61, 34] ++ keysFrom v l).isEmpty = false := by simp
  have hempty : (trim arg).isEmpty = false := by simpa using hne
  have hcut : cutAt 58 (p.tailText k v l) = some (p.nameSpace.nameSpace, _) :=
    cutAt_append _ hp.ns_colon
  have hcut' : cutAt 46 (p.objectName ++ 46 :: (k ++ [61, 34] ++ keysFrom v l)) =
      some (p.objectName, _) := cutAt_append _ (hp.className.not_mem rfl)
  rw [parse]
  simp only [hempty, h, hcut, hcut', hkeys, bind, Except.bind, Option.getD_some, Bool.false_eq_true,
    if_false, scanKeys_keys hl rfl, hns]

/-- What is behind a byte, or everything, is an end of the text. -/
lemma getD_cutAt_suffix (c : UInt8) (d s : ByteStr) : ((cutAt c s).getD (d, s)).2 <:+ s := by
  rcases h : cutAt c s with _ | ⟨a, b⟩
  · exact suffix_rfl
  · exact ⟨a ++ [c], by simp [(of_cutAt_eq_some h).1]⟩

/-- What a path that has been read says about the text behind the host. -/
lemma of_parse_eq_some {p : OPData ByteStr} (h : parse R arg = .ok (some p)) :
    ∃ rest values l, parseUrl R arg (trim arg) = .ok (p.nameSpace.url, rest) ∧ values <:+ rest ∧
      Decodes values l ∧ p.keyPairs = l.map textPair := by
  rw [parse] at h
  split at h
  · cases h
  rcases hurl : parseUrl R arg (trim arg) with e | ⟨url, rest⟩
  · rw [hurl] at h
    cases h
  · rw [hurl] at h
    simp only [bind, Except.bind] at h
    have hsuffix := getD_cutAt_suffix 58 (ascii ['r', 'o', 'o', 't']) rest
    rcases hns : (cutAt 58 rest).getD (ascii ['r', 'o', 'o', 't'], rest) with ⟨ns, name⟩
    rw [hns] at h hsuffix
    rcases hcut : cutAt 46 name with _ | ⟨className, values⟩ <;> rw [hcut] at h <;> dsimp only at h
    · cases h
    split at h
    · cases h
    rcases hscan : scanKeys values values.length ⟨0, 0, 0, false, []⟩ with e | keys <;>
      rw [hscan] at h <;> cases h
    obtain ⟨l, rfl, hl⟩ := decodes_of_scanKeys ⟨le_rfl, fun h => absurd rfl h⟩ hscan
    refine ⟨rest, values, l, rfl, .trans ⟨className ++ [46], ?_⟩ hsuffix, hl, ?_⟩
    · simp [(of_cutAt_eq_some hcut).1]
    · simp [keyPairs, textPair, stringKey]

/-- A host that has been read has no slash and no colon in it. -/
lemma of_parseHost_eq_ok {host' : ByteStr} (hslash : 47 ∉ host)
    (h : parseHost R host = .ok (host', port)) : 47 ∉ host' ∧ 58 ∉ host' := by
  rw [parseHost] at h
  rcases hcut : cutAt 58 host with _ | ⟨a, b⟩ <;> rw [hcut] at h <;> dsimp only at h
  · cases h
    exact ⟨hslash, not_mem_of_cutAt_eq_none hcut⟩
  · obtain ⟨rfl, ha⟩ := of_cutAt_eq_some hcut
    split at h <;> cases h
    exact ⟨fun hm => hslash (mem_append_left _ hm), ha⟩

/-- What a URL that has been read says about the text. -/
lemma of_parseUrl_eq_ok {rest : ByteStr} (h : parseUrl R arg s = .ok (url, rest)) :
    (∃ host port protocol, 47 ∉ host ∧ 58 ∉ host ∧ url = .ofParts R protocol host [] port) ∧
      ∀ a b, cutAtString schemeEnd s = some (a, b) → rest <:+ b := by
  rw [parseUrl, show ascii [':', '/', '/'] = schemeEnd from rfl] at h
  rcases hcut : cutAtString schemeEnd s with _ | ⟨protocol, b⟩ <;> rw [hcut] at h <;>
    dsimp only at h
  · obtain ⟨rfl, rfl⟩ := Prod.mk.inj (Except.ok.inj h)
    exact ⟨⟨_, 5988, _, by decide, by decide, rfl⟩, nofun⟩
  rcases hslash : cutAt 47 b with _ | ⟨host, tail⟩ <;> rw [hslash] at h <;> dsimp only at h
  · cases h
  obtain ⟨hb, hhost⟩ := of_cutAt_eq_some hslash
  rcases hport : parseHost R host with e | ⟨host', port⟩ <;> rw [hport] at h
  · cases h
  obtain ⟨rfl, rfl⟩ := Prod.mk.inj (Except.ok.inj h)
  obtain ⟨h47, h58⟩ := of_parseHost_eq_ok hhost hport
  refine ⟨⟨host', port, protocol, h47, h58, rfl⟩, fun a b' h => ?_⟩
  cases h
  exact ⟨host ++ [47], by simp [hb]⟩

/-! ### Local paths -/

section Local

variable {p : OPData ByteStr} {k v : ByteStr} {l : List (ByteStr × ByteStr)}

/-- The text behind the host. -/
lemma modelPath_eq (hpairs : p.keyPairs = ((k, v) :: l).map textPair) :
    47 :: p.nameSpace.nameSpace ++ 58 :: p.modelPath = 47 :: p.tailText k v l := by
  rw [modelPath, keysText_eq hpairs true]
  rfl

/-- The text of a local path. -/
lemma toString_local (hpairs : p.keyPairs = ((k, v) :: l).map textPair)
    (hlocal : p.nameSpace.url.localHost) : toString R p = 47 :: p.tailText k v l := by
  simp only [toString, hlocal]
  exact modelPath_eq hpairs

/-- It has no blanks around it. -/
lemma trim_local (p : OPData ByteStr) (k v : ByteStr) (l : List (ByteStr × ByteStr)) :
    trim (47 :: p.tailText k v l) = 47 :: p.tailText k v l := by
  obtain ⟨w, hw⟩ := p.tailText_eq_concat k v l
  rw [hw, ← cons_append, trim_concat rfl, dropWhile_cons_of_neg (by decide)]

/-- A local path is read back, with the default host and port, if no value has the separator in
it. -/
lemma Printable.parse_local (hp : p.Printable) (hpairs : p.keyPairs = ((k, v) :: l).map textPair)
    (hl : ∀ q ∈ (k, v) :: l, IsIdentifier q.1) (hlocal : p.nameSpace.url.localHost)
    (hsafe : ∀ q ∈ (k, v) :: l, ¬ schemeEnd <:+: q.2) :
    ∃ url, url.host = localAddress ∧ url.port = 5988 ∧
      parse R (toString R p) = .ok (some ⟨⟨p.nameSpace.nameSpace, url⟩, p.objectName,
        ((k, v) :: l).map fun q => stringKey q.1 q.2⟩) := by
  have hnone : cutAtString schemeEnd (47 :: p.tailText k v l) = none := by
    refine cutAtString_eq_none fun ⟨a, b, hab⟩ => ?_
    obtain ⟨a', ha'⟩ := hp.suffix_of_schemeEnd (hl (k, v) (by simp)) hab.symm
    obtain ⟨q, hq, hv⟩ := schemeEnd_of_keysFrom (fun q hq => hl q (mem_cons_of_mem _ hq)) ha'
    exact hsafe q hq hv
  have hurl : parseUrl R (47 :: p.tailText k v l) (trim (47 :: p.tailText k v l)) =
      .ok (URLData.ofParts R (ascii ['H', 'T', 'T', 'P'])
        (ascii ['l', 'o', 'c', 'a', 'l', 'h', 'o', 's', 't']) [] 5988, p.tailText k v l) := by
    rw [trim_local, parseUrl, show ascii [':', '/', '/'] = schemeEnd from rfl, hnone]
    rfl
  rw [toString_local hpairs hlocal]
  refine ⟨_, ?_, ?_, hp.parse_of_parseUrl hl (by rw [trim_local]; simp) hurl⟩
  · rw [URLData.host_ofParts]
    decide
  · exact URLData.port_ofParts R _ _ _ (by decide)

/-- A local path is not read back if a value has the separator in it: what is read as keys begins
behind the separator. -/
lemma Printable.not_roundTrips_of_schemeEnd (hp : p.Printable)
    (hpairs : p.keyPairs = ((k, v) :: l).map textPair) (hl : ∀ q ∈ (k, v) :: l, IsIdentifier q.1)
    (hlocal : p.nameSpace.url.localHost) (hq : q ∈ (k, v) :: l)
    (hsep : schemeEnd <:+: q.2) : ¬ p.RoundTrips R := by
  rintro ⟨p', hparse, -, -, -, -, hkeys⟩
  have hk : IsIdentifier k := hl (k, v) (by simp)
  rw [toString_local hpairs hlocal] at hparse
  obtain ⟨rest, values, l', hurl, hvalues, hdecodes, hl'⟩ := of_parse_eq_some hparse
  rw [trim_local] at hurl
  have hin : schemeEnd <:+: 47 :: p.tailText k v l :=
    (schemeEnd_infix_keysFrom hq hsep).trans (List.IsSuffix.isInfix
      ⟨47 :: (p.nameSpace.nameSpace ++ 58 :: (p.objectName ++ 46 :: (k ++ [61, 34]))), by
        simp [tailText]⟩)
  obtain ⟨a, b, hcut⟩ := exists_cutAtString_eq_some hin
  obtain ⟨a', ha'⟩ := hp.suffix_of_schemeEnd hk (of_cutAtString_eq_some hcut)
  have hsuffix : values <:+ keysFrom v l :=
    (hvalues.trans ((of_parseUrl_eq_ok hurl).2 a b hcut)).trans ⟨a' ++ schemeEnd, ha'.symm⟩
  have hsame : l' = (k, v) :: l :=
    map_injective_iff.mpr textPair_injective (by rw [← hl', hkeys, hpairs])
  rw [hsame] at hdecodes
  exact not_decodes_suffix hk.1 (fun q hq => hl q (mem_cons_of_mem _ hq)) hsuffix hdecodes

end Local

/-! ### Other paths -/

section Remote

variable {p : OPData ByteStr} {k v : ByteStr} {l : List (ByteStr × ByteStr)}

/-- The text of a path that is not local, without blanks before it. -/
lemma Printable.toString_remote (hp : p.Printable)
    (hpairs : p.keyPairs = ((k, v) :: l).map textPair)
    (hremote : p.nameSpace.url.localHost = false) : ∃ protocol, ¬ schemeEnd <:+: protocol ∧
      trim (toString R p) = protocol ++ schemeEnd ++ (p.nameSpace.url.host ++
        (if p.nameSpace.url.port ≠ 5988 then 58 :: Blocxx.int32Text R p.nameSpace.url.port
          else []) ++
          47 :: p.tailText k v l) := by
  obtain ⟨hhost, -, hprotocol⟩ := hp.remote hremote
  -- a host that is empty would be a local one
  have hne : p.nameSpace.url.host.isEmpty = false := by
    by_contra hnil
    rw [Bool.not_eq_false, List.isEmpty_iff] at hnil
    rw [← hhost, URLData.setLocalHost, hnil] at hremote
    cases hremote
  obtain ⟨w, hw⟩ := p.tailText_eq_concat k v l
  have htext : toString R p = (if p.nameSpace.url.protocol.isEmpty then ascii ['H', 'T', 'T', 'P']
      else p.nameSpace.url.protocol) ++ 58 :: 47 :: 47 :: (p.nameSpace.url.host ++
        (if p.nameSpace.url.port ≠ 5988 then 58 :: Blocxx.int32Text R p.nameSpace.url.port
          else []) ++
          47 :: w) ++ [34] := by
    have hmodel := modelPath_eq hpairs
    rw [hw] at hmodel
    simp only [toString, hremote, hne, Bool.false_eq_true, if_false, append_assoc,
      cons_append, hmodel]
    rfl
  have hscheme : ¬ schemeEnd <:+: (if p.nameSpace.url.protocol.isEmpty
      then ascii ['H', 'T', 'T', 'P']
      else p.nameSpace.url.protocol) := by
    split
    · decide
    · exact hprotocol
  rw [htext]
  generalize (if p.nameSpace.url.protocol.isEmpty then ascii ['H', 'T', 'T', 'P']
    else p.nameSpace.url.protocol) = protocol at hscheme ⊢
  refine ⟨protocol.dropWhile isSpace, fun h => hscheme (h.trans (dropWhile_suffix _).isInfix), ?_⟩
  rw [trim_concat rfl, dropWhile_append_cons rfl, hw]
  simp [schemeEnd]

/-- A path that is not local is read back if its host has no slash and no colon. -/
lemma Printable.parse_remote (hd : Blocxx.Decimal R) (hp : p.Printable)
    (hpairs : p.keyPairs = ((k, v) :: l).map textPair) (hl : ∀ q ∈ (k, v) :: l, IsIdentifier q.1)
    (hremote : p.nameSpace.url.localHost = false) (h47 : 47 ∉ p.nameSpace.url.host)
    (h58 : 58 ∉ p.nameSpace.url.host) :
    ∃ url, url.host = p.nameSpace.url.host ∧ url.port = p.nameSpace.url.port ∧
      parse R (toString R p) = .ok (some ⟨⟨p.nameSpace.nameSpace, url⟩, p.objectName,
        ((k, v) :: l).map fun q => stringKey q.1 q.2⟩) := by
  obtain ⟨hhost, hpos, -⟩ := hp.remote hremote
  obtain ⟨protocol, hscheme, htext⟩ := hp.toString_remote (R := R) hpairs hremote
  have hparseHost : parseHost R (p.nameSpace.url.host ++
      (if p.nameSpace.url.port ≠ 5988 then 58 :: Blocxx.int32Text R p.nameSpace.url.port else [])) =
      .ok (p.nameSpace.url.host, p.nameSpace.url.port) := by
    rw [parseHost]
    by_cases hport : p.nameSpace.url.port = 5988
    · rw [if_neg (not_not.mpr hport), append_nil, cutAt_eq_none h58, hport]
    · rw [if_pos hport, cutAt_append _ h58]
      dsimp only
      rw [hd.toInt32 _ hpos]
  have hslash : 47 ∉ p.nameSpace.url.host ++
      (if p.nameSpace.url.port ≠ 5988 then 58 :: Blocxx.int32Text R p.nameSpace.url.port
        else []) := by
    have hdigit : 47 ∉ Blocxx.int32Text R p.nameSpace.url.port := fun hm =>
      absurd (hd.digits _ hpos 47 hm).1 (by decide)
    split <;> simp [h47, hdigit]
  have hurl : parseUrl R (toString R p) (trim (toString R p)) =
      .ok (URLData.ofParts R protocol p.nameSpace.url.host [] p.nameSpace.url.port,
        p.tailText k v l) := by
    rw [htext, parseUrl, show ascii [':', '/', '/'] = schemeEnd from rfl,
      cutAtString_schemeEnd _ hscheme]
    dsimp only
    rw [cutAt_append _ hslash]
    dsimp only
    rw [hparseHost]
    rfl
  refine ⟨_, ?_, URLData.port_ofParts R _ _ _ hpos, hp.parse_of_parseUrl hl ?_ hurl⟩
  · rw [URLData.host_ofParts]
    exact congrArg URLData.host hhost
  · rw [htext]
    simp

/-- A path that has been read has no slash and no colon in its host. -/
lemma host_of_parse (h : parse R arg = .ok (some p)) :
    47 ∉ p.nameSpace.url.host ∧ 58 ∉ p.nameSpace.url.host := by
  obtain ⟨rest, values, l, hurl, -⟩ := of_parse_eq_some h
  obtain ⟨⟨host, port, protocol, h47, h58, hu⟩, -⟩ := of_parseUrl_eq_ok hurl
  rw [hu, URLData.host_ofParts]
  exact ⟨not_mem_localForm h47 (by decide), not_mem_localForm h58 (by decide)⟩

end Remote

end Reading

end OPData

open OPData

/-- The namespace `root`. -/
def rootText : ByteStr := ascii ['r', 'o', 'o', 't']

/-- A path in the namespace `root`, with a key of the class `C`. -/
def pathTo (host : ByteStr) (port : Int32) (value : ByteStr) : OPData ByteStr :=
  ⟨⟨rootText, URLData.ofParts Unit (ascii ['h', 't', 't', 'p']) host [] port⟩, ascii ['C'],
    [stringKey (ascii ['k']) value]⟩

/-- The path of an object on another host. -/
def remotePath : OPData ByteStr := pathTo (ascii ['h']) 80 (ascii [':', '/', '/', ',', '"', '='])

/-- The samples are printable. -/
lemma printable_pathTo {value : ByteStr}
    (h : (pathTo host port value).nameSpace.url.localHost = false →
      (pathTo host port value).nameSpace.url.setLocalHost = (pathTo host port value).nameSpace.url ∧
        0 < (pathTo host port value).nameSpace.url.port ∧
          ¬ schemeEnd <:+: (pathTo host port value).nameSpace.url.protocol) :
    (pathTo host port value).Printable where
  ns_trim := (by decide : trim rootText = rootText)
  ns_slash := (by decide : rootText.head? ≠ some 47)
  ns_colon := (by decide : 58 ∉ rootText)
  ns_nul := (by decide : 0 ∉ rootText)
  className := (by decide +kernel : IsIdentifier (ascii ['C']))
  keys_ne := cons_ne_nil _ _
  keyName := by
    intro k hk
    obtain rfl := mem_singleton.mp hk
    exact (by decide +kernel : IsIdentifier (ascii ['k']))
  keyValue := by
    intro k hk
    obtain rfl := mem_singleton.mp hk
    exact Option.some_ne_none _
  remote := h

/-- A path on this host, with a URL as the value of its key. -/
def urlValuePath : OPData ByteStr :=
  pathTo (ascii ['l', 'o', 'c', 'a', 'l', 'h', 'o', 's', 't']) 5988
    (ascii ['a', ':', '/', '/', 'b', '/', 'c'])

/-- **A key with a URL** makes the path unreadable. -/
lemma parse_urlValuePath : parse Unit (toString Unit urlValuePath) = .error (.invalidParameter
      (ascii "class name not found in instance name: /root:C.k=\"a://b/c\"".toList)) := by
  decide +kernel

end OpenWbem
