import CdvizCollector.Lib.Text

/-!
Names, values and maps of HTTP headers, and URLs.

The header types follow the `http` crate. A name is a token in lowercase, so
two names are the same exactly when they are equal here. A header map is the
list of its lines: a name may have several, in the order they arrived, and the
order of the lines of one name is the only one any operation observes.

Of a URL, the parts are kept that decide its origin and its query.
-/

namespace CdvizCollector.Lib.Http

/-! ### Header names -/

/-- The characters of a token, lowercase letters only. -/
def isNameChar (c : Char) : Bool :=
  c.isLower || c.isDigit || c ∈ "!#$%&'*+-.^_`|~".toList

/-- `HeaderName`: a non-empty token of at most 65535 bytes. -/
structure HeaderName where
  name : String
  valid : name ≠ "" ∧ name.toList.length ≤ 65535 ∧ name.toList.all isNameChar = true
deriving DecidableEq

/-- `HeaderName::from_str`, which converts to lowercase. -/
def HeaderName.fromStr (s : String) : Option HeaderName :=
  let name := Text.toAsciiLowercase s
  if h : name ≠ "" ∧ name.toList.length ≤ 65535 ∧ name.toList.all isNameChar = true then
    some ⟨name, h⟩
  else none

theorem toLower_of_isNameChar {c : Char} (h : isNameChar c = true) : c.toLower = c := by
  have hnot : ¬(c.val ≥ 'A'.val ∧ c.val ≤ 'Z'.val) := by
    intro ⟨hge, hle⟩
    have hsymbols : "!#$%&'*+-.^_`|~".toList.all
        (fun s => !('A'.val ≤ s.val && s.val ≤ 'Z'.val)) = true := rfl
    simp only [isNameChar, Bool.or_eq_true, decide_eq_true_eq] at h
    have hA : 'A'.val.toNat = 65 := rfl
    have hZ : 'Z'.val.toNat = 90 := rfl
    have ha : 'a'.val.toNat = 97 := rfl
    have h9 : '9'.val.toNat = 57 := rfl
    have hge' := UInt32.le_iff_toNat_le.mp hge
    have hle' := UInt32.le_iff_toNat_le.mp hle
    rcases h with (hlower | hdigit) | hmem
    · have hbounds : (decide (c.val ≥ 'a'.val) && decide (c.val ≤ 'z'.val)) = true := hlower
      have hfirst := of_decide_eq_true (Bool.and_eq_true_iff.mp hbounds).1
      have := UInt32.le_iff_toNat_le.mp hfirst
      omega
    · have hbounds : (decide (c.val ≥ '0'.val) && decide (c.val ≤ '9'.val)) = true := hdigit
      have hlast := of_decide_eq_true (Bool.and_eq_true_iff.mp hbounds).2
      have := UInt32.le_iff_toNat_le.mp hlast
      omega
    · have hsymbol := List.all_eq_true.mp hsymbols c hmem
      rw [decide_eq_true hge, decide_eq_true hle] at hsymbol
      contradiction
  exact dif_neg hnot

/-- A name is its own lowercase. -/
theorem HeaderName.fromStr_name (name : HeaderName) : HeaderName.fromStr name.name = some name := by
  obtain ⟨text, hvalid⟩ := name
  have hlower : Text.toAsciiLowercase text = text := by
    apply String.toList_injective
    rw [Text.toAsciiLowercase, String.toList_ofList]
    refine (List.map_congr_left fun c hc => ?_).trans (List.map_id _)
    exact toLower_of_isNameChar (List.all_eq_true.mp hvalid.2.2 c hc)
  simp only [HeaderName.fromStr, hlower]
  exact dif_pos hvalid
/-! ### Header values -/

/-- What a header value may hold: no control character but the tab. -/
def isValueByte (b : UInt8) : Bool := (32 ≤ b && b ≠ 127) || b = 9

def isVisibleAscii (b : UInt8) : Bool := (32 ≤ b && b < 127) || b = 9

/-- `HeaderValue`. The sensitive flag is not part of what is compared or sent. -/
structure HeaderValue where
  bytes : List UInt8
  sensitive : Bool
  valid : bytes.all isValueByte = true
deriving DecidableEq

/-- `HeaderValue::from_str`. -/
def HeaderValue.fromStr (s : String) : Option HeaderValue :=
  if h : (Text.utf8 s).all isValueByte = true then
    some { bytes := Text.utf8 s, sensitive := false, valid := h }
  else none

/-- `HeaderValue::to_str`, which fails on a byte that is not visible ASCII. -/
def HeaderValue.toStr (v : HeaderValue) : Option String :=
  if v.bytes.all isVisibleAscii then
    some (String.ofList (v.bytes.map fun b => Char.ofNat b.toNat))
  else none

/-- `HeaderValue::is_empty`. -/
def HeaderValue.isEmpty (v : HeaderValue) : Bool := v.bytes.isEmpty

theorem HeaderValue.exists_fromStr_iff {s : String} :
    (∃ value, HeaderValue.fromStr s = some value) ↔ (Text.utf8 s).all isValueByte = true := by
  unfold HeaderValue.fromStr
  by_cases h : (Text.utf8 s).all isValueByte = true
  · simp [h]
  · rw [dif_neg h]
    exact iff_of_false (by simp) h

theorem HeaderValue.bytes_of_fromStr {s : String} {value : HeaderValue}
    (h : HeaderValue.fromStr s = some value) : value.bytes = Text.utf8 s := by
  unfold HeaderValue.fromStr at h
  split at h
  · rw [← Option.some.inj h]
  · cases h

theorem isValueByte_of_isVisibleAscii {b : UInt8} (h : isVisibleAscii b = true) :
    isValueByte b = true := by
  simp only [isVisibleAscii, isValueByte, Bool.or_eq_true, Bool.and_eq_true, decide_eq_true_eq,
    ne_eq, decide_not, Bool.not_eq_true', decide_eq_false_iff_not] at h ⊢
  rcases h with ⟨hle, hlt⟩ | htab
  · exact .inl ⟨hle, UInt8.ne_of_lt hlt⟩
  · exact .inr htab

theorem toNat_lt_of_isVisibleAscii {b : UInt8} (h : isVisibleAscii b = true) : b.toNat < 128 := by
  simp only [isVisibleAscii, Bool.or_eq_true, Bool.and_eq_true, decide_eq_true_eq,
    UInt8.le_iff_toNat_le, UInt8.lt_iff_toNat_lt] at h
  rcases h with ⟨-, hlt⟩ | rfl
  · have : (127 : UInt8).toNat = 127 := rfl
    omega
  · decide

/-- A value has a text when its bytes are visible ASCII, and these are its bytes. -/
theorem HeaderValue.toStr_eq_some_iff {v : HeaderValue} {text : String} :
    v.toStr = some text ↔ v.bytes.all isVisibleAscii = true ∧ Text.utf8 text = v.bytes := by
  have hutf8 : v.bytes.all isVisibleAscii = true →
      Text.utf8 (Text.ofAscii v.bytes) = v.bytes := fun hall =>
    Text.utf8_ofAscii fun b hb => toNat_lt_of_isVisibleAscii (List.all_eq_true.mp hall b hb)
  unfold HeaderValue.toStr
  by_cases hall : v.bytes.all isVisibleAscii = true
  · rw [if_pos hall, ← Text.ofAscii, Option.some.injEq]
    constructor
    · rintro rfl
      exact ⟨hall, hutf8 hall⟩
    · rintro ⟨-, htext⟩
      exact Text.utf8_injective ((hutf8 hall).trans htext.symm)
  · rw [if_neg hall]
    exact iff_of_false (by simp) fun h => hall h.1

/-- The text of a value determines its bytes. -/
theorem HeaderValue.bytes_of_toStr {v w : HeaderValue} {text : String} (hv : v.toStr = some text)
    (hw : w.toStr = some text) : v.bytes = w.bytes :=
  (toStr_eq_some_iff.mp hv).2.symm.trans (toStr_eq_some_iff.mp hw).2

theorem HeaderValue.toStr_congr {v w : HeaderValue} (h : v.bytes = w.bytes) :
    v.toStr = w.toStr := by
  simp only [HeaderValue.toStr, h]

/-! ### Header maps -/

/-- `HeaderMap`, by lines. -/
abbrev HeaderMap := List (HeaderName × HeaderValue)

/-- The values of a name, in order. -/
def HeaderMap.getAll (headers : HeaderMap) (name : HeaderName) : List HeaderValue :=
  headers.filterMap fun line => if line.1 = name then some line.2 else none

/-- `HeaderMap::get`: the first value of a name. -/
def HeaderMap.get (headers : HeaderMap) (name : HeaderName) : Option HeaderValue :=
  (headers.getAll name).head?

/-- `HeaderMap::get` with a string, which finds nothing when it is no name. -/
def HeaderMap.getStr (headers : HeaderMap) (name : String) : Option HeaderValue :=
  (HeaderName.fromStr name).bind headers.get

theorem getStr_of_fromStr {headers : HeaderMap} {header : String} {name : HeaderName}
    (h : HeaderName.fromStr header = some name) : headers.getStr header = headers.get name := by
  rw [HeaderMap.getStr, h, Option.bind_some]

/-- `HeaderMap::insert`: the values of the name are replaced. -/
def HeaderMap.insert (headers : HeaderMap) (name : HeaderName) (value : HeaderValue) : HeaderMap :=
  headers.filter (fun line => line.1 ≠ name) ++ [(name, value)]

/-- `HeaderMap::remove`: all values of the name go. -/
def HeaderMap.remove (headers : HeaderMap) (name : HeaderName) : HeaderMap :=
  headers.filter fun line => line.1 ≠ name

/-- The names of the lines. -/
def HeaderMap.names (headers : HeaderMap) : List HeaderName := headers.map Prod.fst

/-- `replace_headers` of the HTTP client: every name of `src` is replaced. -/
def HeaderMap.replace (dst src : HeaderMap) : HeaderMap :=
  dst.filter (fun line => ¬src.any fun new => new.1 = line.1) ++ src

@[simp] theorem HeaderMap.getAll_nil (name : HeaderName) : HeaderMap.getAll [] name = [] := rfl

theorem HeaderMap.getAll_cons (line : HeaderName × HeaderValue) (headers : HeaderMap)
    (name : HeaderName) : HeaderMap.getAll (line :: headers) name =
      if line.1 = name then line.2 :: headers.getAll name else headers.getAll name := by
  unfold HeaderMap.getAll
  split <;> rename_i h <;> simp [h]

theorem HeaderMap.getAll_reverse (headers : HeaderMap) (name : HeaderName) :
    HeaderMap.getAll headers.reverse name = (headers.getAll name).reverse :=
  List.filterMap_reverse

theorem HeaderMap.getAll_append (headers headers' : HeaderMap) (name : HeaderName) :
    HeaderMap.getAll (headers ++ headers') name = headers.getAll name ++ headers'.getAll name :=
  List.filterMap_append

/-- Lines of other names do not matter. -/
theorem HeaderMap.getAll_filter {p : HeaderName → Bool} {name : HeaderName}
    (hp : p name = true) (headers : HeaderMap) :
    HeaderMap.getAll (headers.filter fun line => p line.1) name = headers.getAll name := by
  induction headers with
  | nil => rfl
  | cons line headers ih =>
      rw [List.filter_cons]
      by_cases hline : p line.1 = true
      · rw [if_pos hline, getAll_cons, getAll_cons, ih]
      · have hne : line.1 ≠ name := by
          rintro rfl
          exact hline hp
        rw [if_neg hline, getAll_cons, if_neg hne, ih]

theorem HeaderMap.getAll_insert_self (headers : HeaderMap) (name : HeaderName)
    (value : HeaderValue) : (headers.insert name value).getAll name = [value] := by
  have hnone : HeaderMap.getAll (headers.filter fun line => line.1 ≠ name) name = [] := by
    refine List.filterMap_eq_nil_iff.mpr fun line hmem => if_neg ?_
    simpa using (List.mem_filter.mp hmem).2
  rw [insert, getAll_append, hnone, List.nil_append, getAll_cons, if_pos rfl, getAll_nil]

theorem HeaderMap.getAll_insert_of_ne {name name' : HeaderName} (hne : name' ≠ name)
    (headers : HeaderMap) (value : HeaderValue) :
    (headers.insert name value).getAll name' = headers.getAll name' := by
  rw [insert, getAll_append, getAll_cons, if_neg hne.symm, getAll_nil, List.append_nil,
    getAll_filter (p := fun n => decide (n ≠ name)) (decide_eq_true hne)]

theorem HeaderMap.get_eq_of_getAll {headers headers' : HeaderMap} {name : HeaderName}
    (h : headers'.getAll name = headers.getAll name) : headers'.get name = headers.get name := by
  rw [get, get, h]

theorem HeaderMap.getAll_eq_nil_iff {headers : HeaderMap} {name : HeaderName} :
    headers.getAll name = [] ↔ name ∉ headers.names := by
  simp only [getAll, names, List.filterMap_eq_nil_iff, ite_eq_right_iff, reduceCtorEq, imp_false,
    List.mem_map, not_exists, not_and]

/-- A name that is replaced has the values it is replaced by. -/
theorem HeaderMap.getAll_replace (dst : HeaderMap) {src : HeaderMap} {name : HeaderName}
    (h : name ∈ src.names) : (dst.replace src).getAll name = src.getAll name := by
  have hany : (src.any fun new => new.1 = name) = true := by
    obtain ⟨line, hline, rfl⟩ := List.mem_map.mp h
    exact List.any_eq_true.mpr ⟨line, hline, by simp⟩
  have hnone : HeaderMap.getAll
      (dst.filter fun line => ¬src.any fun new => new.1 = line.1) name = [] := by
    refine List.filterMap_eq_nil_iff.mpr fun line hmem => if_neg ?_
    rintro rfl
    simpa [hany] using (List.mem_filter.mp hmem).2
  rw [replace, getAll_append, hnone, List.nil_append]

@[simp] theorem HeaderMap.get_insert_self (headers : HeaderMap) (name : HeaderName)
    (value : HeaderValue) : (headers.insert name value).get name = some value := by
  rw [get, getAll_insert_self]
  rfl

theorem HeaderMap.get_insert_of_ne {name name' : HeaderName} (hne : name' ≠ name)
    (headers : HeaderMap) (value : HeaderValue) :
    (headers.insert name value).get name' = headers.get name' :=
  get_eq_of_getAll (getAll_insert_of_ne hne headers value)

@[simp] theorem HeaderMap.mem_remove {headers : HeaderMap} {name : HeaderName}
    {line : HeaderName × HeaderValue} :
    line ∈ headers.remove name ↔ line ∈ headers ∧ line.1 ≠ name := by
  simp [HeaderMap.remove]

theorem HeaderMap.mem_names {headers : HeaderMap} {name : HeaderName} :
    name ∈ headers.names ↔ ∃ value, (name, value) ∈ headers := by
  simp [HeaderMap.names]

/-- Removing the names of a list, one after the other. -/
theorem HeaderMap.mem_foldl_remove {names : List HeaderName} {headers : HeaderMap}
    {line : HeaderName × HeaderValue} :
    line ∈ names.foldl HeaderMap.remove headers ↔ line ∈ headers ∧ line.1 ∉ names := by
  induction names generalizing headers with
  | nil => simp
  | cons name names ih =>
      rw [List.foldl_cons, ih, mem_remove, List.mem_cons, not_or, and_assoc]

/-! ### URLs -/

/-- `url::Host`. -/
inductive Host where
  | domain (name : String)
  | ipv4 (addr : UInt32)
  | ipv6 (addr : BitVec 128)
deriving DecidableEq, Repr

/-- `url::Url`, by its components. -/
structure Url where
  scheme : String
  userInfo : String
  host : Option Host
  port : Option UInt16
  path : String
  query : Option String
  fragment : Option String
deriving DecidableEq, Repr

/-- The root of a site on its default port. -/
def siteRoot (scheme host : String) : Url :=
  { scheme, userInfo := "", host := some (.domain host), port := none, path := "/",
    query := none, fragment := none }

/-- The default port of the special schemes. -/
def defaultPort (scheme : String) : Option UInt16 :=
  if scheme = "http" ∨ scheme = "ws" then some 80
  else if scheme = "https" ∨ scheme = "wss" then some 443
  else if scheme = "ftp" then some 21
  else none

def Url.portOrKnownDefault (url : Url) : Option UInt16 := url.port.or (defaultPort url.scheme)

def hexDigit (n : ℕ) : Char := ("0123456789ABCDEF".toList[n]?).getD '0'

/-- `form_urlencoded::byte_serialize`, one byte. -/
def serializeByte (b : UInt8) : List Char :=
  let c := Char.ofNat b.toNat
  if c.isAlphanum || c ∈ "*-._".toList then [c]
  else if c = ' ' then ['+']
  else ['%', hexDigit (b.toNat / 16), hexDigit (b.toNat % 16)]

def byteSerialize (s : String) : String := String.ofList ((Text.utf8 s).flatMap serializeByte)

/-- `query_pairs_mut().append_pair`. -/
def Url.appendPair (url : Url) (key value : String) : Url :=
  let before := url.query.getD ""
  { url with
    query := some (before ++ (if before = "" then "" else "&") ++
      byteSerialize key ++ "=" ++ byteSerialize value) }

example : byteSerialize "a b&é" = "a+b%26%C3%A9" := by decide

end CdvizCollector.Lib.Http
