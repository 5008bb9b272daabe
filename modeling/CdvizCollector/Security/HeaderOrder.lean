import Mathlib.Data.List.Induction
import Mathlib.Data.List.Nodup
import CdvizCollector.Security.Header
import CdvizCollector.Security.SignatureCheck

/-!
Outgoing headers and the order of their entries.

The entries of `OutgoingHeaderMap` come in the order of a hash map. A static or
secret entry generates the same value wherever it stands. A signature is
computed on the headers generated before it, so it depends on the order as soon
as another entry sets a header it covers, unless the request carries the same
value already.
-/

namespace CdvizCollector.Security

open Lib Lib.Http

/-! ### One entry -/

def OutgoingHeaderConfig.signature? (config : OutgoingHeaderConfig) : Option SignatureConfig :=
  match config.rule with
  | .signature token tokenEncoding signaturePrefix signatureOn signatureEncoding =>
      some
        { header := config.header, token, tokenEncoding, signaturePrefix, signatureOn,
          signatureEncoding }
  | _ => none

/-- `config` generates the line `name: value` for a body and a header map. -/
def OutgoingHeaderConfig.Generates (C : Crypto) (body : List UInt8) (headers : HeaderMap)
    (config : OutgoingHeaderConfig) (name : HeaderName) (value : HeaderValue) : Prop :=
  HeaderName.fromStr config.header = some name ∧
    generateHeaderValueWithContext C config body headers = .ok value

/-- An entry reads the headers only through the payload of its signature. -/
theorem generateHeaderValue_congr {C : Crypto} {config : OutgoingHeaderConfig} (body : List UInt8)
    {headers headers' : HeaderMap} (h : ∀ signature ∈ config.signature?,
      payloadPrefix signature.signatureOn headers' =
        payloadPrefix signature.signatureOn headers) :
    generateHeaderValueWithContext C config body headers' =
      generateHeaderValueWithContext C config body headers := by
  cases hrule : config.rule with
  | static value start stop => simp only [generateHeaderValueWithContext, hrule]
  | secret value start stop => simp only [generateHeaderValueWithContext, hrule]
  | signature token tokenEncoding signaturePrefix signatureOn signatureEncoding =>
      have hpayload : payloadPrefix signatureOn headers' = payloadPrefix signatureOn headers :=
        h { header := config.header, token, tokenEncoding, signaturePrefix, signatureOn,
            signatureEncoding } (by simp only [OutgoingHeaderConfig.signature?, hrule]; rfl)
      simp only [generateHeaderValueWithContext, hrule, buildSignature, buildMac, hpayload]

theorem generateHeaderValue_signature {C : Crypto} {config : OutgoingHeaderConfig}
    {signature : SignatureConfig} (hsignature : config.signature? = some signature)
    (body : List UInt8) (headers : HeaderMap) (value : HeaderValue) :
    generateHeaderValueWithContext C config body headers = .ok value ↔
      ∃ text, buildSignature C signature headers body = .ok text ∧
        HeaderValue.fromStr text = some value := by
  cases hrule : config.rule with
  | static value start stop => simp [OutgoingHeaderConfig.signature?, hrule] at hsignature
  | secret value start stop => simp [OutgoingHeaderConfig.signature?, hrule] at hsignature
  | signature token tokenEncoding signaturePrefix signatureOn signatureEncoding =>
      simp only [OutgoingHeaderConfig.signature?, hrule, Option.some.injEq] at hsignature
      simp only [generateHeaderValueWithContext, hrule, hsignature]
      cases hbuild : buildSignature C signature headers body with
      | error e => simp [bind, Except.bind]
      | ok text =>
          cases hvalue : HeaderValue.fromStr text with
          | none =>
              simp [bind, Except.bind, hvalue, throw, throwThe, MonadExceptOf.throw]
          | some v => simp [bind, Except.bind, pure, Except.pure, hvalue]

/-- Whether an entry can be generated does not depend on the headers. -/
theorem OutgoingHeaderConfig.Generates.exists_on {C : Crypto} (hC : C.Lawful) {body : List UInt8}
    {headers : HeaderMap} {config : OutgoingHeaderConfig} {name : HeaderName} {value : HeaderValue}
    (h : config.Generates C body headers name value) (headers' : HeaderMap) :
    ∃ value', config.Generates C body headers' name value' := by
  cases hsignature : config.signature? with
  | none =>
      have hcongr : generateHeaderValueWithContext C config body headers' =
          generateHeaderValueWithContext C config body headers :=
        generateHeaderValue_congr body (by simp [hsignature])
      exact ⟨value, h.1, hcongr.trans h.2⟩
  | some signature =>
      obtain ⟨text, hbuild, hvalue⟩ := (generateHeaderValue_signature hsignature body _ _).mp h.2
      obtain ⟨key, hkey, rfl⟩ := buildSignature_eq_ok_iff.mp hbuild
      have hbytes := HeaderValue.exists_fromStr_iff.mp ⟨value, hvalue⟩
      rw [SignatureConfig.text, Text.utf8_append, List.all_append, Bool.and_eq_true] at hbytes
      -- only the encoded part depends on the headers, and it is always visible
      have hvalid : (Text.utf8 (signature.text C key
          (payloadPrefix signature.signatureOn headers' ++ body))).all isValueByte = true := by
        rw [SignatureConfig.text, Text.utf8_append, List.all_append, hbytes.1,
          all_isValueByte (hC.visible (hC.roundTrip _ _))]
        rfl
      obtain ⟨value', hvalue'⟩ := HeaderValue.exists_fromStr_iff.mpr hvalid
      exact ⟨value', h.1, (generateHeaderValue_signature hsignature body _ _).mpr
        ⟨_, buildSignature_eq_ok_iff.mpr ⟨key, hkey, rfl⟩, hvalue'⟩⟩

/-! ### A list of entries -/

section Entries

variable {C : Crypto} {body : List UInt8} {headers result : HeaderMap}
  {configs : List OutgoingHeaderConfig}

theorem generate_cons_eq_ok_iff {config : OutgoingHeaderConfig} :
    generateHeadersWithExisting C (config :: configs) body headers = .ok result ↔
      ∃ name value, config.Generates C body headers name value ∧
        generateHeadersWithExisting C configs body (headers.insert name value) = .ok result := by
  unfold generateHeadersWithExisting OutgoingHeaderConfig.Generates
  rw [List.foldlM_cons]
  cases hname : HeaderName.fromStr config.header with
  | none => simp [bind, Except.bind]
  | some name =>
      cases hvalue : generateHeaderValueWithContext C config body headers with
      | error e => simp [bind, Except.bind]
      | ok value => simp [bind, Except.bind, pure, Except.pure]

theorem generate_append_eq_ok_iff {l l' : List OutgoingHeaderConfig} :
    generateHeadersWithExisting C (l ++ l') body headers = .ok result ↔
      ∃ middle, generateHeadersWithExisting C l body headers = .ok middle ∧
        generateHeadersWithExisting C l' body middle = .ok result := by
  induction l generalizing headers with
  | nil =>
      have hnil : generateHeadersWithExisting C [] body headers = .ok headers := rfl
      simp only [List.nil_append, hnil, Except.ok.injEq, exists_eq_left']
  | cons config l ih =>
      simp only [List.cons_append, generate_cons_eq_ok_iff, ih]
      constructor
      · rintro ⟨name, value, hentry, middle, hmiddle, hrest⟩
        exact ⟨middle, ⟨name, value, hentry, hmiddle⟩, hrest⟩
      · rintro ⟨middle, ⟨name, value, hentry, hmiddle⟩, hrest⟩
        exact ⟨name, value, hentry, middle, hmiddle, hrest⟩

theorem getAll_generate (h : generateHeadersWithExisting C configs body headers = .ok result)
    {name : HeaderName} (hne : ∀ config ∈ configs, HeaderName.fromStr config.header ≠ some name) :
    result.getAll name = headers.getAll name := by
  induction configs generalizing headers with
  | nil => rw [← Except.ok.inj h]
  | cons config configs ih =>
      obtain ⟨name', value, ⟨hname', -⟩, hrest⟩ := generate_cons_eq_ok_iff.mp h
      have hdiff : name ≠ name' := by
        rintro rfl
        exact hne config List.mem_cons_self hname'
      rw [ih hrest fun config' hmem => hne config' (List.mem_cons_of_mem _ hmem),
        HeaderMap.getAll_insert_of_ne hdiff]

def Wellformed (C : Crypto) (body : List UInt8) (headers : HeaderMap)
    (configs : List OutgoingHeaderConfig) : Prop :=
  ∀ config ∈ configs, ∃ name value, config.Generates C body headers name value

theorem exists_generate_iff (hC : C.Lawful) (existing : HeaderMap) :
    (∃ result, generateHeadersWithExisting C configs body headers = .ok result) ↔
      Wellformed C body existing configs := by
  induction configs generalizing headers with
  | nil => exact iff_of_true ⟨headers, rfl⟩ (by simp [Wellformed])
  | cons config configs ih =>
      simp only [generate_cons_eq_ok_iff, Wellformed, List.forall_mem_cons] at ih ⊢
      constructor
      · rintro ⟨result, name, value, hentry, hrest⟩
        obtain ⟨value', hentry'⟩ := hentry.exists_on hC existing
        exact ⟨⟨name, value', hentry'⟩, ih.mp ⟨result, hrest⟩⟩
      · rintro ⟨⟨name, value, hentry⟩, hrest⟩
        obtain ⟨value', hentry'⟩ := hentry.exists_on hC headers
        obtain ⟨result, hresult⟩ : ∃ result, generateHeadersWithExisting C configs body
            (headers.insert name value') = .ok result := ih.mpr hrest
        exact ⟨result, name, value', hentry', hresult⟩

end Entries

/-! ### Orders -/

/-- `OutgoingHeaderMap`: the entries of a hash map, in one of the orders it may
list them in. -/
structure OutgoingHeaderMap where
  entries : List (String × HeaderSource)
  nodup : (entries.map Prod.fst).Nodup

/-- `outgoing_header_map_to_configs`, of the entries in the order they are listed. -/
def outgoingHeaderMapToConfigs (entries : List (String × HeaderSource)) :
    List OutgoingHeaderConfig :=
  entries.map fun entry => { header := entry.1, rule := entry.2 }

/-- The same header map, or no header map at all. -/
def SameHeaders : Except HeaderError HeaderMap → Except HeaderError HeaderMap → Prop
  | .ok headers, .ok headers' => ∀ name, headers'.getAll name = headers.getAll name
  | .error _, .error _ => True
  | _, _ => False

def OrderFree (C : Crypto) (map : OutgoingHeaderMap) (body : List UInt8) (existing : HeaderMap) :
    Prop :=
  ∀ order, order.Perm map.entries → SameHeaders
    (generateHeadersWithExisting C (outgoingHeaderMapToConfigs map.entries) body existing)
    (generateHeadersWithExisting C (outgoingHeaderMapToConfigs order) body existing)

def coveredBytes (separator : String) : Option HeaderValue → List UInt8
  | some value => value.bytes ++ Text.utf8 separator
  | none => []

theorem payloadPrefix_headersThenBody (separator : String) (listed : List String)
    (headers : HeaderMap) :
    payloadPrefix (.headersThenBody separator listed) headers =
      listed.flatMap fun header => coveredBytes separator (headers.getStr header) := by
  simp only [payloadPrefix]
  refine List.flatMap_congr fun header _ => ?_
  cases headers.getStr header <;> rfl

/-- The entries do not get in each other's way: those of one name, in whatever
case, agree on its value, and what a signature covers is set by another entry
only to what the request has there already. -/
structure Settled (C : Crypto) (body : List UInt8) (existing : HeaderMap)
    (configs : List OutgoingHeaderConfig) : Prop where
  sameName : ∀ t ∈ configs, ∀ u ∈ configs, ∀ name v w,
    t.Generates C body existing name v → u.Generates C body existing name w → v = w
  covered : ∀ t ∈ configs, ∀ u ∈ configs, t ≠ u → ∀ signature ∈ t.signature?,
    ∀ separator listed, signature.signatureOn = .headersThenBody separator listed →
      ∀ header ∈ listed, ∀ name value, HeaderName.fromStr header = some name →
        u.Generates C body existing name value →
          coveredBytes separator (some value) = coveredBytes separator (existing.get name)

/-- Every header is the one of an entry, or the one of the request. -/
def FromEntries (C : Crypto) (body : List UInt8) (existing : HeaderMap)
    (configs : List OutgoingHeaderConfig) (result : HeaderMap) : Prop :=
  ∀ name,
    (∀ u ∈ configs, ∀ value, u.Generates C body existing name value →
      result.getAll name = [value]) ∧
    ((∀ u ∈ configs, HeaderName.fromStr u.header ≠ some name) →
      result.getAll name = existing.getAll name)

section Settled

variable {C : Crypto} {body : List UInt8} {existing : HeaderMap}
  {configs : List OutgoingHeaderConfig}

/-- After other entries, a signature still covers what it covers on the request. -/
theorem Settled.payload_eq (hset : Settled C body existing configs)
    (hwf : Wellformed C body existing configs) {l : List OutgoingHeaderConfig}
    {result : HeaderMap} (hsub : l ⊆ configs) (hfrom : FromEntries C body existing l result)
    {t : OutgoingHeaderConfig} (ht : t ∈ configs) (hnew : t ∉ l) :
    ∀ signature ∈ t.signature?,
      payloadPrefix signature.signatureOn result =
        payloadPrefix signature.signatureOn existing := by
  intro signature hsignature
  cases hon : signature.signatureOn with
  | body => rfl
  | headersThenBody separator listed =>
      rw [payloadPrefix_headersThenBody, payloadPrefix_headersThenBody]
      refine List.flatMap_congr fun header hmem => ?_
      cases hname : HeaderName.fromStr header with
      | none => rw [HeaderMap.getStr, HeaderMap.getStr, hname]; rfl
      | some name =>
          rw [getStr_of_fromStr hname, getStr_of_fromStr hname]
          by_cases hentry : ∃ u ∈ l, HeaderName.fromStr u.header = some name
          · obtain ⟨u, hu, huname⟩ := hentry
            obtain ⟨name', value, hgen⟩ := hwf u (hsub hu)
            obtain rfl : name = name' := Option.some.inj (huname.symm.trans hgen.1)
            have hne : t ≠ u := fun heq => hnew (heq ▸ hu)
            have hget : result.get name = some value := by
              rw [HeaderMap.get, (hfrom name).1 u hu value hgen]
              rfl
            rw [hget]
            exact hset.covered t ht u (hsub hu) hne signature hsignature separator listed hon
              header hmem name value hname hgen
          · have hnone : ∀ u ∈ l, HeaderName.fromStr u.header ≠ some name :=
              fun u hu huname => hentry ⟨u, hu, huname⟩
            rw [HeaderMap.get_eq_of_getAll ((hfrom name).2 hnone)]

/-- Settled entries generate their own values, whichever of them come first. -/
theorem Settled.generate (hset : Settled C body existing configs)
    (hwf : Wellformed C body existing configs) {l : List OutgoingHeaderConfig} (hnodup : l.Nodup)
    (hsub : l ⊆ configs) :
    ∃ result, generateHeadersWithExisting C l body existing = .ok result ∧
      FromEntries C body existing l result := by
  induction l using List.reverseRecOn with
  | nil => exact ⟨existing, rfl, fun name => ⟨by simp, fun _ => rfl⟩⟩
  | append_singleton l t ih =>
      have hnodup' := List.nodup_append.mp hnodup
      have hsub' : l ⊆ configs := fun u hu => hsub (List.mem_append_left _ hu)
      have ht : t ∈ configs := hsub (List.mem_append_right _ List.mem_cons_self)
      have hnew : t ∉ l := fun hmem => hnodup'.2.2 t hmem t List.mem_cons_self rfl
      obtain ⟨result, hresult, hfrom⟩ := ih hnodup'.1 hsub'
      obtain ⟨name, value, hgen⟩ := hwf t ht
      have hgen' : t.Generates C body result name value :=
        ⟨hgen.1, (generateHeaderValue_congr body
          (hset.payload_eq hwf hsub' hfrom ht hnew)).trans hgen.2⟩
      have hlast : generateHeadersWithExisting C [t] body result =
          .ok (result.insert name value) :=
        generate_cons_eq_ok_iff.mpr ⟨name, value, hgen', rfl⟩
      refine ⟨_, generate_append_eq_ok_iff.mpr ⟨result, hresult, hlast⟩, fun name' => ?_⟩
      by_cases hname : name' = name
      · subst hname
        rw [HeaderMap.getAll_insert_self]
        refine ⟨fun u hu w hw => ?_, fun hnone => ?_⟩
        · rw [hset.sameName t ht u (hsub hu) name' value w hgen hw]
        · exact absurd hgen.1 (hnone t (List.mem_append_right _ List.mem_cons_self))
      · rw [HeaderMap.getAll_insert_of_ne hname]
        refine ⟨fun u hu w hw => ?_, fun hnone => ?_⟩
        · rcases List.mem_append.mp hu with hu | hu
          · exact (hfrom name').1 u hu w hw
          · obtain rfl := List.mem_singleton.mp hu
            exact absurd (Option.some.inj (hw.1.symm.trans hgen.1)) hname
        · exact (hfrom name').2 fun u hu => hnone u (List.mem_append_left _ hu)

/-- What is made of settled entries depends on which they are only. -/
theorem FromEntries.getAll_eq (hwf : Wellformed C body existing configs)
    {order : List OutgoingHeaderConfig} (hperm : order.Perm configs) {result result' : HeaderMap}
    (h : FromEntries C body existing configs result)
    (h' : FromEntries C body existing order result') (name : HeaderName) :
    result'.getAll name = result.getAll name := by
  by_cases hentry : ∃ u ∈ configs, HeaderName.fromStr u.header = some name
  · obtain ⟨u, hu, huname⟩ := hentry
    obtain ⟨name', value, hgen⟩ := hwf u hu
    obtain rfl : name = name' := Option.some.inj (huname.symm.trans hgen.1)
    rw [(h name).1 u hu value hgen, (h' name).1 u (hperm.mem_iff.mpr hu) value hgen]
  · have hnone : ∀ u ∈ configs, HeaderName.fromStr u.header ≠ some name :=
      fun u hu huname => hentry ⟨u, hu, huname⟩
    rw [(h name).2 hnone, (h' name).2 fun u hu => hnone u (hperm.mem_iff.mp hu)]

/-- A list with an entry that cannot be generated fails in every order. -/
theorem generate_error (hC : C.Lawful) (hwf : ¬Wellformed C body existing configs) :
    ∃ e, generateHeadersWithExisting C configs body existing = .error e := by
  cases hresult : generateHeadersWithExisting C configs body existing with
  | error e => exact ⟨e, rfl⟩
  | ok result => exact absurd ((exists_generate_iff hC existing).mp ⟨result, hresult⟩) hwf

theorem Wellformed.perm {order : List OutgoingHeaderConfig} (hperm : order.Perm configs)
    (hwf : Wellformed C body existing order) : Wellformed C body existing configs :=
  fun u hu => hwf u (hperm.mem_iff.mpr hu)

theorem sameHeaders_of_settled (hC : C.Lawful) (hnodup : configs.Nodup)
    (hset : Wellformed C body existing configs → Settled C body existing configs)
    {order : List OutgoingHeaderConfig} (hperm : order.Perm configs) :
    SameHeaders (generateHeadersWithExisting C configs body existing)
      (generateHeadersWithExisting C order body existing) := by
  by_cases hwf : Wellformed C body existing configs
  · obtain ⟨result, hresult, hfrom⟩ := (hset hwf).generate hwf hnodup fun _ hu => hu
    obtain ⟨result', hresult', hfrom'⟩ :=
      (hset hwf).generate hwf (hperm.nodup_iff.mpr hnodup) fun _ hu => hperm.mem_iff.mp hu
    rw [hresult, hresult']
    exact fun name => hfrom.getAll_eq hwf hperm hfrom' name
  · obtain ⟨e, he⟩ := generate_error hC hwf
    obtain ⟨e', he'⟩ := generate_error hC fun horder => hwf (horder.perm hperm)
    rw [he, he']
    trivial

end Settled

/-! ### Entries that do get in each other's way -/

section Converse

/-- Concatenations of pieces of the same lengths are equal piece by piece. -/
theorem eq_of_flatMap_eq_of_length {α β : Type} {f g : α → List β} {l : List α}
    (hlen : ∀ x ∈ l, (f x).length = (g x).length) (h : l.flatMap f = l.flatMap g) :
    ∀ x ∈ l, f x = g x := by
  induction l with
  | nil => simp
  | cons y l ih =>
      rw [List.flatMap_cons, List.flatMap_cons] at h
      obtain ⟨hy, hrest⟩ := List.append_inj h (hlen y List.mem_cons_self)
      rw [List.forall_mem_cons]
      exact ⟨hy, ih (fun x hx => hlen x (List.mem_cons_of_mem _ hx)) hrest⟩

theorem length_flatMap_le {α β : Type} {f g : α → List β} {l : List α}
    (hle : ∀ x ∈ l, (f x).length ≤ (g x).length) :
    (l.flatMap f).length ≤ (l.flatMap g).length := by
  induction l with
  | nil => exact Nat.le_refl _
  | cons y l ih =>
      rw [List.flatMap_cons, List.flatMap_cons, List.length_append, List.length_append]
      exact Nat.add_le_add (hle y List.mem_cons_self)
        (ih fun x hx => hle x (List.mem_cons_of_mem _ hx))

/-- So are those whose pieces are never longer than the others. -/
theorem eq_of_flatMap_eq_of_le {α β : Type} {f g : α → List β} {l : List α}
    (hle : ∀ x ∈ l, (f x).length ≤ (g x).length) (h : l.flatMap f = l.flatMap g) :
    ∀ x ∈ l, f x = g x := by
  refine eq_of_flatMap_eq_of_length ?_ h
  have hlen : (l.flatMap f).length = (l.flatMap g).length := congrArg _ h
  clear h
  induction l with
  | nil => simp
  | cons y l ih =>
      have hy := hle y List.mem_cons_self
      have hsum := length_flatMap_le fun x hx => hle x (List.mem_cons_of_mem _ hx)
      rw [List.flatMap_cons, List.flatMap_cons, List.length_append, List.length_append] at hlen
      rw [List.forall_mem_cons]
      exact ⟨by omega, ih (fun x hx => hle x (List.mem_cons_of_mem _ hx)) (by omega)⟩

/-- Concatenations whose pieces differ in one way only, wherever they do, count
how often that is. -/
theorem length_flatMap_add {α β : Type} {f g : α → List β} {p : α → Bool} {a b : List β}
    {l : List α} (hp : ∀ x ∈ l, p x = true → f x = a ∧ g x = b)
    (hne : ∀ x ∈ l, p x = false → f x = g x) :
    (l.flatMap f).length + l.countP p * b.length =
      (l.flatMap g).length + l.countP p * a.length := by
  induction l with
  | nil => simp
  | cons x l ih =>
      have ih := ih (fun y hy => hp y (List.mem_cons_of_mem _ hy))
        fun y hy => hne y (List.mem_cons_of_mem _ hy)
      rw [List.flatMap_cons, List.flatMap_cons, List.length_append, List.length_append]
      cases hx : p x with
      | true =>
          obtain ⟨hf, hg⟩ := hp x List.mem_cons_self hx
          rw [hf, hg, List.countP_cons_of_pos hx, Nat.add_mul, Nat.add_mul]
          omega
      | false =>
          rw [hne x List.mem_cons_self hx, List.countP_cons_of_neg (by simp [hx])]
          omega

/-- If they are equal although they do differ somewhere, it is by nothing. -/
theorem eq_of_flatMap_eq {α β : Type} {f g : α → List β} {p : α → Bool} {a b : List β}
    {l : List α} (hp : ∀ x ∈ l, p x = true → f x = a ∧ g x = b)
    (hne : ∀ x ∈ l, p x = false → f x = g x) (h : l.flatMap f = l.flatMap g)
    {x : α} (hx : x ∈ l) (hpx : p x = true) : a = b := by
  have hcount := length_flatMap_add hp hne
  have hpos : 0 < l.countP p := List.countP_pos_iff.mpr ⟨x, hx, hpx⟩
  have hlen : a.length = b.length := by
    rw [h] at hcount
    exact (Nat.eq_of_mul_eq_mul_left hpos (Nat.add_left_cancel hcount)).symm
  have hpieces : ∀ y ∈ l, (f y).length = (g y).length := by
    intro y hy
    cases hpy : p y with
    | true => rw [(hp y hy hpy).1, (hp y hy hpy).2, hlen]
    | false => rw [hne y hy hpy]
  have heq := eq_of_flatMap_eq_of_length hpieces h x hx
  rwa [(hp x hx hpx).1, (hp x hx hpx).2] at heq

variable {C : Crypto} {body : List UInt8} {existing : HeaderMap}
  {configs : List OutgoingHeaderConfig}

/-- The names of the entries are different, whatever their case. -/
def DistinctNames (configs : List OutgoingHeaderConfig) : Prop :=
  ∀ t ∈ configs, ∀ u ∈ configs, ∀ name, HeaderName.fromStr t.header = some name →
    HeaderName.fromStr u.header = some name → t = u

/-- The HMAC tells the payloads apart that a signature covers with and without
the header of another entry. -/
def NoCollision (C : Crypto) (body : List UInt8) (existing : HeaderMap)
    (configs : List OutgoingHeaderConfig) : Prop :=
  ∀ t ∈ configs, ∀ u ∈ configs, ∀ signature ∈ t.signature?, ∀ key name value,
    tokenBytes C signature = .ok key → u.Generates C body existing name value →
      C.hmacSha256 key
          (payloadPrefix signature.signatureOn (existing.insert name value) ++ body) =
        C.hmacSha256 key (payloadPrefix signature.signatureOn existing ++ body) →
      payloadPrefix signature.signatureOn (existing.insert name value) =
        payloadPrefix signature.signatureOn existing

/-- An entry generated first keeps its value if no other has its name. -/
theorem getAll_generate_cons {t : OutgoingHeaderConfig} {l : List OutgoingHeaderConfig}
    {headers result : HeaderMap} {name : HeaderName}
    (hname : HeaderName.fromStr t.header = some name)
    (hne : ∀ u ∈ l, HeaderName.fromStr u.header ≠ some name)
    (h : generateHeadersWithExisting C (t :: l) body headers = .ok result) :
    ∃ value, t.Generates C body headers name value ∧ result.getAll name = [value] := by
  obtain ⟨name', value, hgen, hrest⟩ := generate_cons_eq_ok_iff.mp h
  obtain rfl : name = name' := Option.some.inj (hname.symm.trans hgen.1)
  exact ⟨value, hgen, by rw [getAll_generate hrest hne, HeaderMap.getAll_insert_self]⟩

theorem hmac_eq_of_text (hC : C.Lawful) {signature : SignatureConfig}
    {key payload payload' : List UInt8}
    (h : signature.text C key payload = signature.text C key payload') :
    C.hmacSha256 key payload = C.hmacSha256 key payload' := by
  have hutf8 := congrArg Text.utf8 h
  rw [SignatureConfig.text, SignatureConfig.text, Text.utf8_append, Text.utf8_append,
    List.append_cancel_left_eq] at hutf8
  have hdecode := hC.roundTrip signature.signatureEncoding (C.hmacSha256 key payload)
  rw [hutf8, hC.roundTrip] at hdecode
  exact (Option.some.inj hdecode).symm

/-- A signature that is the same on two header maps has the same HMAC on both. -/
theorem hmac_eq_of_generates (hC : C.Lawful) {t : OutgoingHeaderConfig}
    {signature : SignatureConfig} (hsignature : t.signature? = some signature)
    {headers headers' : HeaderMap} {name : HeaderName} {value : HeaderValue}
    (h : t.Generates C body headers name value) (h' : t.Generates C body headers' name value) :
    ∃ key, tokenBytes C signature = .ok key ∧
      C.hmacSha256 key (payloadPrefix signature.signatureOn headers' ++ body) =
        C.hmacSha256 key (payloadPrefix signature.signatureOn headers ++ body) := by
  obtain ⟨text, hbuild, hvalue⟩ := (generateHeaderValue_signature hsignature body _ _).mp h.2
  obtain ⟨text', hbuild', hvalue'⟩ := (generateHeaderValue_signature hsignature body _ _).mp h'.2
  obtain ⟨key, hkey, rfl⟩ := buildSignature_eq_ok_iff.mp hbuild
  obtain ⟨key', hkey', rfl⟩ := buildSignature_eq_ok_iff.mp hbuild'
  obtain rfl : key = key' := Except.ok.inj (hkey.symm.trans hkey')
  have htext := Text.utf8_injective ((HeaderValue.bytes_of_fromStr hvalue').symm.trans
    (HeaderValue.bytes_of_fromStr hvalue))
  exact ⟨key, hkey, hmac_eq_of_text hC htext⟩

/-- Setting one header changes a payload by what the header puts into it, if the
signature covers it. -/
theorem coveredBytes_of_payload_eq {separator : String} {listed : List String} {header : String}
    {name : HeaderName} {value : HeaderValue} (hmem : header ∈ listed)
    (hname : HeaderName.fromStr header = some name)
    (h : payloadPrefix (.headersThenBody separator listed) (existing.insert name value) =
      payloadPrefix (.headersThenBody separator listed) existing) :
    coveredBytes separator (some value) = coveredBytes separator (existing.get name) := by
  rw [payloadPrefix_headersThenBody, payloadPrefix_headersThenBody] at h
  refine eq_of_flatMap_eq (p := fun header => HeaderName.fromStr header = some name)
    ?_ ?_ h hmem (by simpa using hname)
  · intro header' _ hname'
    rw [decide_eq_true_eq] at hname'
    rw [getStr_of_fromStr hname', getStr_of_fromStr hname', HeaderMap.get_insert_self]
    exact ⟨rfl, rfl⟩
  · intro header' _ hname'
    rw [getStr_insert_of_ne (by simpa using hname')]

/-- The signature generated before an entry and the one generated after it are
the same only if the entry does not matter to it. -/
theorem settled_of_sameHeaders (hC : C.Lawful) (hnodup : configs.Nodup)
    (hdistinct : DistinctNames configs) (hcollision : NoCollision C body existing configs)
    (hwf : Wellformed C body existing configs)
    (hfree : ∀ order, order.Perm configs →
      SameHeaders (generateHeadersWithExisting C configs body existing)
        (generateHeadersWithExisting C order body existing)) :
    Settled C body existing configs where
  sameName := by
    intro t ht u hu name v w hv hw
    obtain rfl := hdistinct t ht u hu name hv.1 hw.1
    exact Except.ok.inj (hv.2.symm.trans hw.2)
  covered := by
    intro t ht u hu hne signature hsignature separator listed hon header hmem name w hname hw
    obtain ⟨result, hresult⟩ := (exists_generate_iff hC existing).mpr hwf
    -- `t` right before `u`, and the other way round
    let rest := (configs.erase t).erase u
    have hu' : u ∈ configs.erase t := (List.mem_erase_of_ne (Ne.symm hne)).mpr hu
    have hfirst : (t :: u :: rest).Perm configs :=
      ((List.perm_cons_erase hu').symm.cons t).trans (List.perm_cons_erase ht).symm
    have hsecond : (u :: t :: rest).Perm configs := (List.Perm.swap t u rest).trans hfirst
    have hothers : ∀ tname, HeaderName.fromStr t.header = some tname →
        ∀ c ∈ u :: rest, HeaderName.fromStr c.header ≠ some tname := by
      intro tname htname c hc hcname
      have hcmem : c ∈ configs := hfirst.mem_iff.mp (List.mem_cons_of_mem _ hc)
      obtain rfl := hdistinct t ht c hcmem tname htname hcname
      exact absurd hc (List.nodup_cons.mp (hfirst.nodup_iff.mpr hnodup)).1
    obtain ⟨tname, _, htname, -⟩ := hwf t ht
    have hget : ∀ order, order.Perm configs → ∃ result',
        generateHeadersWithExisting C order body existing = .ok result' ∧
          result'.getAll tname = result.getAll tname := by
      intro order hperm
      have hsame := hfree order hperm
      obtain ⟨result', hresult'⟩ := (exists_generate_iff hC existing).mpr
        (hwf.perm hperm.symm)
      rw [hresult, hresult'] at hsame
      exact ⟨result', hresult', hsame tname⟩
    obtain ⟨result₁, hresult₁, hget₁⟩ := hget _ hfirst
    obtain ⟨result₂, hresult₂, hget₂⟩ := hget _ hsecond
    obtain ⟨v₁, hv₁, hall₁⟩ := getAll_generate_cons htname (hothers tname htname) hresult₁
    obtain ⟨uname, w', hw', hrest⟩ := generate_cons_eq_ok_iff.mp hresult₂
    obtain rfl : name = uname := Option.some.inj (hw.1.symm.trans hw'.1)
    obtain rfl : w = w' := Except.ok.inj (hw.2.symm.trans hw'.2)
    obtain ⟨v₂, hv₂, hall₂⟩ := getAll_generate_cons htname
      (fun c hc => hothers tname htname c (List.mem_cons_of_mem _ hc)) hrest
    have hv : v₁ = v₂ := List.singleton_inj.mp
      (hall₁.symm.trans (hget₁.trans (hget₂.symm.trans hall₂)))
    obtain ⟨key, hkey, hmac⟩ := hmac_eq_of_generates hC hsignature hv₁ (hv ▸ hv₂)
    have hpayload := hcollision t ht u hu signature hsignature key name w hkey hw hmac
    rw [hon] at hpayload
    exact coveredBytes_of_payload_eq hmem hname hpayload

end Converse

/-! ### The map -/

theorem outgoingHeaderMapToConfigs_nodup (map : OutgoingHeaderMap) :
    (outgoingHeaderMapToConfigs map.entries).Nodup := by
  refine List.Nodup.of_map OutgoingHeaderConfig.header ?_
  rw [outgoingHeaderMapToConfigs, List.map_map]
  exact map.nodup

theorem exists_order_of_perm {entries : List (String × HeaderSource)}
    {configs : List OutgoingHeaderConfig}
    (h : configs.Perm (outgoingHeaderMapToConfigs entries)) :
    ∃ order, order.Perm entries ∧ outgoingHeaderMapToConfigs order = configs := by
  let entry : OutgoingHeaderConfig → String × HeaderSource := fun config =>
    (config.header, config.rule)
  refine ⟨configs.map entry, ?_, ?_⟩
  · have hperm := h.map entry
    have hid : (entry ∘ fun e => { header := e.1, rule := e.2 }) = id := rfl
    rwa [outgoingHeaderMapToConfigs, List.map_map, hid, List.map_id] at hperm
  · have hid : (fun e : String × HeaderSource =>
        ({ header := e.1, rule := e.2 } : OutgoingHeaderConfig)) ∘ entry = id := rfl
    rw [outgoingHeaderMapToConfigs, List.map_map, hid, List.map_id]

/-- The generated headers do not depend on the order of the map when its entries
are settled or one of them cannot be generated. As far as the HMAC tells the
payloads apart and the names differ in more than their case, only then. -/
theorem generated_orderFree {C : Crypto} (hC : C.Lawful) (map : OutgoingHeaderMap)
    (body : List UInt8) (existing : HeaderMap) :
    ((Wellformed C body existing (outgoingHeaderMapToConfigs map.entries) →
        Settled C body existing (outgoingHeaderMapToConfigs map.entries)) →
      OrderFree C map body existing) ∧
    (DistinctNames (outgoingHeaderMapToConfigs map.entries) →
      NoCollision C body existing (outgoingHeaderMapToConfigs map.entries) →
      OrderFree C map body existing →
      Wellformed C body existing (outgoingHeaderMapToConfigs map.entries) →
        Settled C body existing (outgoingHeaderMapToConfigs map.entries)) := by
  have hnodup := outgoingHeaderMapToConfigs_nodup map
  refine ⟨fun hset order hperm => ?_, fun hdistinct hcollision hfree hwf => ?_⟩
  · exact sameHeaders_of_settled hC hnodup hset (hperm.map _)
  · refine settled_of_sameHeaders hC hnodup hdistinct hcollision hwf fun order hperm => ?_
    obtain ⟨entries, hentries, rfl⟩ := exists_order_of_perm hperm
    exact hfree entries hentries

/-! A request identifier and a signature, which covers the identifier as well. -/

def sampleMap : OutgoingHeaderMap where
  entries :=
    [("X-Signature", .signature "secret" none (some "sha256=")
        (.headersThenBody "\n" ["X-Id"]) .hex),
      ("X-Id", .static "42" "" "")]
  nodup := (by decide : ["X-Signature", "X-Id"].Nodup)

def sampleCarried : HeaderMap :=
  (HeaderName.fromStr "X-Id").toList.flatMap fun name =>
    (HeaderValue.fromStr "42").toList.map fun value => (name, value)

theorem generated_orderFree_sample :
    OrderFree sampleCrypto sampleMap (Text.utf8 "hi") sampleCarried := by
  refine (generated_orderFree (C := sampleCrypto) (standardCrypto_lawful _) sampleMap
    (Text.utf8 "hi") sampleCarried).1 fun _ => ?_
  have hnames : ∀ t ∈ outgoingHeaderMapToConfigs sampleMap.entries,
      ∀ u ∈ outgoingHeaderMapToConfigs sampleMap.entries,
        HeaderName.fromStr t.header = HeaderName.fromStr u.header → t = u := by decide
  constructor
  · intro t ht u hu name v w hv hw
    obtain rfl := hnames t ht u hu (hv.1.trans hw.1.symm)
    exact Except.ok.inj (hv.2.symm.trans hw.2)
  · intro t ht u hu _ signature hsignature separator listed hon header hmem name value hname hvalue
    -- the signature is the first entry, and what it lists is set by the second one
    have hsigned : ∀ t ∈ outgoingHeaderMapToConfigs sampleMap.entries,
        ∀ signature ∈ t.signature?, signature.signatureOn = .headersThenBody "\n" ["X-Id"] := by
      decide
    obtain ⟨rfl, rfl⟩ :=
      SignatureOn.headersThenBody.inj ((hsigned t ht _ hsignature).symm.trans hon)
    obtain rfl := List.mem_singleton.mp hmem
    have hcarried : ∀ u ∈ outgoingHeaderMapToConfigs sampleMap.entries,
        HeaderName.fromStr u.header = HeaderName.fromStr "X-Id" →
          (generateHeaderValueWithContext sampleCrypto u (Text.utf8 "hi")
            sampleCarried).toOption = (HeaderName.fromStr "X-Id").bind sampleCarried.get := by
      decide
    have hget := hcarried u hu (hvalue.1.trans hname.symm)
    rw [hvalue.2, hname] at hget
    exact congrArg (coveredBytes "\n") hget

theorem SameHeaders.getAll_eq {r r' : Except HeaderError HeaderMap} (h : SameHeaders r r')
    (name : HeaderName) :
    r'.toOption.map (fun headers => headers.getAll name) =
      r.toOption.map (fun headers => headers.getAll name) := by
  cases r with
  | error e => cases r' with
    | error e' => rfl
    | ok headers' => exact h.elim
  | ok headers => cases r' with
    | error e' => exact h.elim
    | ok headers' => exact congrArg some (h name)

/-- A signature of the identifier and the body covers the identifier only when it
is generated after it. -/
theorem signature_depends_on_order :
    ¬OrderFree sampleCrypto sampleMap (Text.utf8 "hi") [] := by
  intro hfree
  have hswap := hfree
    [("X-Id", .static "42" "" ""),
      ("X-Signature", .signature "secret" none (some "sha256=")
        (.headersThenBody "\n" ["X-Id"]) .hex)]
    (List.Perm.swap _ _ [])
  exact absurd (hswap.getAll_eq ⟨"x-signature", by decide⟩) (by decide)

end CdvizCollector.Security
