import CdvizCollector.Lib.Json
import CdvizCollector.Lib.Nom

/-!
Image references as package URLs (`transformers/vrl_purl.rs`).

A reference is cut in a fixed order: the digest behind an `@`, the tag behind the
last `:` unless a `/` follows it, and what is left at each `/`. References are
written from their parts here, and read by the parser.
-/

namespace CdvizCollector.Transformers

open Lib

/-! ### Parsing an image -/

/-- `REPOSITORY_URL`. -/
def repositoryUrlKey : String := "repository_url"

/-- What `parse_oci_image_to_purl` fills in. -/
structure OciPurl where
  name : List Char
  /-- Without the `@` in front. -/
  digest : Option (List Char)
  repositoryUrl : List Char
  tag : Option (List Char)
deriving DecidableEq

def textValue (chars : List Char) : Json := .str (String.ofList chars)

/-- The object, its entries by key. -/
def OciPurl.toValue (purl : OciPurl) : Json :=
  .obj
    [("name", textValue purl.name),
      ("qualifiers", .obj ((repositoryUrlKey, textValue purl.repositoryUrl) ::
        (purl.tag.map fun tag => ("tag", textValue tag)).toList)),
      ("subpath", .null),
      ("type", .str "oci"),
      ("version", (purl.digest.map fun digest => textValue ('@' :: digest)).getD .null)]

/-- What is before the digest, and the digest, which may be empty. -/
def extractDigest (image : List Char) : List Char × List Char :=
  match Nom.takeUntil "@sha256:" image with
  | some (found, before) => (before, found.drop 1)
  | none =>
      match Nom.takeUntil "@" image with
      | some (found, before) =>
          let digestPart := found.drop 1
          (before, if "sha256:".toList.isPrefixOf digestPart then digestPart
            else "sha256:".toList ++ digestPart)
      | none => (image, [])

/-- What is before the tag, and the tag, which may be empty. -/
def extractTag (repoAndName : List Char) : List Char × List Char :=
  match Text.rsplitOnce ':' repoAndName with
  | some (before, potentialTag) =>
      if '/' ∈ potentialTag then (repoAndName, []) else (before, potentialTag)
  | none => (repoAndName, [])

def join (parts : List (List Char)) : List Char := ['/'].intercalate parts

/-- The registry and the namespace of what is before the name. -/
def registryAndNamespace : List (List Char) → List Char × List Char
  | [] => ("docker.io".toList, "library".toList)
  | first :: rest =>
      if '.' ∉ first ∧ first ≠ "localhost".toList then ("docker.io".toList, join (first :: rest))
      else (first, join rest)

def nonEmptyText (chars : List Char) : Option (List Char) :=
  if chars = [] then none else some chars

/-- `parse_oci_image_to_purl`. -/
def parseOciImage (image : List Char) : OciPurl :=
  let (repoAndName, digest) := extractDigest image
  let (repoAndName, tag) := extractTag repoAndName
  let tag := if tag = [] ∧ digest = [] then "latest".toList else tag
  let parts := repoAndName.splitOn '/'
  let (registry, namespaceName) := registryAndNamespace parts.dropLast
  { name := parts.getLast?.getD "unknown".toList
    digest := nonEmptyText digest
    repositoryUrl :=
      if namespaceName = [] then registry else registry ++ '/' :: namespaceName
    tag := nonEmptyText tag }

def parseOciImageToPurl (image : String) : Json := (parseOciImage image.toList).toValue

/-! ### References -/

/-- A part of a reference, which none of the separators is in. -/
structure Word where
  chars : List Char
  ne_nil : chars ≠ []
  plain : ∀ c ∈ chars, c ≠ '/' ∧ c ≠ ':' ∧ c ≠ '@'

structure Port where
  digits : List Char
  ne_nil : digits ≠ []
  isDigit : ∀ c ∈ digits, c.isDigit = true

structure Registry where
  host : Word
  port : Option Port

structure Digest where
  algorithm : Word
  hex : Word

def Registry.text (registry : Registry) : List Char :=
  registry.host.chars ++ (registry.port.map fun port => ':' :: port.digits).getD []

def Digest.text (digest : Digest) : List Char :=
  digest.algorithm.chars ++ ':' :: digest.hex.chars

/-- A first segment that stands for a registry. -/
def LooksLikeRegistry (first : List Char) : Prop :=
  '.' ∈ first ∨ ':' ∈ first ∨ first = "localhost".toList

/-- `[registry[:port]/][path/...]name[:tag][@algorithm:hex]`. -/
structure Reference where
  registry : Option Registry
  path : List Word
  name : Word
  tag : Option Word
  digest : Option Digest
  registry_looks : ∀ r ∈ registry, LooksLikeRegistry r.text
  path_looks : registry = none → ∀ first ∈ path.head?, ¬LooksLikeRegistry first.chars

namespace Reference

def pathParts (r : Reference) : List (List Char) := r.path.map Word.chars

/-- What is before the name, cut at each slash. -/
def repoParts (r : Reference) : List (List Char) :=
  (r.registry.map Registry.text).toList ++ r.pathParts

def print (r : Reference) : List Char :=
  join (r.repoParts ++ [r.name.chars]) ++
    ((r.tag.map fun tag => ':' :: tag.chars).getD [] ++
      (r.digest.map fun digest => '@' :: digest.text).getD [])

/-- The registry and the path, with the defaults of Docker. -/
def repositoryUrl (r : Reference) : List Char :=
  match r.registry, r.path with
  | some registry, _ => join (registry.text :: r.pathParts)
  | none, [] => "docker.io/library".toList
  | none, _ :: _ => join ("docker.io".toList :: r.pathParts)

/-- What the reference says. -/
def purl (r : Reference) : OciPurl where
  name := r.name.chars
  digest := r.digest.map Digest.text
  repositoryUrl := r.repositoryUrl
  tag := if r.tag.isNone ∧ r.digest.isNone then some "latest".toList else r.tag.map Word.chars

/-- A registry has a dot in its host, or is `localhost` without a port; a digest is SHA-256. -/
structure Recognised (r : Reference) : Prop where
  registry : ∀ registry ∈ r.registry,
    '.' ∈ registry.host.chars ∨ registry.text = "localhost".toList
  digest : ∀ digest ∈ r.digest, digest.algorithm.chars = "sha256".toList

end Reference

/-! ### Cutting a reference -/

theorem Word.not_mem (w : Word) : '/' ∉ w.chars ∧ ':' ∉ w.chars ∧ '@' ∉ w.chars :=
  ⟨fun h => (w.plain _ h).1 rfl, fun h => (w.plain _ h).2.1 rfl, fun h => (w.plain _ h).2.2 rfl⟩

theorem Port.not_mem (p : Port) {c : Char} (hc : c.isDigit = false) : c ∉ p.digits := by
  intro hmem
  have hdigit := p.isDigit c hmem
  rw [hc] at hdigit
  cases hdigit

theorem Registry.not_mem (registry : Registry) :
    '/' ∉ registry.text ∧ '@' ∉ registry.text := by
  obtain ⟨hslash, -, hat⟩ := registry.host.not_mem
  unfold Registry.text
  cases registry.port with
  | none =>
      rw [Option.map_none, Option.getD_none, List.append_nil]
      exact ⟨hslash, hat⟩
  | some port =>
      have hslash' := port.not_mem (c := '/') rfl
      have hat' := port.not_mem (c := '@') rfl
      simp [hslash, hat, hslash', hat']

section

variable (r : Reference)

theorem Reference.not_mem_repoParts {part : List Char} (h : part ∈ r.repoParts) :
    '/' ∉ part ∧ '@' ∉ part := by
  rcases List.mem_append.mp h with h | h
  · obtain ⟨registry, -, rfl⟩ := Option.map_eq_some_iff.mp (Option.mem_toList.mp h)
    exact registry.not_mem
  · obtain ⟨word, -, rfl⟩ := List.mem_map.mp h
    exact ⟨word.not_mem.1, word.not_mem.2.2⟩

theorem not_mem_join {c : Char} (hc : c ≠ '/') {parts : List (List Char)}
    (h : ∀ part ∈ parts, c ∉ part) : c ∉ join parts := by
  induction parts with
  | nil => exact List.not_mem_nil
  | cons part parts ih =>
      rw [List.forall_mem_cons] at h
      cases parts with
      | nil => simpa [join] using h.1
      | cons part' parts =>
          have hrest := ih h.2
          simp only [join, List.intercalate_cons_cons, List.mem_append, not_or,
            List.mem_singleton] at hrest ⊢
          exact ⟨⟨h.1, hc⟩, hrest⟩

theorem join_cons (part : List Char) (parts : List (List Char)) :
    join (part :: parts) = if parts = [] then part else part ++ '/' :: join parts := by
  cases parts with
  | nil => simp [join]
  | cons part' parts => simp [join, List.intercalate_cons_cons]

theorem join_concat (parts : List (List Char)) (last : List Char) :
    join (parts ++ [last]) = if parts = [] then last else join parts ++ '/' :: last := by
  induction parts with
  | nil => simp [join]
  | cons part parts ih =>
      rw [List.cons_append, join_cons, if_neg (List.append_ne_nil_of_right_ne_nil _ (by simp)), ih,
        if_neg (List.cons_ne_nil _ _), join_cons]
      split
      · rfl
      · rw [List.append_assoc]
        rfl

/-- What stands before the tag and the digest. -/
def Reference.image (r : Reference) : List Char := join (r.repoParts ++ [r.name.chars])

theorem Reference.splitOn_image : r.image.splitOn '/' = r.repoParts ++ [r.name.chars] := by
  refine List.splitOn_intercalate '/' ?_ (List.append_ne_nil_of_right_ne_nil _ (by simp))
  intro part hpart
  rcases List.mem_append.mp hpart with hpart | hpart
  · exact (r.not_mem_repoParts hpart).1
  · rw [List.mem_singleton.mp hpart]
    exact r.name.not_mem.1

def Reference.tagText (r : Reference) : List Char := (r.tag.map fun tag => ':' :: tag.chars).getD []

/-- The tag is found, and the colon of a port is not taken for one. -/
theorem Reference.extractTag_image :
    extractTag (r.image ++ r.tagText) = (r.image, (r.tag.map Word.chars).getD []) := by
  unfold extractTag Reference.tagText
  cases r.tag with
  | some tag =>
      rw [Option.map_some, Option.getD_some, Text.rsplitOnce_append tag.not_mem.2.1]
      exact if_neg tag.not_mem.1
  | none =>
      rw [Option.map_none, Option.getD_none, List.append_nil, Reference.image, join_concat]
      by_cases hparts : r.repoParts = []
      · rw [if_pos hparts, Text.rsplitOnce_of_not_mem r.name.not_mem.2.1]
        rfl
      · have hback : ':' ∉ '/' :: r.name.chars := by
          rw [List.mem_cons, not_or]
          exact ⟨by decide, r.name.not_mem.2.1⟩
        rw [if_neg hparts, Text.rsplitOnce_append_of_not_mem hback]
        cases Text.rsplitOnce ':' (join r.repoParts) with
        | none => rfl
        | some found =>
            exact if_pos (List.mem_append_right _ List.mem_cons_self)

theorem Reference.not_mem_front : '@' ∉ r.image ++ r.tagText := by
  rw [List.mem_append, not_or]
  constructor
  · refine not_mem_join (by decide) fun part hpart => ?_
    rcases List.mem_append.mp hpart with hpart | hpart
    · exact (r.not_mem_repoParts hpart).2
    · rw [List.mem_singleton.mp hpart]
      exact r.name.not_mem.2.2
  · unfold Reference.tagText
    cases r.tag with
    | none => exact List.not_mem_nil
    | some tag => simp [tag.not_mem.2.2]

end

/-- A prefix that ends with the only colon. -/
theorem prefix_colon_iff {a b rest : List Char} (ha : ':' ∉ a) (hb : ':' ∉ b) :
    b ++ [':'] <+: a ++ ':' :: rest ↔ a = b := by
  have htake : ∀ {l : List Char} (back : List Char), ':' ∉ l →
      (l ++ ':' :: back).takeWhile (· ≠ ':') = l := by
    intro l back hl
    refine (Nom.takeWhile_append_stops ?_ (Nom.stops_cons.mpr (by simp))).1
    intro c hc
    exact decide_eq_true fun heq => hl (heq ▸ hc)
  constructor
  · rintro ⟨back, heq⟩
    rw [List.append_assoc, List.singleton_append] at heq
    rw [← htake rest ha, ← heq, htake back hb]
  · rintro rfl
    exact ⟨rest, by simp⟩

theorem Digest.prefix_iff (d : Digest) :
    "sha256:".toList <+: d.text ↔ d.algorithm.chars = "sha256".toList :=
  prefix_colon_iff (b := "sha256".toList) d.algorithm.not_mem.2.1 (by decide)

theorem Digest.not_mem (d : Digest) : '@' ∉ d.text := by
  rw [Digest.text, List.mem_append, List.mem_cons, not_or, not_or]
  exact ⟨d.algorithm.not_mem.2.2, by decide, d.hex.not_mem.2.2⟩

theorem extractDigest_none {front : List Char} (h : '@' ∉ front) :
    extractDigest front = (front, []) := by
  have hnone : ∀ (text : String) (chars : List Char), text.toList = '@' :: chars →
      Nom.takeUntil text front = none := by
    intro text chars htext
    have hfront := Nom.takeUntil_append htext h []
    have hempty : text ≠ "" := by
      rintro rfl
      cases htext
    rw [List.append_nil, Nom.takeUntil, if_neg hempty] at hfront
    exact hfront
  rw [extractDigest, hnone "@sha256:" _ rfl, hnone "@" _ rfl]

/-- The digest is found, and has an algorithm put in front unless it is SHA-256. -/
theorem extractDigest_digest {front : List Char} (h : '@' ∉ front) (d : Digest) :
    extractDigest (front ++ '@' :: d.text) = (front,
      if d.algorithm.chars = "sha256".toList then d.text else "sha256:".toList ++ d.text) := by
  have hfound : ∀ (text : String) (chars : List Char), text.toList = '@' :: chars →
      chars <+: d.text → Nom.takeUntil text (front ++ '@' :: d.text) =
        some ('@' :: d.text, front) := by
    intro text chars htext hprefix
    rw [Nom.takeUntil_append htext h, Nom.takeUntil_of_prefix]
    · rw [Option.map_some, List.append_nil]
    · rw [htext, List.cons_prefix_cons]
      exact ⟨rfl, hprefix⟩
  by_cases halg : d.algorithm.chars = "sha256".toList
  · rw [extractDigest, hfound "@sha256:" _ rfl (d.prefix_iff.mpr halg), if_pos halg]
    rfl
  · have hprefix : ¬"sha256:".toList <+: d.text := mt d.prefix_iff.mp halg
    have hnone : Nom.takeUntil "@sha256:" (front ++ '@' :: d.text) = none := by
      have hhead : "@sha256:".toList = '@' :: "sha256:".toList := rfl
      rw [Nom.takeUntil_append hhead h, Nom.takeUntil, if_neg]
      · have hrest := Nom.takeUntil_append hhead d.not_mem []
        rw [List.append_nil, Nom.takeUntil, if_neg (by decide)] at hrest
        rw [hrest]
        rfl
      · rw [List.isPrefixOf_iff_prefix]
        exact fun hpre => hprefix (List.cons_prefix_cons.mp hpre).2
    rw [extractDigest, hnone, hfound "@" _ rfl List.nil_prefix, if_neg halg]
    dsimp only
    rw [List.drop_one, List.tail_cons, if_neg (mt List.isPrefixOf_iff_prefix.mp hprefix)]

/-! ### What is read of a reference -/

/-- The repository URL as the parser puts it together. -/
def assembledUrl (parts : List (List Char)) : List Char :=
  let found := registryAndNamespace parts
  if found.2 = [] then found.1 else found.1 ++ '/' :: found.2

theorem Word.join_ne_nil (word : Word) (parts : List (List Char)) :
    join (word.chars :: parts) ≠ [] := by
  rw [join_cons]
  split
  · exact word.ne_nil
  · exact List.append_ne_nil_of_left_ne_nil word.ne_nil _

theorem join_words_eq_nil_iff (path : List Word) : join (path.map Word.chars) = [] ↔ path = [] := by
  cases path with
  | nil => exact iff_of_true rfl rfl
  | cons word path => exact iff_of_false (word.join_ne_nil _) (List.cons_ne_nil _ _)

theorem Registry.dot_mem_iff (registry : Registry) :
    '.' ∈ registry.text ↔ '.' ∈ registry.host.chars := by
  unfold Registry.text
  cases registry.port with
  | none => rw [Option.map_none, Option.getD_none, List.append_nil]
  | some port =>
      have hport := port.not_mem (c := '.') rfl
      rw [Option.map_some, Option.getD_some, List.mem_append, List.mem_cons]
      exact or_iff_left (by rintro (h | h); exacts [absurd h (by decide), hport h])

theorem Registry.text_ne_nil (registry : Registry) : registry.text ≠ [] :=
  List.append_ne_nil_of_left_ne_nil registry.host.ne_nil _

theorem assembledUrl_of_eq {parts : List (List Char)} {registry namespaceName : List Char}
    (h : registryAndNamespace parts = (registry, namespaceName)) :
    assembledUrl parts =
      if namespaceName = [] then registry else registry ++ '/' :: namespaceName := by
  rw [assembledUrl, h]

theorem assembledUrl_docker {first : List Char} {rest : List (List Char)}
    (h : '.' ∉ first ∧ first ≠ "localhost".toList) (hne : join (first :: rest) ≠ []) :
    assembledUrl (first :: rest) = join ("docker.io".toList :: first :: rest) := by
  have hfound : registryAndNamespace (first :: rest) =
      ("docker.io".toList, join (first :: rest)) := if_pos h
  rw [assembledUrl_of_eq hfound, if_neg hne, join_cons "docker.io".toList,
    if_neg (List.cons_ne_nil first rest)]

theorem assembledUrl_registry {first : List Char} {rest : List (List Char)}
    (h : '.' ∈ first ∨ first = "localhost".toList) (hrest : join rest = [] ↔ rest = []) :
    assembledUrl (first :: rest) = join (first :: rest) := by
  have hknown : ¬('.' ∉ first ∧ first ≠ "localhost".toList) := by
    rintro ⟨hdot, hlocal⟩
    rcases h with h | h
    · exact hdot h
    · exact hlocal h
  have hfound : registryAndNamespace (first :: rest) = (first, join rest) := if_neg hknown
  rw [assembledUrl_of_eq hfound, join_cons]
  exact if_congr hrest rfl rfl

section

variable (r : Reference)

/-- The registry is found where it has a dot or is `localhost`. -/
theorem Reference.assembledUrl_iff :
    assembledUrl r.repoParts = r.repositoryUrl ↔ ∀ registry ∈ r.registry,
      '.' ∈ registry.host.chars ∨ registry.text = "localhost".toList := by
  cases hregistry : r.registry with
  | none =>
      have hparts : r.repoParts = r.pathParts := by
        rw [Reference.repoParts, hregistry]
        rfl
      refine iff_of_true ?_ (by rintro _ ⟨⟩)
      rw [hparts, Reference.repositoryUrl, hregistry, Reference.pathParts]
      cases hpath : r.path with
      | nil => rfl
      | cons first path =>
          have hfirst := r.path_looks hregistry first (by rw [hpath]; rfl)
          rw [LooksLikeRegistry, not_or, not_or] at hfirst
          exact assembledUrl_docker ⟨hfirst.1, hfirst.2.2⟩ (first.join_ne_nil _)
  | some registry =>
      have hparts : r.repoParts = registry.text :: r.pathParts := by
        rw [Reference.repoParts, hregistry]
        rfl
      have hurl : r.repositoryUrl = join (registry.text :: r.pathParts) := by
        rw [Reference.repositoryUrl, hregistry]
      have hall : (∀ found ∈ some registry, '.' ∈ found.host.chars ∨
          found.text = "localhost".toList) ↔
            '.' ∈ registry.text ∨ registry.text = "localhost".toList := by
        simp only [Option.mem_def, Option.some.injEq, forall_eq', registry.dot_mem_iff]
      rw [hall, hparts, hurl]
      by_cases hknown : '.' ∈ registry.text ∨ registry.text = "localhost".toList
      · refine iff_of_true ?_ hknown
        refine assembledUrl_registry hknown ?_
        rw [Reference.pathParts, join_words_eq_nil_iff, List.map_eq_nil_iff]
      · refine iff_of_false ?_ hknown
        have hne : join (registry.text :: r.pathParts) ≠ [] := by
          rw [join_cons]
          split
          · exact registry.text_ne_nil
          · exact List.append_ne_nil_of_left_ne_nil registry.text_ne_nil _
        rw [assembledUrl_docker (not_or.mp hknown) hne, join_cons "docker.io".toList,
          if_neg (List.cons_ne_nil _ _)]
        intro heq
        have hlength := congrArg List.length heq
        rw [List.length_append, List.length_cons] at hlength
        omega

theorem Reference.print_eq : r.print = r.image ++ r.tagText ++
    (r.digest.map fun digest => '@' :: digest.text).getD [] := by
  rw [Reference.print, List.append_assoc]
  rfl

/-- The digest that the parser takes. -/
def Reference.digestRead : List Char :=
  (r.digest.map fun digest => if digest.algorithm.chars = "sha256".toList then digest.text
    else "sha256:".toList ++ digest.text).getD []

theorem Reference.extractDigest_print :
    extractDigest r.print = (r.image ++ r.tagText, r.digestRead) := by
  rw [r.print_eq, Reference.digestRead]
  cases r.digest with
  | none =>
      rw [Option.map_none, Option.map_none, Option.getD_none, List.append_nil]
      exact extractDigest_none r.not_mem_front
  | some digest => exact extractDigest_digest r.not_mem_front digest

theorem Digest.text_ne_nil (d : Digest) : d.text ≠ [] :=
  List.append_ne_nil_of_left_ne_nil d.algorithm.ne_nil _

theorem Reference.digestRead_eq_nil_iff : r.digestRead = [] ↔ r.digest = none := by
  unfold Reference.digestRead
  cases r.digest with
  | none => exact iff_of_true rfl rfl
  | some digest =>
      refine iff_of_false ?_ (by rintro ⟨⟩)
      rw [Option.map_some, Option.getD_some]
      split
      · exact digest.text_ne_nil
      · exact List.append_ne_nil_of_right_ne_nil _ digest.text_ne_nil

theorem Reference.digestRead_iff :
    nonEmptyText r.digestRead = r.digest.map Digest.text ↔
      ∀ digest ∈ r.digest, digest.algorithm.chars = "sha256".toList := by
  cases hdigest : r.digest with
  | none =>
      refine iff_of_true ?_ (by rintro _ ⟨⟩)
      rw [nonEmptyText, if_pos (r.digestRead_eq_nil_iff.mpr hdigest)]
      rfl
  | some digest =>
      have hread : r.digestRead = if digest.algorithm.chars = "sha256".toList then digest.text
          else "sha256:".toList ++ digest.text := by
        rw [Reference.digestRead, hdigest]
        rfl
      have hne : r.digestRead ≠ [] := by
        rw [ne_eq, r.digestRead_eq_nil_iff, hdigest]
        exact Option.some_ne_none digest
      rw [nonEmptyText, if_neg hne, Option.map_some, Option.some_inj, hread]
      simp only [Option.mem_def, Option.some.injEq, forall_eq']
      constructor
      · intro heq
        split at heq
        · assumption
        · have hlength := congrArg List.length heq
          rw [List.length_append] at hlength
          have : "sha256:".toList.length = 7 := rfl
          omega
      · exact fun halg => if_pos halg

theorem Reference.tag_read :
    nonEmptyText (if (r.tag.map Word.chars).getD [] = [] ∧ r.digestRead = [] then
      "latest".toList else (r.tag.map Word.chars).getD []) = r.purl.tag := by
  have htag : (r.tag.map Word.chars).getD [] = [] ↔ r.tag = none := by
    cases r.tag with
    | none => exact iff_of_true rfl rfl
    | some tag => exact iff_of_false tag.ne_nil (by rintro ⟨⟩)
  simp only [Reference.purl, htag, r.digestRead_eq_nil_iff, Option.isNone_iff_eq_none]
  split
  · rfl
  · cases r.tag with
    | none => rfl
    | some tag => exact if_neg tag.ne_nil

/-- What is read of a printed reference. -/
theorem Reference.parse_print : parseOciImage r.print =
    { name := r.name.chars
      digest := nonEmptyText r.digestRead
      repositoryUrl := assembledUrl r.repoParts
      tag := r.purl.tag } := by
  have hlast : (r.repoParts ++ [r.name.chars]).getLast?.getD "unknown".toList = r.name.chars := by
    rw [List.getLast?_concat]
    rfl
  unfold parseOciImage
  simp only [r.extractDigest_print, r.extractTag_image, r.splitOn_image, List.dropLast_concat,
    hlast, r.tag_read]
  rfl

end

theorem textValue_injective : Function.Injective textValue := by
  intro a b h
  exact String.ofList_injective (Json.str.inj h)

theorem OciPurl.toValue_injective : Function.Injective OciPurl.toValue := by
  rintro ⟨name, digest, url, tag⟩ ⟨name', digest', url', tag'⟩ h
  simp only [OciPurl.toValue, Json.obj.injEq, List.cons.injEq, Prod.mk.injEq, true_and,
    textValue_injective.eq_iff, and_true] at h
  obtain ⟨rfl, ⟨rfl, htag⟩, hdigest⟩ := h
  have htageq : tag = tag' := by
    cases tag with
    | none =>
        cases tag' with
        | none => rfl
        | some tag' => cases htag
    | some tag =>
        cases tag' with
        | none => cases htag
        | some tag' =>
            have hvalue := (Prod.mk.inj (List.cons.inj htag).1).2
            exact congrArg some (textValue_injective hvalue)
  have hdigesteq : digest = digest' := by
    cases digest with
    | none =>
        cases digest' with
        | none => rfl
        | some digest' => cases hdigest
    | some digest =>
        cases digest' with
        | none => cases hdigest
        | some digest' =>
            exact congrArg some (List.cons.inj (textValue_injective hdigest)).2
  rw [htageq, hdigesteq]

/-- A reference is read for what it says when its registry and its digest are recognised. -/
theorem parse_print_iff (r : Reference) :
    parseOciImageToPurl (String.ofList r.print) = r.purl.toValue ↔ r.Recognised := by
  rw [parseOciImageToPurl, String.toList_ofList, OciPurl.toValue_injective.eq_iff, r.parse_print]
  have hiff : r.Recognised ↔
      nonEmptyText r.digestRead = r.digest.map Digest.text ∧
        assembledUrl r.repoParts = r.repositoryUrl := by
    rw [r.digestRead_iff, r.assembledUrl_iff]
    exact ⟨fun h => ⟨h.digest, h.registry⟩, fun h => ⟨h.2, h.1⟩⟩
  rw [hiff, Reference.purl, OciPurl.mk.injEq]
  simp only [true_and, and_true]

/-- `localhost:5000/img`. -/
def localReference : Reference where
  registry := some
    { host := ⟨"localhost".toList, by decide, Text.forall_mem_of_all (by decide)⟩
      port := some ⟨"5000".toList, by decide, Text.forall_mem_of_all (by decide)⟩ }
  path := []
  name := ⟨"img".toList, by decide, Text.forall_mem_of_all (by decide)⟩
  tag := none
  digest := none
  registry_looks := by
    intro r hr
    obtain rfl := Option.some.inj hr
    exact Or.inr (Or.inl (by decide))
  path_looks := by rintro ⟨⟩

/-- A registry on a port of the local host is read as a path of the default one. -/
theorem local_port_misread :
    ¬∀ r : Reference, parseOciImageToPurl (String.ofList r.print) = r.purl.toValue := by
  intro h
  have heq := h localReference
  rw [parseOciImageToPurl, String.toList_ofList, OciPurl.toValue_injective.eq_iff] at heq
  have hne : parseOciImage localReference.print ≠ localReference.purl := by decide +kernel
  exact hne heq

end CdvizCollector.Transformers
