import Louiselm.Base.Checks
import Louiselm.Base.JsonCompact
import Louiselm.Base.Text
import Louiselm.Canonical.Digest

/-!
# Canonical manifests

`skills-core/src/manifest.rs` over the paths of `canonical.rs`. A manifest lists the files of
a package by path; the package digest is that of its canonical bytes. The compatibility
decomposition of Unicode is a parameter, and so are the text format and SHA-256.
-/

namespace Louiselm.Canonical
open Base List Compact
open Except (ok.inj)

/-! ### Paths -/

/-- Longest accepted single path component, in bytes. -/
def maxComponentBytes : Nat := 255

/-- Longest accepted whole relative path, in bytes. -/
def maxPathBytes : Nat := 1024

/-- A relative path rejected by the canonical contract. -/
inductive PathError where
  | empty
  | absolute (raw : String)
  | emptyComponent (raw : String)
  | relativeComponent (raw : String)
  | controlCharacter (raw : String)
  | nonAscii (raw : String)
  | tooLong (raw : String)
deriving DecidableEq, Repr

/-- A relative path accepted by the canonical contract. -/
structure CanonicalPath where
  text : String
deriving DecidableEq, Repr

namespace CanonicalPath

def components (raw : String) : List String := (raw.toList.splitOn '/').map String.ofList

def parse (raw : String) (allowNonAscii : Bool) : Except PathError CanonicalPath := do
  require (raw != "") .empty
  require (raw.toList.head? != some '/') (.absolute raw)
  require (decide (raw.utf8ByteSize ≤ maxPathBytes)) (.tooLong raw)
  require (!raw.toList.any Text.isControl) (.controlCharacter raw)
  require (allowNonAscii || raw.toList.all (·.toNat < 128)) (.nonAscii raw)
  forM (components raw) fun component => do
    require (component != "") (.emptyComponent raw)
    require (component != "." && component != "..") (.relativeComponent raw)
    require (decide (component.utf8ByteSize ≤ maxComponentBytes)) (.tooLong raw)
  return ⟨raw⟩

/-- A conservative key for normalization and ASCII-case collisions. -/
def collisionKey (nfkd : String → String) (path : CanonicalPath) : String :=
  (nfkd path.text).map Char.toLower

theorem text_of_parse {raw : String} {allowNonAscii : Bool} {p : CanonicalPath}
    (h : parse raw allowNonAscii = .ok p) : p.text = raw := by
  simp only [parse, bind_ok] at h
  obtain ⟨_, _, _, _, _, _, _, _, _, _, _, _, h⟩ := h
  exact (congrArg text (ok.inj h)).symm

end CanonicalPath

/-! ### Manifests -/

def manifestSchema : String := "louiselm.skills.manifest/1"

/-- One regular file inside a package. -/
structure ManifestEntry where
  path : String
  executable : Bool
  size : UInt64
  sha256 : String
deriving DecidableEq, Repr

/-- The complete, sorted description of a package's bytes. -/
structure Manifest where
  schema : String
  entries : List ManifestEntry
deriving DecidableEq, Repr

/-- A manifest that cannot be trusted; the text of a JSON failure is dropped. -/
inductive ManifestError where
  | unsupportedSchema (schema : String)
  | path (error : PathError)
  | duplicatePath (path : String)
  | unsorted (path : String)
  | collidingPaths (first second : String)
  | invalidDigest (path digest : String)
  | nonCanonical
  | malformed
deriving DecidableEq, Repr

def ManifestEntry.members (entry : ManifestEntry) : List (String × Json) :=
  [("path", toJson entry.path), ("executable", toJson entry.executable),
    ("size", toJson entry.size), ("sha256", toJson entry.sha256)]

def ManifestEntry.fields : List String := ["path", "executable", "size", "sha256"]

def ManifestEntry.ofJson (v : Json) : Option ManifestEntry := do
  match ← v.struct false ManifestEntry.fields with
  | [path, executable, size, sha256] =>
    return {
      path := ← field path
      executable := ← field executable
      size := ← field size
      sha256 := ← field sha256 }
  | _ => failure

instance : Deserialize ManifestEntry :=
  deserializeStruct ManifestEntry.members ManifestEntry.ofJson 0 (fun entry => by
      simp (disch := decide) [ManifestEntry.members, fits_toJson])
    (fun entry => by
      rw [ManifestEntry.ofJson, Json.struct_obj false ManifestEntry.fields rfl (by decide)]
      simp [ManifestEntry.members])

def Manifest.members (manifest : Manifest) : List (String × Json) :=
  [("schema", toJson manifest.schema), ("entries", toJson manifest.entries)]

def Manifest.fields : List String := ["schema", "entries"]

def Manifest.ofJson (v : Json) : Option Manifest := do
  match ← v.struct false Manifest.fields with
  | [schema, entries] => return { schema := ← field schema, entries := ← field entries }
  | _ => failure

instance : Deserialize Manifest :=
  deserializeStruct Manifest.members Manifest.ofJson 2 (fun manifest => by
      simp (disch := decide) [Manifest.members, fits_toJson])
    (fun manifest => by
      rw [Manifest.ofJson, Json.struct_obj false Manifest.fields rfl (by decide)]
      simp [Manifest.members])

namespace Manifest

/-- The bytes the digest covers. -/
def canonicalBytes (fmt : JsonFormat) (manifest : Manifest) : Bytes := fmt.toVec manifest

/-- The package digest: the content address of the canonical bytes. -/
def digest (sha256 : Sha256) (fmt : JsonFormat) (manifest : Manifest) : Digest :=
  .of sha256 (manifest.canonicalBytes fmt)

section

variable (nfkd : String → String) (allowNonAscii : Bool)

/-- The loop over the entries after a previous path: the collision keys of the rest. -/
def validateEntries : Option String → List ManifestEntry →
    Except ManifestError (List (String × String))
  | _, [] => .ok []
  | previous, entry :: entries => do
    let path ← (CanonicalPath.parse entry.path allowNonAscii).mapError .path
    require (Digest.parse entry.sha256).isOk (.invalidDigest entry.path entry.sha256)
    require (previous != some entry.path) (.duplicatePath entry.path)
    require (previous.all (· ≤ entry.path)) (.unsorted entry.path)
    let keys ← validateEntries (some entry.path) entries
    return (path.collisionKey nfkd, entry.path) :: keys

/-- The order of keyed paths. -/
def keyLe (a b : String × String) : Bool := a.1 < b.1 || (a.1 == b.1 && a.2 ≤ b.2)

/-- The first two neighbours of one key. -/
def firstCollision : List (String × String) → Option (String × String)
  | a :: b :: keys => if a.1 = b.1 then some (a.2, b.2) else firstCollision (b :: keys)
  | _ => none

def validate (manifest : Manifest) : Except ManifestError Unit := do
  require (manifest.schema == manifestSchema) (.unsupportedSchema manifest.schema)
  let keys ← validateEntries nfkd allowNonAscii none manifest.entries
  match firstCollision (keys.mergeSort keyLe) with
  | some (first, second) => .error (.collidingPaths first second)
  | none => .ok ()

/-- Build a manifest from unsorted entries, enforcing the path contract. -/
def new (entries : List ManifestEntry) : Except ManifestError Manifest := do
  let manifest : Manifest :=
    ⟨manifestSchema, entries.mergeSort fun left right => left.path ≤ right.path⟩
  manifest.validate nfkd allowNonAscii
  return manifest

/-- Parse manifest bytes, rejecting anything not in canonical form. -/
def parse (fmt : JsonFormat) (bytes : Bytes) : Except ManifestError Manifest :=
  match (fmt.fromSlice bytes : Option Manifest) with
  | none => .error .malformed
  | some manifest => do
    require (manifest.canonicalBytes fmt == bytes) .nonCanonical
    manifest.validate nfkd allowNonAscii
    return manifest

end

/-! ### What acceptance gives -/

section

variable {nfkd : String → String} {ana : Bool} {fmt : JsonFormat}

/-- The collision key of a manifest path. -/
def keyOf (nfkd : String → String) (path : String) : String :=
  CanonicalPath.collisionKey nfkd ⟨path⟩

variable {es : List ManifestEntry} {k : List (String × String)}

/-- The loop accepts entries of increasing paths whose addresses are digests. -/
theorem validateEntries_ok {p : Option String} (h : validateEntries nfkd ana p es = .ok k) :
    es.Pairwise (fun a b => a.path < b.path) ∧ (∀ e, p = some e → ∀ en ∈ es, e < en.path) ∧
      k = es.map (fun en => (keyOf nfkd en.path, en.path)) ∧
      ∀ en ∈ es, ∃ d, Digest.parse en.sha256 = .ok d := by
  induction es generalizing p k with
  | nil =>
    obtain rfl := ok.inj h
    simp
  | cons en es ih =>
    simp only [validateEntries, bind_ok, mapError_ok, require_ok] at h
    obtain ⟨path, ht, _, hi, _, hf, _, hs, xs, hr, h⟩ := h
    obtain rfl := ok.inj h
    obtain ⟨hp, ha, rfl, hd⟩ := ih hr
    have hn := ha en.path rfl
    have hb : ∀ e, p = some e → e < en.path := by
      rintro e rfl
      rw [Option.all_some, decide_eq_true_eq] at hs
      refine lt_of_le_of_ne hs fun heq => ?_
      simp [heq] at hf
    refine ⟨pairwise_cons.mpr ⟨hn, hp⟩, ?_, ?_, ?_⟩
    · intro e he o ho
      rcases mem_cons.mp ho with rfl | ho
      · exact hb e he
      · exact (hb e he).trans (hn o ho)
    · simp only [map_cons, keyOf, CanonicalPath.collisionKey, CanonicalPath.text_of_parse ht]
    · intro o ho
      rcases mem_cons.mp ho with rfl | ho
      · cases hpa : Digest.parse o.sha256 with
        | error error => simp [hpa, Except.isOk, Except.toBool] at hi
        | ok d => exact ⟨d, rfl⟩
      · exact hd o ho

/-- Sorted keys without equal neighbours are distinct. -/
theorem firstCollision_none (hs : k.Pairwise (fun a b => keyLe a b = true))
    (h : firstCollision k = none) : k.Pairwise (fun a b => a.1 < b.1) := by
  induction k with
  | nil => exact .nil
  | cons a k ih =>
    obtain ⟨he, hr⟩ := pairwise_cons.mp hs
    cases k with
    | nil => exact pairwise_singleton ..
    | cons b k =>
      rw [firstCollision] at h
      split at h
      · contradiction
      · next hn =>
        have hp := ih hr h
        have hl : a.1 < b.1 := by
          have ha := he b (mem_cons_self ..)
          simpa [keyLe, hn] using ha
        refine pairwise_cons.mpr ⟨fun c hc => ?_, hp⟩
        rcases mem_cons.mp hc with rfl | hc
        · exact hl
        · exact hl.trans ((pairwise_cons.mp hp).1 c hc)

theorem pairwise_mergeSort_keyLe (k : List (String × String)) :
    (k.mergeSort keyLe).Pairwise (fun a b => keyLe a b = true) := by
  refine pairwise_mergeSort ?_ ?_ k
  · rintro ⟨a, x⟩ ⟨b, y⟩ ⟨c, z⟩ ha hb
    simp only [keyLe, Bool.or_eq_true, Bool.and_eq_true, decide_eq_true_eq, beq_iff_eq] at *
    rcases ha with ha | ⟨rfl, hx⟩
    · rcases hb with hb | ⟨rfl, _⟩
      · exact .inl (ha.trans hb)
      · exact .inl ha
    · rcases hb with hb | ⟨rfl, hy⟩
      · exact .inl hb
      · exact .inr ⟨rfl, hx.trans hy⟩
  · rintro ⟨a, x⟩ ⟨b, y⟩
    simp only [keyLe, Bool.or_eq_true, Bool.and_eq_true, decide_eq_true_eq, beq_iff_eq]
    rcases lt_trichotomy a b with hl | rfl | hl
    · exact .inl (.inl hl)
    · exact (le_total x y).imp (fun h => .inr ⟨rfl, h⟩) fun h => .inr ⟨rfl, h⟩
    · exact .inr (.inl hl)

/-- What a valid manifest is: its paths increase, its keys differ, its addresses parse. -/
structure Accepted (nfkd : String → String) (manifest : Manifest) : Prop where
  schema : manifest.schema = manifestSchema
  increasing : manifest.entries.Pairwise (fun a b => a.path < b.path)
  apart : manifest.entries.Pairwise (fun a b => keyOf nfkd a.path ≠ keyOf nfkd b.path)
  digests : ∀ entry ∈ manifest.entries, ∃ digest, Digest.parse entry.sha256 = .ok digest

variable {m : Manifest}

theorem accepted_of_validate {u : Unit} (h : m.validate nfkd ana = .ok u) :
    Accepted nfkd m := by
  simp only [validate, bind_ok, require_ok, beq_iff_eq] at h
  obtain ⟨_, hs, k, hk, h⟩ := h
  obtain ⟨hi, _, rfl, hd⟩ := validateEntries_ok hk
  split at h
  · contradiction
  · next hn =>
    have hdi := firstCollision_none (pairwise_mergeSort_keyLe _) hn
    have hk : (m.entries.map fun e => (keyOf nfkd e.path, e.path)).Pairwise
        (fun a b => a.1 ≠ b.1) :=
      (mergeSort_perm _ _).pairwise_iff (fun h => h.symm) |>.mp (hdi.imp fun h => h.ne)
    rw [pairwise_map] at hk
    exact ⟨hs, hi, hk, hd⟩

/-- A valid manifest parses from its canonical bytes. -/
theorem parse_canonicalBytes {u : Unit} (h : m.validate nfkd ana = .ok u) :
    parse nfkd ana fmt (m.canonicalBytes fmt) = .ok m := by
  have hr : (fmt.fromSlice (m.canonicalBytes fmt) : Option Manifest) = some m :=
    fmt.fromSlice_toVec (by decide) m
  simp only [parse, hr, beq_self_eq_true, h]
  rfl

/-- Parsed bytes are the canonical bytes of the valid manifest they hold. -/
theorem parse_ok {bs : Bytes} (h : parse nfkd ana fmt bs = .ok m) :
    m.canonicalBytes fmt = bs ∧ Accepted nfkd m := by
  unfold parse at h
  split at h
  · contradiction
  · simp only [bind_ok, require_ok, beq_iff_eq] at h
    obtain ⟨_, hb, _, hv, h⟩ := h
    obtain rfl := ok.inj h
    exact ⟨hb, accepted_of_validate hv⟩

theorem new_ok (h : new nfkd ana es = .ok m) :
    m = ⟨manifestSchema, es.mergeSort fun l r => l.path ≤ r.path⟩ ∧
      m.validate nfkd ana = .ok () := by
  simp only [new, bind_ok] at h
  obtain ⟨_, hv, h⟩ := h
  obtain rfl := ok.inj h
  exact ⟨rfl, hv⟩

/-- Two entries of one path are one entry of an increasing list. -/
theorem eq_of_path_eq (hi : es.Pairwise (fun a b => a.path < b.path))
    {a b : ManifestEntry} (ha : a ∈ es) (hb : b ∈ es) (h : a.path = b.path) : a = b := by
  by_contra hn
  have hp := List.Pairwise.forall_of_forall_of_flip
    (R := fun x y : ManifestEntry => x ≠ y → x.path ≠ y.path) (fun x _ h => absurd rfl h)
    (hi.imp fun h _ => h.ne) (hi.imp fun h _ => h.ne')
  exact hp ha hb hn h

/-- Entries of increasing paths are what sorting makes of any permutation of them. -/
theorem mergeSort_eq {s : List ManifestEntry} (hp : es.Perm s)
    (hi : s.Pairwise (fun a b => a.path < b.path)) :
    (es.mergeSort fun l r => l.path ≤ r.path) = s := by
  have hs : (es.mergeSort fun l r => l.path ≤ r.path).Pairwise
      (fun a b => decide (a.path ≤ b.path) = true) := by
    refine pairwise_mergeSort (fun a b c hab hc => ?_) (fun a b => ?_) es
    · rw [decide_eq_true_eq] at *
      exact hab.trans hc
    · rw [Bool.or_eq_true, decide_eq_true_eq, decide_eq_true_eq]
      exact le_total a.path b.path
  have hl : (es.mergeSort fun l r => l.path ≤ r.path).Perm s :=
    (mergeSort_perm _ _).trans hp
  refine List.Perm.eq_of_pairwise (fun a b ha hb hab hba => ?_)
    hs (hi.imp fun h => decide_eq_true h.le) hl
  exact eq_of_path_eq hi (hl.mem_iff.mp ha) hb
    (le_antisymm (of_decide_eq_true hab) (of_decide_eq_true hba))

end

/-! ### The tree a digest names -/

/-- One file of a package, its content as the SHA-256 value that an address denotes. -/
structure PackageFile where
  path : String
  executable : Bool
  size : UInt64
  content : Digest

/-- Whether a manifest lists a file. -/
def Lists (manifest : Manifest) (file : PackageFile) : Prop :=
  ∃ entry ∈ manifest.entries, entry.path = file.path ∧ entry.executable = file.executable ∧
    entry.size = file.size ∧ Digest.parse entry.sha256 = .ok file.content

def SameFiles (a b : Manifest) : Prop := ∀ file, a.Lists file ↔ b.Lists file

/-- The same files, with the address of one content spelled in two ways. -/
def Respelled (a b : Manifest) : Prop :=
  SameFiles a b ∧ ∃ x ∈ a.entries, ∃ y ∈ b.entries, x.path = y.path ∧ x.sha256 ≠ y.sha256

section

variable {n : String → String} {alna : Bool} {fmt : JsonFormat} {a b : Manifest}

/-- Entries of one manifest are found in another that lists the same files unrespelled. -/
theorem mem_of_sameFiles (ha : Accepted n a) (hsa : SameFiles a b) (hs : ¬ Respelled a b)
    {e : ManifestEntry} (hn : e ∈ a.entries) : e ∈ b.entries := by
  obtain ⟨d, hd⟩ := ha.digests e hn
  obtain ⟨o, ho, hp, he, hi, _⟩ :=
    (hsa ⟨e.path, e.executable, e.size, d⟩).mp ⟨e, hn, rfl, rfl, rfl, hd⟩
  have hs2 : e.sha256 = o.sha256 := by
    by_contra hne
    exact hs ⟨hsa, e, hn, o, ho, hp.symm, hne⟩
  obtain ⟨p, ex, s, s2⟩ := e
  obtain ⟨p', e', s', s2'⟩ := o
  simp only at hp he hi hs2
  subst hp he hi hs2
  exact ho

theorem Respelled.symm (h : Respelled a b) : Respelled b a := by
  obtain ⟨hs, x, hx, y, hy, hp, hn⟩ := h
  exact ⟨fun f => (hs f).symm, y, hy, x, hx, hp.symm, hn.symm⟩

/-- Valid manifests that list the same files unrespelled are one manifest. -/
theorem eq_of_sameFiles (ha : Accepted n a) (hb : Accepted n b) (hsa : SameFiles a b)
    (hs : ¬ Respelled a b) : a = b := by
  have hp : a.entries.Perm b.entries := by
    rw [perm_ext_iff_of_nodup (ha.increasing.imp fun h heq => absurd (heq ▸ h) (lt_irrefl _))
      (hb.increasing.imp fun h heq => absurd (heq ▸ h) (lt_irrefl _))]
    exact fun e => ⟨mem_of_sameFiles ha hsa hs,
      mem_of_sameFiles hb (fun f => (hsa f).symm) fun h => hs h.symm⟩
  have he : a.entries = b.entries :=
    (mergeSort_eq (List.Perm.refl _) ha.increasing).symm.trans (mergeSort_eq hp hb.increasing)
  obtain ⟨s, en⟩ := a
  obtain ⟨s', es'⟩ := b
  rw [Manifest.mk.injEq]
  exact ⟨ha.schema.trans hb.schema.symm, he⟩

/-- Accepted bytes are equal exactly when they list the same files, unless they spell the
address of one content in two ways. -/
theorem bytes_eq_iff {x y : Bytes} (hx : parse n alna fmt x = .ok a)
    (hy : parse n alna fmt y = .ok b) : (x = y ↔ SameFiles a b) ↔ ¬ Respelled a b := by
  obtain ⟨hxb, ha⟩ := parse_ok hx
  obtain ⟨hyb, hb⟩ := parse_ok hy
  constructor
  · rintro hi ⟨hs, e, he, o, ho, hp, hn⟩
    have heq : a = b := by
      have hby := hi.mpr hs
      rw [hby, hy] at hx
      exact (ok.inj hx).symm
    subst heq
    exact hn (congrArg ManifestEntry.sha256 (eq_of_path_eq ha.increasing he ho hp))
  · intro hsp
    constructor
    · rintro rfl
      rw [hx] at hy
      rw [ok.inj hy]
      exact fun f => Iff.rfl
    · intro hs
      rw [← hxb, ← hyb, eq_of_sameFiles ha hb hs hsp]

/-- Addresses spelled as bare digits are spelled in one way. -/
theorem not_respelled_of_bare (ha : Accepted n a) (hb : Accepted n b)
    (hba : ∀ e ∈ a.entries ++ b.entries, validHex e.sha256 = true) : ¬ Respelled a b := by
  rintro ⟨hs, x, hx, y, hy, hp, hn⟩
  obtain ⟨d, hd⟩ := ha.digests x hx
  obtain ⟨o, ho, hop, _, _, hod⟩ :=
    (hs ⟨x.path, x.executable, x.size, d⟩).mp ⟨x, hx, rfl, rfl, rfl, hd⟩
  obtain rfl := eq_of_path_eq hb.increasing ho hy (hop.trans hp)
  rw [Digest.parse_bare (hba x (mem_append_left _ hx))] at hd
  rw [Digest.parse_bare (hba o (mem_append_right _ hy))] at hod
  exact hn ((congrArg Digest.hex (ok.inj hd)).trans (congrArg Digest.hex (ok.inj hod)).symm)

/-- Any order of entries builds one manifest, or none. -/
theorem new_perm {e os : List ManifestEntry} (hp : e.Perm os) : (∃ ma, new n alna e = .ok ma ∧
      new n alna os = .ok ma) ∨ (∃ error, new n alna e = .error error) ∧
      ∃ error, new n alna os = .error error := by
  have hs : ∀ {e os : List ManifestEntry} {ma : Manifest}, e.Perm os → new n alna e = .ok ma →
        new n alna os = .ok ma := by
    intro e os ma hp h
    obtain ⟨rfl, hv⟩ := new_ok h
    have hso := mergeSort_eq (hp.symm.trans (mergeSort_perm _ _).symm)
      (accepted_of_validate hv).increasing
    rw [new, hso, hv]
    rfl
  cases he : new n alna e with
  | ok ma => exact .inl ⟨ma, rfl, hs hp he⟩
  | error error =>
    refine .inr ⟨⟨error, rfl⟩, ?_⟩
    cases ho : new n alna os with
    | error error => exact ⟨error, rfl⟩
    | ok ma =>
      rw [hs hp.symm ho] at he
      contradiction

end

/-- A manifest is canonical but for the spelling of its content addresses: accepted bytes are
equal exactly when they list the same files unless one address is spelled in two ways, which
bare digits are not, the order of entries does not matter, what is built parses back, and what is
accepted has
increasing paths and distinct collision keys. -/
theorem names_one_tree (nfkd : String → String) (allowNonAscii : Bool) (fmt : JsonFormat)
    (sha256 : Sha256) :
    (∀ x y a b, parse nfkd allowNonAscii fmt x = .ok a → parse nfkd allowNonAscii fmt y = .ok b →
      ((x = y ↔ SameFiles a b) ↔ ¬ Respelled a b) ∧
        ((∀ entry ∈ a.entries ++ b.entries, validHex entry.sha256 = true) → ¬ Respelled a b)) ∧
    (∀ entries others : List ManifestEntry, entries.Perm others →
      (∃ a b, new nfkd allowNonAscii entries = .ok a ∧ new nfkd allowNonAscii others = .ok b ∧
        a.digest sha256 fmt = b.digest sha256 fmt) ∨
      (∃ error, new nfkd allowNonAscii entries = .error error) ∧
        ∃ error, new nfkd allowNonAscii others = .error error) ∧
    (∀ entries a, new nfkd allowNonAscii entries = .ok a →
      parse nfkd allowNonAscii fmt (a.canonicalBytes fmt) = .ok a) ∧
    ∀ x a, parse nfkd allowNonAscii fmt x = .ok a →
      a.entries.Pairwise (fun e f => e.path < f.path) ∧
        a.entries.Pairwise (fun e f => keyOf nfkd e.path ≠ keyOf nfkd f.path) := by
  refine ⟨fun x y a b hx hy => ⟨bytes_eq_iff hx hy,
    not_respelled_of_bare (parse_ok hx).2 (parse_ok hy).2⟩, fun entries others hp =>
        ?_, fun entries a h => ?_,
    fun x a h => ?_⟩
  · exact (new_perm hp).imp (fun ⟨a, ha, hb⟩ => ⟨a, a, ha, hb, rfl⟩) id
  · exact parse_canonicalBytes (new_ok h).2
  · exact ⟨(parse_ok h).2.increasing, (parse_ok h).2.apart⟩

/-! ### One file under two spellings -/

/-- The manifest of one empty script whose address is spelled as given. -/
def lone (sha256 : String) : Manifest := ⟨manifestSchema, [⟨"a", false, 0, sha256⟩]⟩

def zeroDigest : Digest := .fromRaw (Vector.replicate 32 0)

theorem validate_lone {s2 : String} (h : Digest.parse s2 = .ok zeroDigest) :
    (lone s2).validate id false = .ok () := by
  have hp : CanonicalPath.parse "a" false = .ok ⟨"a"⟩ := by decide
  have he : validateEntries id false none (lone s2).entries = .ok [(keyOf id "a", "a")] := by
    simp only [lone, validateEntries, hp, h]
    rfl
  simp only [validate, he, ok_bind, mergeSort_singleton]
  rfl

theorem parse_lone {s2 : String} (h : Digest.parse s2 = .ok zeroDigest) :
    parse id false format ((lone s2).canonicalBytes format) = .ok (lone s2) :=
  parse_canonicalBytes (validate_lone h)

theorem parse_zeroDigest : Digest.parse zeroDigest.hex = .ok zeroDigest :=
  Digest.parse_bare zeroDigest.valid

/-- A bare and a prefixed address of one content make two byte strings of one tree. -/
theorem one_tree_two_names : ∃ x y a b, parse id false format x = .ok a ∧
    parse id false format y = .ok b ∧ SameFiles a b ∧ x ≠ y := by
  have hn : zeroDigest.hex ≠ zeroDigest.toString := fun h => by
    have hl := congrArg String.length h
    rw [Digest.toString, String.length_append] at hl
    have : "sha256:".length = 7 := rfl
    omega
  refine ⟨_, _, lone zeroDigest.hex, lone zeroDigest.toString, parse_lone parse_zeroDigest,
    parse_lone (Digest.parse_toString _), fun f => ?_, fun h => ?_⟩
  · simp [Lists, lone, parse_zeroDigest]
  · have heq := (format.toVec_inj (by decide)).mp h
    exact hn (by simpa [lone] using heq)

theorem names_one_tree_lone : ((lone zeroDigest.hex).canonicalBytes format =
        (lone zeroDigest.hex).canonicalBytes format ↔
      SameFiles (lone zeroDigest.hex) (lone zeroDigest.hex)) ↔ ¬ Respelled (lone zeroDigest.hex)
      (lone zeroDigest.hex) :=
  (names_one_tree id false format fun _ => Vector.replicate 32 0).1 _ _ _ _
    (parse_lone parse_zeroDigest) (parse_lone parse_zeroDigest) |>.1

end Manifest
end Louiselm.Canonical
