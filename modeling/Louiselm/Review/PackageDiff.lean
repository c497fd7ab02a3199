import Mathlib.Data.List.ReduceOption
import Louiselm.Canonical.Manifest
import Louiselm.Review.EditScript
import Louiselm.Review.Scan

/-!
# Differences of packages

`skills-core/src/diff.rs` over the packages of `store.rs`: what a reviewer of an update is shown
for every path. Lines are compared without their terminators.
-/

namespace Louiselm.Canonical

/-- The entry of a path. -/
def Manifest.entry (manifest : Manifest) (path : String) : Option ManifestEntry :=
  manifest.entries.find? (·.path == path)

theorem Manifest.entry_eq_none {m : Manifest} {path : String} :
    m.entry path = none ↔ ∀ e ∈ m.entries, e.path ≠ path := by
  simp [Manifest.entry, List.find?_eq_none]

theorem Manifest.of_entry {m : Manifest} {path : String} {e : ManifestEntry}
    (h : m.entry path = some e) : e ∈ m.entries ∧ e.path = path :=
  ⟨List.mem_of_find?_eq_some h, by simpa using List.find?_some h⟩

end Louiselm.Canonical

namespace Louiselm.Review
open Base Canonical

/-- Longest text file, in lines, compared line by line. -/
def MAX_DIFF_LINES : Nat := 2000

/-- How one path differs between two packages. -/
inductive Change where
  | added
  | removed
  | contentChanged
  | modeChanged
deriving DecidableEq, Repr

structure DiffEntry where
  path : String
  change : Change
  becameExecutable : Bool
  lines : List DiffLine
  /-- Why no lines are shown, when none are. -/
  note : Option String
deriving DecidableEq, Repr

structure PackageDiff where
  baseDigest : String
  targetDigest : String
  entries : List DiffEntry
deriving DecidableEq, Repr

/-- A file that could not be read. -/
structure StoreError where
  path : String
deriving DecidableEq, Repr

/-- A package of the store; `files` is what is stored of it, with the executable bits. -/
structure Package where
  digest : Digest
  manifest : Manifest
  files : String → Option (Bytes × Bool)

def Package.read (package : Package) (path : String) : Except StoreError Bytes :=
  match package.files path with
  | some (bytes, _) => .ok bytes
  | none => .error ⟨path⟩

/-! ### Comparing -/

/-- The lines of a text without their terminators, `\n` or `\r\n`. -/
def lineChars : List Char → List (List Char)
  | [] => []
  | '\n' :: rest => [] :: lineChars rest
  | '\r' :: '\n' :: rest => [] :: lineChars rest
  | c :: rest =>
    match lineChars rest with
    | [] => [[c]]
    | line :: others => (c :: line) :: others

def textLines (text : String) : List String := (lineChars text.toList).map String.ofList

def asText (bytes : Bytes) : Option String := if containsNul bytes then none else fromUtf8 bytes

/-- The lines that are shown of changed content, and why none are. -/
def contentLines (old new : Bytes) : List DiffLine × Option String :=
  match asText old, asText new with
  | some old, some new =>
    if MAX_DIFF_LINES < (textLines old).length ∨ MAX_DIFF_LINES < (textLines new).length then
      ([], some ("content replaced; over " ++ toString MAX_DIFF_LINES ++
        " lines, not compared line by line"))
    else (render (textLines old) (textLines new), none)
  | _, _ => ([], some "binary content")

/-- The entry of one path, none where nothing changed. -/
def diffEntry (base target : Package) (path : String) : Except StoreError (Option DiffEntry) :=
  match base.manifest.entry path, target.manifest.entry path with
  | none, some after => .ok (some ⟨path, .added, after.executable, [], some "added"⟩)
  | some _, none => .ok (some ⟨path, .removed, false, [], some "removed"⟩)
  | some before, some after =>
    let becameExecutable := after.executable && !before.executable
    if before.sha256 = after.sha256 then
      if before.executable = after.executable then .ok none
      else .ok (some ⟨path, .modeChanged, becameExecutable, [], some "mode only"⟩)
    else do
      let old ← base.read path
      let new ← target.read path
      let shown := contentLines old new
      return some ⟨path, .contentChanged, becameExecutable, shown.1, shown.2⟩
  | none, none => .ok none

/-- The paths of both packages, in order. -/
def packagePaths (base target : Package) : List String :=
  Text.sortedSet ((base.manifest.entries ++ target.manifest.entries).map (·.path))

/-- Compare two packages. -/
def PackageDiff.between (base target : Package) : Except StoreError PackageDiff := do
  let entries ← (packagePaths base target).mapM (diffEntry base target)
  return ⟨base.digest.toString, target.digest.toString, entries.reduceOption⟩

/-! ### Shown changes -/

section

variable {α : Type}

/-- A script that only keeps lines is as long as each file. -/
theorem length_filterMap_context {old new : List α} {st : List Step}
    (ho : ∀ step ∈ st, step.Sound old new) (hk : ∀ step ∈ st, step.kind = .context) :
    (st.filterMap (·.left)).length = st.length ∧ (st.filterMap (·.right)).length = st.length := by
  induction st with
  | nil => exact ⟨rfl, rfl⟩
  | cons step st ih =>
    obtain ⟨hl, hr⟩ := ih (fun s hs => ho s (List.mem_cons_of_mem _ hs))
      fun s hs => hk s (List.mem_cons_of_mem _ hs)
    have hf := hk step List.mem_cons_self
    cases ho step List.mem_cons_self with
    | context _ _ =>
      exact ⟨by simpa using hl, by simpa using hr⟩
    | removed _ => exact absurd hf (by simp)
    | added _ => exact absurd hf (by simp)

variable [DecidableEq α]

/-- Of a file and itself nothing is removed or added. -/
theorem kind_of_mem_walk_self {t : List (List Nat)} {ls : List α} {i : Nat} {s : Step}
    (h : s ∈ walk t ls ls i i) : s.kind = .context := by
  generalize hl : ls.length - i = l
  induction l generalizing i with
  | zero =>
    have hn : ¬ (i < ls.length ∧ i < ls.length) := by omega
    rw [walk, dif_neg hn, remaining, hl] at h
    simp at h
  | succ l ih =>
    have hi : i < ls.length ∧ i < ls.length := by omega
    rw [walk, dif_pos hi, if_pos rfl] at h
    rcases List.mem_cons.mp h with rfl | hr
    · rfl
    · exact ih hr (by omega)

/-- A script without a change is one of equal files. -/
theorem eq_of_script_context {old new : List α}
    (h : ∀ s ∈ script old new, s.kind = .context) : old = new := by
  obtain ⟨hb, ht, hs, hm⟩ := script_faithful old new
  obtain ⟨hl, hr⟩ := length_filterMap_context hs h
  rw [hb, List.length_range', Nat.sub_zero] at hl
  rw [ht, List.length_range', Nat.sub_zero] at hr
  have hc : contexts (script old new) = (script old new).length := by
    rw [contexts, List.filter_eq_self.mpr fun s hst => by simp [h s hst]]
  rw [hc] at hm
  obtain ⟨c, hold, hn, he⟩ := hm.1
  rw [List.drop_zero] at hold hn
  rw [← hold.eq_of_length (by omega), ← hn.eq_of_length (by omega)]

end

/-- A rendered diff shows a change exactly when the lines differ. -/
theorem render_shows_iff {old new : List String} :
    (∃ l ∈ render old new, l.kind ≠ .context) ↔ old ≠ new := by
  constructor
  · rintro ⟨l, hl, hk⟩ rfl
    obtain ⟨x, hi, rfl⟩ := List.mem_map.mp hl
    obtain ⟨hi, -⟩ := List.mem_filter.mp hi
    have hs : x.1 ∈ script old old := (List.mem_zipIdx hi).2.2 ▸ List.getElem_mem _
    exact hk (kind_of_mem_walk_self hs)
  · intro he
    by_contra hn
    refine he (eq_of_script_context fun s hs => ?_)
    by_contra hk
    exact hn ⟨_, diffLine_mem_render hs hk, hk⟩

/-! ### Every change -/

/-- What the store holds of a package is what its manifest says. -/
structure Package.Intact (sha256 : Sha256) (package : Package) : Prop where
  stored : ∀ entry ∈ package.manifest.entries, ∃ bytes,
    package.files entry.path = some (bytes, entry.executable) ∧
    (Digest.of sha256 bytes).hex = entry.sha256 ∧ bytes.length = entry.size.toNat
  listed : ∀ path file, package.files path = some file →
    ∃ entry ∈ package.manifest.entries, entry.path = path

/-- The contents that a package holds. -/
def Package.contents (package : Package) : Set Bytes :=
  {bytes | ∃ path executable, package.files path = some (bytes, executable)}

/-- A text changed, and none of its lines did. -/
def Unseen (base target : Package) (path : String) : Prop :=
  ∃ old new oldMode newMode oldText newText, base.files path = some (old, oldMode) ∧
    target.files path = some (new, newMode) ∧ old ≠ new ∧ asText old = some oldText ∧
    asText new = some newText ∧ textLines oldText = textLines newText ∧
    (textLines oldText).length ≤ MAX_DIFF_LINES

/-- A changed content is shown by a line that was removed or added, or a note says why not. -/
def DiffEntry.Shown (entry : DiffEntry) : Prop :=
  (∃ line ∈ entry.lines, line.kind ≠ .context) ∨ entry.note.isSome = true

/-- There is an entry for every path that differs and for no other, and every changed content is
shown. -/
structure PackageDiff.Shows (base target : Package) (diff : PackageDiff) : Prop where
  paths : ∀ path, (∃ entry ∈ diff.entries, entry.path = path) ↔ base.files path ≠ target.files path
  changes : ∀ entry ∈ diff.entries, entry.change = .contentChanged → entry.Shown

/-- The lines of a changed content show the change, unless no line changed. -/
theorem contentLines_shown {old new : Bytes} :
    ((∃ l ∈ (contentLines old new).1, l.kind ≠ .context) ∨ (contentLines old new).2.isSome = true) ↔
    ¬ ∃ ot nt, asText old = some ot ∧ asText new = some nt ∧
      textLines ot = textLines nt ∧ (textLines ot).length ≤ MAX_DIFF_LINES := by
  unfold contentLines
  split
  · next ot nt hold he =>
    have hu : (∃ ot nt, asText old = some ot ∧ asText new = some nt ∧
        textLines ot = textLines nt ∧ (textLines ot).length ≤ MAX_DIFF_LINES) ↔
        textLines ot = textLines nt ∧ (textLines ot).length ≤ MAX_DIFF_LINES := by
      simp [hold, he]
    rw [hu]
    split
    · next hl =>
      simp only [Option.isSome_some, or_true, true_iff]
      rintro ⟨heq, hle⟩
      rw [← heq] at hl
      omega
    · next hs =>
      have hle : (textLines ot).length ≤ MAX_DIFF_LINES := by omega
      simp only [render_shows_iff, Option.isSome_none, Bool.false_eq_true, or_false, hle, and_true,
        ne_eq]
  · next hn =>
    simp only [Option.isSome_some, or_true, true_iff]
    rintro ⟨ot, nt, hold, he, -⟩
    exact hn ot nt hold he

section

variable {sha256 : Sha256} {base target : Package} {path : String}

/-- A path is not in the manifest of an intact package exactly when nothing is stored there. -/
theorem Package.Intact.files_eq_none (h : base.Intact sha256) :
    base.files path = none ↔ base.manifest.entry path = none := by
  rw [Manifest.entry_eq_none]
  constructor
  · intro hn entry he heq
    obtain ⟨b, hb, -⟩ := h.stored entry he
    rw [heq, hn] at hb
    simp at hb
  · intro ha
    by_contra hs
    obtain ⟨f, hf⟩ := Option.ne_none_iff_exists'.mp hs
    obtain ⟨entry, he, hp⟩ := h.listed path f hf
    exact ha entry he hp

/-- The stored file of an entry. -/
theorem Package.Intact.of_entry (h : base.Intact sha256) {e : ManifestEntry}
    (he : base.manifest.entry path = some e) : ∃ b, base.files path = some (b, e.executable) ∧
      (Digest.of sha256 b).hex = e.sha256 := by
  obtain ⟨hm, hp⟩ := Manifest.of_entry he
  obtain ⟨b, hb, hh, -⟩ := h.stored e hm
  exact ⟨b, hp ▸ hb, hh⟩

/-- A path that is not in both packages is not an unseen change. -/
theorem not_unseen_of_none (h : base.files path = none ∨ target.files path = none) :
    ¬ Unseen base target path := by
  rintro ⟨old, new, om, nm, -, -, hold, hn, -⟩
  rcases h with h | h
  · simp [h] at hold
  · simp [h] at hn

/-- Whether the change of a path in both packages is unseen. -/
theorem unseen_iff {old new : Bytes} {om nm : Bool}
    (hold : base.files path = some (old, om)) (hn : target.files path = some (new, nm)) :
    Unseen base target path ↔ old ≠ new ∧ ∃ ot nt, asText old = some ot ∧
      asText new = some nt ∧ textLines ot = textLines nt ∧
      (textLines ot).length ≤ MAX_DIFF_LINES := by
  constructor
  · rintro ⟨o', n', om', nm', ot, nt, ho', hn', hr⟩
    obtain ⟨rfl, -⟩ := Prod.mk.inj (Option.some.inj (hold.symm.trans ho'))
    obtain ⟨rfl, -⟩ := Prod.mk.inj (Option.some.inj (hn.symm.trans hn'))
    exact ⟨hr.1, ot, nt, hr.2⟩
  · rintro ⟨he, ot, nt, hr⟩
    exact ⟨old, new, om, nm, ot, nt, hold, hn, he, hr⟩

/-- What becomes of a path. -/
structure Compared (base target : Package) (path : String) (entry : Option DiffEntry) : Prop where
  path_eq : ∀ shown, entry = some shown → shown.path = path
  differs : entry.isSome = true ↔ base.files path ≠ target.files path
  shown : (∀ shown, entry = some shown → shown.change = .contentChanged → shown.Shown) ↔
    ¬ Unseen base target path

/-- A path whose content did not change has no lines to show. -/
theorem Compared.of_plain {e : Option DiffEntry} (hu : ¬ Unseen base target path)
    (hp : ∀ shown, e = some shown → shown.path = path ∧ shown.change ≠ .contentChanged)
    (hd : e.isSome = true ↔ base.files path ≠ target.files path) : Compared base target path e where
  path_eq shown h := (hp shown h).1
  differs := hd
  shown := iff_of_true (fun shown h hc => absurd hc (hp shown h).2) hu

/-- Every path of intact packages is compared. -/
theorem diffEntry_compared (hb : base.Intact sha256) (ht : target.Intact sha256)
    (hf : CollisionFree sha256 (base.contents ∪ target.contents)) (path : String) :
    ∃ e, diffEntry base target path = .ok e ∧ Compared base target path e := by
  cases he : base.manifest.entry path with
  | none =>
    have hold := hb.files_eq_none.mpr he
    have hu : ¬ Unseen base target path := not_unseen_of_none (Or.inl hold)
    cases ha : target.manifest.entry path with
    | none =>
      have hn := ht.files_eq_none.mpr ha
      refine ⟨none, by simp only [diffEntry, he, ha], .of_plain hu ?_ ?_⟩
      · exact fun s h => nomatch h
      · simp [hold, hn]
    | some l =>
      obtain ⟨new, hn, -⟩ := ht.of_entry ha
      refine ⟨_, by simp only [diffEntry, he, ha]; rfl, .of_plain hu ?_ ?_⟩
      · rintro s ⟨⟩
        exact ⟨rfl, Change.noConfusion⟩
      · simp [hold, hn]
  | some pre =>
    obtain ⟨old, hold, hx⟩ := hb.of_entry he
    cases ha : target.manifest.entry path with
    | none =>
      have hn := ht.files_eq_none.mpr ha
      have hu : ¬ Unseen base target path := not_unseen_of_none (Or.inr hn)
      refine ⟨_, by simp only [diffEntry, he, ha]; rfl, .of_plain hu ?_ ?_⟩
      · rintro s ⟨⟩
        exact ⟨rfl, Change.noConfusion⟩
      · simp [hold, hn]
    | some l =>
      obtain ⟨new, hn, hh'⟩ := ht.of_entry ha
      have hs : pre.sha256 = l.sha256 ↔ old = new := by
        rw [← hx, ← hh', ← Digest.of_inj hf (Or.inl ⟨path, _, hold⟩) (Or.inr ⟨path, _, hn⟩)]
        exact ⟨Digest.ext, congrArg Digest.hex⟩
      by_cases hh : pre.sha256 = l.sha256
      · have hc := hs.mp hh
        have hu : ¬ Unseen base target path := by
          rw [unseen_iff hold hn]
          exact fun h => h.1 hc
        by_cases hm : pre.executable = l.executable
        · refine ⟨none, by simp only [diffEntry, he, ha, hh, hm, if_true], .of_plain hu ?_ ?_⟩
          · exact fun s h => nomatch h
          · simp [hold, hn, hc, hm]
        · refine ⟨some ⟨path, .modeChanged, l.executable && !pre.executable, [],
            some "mode only"⟩, by simp only [diffEntry, he, ha, hh, hm, if_true,
              if_false], .of_plain hu ?_ ?_⟩
          · rintro s ⟨⟩
            exact ⟨rfl, Change.noConfusion⟩
          · simp [hold, hn, hm]
      · have hc : old ≠ new := fun h => hh (hs.mpr h)
        refine ⟨some ⟨path, .contentChanged, l.executable && !pre.executable,
          (contentLines old new).1, (contentLines old new).2⟩, ?_, ?_, ?_, ?_⟩
        · simp only [diffEntry, he, ha, hh, if_false, Package.read, hold, hn]
          rfl
        · exact fun s h => Option.some.inj h ▸ rfl
        · simp [hold, hn, hc]
        · rw [unseen_iff hold hn, not_and]
          simp only [Option.some.injEq, forall_eq', forall_true_left, hc, ne_eq,
            not_false_eq_true, DiffEntry.Shown, contentLines_shown]

/-- A path that differs is in one of the manifests. -/
theorem mem_packagePaths (hb : base.Intact sha256) (ht : target.Intact sha256)
    (h : base.files path ≠ target.files path) : path ∈ packagePaths base target := by
  rw [packagePaths, Text.mem_sortedSet, List.mem_map]
  cases hf : base.files path with
  | some f =>
    obtain ⟨e, he, hp⟩ := hb.listed path f hf
    exact ⟨e, List.mem_append_left _ he, hp⟩
  | none =>
    rw [hf] at h
    obtain ⟨f, hf⟩ := Option.ne_none_iff_exists'.mp h.symm
    obtain ⟨e, he, hp⟩ := ht.listed path f hf
    exact ⟨e, List.mem_append_right _ he, hp⟩

end

/-! ### An unseen change -/

/-- A package of one file. -/
def lonePackage (sha256 : Sha256) (content : Bytes) : Package where
  digest := Digest.of sha256 content
  manifest := ⟨manifestSchema,
    [⟨"SKILL.md", false, UInt64.ofNat content.length, (Digest.of sha256 content).hex⟩]⟩
  files path := if path = "SKILL.md" then some (content, false) else none

/-- A hash that tells contents of different lengths below 256 bytes apart. -/
def lengthHash : Sha256 := fun bytes => Vector.replicate 32 (UInt8.ofNat bytes.length)

theorem lonePackage_intact {sha256 : Sha256} {c : Bytes} (h : c.length < 2 ^ 64) :
    (lonePackage sha256 c).Intact sha256 where
  stored entry he := by
    rw [List.mem_singleton.mp he]
    exact ⟨c, by simp [lonePackage], rfl, (UInt64.toNat_ofNat_of_lt' h).symm⟩
  listed path file hf := by
    by_cases hp : path = "SKILL.md"
    · exact ⟨_, List.mem_singleton_self _, hp.symm⟩
    · simp [lonePackage, hp] at hf

/-- The same line with and without a line feed at its end. -/
def withFeed : Package := lonePackage lengthHash (utf8 "run me\n")

def withoutFeed : Package := lonePackage lengthHash (utf8 "run me")

theorem lengthHash_free : CollisionFree lengthHash (withFeed.contents ∪ withoutFeed.contents) := by
  have hc : ∀ bytes ∈ withFeed.contents ∪ withoutFeed.contents,
      bytes = utf8 "run me\n" ∨ bytes = utf8 "run me" := by
    rintro bytes (⟨path, executable, hf⟩ | ⟨path, executable, hf⟩)
    · refine Or.inl ?_
      by_cases hp : path = "SKILL.md"
      · exact (Prod.mk.inj (Option.some.inj ((if_pos hp).symm.trans hf))).1.symm
      · simp [withFeed, lonePackage, hp] at hf
    · refine Or.inr ?_
      by_cases hp : path = "SKILL.md"
      · exact (Prod.mk.inj (Option.some.inj ((if_pos hp).symm.trans hf))).1.symm
      · simp [withoutFeed, lonePackage, hp] at hf
  intro a ha b hb heq
  have hy := congrArg (fun raw : RawHash => raw[0]) heq
  rcases hc a ha with rfl | rfl <;> rcases hc b hb with rfl | rfl
  · rfl
  · exact absurd hy (by decide)
  · exact absurd hy (by decide)
  · rfl

end Louiselm.Review
