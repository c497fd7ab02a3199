import Mathlib.Data.List.AList
import Louiselm.Endorsement.Trust

/-!
# Imported Endorsement records

`skills-core/src/endorsement/import.rs`: the directory of imported records, the reading of
every stored record, and the pruning of expired Endorsements. The directory is one the system
reads and changes as it is asked to.
-/

namespace Louiselm.Endorsement
open Base Canonical List

/-- What stands under a name of the directory. -/
inductive StoredFile where
  | regular (bytes : Bytes)
  | other
deriving DecidableEq

/-- The directory of imported records; one that is absent has no entries. -/
abbrev Directory := AList fun _ : String => StoredFile

/-- Why records could not be imported, read or pruned. -/
inductive ImportError where
  | record (error : EndorsementError)
  | notRegular (name : String)
  | corrupt (name : String)
deriving DecidableEq

/-- The readable stored records, and stored files that are not. -/
structure StoredRecords where
  records : List Record
  unreadable : List (String × ImportError)

/-- The name of a stored record. -/
def recordName (digest : Digest) : String := digest.directoryName ++ ".json"

/-- The names this store writes. -/
def isRecordName (name : String) : Bool :=
  match stripPrefix "sha256-".toList name.toList with
  | none => false
  | some rest => ".json".toList.isSuffixOf rest

/-- A record that no longer counts at `nowMs` and may be removed: withdrawals never may. -/
def Record.prunable (nowMs : UInt64) (record : Record) : Bool :=
  record.kind == .endorsement && record.signing.expiresAtMs ≤ nowMs

section

variable (sha256 : Sha256) (fmt : JsonFormat)

def readBounded (name : String) : StoredFile → Except ImportError Bytes
  | .other => .error (.notRegular name)
  | .regular bytes => do
    require (decide (bytes.length ≤ maxRecordBytes))
      (.record (.oversized bytes.length maxRecordBytes))
    return bytes

/-- Read one stored record and check it against its storage name. -/
def readStored (name : String) (file : StoredFile) : Except ImportError Record := do
  let bytes ← readBounded name file
  let record ← (parse sha256 fmt bytes).mapError .record
  require (recordName (record.digest sha256) == name) (.corrupt name)
  return record

/-- The names of stored records, sorted. -/
def Directory.names (directory : Directory) : List String :=
  (directory.keys.filter isRecordName).insertionSort (· ≤ ·)

/-- The record under a name, when there is a file that can be read as it. -/
def Directory.read (directory : Directory) (name : String) : Except ImportError Record :=
  match directory.lookup name with
  | none => .error (.notRegular name)
  | some file => readStored sha256 fmt name file

/-- Every stored record, in the order of the names. -/
def Directory.records (directory : Directory) : StoredRecords where
  records := directory.names.filterMap fun name => (directory.read sha256 fmt name).toOption
  unreadable := directory.names.filterMap fun name =>
    match directory.read sha256 fmt name with
    | .ok _ => none
    | .error error => some (name, error)

/-- Remove stored Endorsements that have expired at `nowMs`; the digests removed and the
directory that is left. -/
def Directory.pruneExpired (directory : Directory) (nowMs : UInt64) : List Digest × Directory :=
  let pruned := ((directory.records sha256 fmt).records.filter (·.prunable nowMs)).map
    (·.digest sha256)
  (pruned, pruned.foldl (fun directory digest => directory.erase (recordName digest)) directory)

/-! ### What is stored -/

variable {sha256 fmt}

theorem recordName_inj {a b : Digest} : recordName a = recordName b ↔ a = b := by
  constructor
  · intro h
    have hl := congrArg String.toList h
    simp only [recordName, Digest.directoryName, String.toList_append, append_cancel_left_eq,
      append_cancel_right_eq] at hl
    exact Digest.ext (String.toList_inj.mp hl)
  · exact congrArg recordName

namespace Directory

variable {di : Directory} {n : String}

theorem mem_names : n ∈ di.names ↔ n ∈ di.keys ∧ isRecordName n = true := by
  rw [names, mem_insertionSort, mem_filter]

theorem nodup_names (di : Directory) : di.names.Nodup :=
  (perm_insertionSort ..).nodup_iff.mpr (di.nodupKeys.filter _)

variable {r : Record}

/-- What is read under a name has that name. -/
theorem name_of_read (h : di.read sha256 fmt n = .ok r) : recordName (r.digest sha256) = n := by
  unfold read at h
  split at h
  · contradiction
  · simp only [readStored, bind_ok, require_ok, beq_iff_eq, pure, Except.pure, Except.ok.injEq] at h
    obtain ⟨_, _, _, _, _, hn, rfl⟩ := h
    exact hn

theorem mem_records : r ∈ (di.records sha256 fmt).records ↔
      ∃ n ∈ di.names, di.read sha256 fmt n = .ok r := by
  simp only [records, mem_filterMap]
  refine exists_congr fun n => and_congr_right fun _ => ?_
  cases di.read sha256 fmt n <;> simp [Except.toOption]

theorem isRecordName_recordName (d : Digest) : isRecordName (recordName d) = true := by
  have hs : stripPrefix "sha256-".toList (recordName d).toList =
      some (d.hex.toList ++ ".json".toList) := by
    rw [recordName, Digest.directoryName, String.toList_append, String.toList_append,
      append_assoc, stripPrefix_append]
  rw [isRecordName, hs]
  exact isSuffixOf_iff_suffix.mpr (suffix_append ..)

/-- A record that parses and stands under its own name is stored. -/
theorem mem_records_of_lookup {b : Bytes} (hp : parse sha256 fmt b = .ok r)
    (hb : r.bytes = b) (hs : b.length ≤ maxRecordBytes)
    (h : di.lookup (recordName (Digest.of sha256 b)) = some (.regular b)) :
    r ∈ (di.records sha256 fmt).records := by
  subst hb
  refine mem_records.mpr ⟨recordName (r.digest sha256), mem_names.mpr ⟨?_, ?_⟩, ?_⟩
  · rw [← AList.mem_keys, ← AList.lookup_isSome, Record.digest, h]
    rfl
  · exact isRecordName_recordName _
  · rw [read, Record.digest, h]
    simp [readStored, readBounded, hs, hp, require, Except.mapError, Record.digest]

/-- No two stored records have one digest. -/
theorem nodup_records (di : Directory) :
    ((di.records sha256 fmt).records.map (·.digest sha256)).Nodup := by
  have hn : ∀ n digest, digest ∈ ((di.read sha256 fmt n).toOption.map (·.digest sha256)) →
        recordName digest = n := by
    intro n digest hd
    cases hr : di.read sha256 fmt n with
    | error error => simp [hr, Except.toOption] at hd
    | ok r =>
      simp only [hr, Except.toOption, Option.map_some, Option.mem_some_iff] at hd
      rw [← hd]
      exact name_of_read hr
  rw [records, map_filterMap]
  refine di.nodup_names.filterMap fun n n' digest h h' => ?_
  exact (hn n digest h).symm.trans (hn n' digest h')

/-! ### What pruning leaves -/

private theorem lookup_erased (ds : List Digest) (di : Directory) (n : String) :
    (ds.foldl (fun di d => di.erase (recordName d)) di).lookup n =
        if n ∈ ds.map recordName then none else di.lookup n := by
  induction ds generalizing di with
  | nil => simp
  | cons d ds ih =>
    rw [foldl_cons, ih]
    by_cases hn : n = recordName d
    · subst hn
      simp
    · simp [hn, AList.lookup_erase_ne hn]

private theorem lookup_pruneExpired (di : Directory) (ms : UInt64) (n : String) :
    (di.pruneExpired sha256 fmt ms).2.lookup n =
      if n ∈ (di.pruneExpired sha256 fmt ms).1.map recordName then none
      else di.lookup n := lookup_erased ..

/-- The names that pruning removes are those it reads a prunable record under. -/
private theorem mem_pruned {ms : UInt64} : n ∈ (di.pruneExpired sha256 fmt ms).1.map recordName ↔
      n ∈ di.names ∧ ∃ r, di.read sha256 fmt n = .ok r ∧ r.prunable ms = true := by
  simp only [pruneExpired, map_map, mem_map, mem_filter, mem_records, Function.comp_apply]
  constructor
  · rintro ⟨r, ⟨⟨s, hm, hr⟩, hp⟩, rfl⟩
    rw [name_of_read hr]
    exact ⟨hm, r, hr, hp⟩
  · rintro ⟨hm, r, hr, hp⟩
    exact ⟨r, ⟨⟨n, hm, hr⟩, hp⟩, name_of_read hr⟩

private theorem names_pruneExpired (di : Directory) (ms : UInt64) :
    (di.pruneExpired sha256 fmt ms).2.names = di.names.filter
      (· ∉ (di.pruneExpired sha256 fmt ms).1.map recordName) := by
  refine List.Perm.eq_of_pairwise (fun _ _ _ _ => le_antisymm)
    (pairwise_insertionSort (· ≤ ·) _) ((pairwise_insertionSort (· ≤ ·) _).filter _) ?_
  refine (perm_ext_iff_of_nodup (nodup_names _) ((nodup_names _).filter _)).mpr fun n => ?_
  rw [mem_filter, mem_names, mem_names, ← AList.mem_keys, ← AList.mem_keys,
    ← AList.lookup_isSome, ← AList.lookup_isSome, lookup_pruneExpired]
  by_cases hn : n ∈ (di.pruneExpired sha256 fmt ms).1.map recordName
  · simp [hn]
  · simp [hn]

/-- Pruning leaves every record that is not prunable, in order, and every unreadable file. -/
theorem records_pruneExpired (di : Directory) (ms : UInt64) :
    (di.pruneExpired sha256 fmt ms).2.records sha256 fmt =
      ⟨(di.records sha256 fmt).records.filter (!·.prunable ms),
        (di.records sha256 fmt).unreadable⟩ := by
  have hr : ∀ n, n ∉ (di.pruneExpired sha256 fmt ms).1.map recordName →
      (di.pruneExpired sha256 fmt ms).2.read sha256 fmt n =
        di.read sha256 fmt n := by
    intro n hn
    rw [read, read, lookup_pruneExpired, if_neg hn]
  rw [records, names_pruneExpired, filterMap_filter, filterMap_filter]
  congr 1
  · rw [records, filter_filterMap]
    refine filterMap_congr fun n hm => ?_
    by_cases hn : n ∈ (di.pruneExpired sha256 fmt ms).1.map recordName
    · obtain ⟨_, r, he, hp⟩ := mem_pruned.mp hn
      simp [hn, he, hp, Except.toOption, Option.filter]
    · cases he : di.read sha256 fmt n with
      | error error => simp [hn, hr, he, Except.toOption]
      | ok r =>
        have hk : r.prunable ms = false := by
          by_contra hp
          exact hn (mem_pruned.mpr ⟨hm, r, he, eq_true_of_ne_false hp⟩)
        simp [hn, hr, he, hk, Except.toOption, Option.filter]
  · refine filterMap_congr fun n hm => ?_
    by_cases hn : n ∈ (di.pruneExpired sha256 fmt ms).1.map recordName
    · obtain ⟨_, r, he, _⟩ := mem_pruned.mp hn
      simp [hn, he]
    · simp [hn, hr]

end Directory
end
end Louiselm.Endorsement
