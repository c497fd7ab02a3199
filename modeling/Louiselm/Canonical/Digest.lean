import Mathlib.Data.Set.Function
import Louiselm.Base.Hex

/-!
# SHA-256 content addresses

`skills-core/src/canonical.rs`. A digest is held as its 64 lowercase hex digits and
displayed with the `sha256:` prefix; parsing also accepts the store spelling and the
bare digits. SHA-256 itself is a parameter: results that need distinct contents to have
distinct addresses assume it of the contents they hash, never of all byte strings.
-/

namespace Louiselm.Canonical
open Base

/-- A raw SHA-256 output. -/
abbrev RawHash := Vector UInt8 32

/-- A SHA-256 implementation. -/
abbrev Sha256 := Bytes → RawHash

/-- No two of the given contents have one hash. -/
def CollisionFree (sha256 : Sha256) (contents : Set Bytes) : Prop :=
  Set.InjOn sha256 contents

/-- Whether a text is exactly 64 lowercase hex digits. -/
def validHex (hex : String) : Bool :=
  hex.toList.length == 64 && hex.toList.all Hex.isDigit

/-- A SHA-256 content address. -/
structure Digest where
  hex : String
  valid : validHex hex = true
deriving DecidableEq

/-- A malformed digest string. -/
structure DigestError where
  raw : String
deriving DecidableEq, Repr

namespace Digest

private theorem validHex_raw (raw : RawHash) :
    validHex (String.ofList (Hex.encode raw.toList)) = true := by
  simp [validHex, Hex.isDigit_encode]

/-- Render a raw SHA-256 output as two lowercase hex digits per byte. -/
def fromRaw (raw : RawHash) : Digest := ⟨String.ofList (Hex.encode raw.toList), validHex_raw raw⟩

/-- Compute the digest of `bytes`. -/
def of (sha256 : Sha256) (bytes : Bytes) : Digest := fromRaw (sha256 bytes)

/-- What is left of a text after either prefix, or the text itself. -/
def hexPart (raw : String) : String :=
  String.ofList <|
    ((stripPrefix "sha256:".toList raw.toList).or (stripPrefix "sha256-".toList raw.toList)).getD
      raw.toList

/-- Parse `sha256:<hex>`, `sha256-<hex>`, or a bare lowercase hex digest. -/
def parse (raw : String) : Except DigestError Digest :=
  if h : validHex (hexPart raw) = true then .ok ⟨hexPart raw, h⟩ else .error ⟨raw⟩

/-- The text every human- and robot-facing surface shows. -/
def toString (digest : Digest) : String := "sha256:" ++ digest.hex

/-- The directory name this digest owns in the immutable store. -/
def directoryName (digest : Digest) : String := "sha256-" ++ digest.hex

/-- Digests with equal digits are equal. -/
theorem ext {a b : Digest} (h : a.hex = b.hex) : a = b := by
  cases a
  cases b
  simpa using h

/-- A raw output is recovered from its digest. -/
theorem fromRaw_inj {a b : RawHash} : fromRaw a = fromRaw b ↔ a = b := by
  constructor
  · intro h
    have hl := congrArg (fun d ↦ d.hex.toList) h
    simp only [fromRaw, String.toList_ofList, Hex.encode_inj] at hl
    exact Vector.toList_inj.mp hl
  · exact congrArg fromRaw

/-- The displayed text names one digest. -/
theorem toString_inj {a b : Digest} : a.toString = b.toString ↔ a = b := by
  constructor
  · intro h
    have hl := congrArg String.toList h
    simp only [toString, String.toList_append, List.append_cancel_left_eq] at hl
    exact ext (String.toList_inj.mp hl)
  · exact congrArg toString

/-- The displayed text parses to the digest it shows. -/
@[simp] theorem parse_toString (d : Digest) : parse d.toString = .ok d := by
  have hh : hexPart d.toString = d.hex := by
    rw [hexPart, toString, String.toList_append, stripPrefix_append, Option.some_or,
      Option.getD_some, String.ofList_toList]
  simp only [parse, hh, d.valid, dite_true]

/-- Bare digits parse to the digest that has them. -/
theorem parse_bare {raw : String} (h : validHex raw = true) : parse raw = .ok ⟨raw, h⟩ := by
  have hp : ∀ xs, stripPrefix ('s' :: xs) raw.toList = none := by
    intro xs
    rw [validHex, Bool.and_eq_true] at h
    cases ht : raw.toList with
    | nil => rfl
    | cons c t =>
      have hi : Hex.isDigit c = true := List.all_eq_true.mp h.2 c (by simp [ht])
      have hn : 's' ≠ c := by
        rintro rfl
        contradiction
      simp [stripPrefix, hn]
  have hh : hexPart raw = raw := by
    have hc := hp "ha256:".toList
    have hd := hp "ha256-".toList
    change stripPrefix "sha256:".toList raw.toList = none at hc
    change stripPrefix "sha256-".toList raw.toList = none at hd
    rw [hexPart, hc, hd, Option.none_or, Option.getD_none, String.ofList_toList]
  simp only [parse, hh, h, dite_true]

/-- The displayed text is 71 bytes long. -/
theorem utf8ByteSize_toString (d : Digest) : d.toString.utf8ByteSize = 71 := by
  have hv := d.valid
  rw [validHex, Bool.and_eq_true, beq_iff_eq, List.all_eq_true] at hv
  have hh : d.hex.utf8ByteSize = 64 := by
    rw [← hv.1]
    exact utf8ByteSize_eq_length fun c hc => Hex.utf8Size_of_isDigit (hv.2 c hc)
  rw [toString, String.utf8ByteSize_append, hh]
  rfl

/-- On contents without a collision the digest names the content. -/
theorem of_inj {s2 : Sha256} {c : Set Bytes} (hf : CollisionFree s2 c) {a b : Bytes} (ha : a ∈ c)
    (hb : b ∈ c) : of s2 a = of s2 b ↔ a = b := by
  constructor
  · intro h
    exact hf ha hb (fromRaw_inj.mp h)
  · exact congrArg (of s2)

end Digest
end Louiselm.Canonical
