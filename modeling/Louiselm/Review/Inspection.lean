import Louiselm.Canonical.Manifest
import Louiselm.Review.Scan

/-!
# Inspected files

`skills-core/src/inspect.rs`: what a file of a package is taken for, and the findings in its text.
-/

namespace Louiselm.Review
open Base Canonical

/-- Number of located occurrences shown for a finding. -/
def MAX_SAMPLES : Nat := 5

/-- The kind of fact that a finding reports. -/
inductive FindingKind where
  | unicodeHidden
  | unicodeConfusable
  | controlSequence
  | url
  | credentialReference
  | encodedPayload
  | networkImport
  | processImport
  | svgBehavior
  | declaredBinary
  | undeclaredBinary
  | executable
  | image
  | contentTypeMismatch
  | truncatedScan
deriving DecidableEq, Repr

/-- One fact about one file that a reviewer must be shown. -/
structure Finding where
  kind : FindingKind
  path : String
  /-- How many occurrences were found. -/
  occurrences : Nat
  samples : List Match
deriving DecidableEq, Repr

/-- How the bytes of a file were classified. -/
inductive ContentKind where
  | text
  | svg
  | image
  | binary
deriving DecidableEq, Repr

/-- What Inspection observed about one file. -/
structure FileFacts where
  path : String
  size : Nat
  executable : Bool
  kind : ContentKind
  magic : Option String
deriving DecidableEq, Repr

/-- What stands behind the last separator of a text, and before it. -/
def splitLast (separator : Char) (text : List Char) : Option (List Char × List Char) :=
  match text.reverse.dropWhile (· != separator) with
  | [] => none
  | _ :: before => some (before.reverse, (text.reverse.takeWhile (· != separator)).reverse)

/-- The lowercase extension of a path, without its dot. -/
def extension (path : String) : Option String :=
  match CanonicalPath.parse path true with
  | .error _ => none
  | .ok canonical =>
    let name := ((splitLast '/' canonical.text.toList).map Prod.snd).getD canonical.text.toList
    match splitLast '.' name with
    | none => none
    | some (stem, extension) =>
      if stem = [] ∨ extension = [] then none
      else some (String.ofList (extension.map Char.toLower))

/-- The kind of content that a file has. -/
def contentKind (path : String) (bytes : Bytes) (policy : Policy) : ContentKind :=
  let magic := magicOf bytes
  if looksLikeSvg bytes then .svg
  else if magic.any Magic.isImage then .image
  else if magic.isSome || containsNul bytes then .binary
  else if (extension path).any policy.isImageExtension && !bytes.isEmpty then .image
  else .text

/-- What a file is taken for. -/
def classify (path : String) (bytes : Bytes) (executable : Bool) (policy : Policy) : FileFacts :=
  { path
    size := bytes.length
    executable
    kind := contentKind path bytes policy
    magic := (magicOf bytes).map Magic.name }

/-- Collect the occurrences of one kind in a file, when there are any. -/
def collect (path : String) (kind : FindingKind) (occurrences : List Match) : List Finding :=
  if occurrences.isEmpty then []
  else [⟨kind, path, occurrences.length, occurrences.take MAX_SAMPLES⟩]

/-- `U+` and at least four uppercase hexadecimal digits. -/
def codePointText (c : Char) : String :=
  let digits := (Nat.toDigits 16 c.toNat).map Char.toUpper
  "U+" ++ String.ofList (List.replicate (4 - digits.length) '0' ++ digits)

/-- The findings in a text; none where the scan panics. -/
def scanText (path text : String) (policy : Policy) (isSvg : Bool) : Option (List Finding) := do
  let scan := TextScan.new text policy.maxTextScanBytes
  let truncated := if scan.truncated then
      [⟨scan.scannedBytes, scan.lineOf scan.scannedBytes, "", "scanned the first " ++
        toString scan.scannedBytes ++ " of " ++ toString text.utf8ByteSize ++ " bytes"⟩]
    else []
  let hidden := (hiddenCharacters policy scan.text).map fun item =>
    let found := scan.located item.1 item.2.2
    { found with
      detail := item.2.2
      evidence := found.evidence ++ " (" ++ codePointText item.2.1 ++ ")" }
  let confusable := (confusableCharacters policy scan.text).map fun item =>
    let found := scan.located item.1 (String.singleton item.2.2)
    { found with
      evidence := found.evidence ++ " (" ++ codePointText item.2.1 ++ " imitates \x27" ++
        String.singleton item.2.2 ++ "\x27)" }
  let control := (controlCharacters scan.text).map fun item =>
    let found := scan.located item.1 "control character"
    { found with
      evidence := found.evidence ++ " (\\u\x7b" ++
        String.ofList (Nat.toDigits 16 item.2.toNat) ++ "\x7d)" }
  let urls ← scan.findUrls policy.urlSchemes
  let credentials ← scan.findAny policy.credentialMarkers
  let network ← scan.findAny policy.networkImports
  let process ← scan.findAny policy.processImports
  let decoders ← scan.findAny policy.decoderMarkers
  let payloads := TextScan.sortMatches (decoders ++
    scan.findRuns policy.minBase64Run isBase64Byte "base64 run" ++
    scan.findRuns policy.minHexRun isHexByte "hexadecimal run")
  let behavior ← if isSvg then scan.findAny policy.svgBehavior else some []
  return collect path .truncatedScan truncated ++ collect path .unicodeHidden hidden ++
    collect path .unicodeConfusable confusable ++ collect path .controlSequence control ++
    collect path .url urls ++ collect path .credentialReference credentials ++
    collect path .networkImport network ++ collect path .processImport process ++
    collect path .encodedPayload payloads ++ collect path .svgBehavior behavior

/-- What scanning the text of a file comes to. -/
inductive Scanned where
  | findings (findings : List Finding)
  /-- A file that is neither binary nor valid UTF-8. -/
  | notUtf8
  /-- Content that is not scanned for text. -/
  | skipped
deriving DecidableEq, Repr

/-- Scan a file for text after what it was classified as; none where that panics. -/
def scanFile (path : String) (bytes : Bytes) (executable : Bool) (policy : Policy) :
    Option Scanned :=
  let facts := classify path bytes executable policy
  if facts.kind = .text ∨ facts.kind = .svg then
    match fromUtf8 bytes with
    | some text =>
      (scanText path text policy (facts.kind == .svg)).map Scanned.findings
    | none => some .notUtf8
  else some .skipped

end Louiselm.Review
