import Louiselm.Base.Occurrences
import Louiselm.Base.Text
import Louiselm.Base.Utf8
import Louiselm.Review.Diff

/-!
# Scanned texts

`skills-core/src/scan.rs` over the policy of `policy.rs`: formats recognized by their first
bytes, and what is found in the characters of a text. Offsets count UTF-8 bytes.
-/

namespace Louiselm.Review
open Base

/-! ### The policy -/

/-- One named class of code points. -/
structure UnicodeClass where
  name : String
  ranges : List (Nat × Nat)
deriving DecidableEq, Repr

/-- What of the policy Inspection of a text reads. -/
structure Policy where
  maxTextScanBytes : Nat
  classes : List UnicodeClass
  confusables : List (String × String)
  urlSchemes : List String
  credentialMarkers : List String
  networkImports : List String
  processImports : List String
  svgBehavior : List String
  minBase64Run : Nat
  minHexRun : Nat
  decoderMarkers : List String
  imageExtensions : List String
deriving DecidableEq, Repr

/-- The class of a code point, when the profile names one. -/
def Policy.unicodeClass (policy : Policy) (codepoint : Nat) : Option String :=
  (policy.classes.find? fun named =>
    named.ranges.any fun range => decide (range.1 ≤ codepoint ∧ codepoint ≤ range.2)).map (·.name)

/-- The ASCII character that a character imitates; of several the last one named. -/
def Policy.confusableTarget (policy : Policy) (character : Char) : Option Char :=
  (policy.confusables.filterMap fun pair =>
    pair.1.toList.head?.bind fun original => pair.2.toList.head?.map (original, ·)).reverse.lookup
      character

def Policy.isImageExtension (policy : Policy) (extension : String) : Bool :=
  policy.imageExtensions.contains extension

/-! ### Formats -/

/-- A file format recognized from its leading bytes. -/
inductive Magic where
  | elf
  | png
  | jpeg
  | gif
  | webp
  | bmp
  | zip
  | gzip
  | wasm
  | pdf
deriving DecidableEq, Repr

def Magic.name : Magic → String
  | .elf => "elf"
  | .png => "png"
  | .jpeg => "jpeg"
  | .gif => "gif"
  | .webp => "webp"
  | .bmp => "bmp"
  | .zip => "zip"
  | .gzip => "gzip"
  | .wasm => "wasm"
  | .pdf => "pdf"

def Magic.isImage : Magic → Bool
  | .png | .jpeg | .gif | .webp | .bmp => true
  | _ => false

/-- The leading bytes of the formats, in the order in which they are tried. -/
def signatures : List (Bytes × Magic) :=
  [([0x7f, 0x45, 0x4c, 0x46], .elf), ([0x89, 0x50, 0x4e, 0x47, 0x0d, 0x0a, 0x1a, 0x0a], .png),
    ([0xff, 0xd8, 0xff], .jpeg), ([0x47, 0x49, 0x46, 0x38], .gif), ([0x42, 0x4d], .bmp),
    ([0x50, 0x4b, 0x03, 0x04], .zip), ([0x1f, 0x8b], .gzip), ([0x00, 0x61, 0x73, 0x6d], .wasm),
    ([0x25, 0x50, 0x44, 0x46, 0x2d], .pdf)]

/-- The format of a file, when it is known. -/
def magicOf (bytes : Bytes) : Option Magic :=
  match signatures.find? fun signature => signature.1.isPrefixOf bytes with
  | some signature => some signature.2
  | none =>
    if 12 ≤ bytes.length ∧ [0x52, 0x49, 0x46, 0x46].isPrefixOf bytes = true ∧
        (bytes.drop 8).take 4 = [0x57, 0x45, 0x42, 0x50] then some .webp
    else none

/-- How many bytes of a file are looked at for the start of an SVG. -/
def SVG_WINDOW : Nat := 1024

/-- Whether a file looks like SVG markup. -/
def looksLikeSvg (bytes : Bytes) : Bool :=
  match fromUtf8 (bytes.take SVG_WINDOW) with
  | none => false
  | some text =>
    let lowered := (text.toList.dropWhile Text.isWhitespace).map Char.toLower
    "<svg".toList.isPrefixOf lowered ||
      ("<?xml".toList.isPrefixOf lowered && decide ("<svg".toList <:+: lowered))

/-- Whether a file has a NUL in the region that a reader would sample. -/
def containsNul (bytes : Bytes) : Bool := (bytes.take 8192).contains 0

/-! ### Texts -/

/-- The longest evidence shown for one occurrence, in characters. -/
def MAX_EVIDENCE_CHARS : Nat := 160

/-- One located match inside a text file. -/
structure Match where
  byteOffset : Nat
  line : Nat
  evidence : String
  detail : String
deriving DecidableEq, Repr

/-- The bytes that characters take. -/
def byteSize (text : List Char) : Nat := (text.map Char.utf8Size).sum

/-- The characters that fit into a number of bytes. -/
def within (limit : Nat) : List Char → List Char
  | [] => []
  | c :: rest => if c.utf8Size ≤ limit then c :: within (limit - c.utf8Size) rest else []

/-- The characters of a text with their offsets. -/
def charIndices (start : Nat) : List Char → List (Nat × Char)
  | [] => []
  | c :: rest => (start, c) :: charIndices (start + c.utf8Size) rest

/-- A text file prepared for scanning. -/
structure TextScan where
  text : List Char
  lowered : List Char
  lineStarts : List Nat
  /-- The scanned region stops short of the whole file. -/
  truncated : Bool
  scannedBytes : Nat
deriving DecidableEq, Repr

namespace TextScan

/-- Prepare a text, of which at most `limit` bytes are scanned. -/
def new (text : String) (limit : Nat) : TextScan :=
  let region := within limit text.toList
  { text := region
    lowered := region.map Char.toLower
    lineStarts := 0 :: (charIndices 0 region).filterMap fun item =>
      if item.2 = '\n' then some (item.1 + 1) else none
    truncated := decide (byteSize region < text.utf8ByteSize)
    scannedBytes := byteSize region }

/-- The number of the line of an offset, from one on. -/
def lineOf (scan : TextScan) (offset : Nat) : Nat :=
  (scan.lineStarts.filter (decide <| · ≤ offset)).length

/-- The escaped start of the line of an offset. -/
def snippet (scan : TextScan) (offset : Nat) : String :=
  let before := within offset scan.text
  let line := (before.reverse.takeWhile (· != '\n')).reverse ++
    (scan.text.drop before.length).takeWhile (· != '\n')
  escape (String.ofList (line.take MAX_EVIDENCE_CHARS))

/-- A match at an offset. -/
def located (scan : TextScan) (offset : Nat) (detail : String) : Match :=
  ⟨offset, scan.lineOf offset, scan.snippet offset, escape detail⟩

/-- Matches in the order of their offsets, equal ones as they were found. -/
def sortMatches (found : List Match) : List Match :=
  found.insertionSort fun first second => first.byteOffset ≤ second.byteOffset

/-- Every occurrence of any needle in the lowercase copy. An empty needle runs past the end of the
text, which is a panic. -/
def findAny (scan : TextScan) (needles : List String) : Option (List Match) :=
  if needles.contains "" then none
  else some <| sortMatches <| needles.flatMap fun needle =>
    (occurrences needle.toList 0 scan.lowered).map fun position =>
      scan.located (byteSize (scan.text.take position)) needle

/-- The characters that end a URL. -/
def endsUrl (c : Char) : Bool :=
  Text.isWhitespace c || ['\x22', '\x27', '<', '>', ')', '\x60'].contains c

/-- The URL at an offset. -/
def urlAt (text : List Char) (offset : Nat) : String :=
  String.ofList <| ((text.drop (within offset text).length).takeWhile fun c => !endsUrl c).take
    MAX_EVIDENCE_CHARS

/-- Every URL with one of some schemes. -/
def findUrls (scan : TextScan) (schemes : List String) : Option (List Match) :=
  (scan.findAny schemes).map fun found =>
    found.map fun item => { item with evidence := escape (urlAt scan.text item.byteOffset) }

/-- The runs of a class of bytes, with their starts and lengths; `run` is the one under way. -/
def runs (ofClass : UInt8 → Bool) (index : Nat) (run : Option Nat) : Bytes → List (Nat × Nat)
  | [] => match run with
    | some start => [(start, index - start)]
    | none => []
  | byte :: rest =>
    match ofClass byte, run with
    | true, none => runs ofClass (index + 1) (some index) rest
    | true, some start => runs ofClass (index + 1) (some start) rest
    | false, some start => (start, index - start) :: runs ofClass (index + 1) none rest
    | false, none => runs ofClass (index + 1) none rest

/-- The runs of a class of characters that are long enough. -/
def findRuns (scan : TextScan) (minimum : Nat) (ofClass : UInt8 → Bool) (detail : String) :
    List Match :=
  ((runs ofClass 0 none (utf8 (String.ofList scan.text))).filter (minimum ≤ ·.2)).map fun run =>
    scan.located run.1 (detail ++ ", " ++ toString run.2 ++ " bytes")

end TextScan

/-- The bytes of a hexadecimal payload. -/
def isHexByte (byte : UInt8) : Bool :=
  (0x30 ≤ byte && byte ≤ 0x39) || (0x61 ≤ byte && byte ≤ 0x66) || (0x41 ≤ byte && byte ≤ 0x46)

/-- The bytes of a base64 payload. -/
def isBase64Byte (byte : UInt8) : Bool :=
  (0x30 ≤ byte && byte ≤ 0x39) || (0x61 ≤ byte && byte ≤ 0x7a) || (0x41 ≤ byte && byte ≤ 0x5a) ||
    byte == 0x2b || byte == 0x2f || byte == 0x3d

/-- The code points of a text that the policy names, with their classes. -/
def hiddenCharacters (policy : Policy) (text : List Char) : List (Nat × Char × String) :=
  (charIndices 0 text).filterMap fun item =>
    (policy.unicodeClass item.2.toNat).map fun name => (item.1, item.2, name)

/-- The code points of a text that imitate an ASCII character. -/
def confusableCharacters (policy : Policy) (text : List Char) : List (Nat × Char × Char) :=
  (charIndices 0 text).filterMap fun item =>
    (policy.confusableTarget item.2).map fun target => (item.1, item.2, target)

/-- The control characters of a text but tab, newline and return. -/
def controlCharacters (text : List Char) : List (Nat × Char) :=
  (charIndices 0 text).filter fun item =>
    Text.isControl item.2 && !(['\n', '\r', '\t'].contains item.2)

end Louiselm.Review
