import PersistentHarness.Data.Text

/-! # Images of an input

A client sends images as base64 with a MIME type. They are accepted when the text is canonical, when the container tells
dimensions within the bounds, and when they are small enough together. The dimensions are read from untrusted bytes: every
index that is read is recorded, an index outside the bytes reads as `undefined`, and a multi-byte read outside of them throws.
-/

namespace PersistentHarness.InputImages

open Json (decimal)

def MAX_INPUT_IMAGE_COUNT : ℕ := 4
def MAX_INPUT_IMAGE_BYTES : ℕ := 3 * 1024 * 1024
def MAX_INPUT_IMAGE_DIMENSION : ℕ := 8192
def MAX_INPUT_IMAGE_PIXELS : ℕ := 16000000
def MAX_DECODED_IMAGE_BYTES : ℕ := 64 * 1024 * 1024
def MAX_BASE64_CHARACTERS : ℕ := 4 * ((MAX_INPUT_IMAGE_BYTES + 2) / 3)

section Base64

/-- The six bits that a character stands for. -/
def base64Value (code : UInt16) : Option ℕ :=
  if 65 ≤ code ∧ code ≤ 90 then some (code.toNat - 65)
  else if 97 ≤ code ∧ code ≤ 122 then some (code.toNat - 97 + 26)
  else if 48 ≤ code ∧ code ≤ 57 then some (code.toNat - 48 + 52)
  else if code = 43 then some 62
  else if code = 47 then some 63
  else none

def base64Unit (value : ℕ) : UInt16 :=
  if value < 26 then .ofNat (value + 65)
  else if value < 52 then .ofNat (value - 26 + 97)
  else if value < 62 then .ofNat (value - 52 + 48)
  else if value = 62 then 43
  else 47

def isBase64 (text : JsString) : Bool :=
  let padding := if (js "==").isSuffixOf text then 2 else if (js "=").isSuffixOf text then 1 else 0
  text.length % 4 = 0 ∧ (text.take (text.length - padding)).all fun code => (base64Value code).isSome

/-- Four characters are three bytes; what is left over of a byte is dropped. -/
def decodeValues : List ℕ → List UInt8
  | a :: b :: c :: d :: rest =>
    .ofNat (a * 4 + b / 16) :: .ofNat (b % 16 * 16 + c / 4) :: .ofNat (c % 4 * 64 + d) :: decodeValues rest
  | [a, b, c] => [.ofNat (a * 4 + b / 16), .ofNat (b % 16 * 16 + c / 4)]
  | [a, b] => [.ofNat (a * 4 + b / 16)]
  | _ => []

/-- `Buffer.from(text, "base64")`. -/
def decodeBase64 (text : JsString) : List UInt8 := decodeValues (text.filterMap base64Value)

/-- `bytes.toString("base64")`. -/
def encodeBase64 : List UInt8 → JsString
  | a :: b :: c :: rest =>
    base64Unit (a.toNat / 4) :: base64Unit (a.toNat % 4 * 16 + b.toNat / 16) :: base64Unit (b.toNat % 16 * 4 + c.toNat / 64)
      :: base64Unit (c.toNat % 64) :: encodeBase64 rest
  | [a, b] => [base64Unit (a.toNat / 4), base64Unit (a.toNat % 4 * 16 + b.toNat / 16), base64Unit (b.toNat % 16 * 4), 61]
  | [a] => [base64Unit (a.toNat / 4), base64Unit (a.toNat % 4 * 16), 61, 61]
  | [] => []

end Base64

section Reading

/-- A computation over bytes: the indices that it has read, the last one first, and nothing where it throws. -/
abbrev Reading := StateT (List ℕ) Option

/-- `bytes[index]`. -/
def byteAt (bytes : List UInt8) (index : ℕ) : Reading (Option UInt8) := fun seen => some (bytes[index]?, index :: seen)

/-- The number of some bytes, the most significant one first. -/
def bigEndian (bytes : List UInt8) : ℕ := bytes.foldl (fun number byte => number * 256 + byte.toNat) 0

/-- `bytes.subarray(start, start + count)`, all of it read. -/
def readBytes (bytes : List UInt8) (start count : ℕ) : Reading (List UInt8) := fun seen =>
  some ((bytes.drop start).take count, (List.range' start (min count (bytes.length - start))).reverse ++ seen)

/-- `bytes.readUInt16BE(index)` and `bytes.readUInt32BE(index)`, which throw outside the bytes. -/
def readUIntBE (bytes : List UInt8) (width index : ℕ) : Reading ℕ := fun seen =>
  if index + width ≤ bytes.length then
    some (bigEndian ((bytes.drop index).take width), (List.range' index width).reverse ++ seen)
  else none

end Reading

structure Dimensions where
  width : ℕ
  height : ℕ
  decodedBytes : Option ℕ
deriving DecidableEq, Repr

section Png

def pngSignature : List UInt8 := [0x89, 0x50, 0x4E, 0x47, 0x0D, 0x0A, 0x1A, 0x0A]

def pngSamples (colorType : UInt8) : Option ℕ :=
  if colorType = 0 then some 1 else if colorType = 2 then some 3 else if colorType = 3 then some 1
  else if colorType = 4 then some 2 else if colorType = 6 then some 4 else none

def pngDepths (colorType : UInt8) : List UInt8 :=
  if colorType = 0 then [1, 2, 4, 8, 16] else if colorType = 3 then [1, 2, 4, 8] else [8, 16]

/-- The branch of `imageDimensions` for `image/png`; `toString("ascii")` drops the highest bit of a byte. -/
def pngDimensions (bytes : List UInt8) : Reading (Option Dimensions) := do
  if bytes.length < 26 then return none
  if (← readBytes bytes 0 8) ≠ pngSignature then return none
  if (← readBytes bytes 12 4).map (· &&& 0x7F) ≠ [0x49, 0x48, 0x44, 0x52] then return none
  let colorType := (← byteAt bytes 25).getD 0
  let bitDepth := (← byteAt bytes 24).getD 0
  match pngSamples colorType with
  | none => return none
  | some samples =>
    if bitDepth ∉ pngDepths colorType then return none
    let width ← readUIntBE bytes 4 16
    let height ← readUIntBE bytes 4 20
    return some ⟨width, height, some (((width * samples * bitDepth.toNat + 7) / 8 + 1) * height)⟩

end Png

section Jpeg

def isStartOfFrame (marker : UInt8) : Bool :=
  0xC0 ≤ marker ∧ marker ≤ 0xCF ∧ marker ≠ 0xC4 ∧ marker ≠ 0xC8 ∧ marker ≠ 0xCC

/-- A marker without a segment. -/
def standsAlone (marker : UInt8) : Bool := marker = 0x01 ∨ 0xD0 ≤ marker ∧ marker ≤ 0xD7

/-- The end marker or a start of scan. -/
def endsWalk (marker : UInt8) : Bool := marker = 0xD9 ∨ marker = 0xDA

/-- `while (bytes[offset] === 0xff) offset += 1`. -/
def skipFill (bytes : List UInt8) : ℕ → ℕ → Reading ℕ
  | 0, _ => failure
  | fuel + 1, offset => do
    if (← byteAt bytes offset) = some 0xFF then skipFill bytes fuel (offset + 1) else return offset

/-- What a turn of the walk comes to: the walk goes on at an offset, or it is left. -/
inductive Turn where
  | next (offset : ℕ)
  | leave (found : Option Dimensions)
deriving DecidableEq

def segmentTurn (bytes : List UInt8) (offset : ℕ) : Reading Turn := do
  let marker ← byteAt bytes offset
  let offset := offset + 1
  if marker.any endsWalk = true ∨ bytes.length ≤ offset + 1 then return .leave none
  if marker.any standsAlone then return .next offset
  let length ← readUIntBE bytes 2 offset
  if length < 2 ∨ bytes.length < offset + length then return .leave none
  if marker.any isStartOfFrame = true ∧ 7 ≤ length then
    let height ← readUIntBE bytes 2 (offset + 3)
    let width ← readUIntBE bytes 2 (offset + 5)
    return .leave (some ⟨width, height, none⟩)
  return .next (offset + length)

/-- The body of `while (offset + 3 < bytes.length)`. -/
def markerTurn (bytes : List UInt8) (offset : ℕ) : Reading Turn := do
  if (← byteAt bytes offset) ≠ some 0xFF then return .next (offset + 1)
  segmentTurn bytes (← skipFill bytes (bytes.length + 2) offset)

def walk (bytes : List UInt8) : ℕ → ℕ → Reading (Option Dimensions)
  | 0, _ => failure
  | fuel + 1, offset =>
    if offset + 3 < bytes.length then do
      match ← markerTurn bytes offset with
      | .next offset => walk bytes fuel offset
      | .leave found => return found
    else return none

/-- The branch of `imageDimensions` for `image/jpeg`. -/
def jpegDimensions (bytes : List UInt8) : Reading (Option Dimensions) := do
  if bytes.length < 4 then return none
  if (← byteAt bytes 0) ≠ some 0xFF then return none
  if (← byteAt bytes 1) ≠ some 0xD8 then return none
  walk bytes (bytes.length + 1) 2

end Jpeg

def imageDimensions (bytes : List UInt8) (mimeType : JsString) : Reading (Option Dimensions) :=
  if mimeType = js "image/png" then pngDimensions bytes
  else if mimeType = js "image/jpeg" then jpegDimensions bytes
  else return none

section Normalize

/-- `images[${index}]`, with what is wrong with it. -/
def imageError (index : ℕ) (text : String) : JsString := js "images[" ++ decimal index ++ js "]" ++ js text

def supportedKeys (allowMetadata : Bool) : List JsString :=
  [js "type", js "data", js "mimeType"] ++ if allowMetadata then [js "name", js "size"] else []

def withinBounds (dimensions : Dimensions) : Bool :=
  1 ≤ dimensions.width ∧ 1 ≤ dimensions.height ∧ dimensions.width ≤ MAX_INPUT_IMAGE_DIMENSION
    ∧ dimensions.height ≤ MAX_INPUT_IMAGE_DIMENSION ∧ dimensions.width * dimensions.height ≤ MAX_INPUT_IMAGE_PIXELS
    ∧ dimensions.decodedBytes.getD (dimensions.width * dimensions.height * 4) ≤ MAX_DECODED_IMAGE_BYTES

/-- The name of an image, or one by its number. -/
def imageName (index : ℕ) (name : Value) : JsString :=
  if name.isString = true ∧ name.units.trim ≠ [] then name.units.trim.take 256 else js "Pasted image " ++ decimal (index + 1)

/-- `{ type, data, mimeType }`, with the name and the size where metadata is allowed. -/
def imageFields (allowMetadata : Bool) (index : ℕ) (raw : Value) (size : ℕ) : List (String × Value) :=
  [("type", .text "image"), ("data", raw.get (js "data")), ("mimeType", raw.get (js "mimeType"))]
    ++ if allowMetadata then [("name", .str (imageName index (raw.get (js "name")))), ("size", .num (.ofNat size))] else []

/-- One image of a request, and the bytes of all images up to it. -/
def normalizeImage (allowMetadata : Bool) (index : ℕ) (raw : Value) (totalBytes : ℕ) : Except JsString (Value × ℕ) :=
  let mimeType := raw.get (js "mimeType")
  let data := raw.get (js "data")
  let bytes := decodeBase64 data.units
  if raw.isObject = false then throw (imageError index " must be an object")
  else match (Assoc.keys raw.fields).find? fun key => key ∉ supportedKeys allowMetadata with
  | some key => throw (js "images[" ++ decimal index ++ js "]." ++ key ++ js " is not supported")
  | none =>
    if raw.get (js "type") ≠ .text "image" then throw (imageError index ".type must be image")
    else if mimeType ≠ .text "image/png" ∧ mimeType ≠ .text "image/jpeg" then
      throw (imageError index ".mimeType must be image/png or image/jpeg")
    else if data.isString = false ∨ data.units = [] ∨ MAX_BASE64_CHARACTERS < data.units.length ∨ isBase64 data.units = false then
      throw (imageError index ".data must be bounded canonical base64")
    else if encodeBase64 bytes ≠ data.units then throw (imageError index ".data must be canonical base64")
    else if MAX_INPUT_IMAGE_BYTES < totalBytes + bytes.length then
      throw (js "images exceed the " ++ decimal MAX_INPUT_IMAGE_BYTES ++ js " byte total limit")
    else if ((imageDimensions bytes mimeType.units).run' []).join.any withinBounds = false then
      throw (imageError index " has an invalid or oversized " ++ mimeType.units ++ js " container")
    else return (.record (imageFields allowMetadata index raw bytes.length), totalBytes + bytes.length)

/-- `value.map(...)`. -/
def normalizeFrom (allowMetadata : Bool) : ℕ → ℕ → List Value → Except JsString (List Value)
  | _, _, [] => pure []
  | index, totalBytes, raw :: rest => do
    let (image, totalBytes) ← normalizeImage allowMetadata index raw totalBytes
    return image :: (← normalizeFrom allowMetadata (index + 1) totalBytes rest)

def normalizeInputImages (value : Value) (allowMetadata : Bool) : Except JsString (List Value) :=
  match value with
  | .undefined | .null => pure []
  | .arr raws =>
    if MAX_INPUT_IMAGE_COUNT < raws.length then
      throw (js "images must be an array of at most " ++ decimal MAX_INPUT_IMAGE_COUNT ++ js " items")
    else normalizeFrom allowMetadata 0 0 raws
  | _ => throw (js "images must be an array of at most " ++ decimal MAX_INPUT_IMAGE_COUNT ++ js " items")

end Normalize

end PersistentHarness.InputImages
