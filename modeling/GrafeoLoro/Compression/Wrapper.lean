import GrafeoLoro.Constants
import GrafeoLoro.Error
import GrafeoLoro.Lib.Bytes

/-!
# `GrafeoLoro.Compression.Wrapper`: the compressed snapshot and its wire format

The model of `CompressedPayload` (`src/compression/wrapper.rs`). The wire format is a version
byte, the tag of the codec, and the compressed bytes.

The codecs are the crates `lz4_flex` and `brotli`, and `Codecs` has the calls that the source makes
of them. `Codecs.Lossless` is what it relies on: bytes that were compressed decompress to
themselves.
-/

set_option autoImplicit false

namespace GrafeoLoro

open GrafeoLoro.Lib

/-- `CompressionType`. -/
inductive CompressionType where
  | none
  | lz4
  /-- Routed to Brotli. -/
  | zstd
  deriving DecidableEq, Repr

/-- The calls into the codec crates. `W` is a `brotli::CompressorWriter`, and the text of an error
is its `Display` form. -/
structure Codecs (W : Type) where
  /-- `lz4_flex::compress_prepend_size`. -/
  lz4Compress : List UInt8 → List UInt8
  /-- `lz4_flex::decompress_size_prepended`. -/
  lz4Decompress : List UInt8 → Except String (List UInt8)
  /-- `CompressorWriter::new`, which writes into an empty vector. -/
  compressorWriter : (bufferSize quality lgwin : Nat) → W
  writeAll : W → List UInt8 → Except String W
  flush : W → Except String W
  intoInner : W → List UInt8
  /-- `read_to_end` of a `brotli::Decompressor`. -/
  readToEnd : (input : List UInt8) → (bufferSize : Nat) → Except String (List UInt8)

/-- The codecs give back what they compressed. -/
structure Codecs.Lossless {W : Type} (codecs : Codecs W) : Prop where
  lz4 : ∀ input, codecs.lz4Decompress (codecs.lz4Compress input) = .ok input
  brotli : ∀ quality input, ∃ written flushed,
    codecs.writeAll (codecs.compressorWriter 4096 quality 22) input = .ok written ∧
    codecs.flush written = .ok flushed ∧
    codecs.readToEnd (codecs.intoInner flushed) 4096 = .ok input

section
variable {W : Type} (codecs : Codecs W)

/-- `brotli_compress`. -/
def brotliCompress (input : List UInt8) (quality : Nat) : Except GrafeoLoroError (List UInt8) :=
  match codecs.writeAll (codecs.compressorWriter 4096 quality 22) input with
  | .error e => .error (.compression s!"brotli compress: {e}")
  | .ok writer =>
    match codecs.flush writer with
    | .error e => .error (.compression s!"brotli flush: {e}")
    | .ok writer => .ok (codecs.intoInner writer)

/-- `brotli_decompress`. -/
def brotliDecompress (input : List UInt8) : Except GrafeoLoroError (List UInt8) :=
  match codecs.readToEnd input 4096 with
  | .error e => .error (.compression s!"brotli decompress: {e}")
  | .ok out => .ok out

end

/-- `WIRE_FORMAT_VERSION`. -/
def wireFormatVersion : UInt8 := 1

/-- `compression_type_to_tag`. -/
def compressionTypeToTag : CompressionType → UInt8
  | .none => 0x00
  | .lz4 => 0x01
  | .zstd => 0x02

/-- `tag_to_compression_type`. -/
def tagToCompressionType (tag : UInt8) : Except GrafeoLoroError CompressionType :=
  if tag = 0x00 then .ok .none
  else if tag = 0x01 then .ok .lz4
  else if tag = 0x02 then .ok .zstd
  else .error (.compression
    s!"wire format: unknown codec tag 0x{hexByte tag} (expected 0x00=None, 0x01=Lz4, 0x02=Zstd/Brotli)")

/-- `CompressedPayload`. -/
structure CompressedPayload where
  compression : CompressionType
  rawData : List UInt8
  deriving DecidableEq, Repr

namespace CompressedPayload

section
variable {W : Type} (codecs : Codecs W)

/-- `CompressedPayload::compress`. -/
def compress (rawBytes : List UInt8) (strategy : CompressionType) :
    Except GrafeoLoroError CompressedPayload :=
  match strategy with
  | .none => .ok ⟨.none, rawBytes⟩
  | .lz4 => .ok ⟨.lz4, codecs.lz4Compress rawBytes⟩
  | .zstd =>
    match brotliCompress codecs rawBytes defaultBrotliQuality with
    | .error e => .error e
    | .ok rawData => .ok ⟨.zstd, rawData⟩

/-- `CompressedPayload::decompress`. -/
def decompress (payload : CompressedPayload) : Except GrafeoLoroError (List UInt8) :=
  match payload.compression with
  | .none => .ok payload.rawData
  | .lz4 =>
    match codecs.lz4Decompress payload.rawData with
    | .error e => .error (.compression e)
    | .ok out => .ok out
  | .zstd => brotliDecompress codecs payload.rawData

end

/-- `CompressedPayload::to_wire`. -/
def toWire (payload : CompressedPayload) : List UInt8 :=
  [wireFormatVersion] ++ [compressionTypeToTag payload.compression] ++ payload.rawData

/-- `CompressedPayload::from_wire`. -/
def fromWire (bytes : List UInt8) : Except GrafeoLoroError CompressedPayload :=
  match bytes with
  | version :: tag :: rawData =>
    if version ≠ wireFormatVersion then
      .error (.compression
        s!"wire format: unknown version {version} (expected {wireFormatVersion})")
    else
      match tagToCompressionType tag with
      | .error e => .error e
      | .ok compression => .ok ⟨compression, rawData⟩
  | _ =>
    .error (.compression
      s!"wire format: too few bytes (got {bytes.length}; expected ≥2 for version+codec tag)")

section
variable {W : Type} (codecs : Codecs W)

/-- `CompressedPayload::compress_to_wire`. -/
def compressToWire (rawBytes : List UInt8) (strategy : CompressionType) :
    Except GrafeoLoroError (List UInt8) :=
  match compress codecs rawBytes strategy with
  | .error e => .error e
  | .ok payload => .ok payload.toWire

/-- `CompressedPayload::decompress_from_wire`. -/
def decompressFromWire (bytes : List UInt8) : Except GrafeoLoroError (List UInt8) :=
  match fromWire bytes with
  | .error e => .error e
  | .ok payload => payload.decompress codecs

end

end CompressedPayload

end GrafeoLoro
