import GrafeoLoro.Compression.Wrapper

/-!
# `GrafeoLoro.Proofs.SnapshotWire`: the wire format of the compressed snapshots

`to_wire` and `from_wire` are inverse to each other: the format has one byte string for each
payload, and every byte string with a known version and a known tag is one.

* `snapshotWire_inverse`: the two directions, and the byte strings that are rejected.
* `snapshotWire_lossless`: with lossless codecs, what is compressed to the wire is read back.
-/

set_option autoImplicit false

namespace GrafeoLoro.Proofs

open GrafeoLoro GrafeoLoro.Lib CompressedPayload

/-! ### The two tag tables -/

/-- The tag of a codec is read as that codec. -/
theorem tagToCompressionType_tag (c : CompressionType) :
    tagToCompressionType (compressionTypeToTag c) = .ok c := by
  cases c with
  | none => rfl
  | lz4 => rfl
  | zstd => rfl

/-- A tag is read as the codec that has it, or it is the tag of none. -/
theorem tagToCompressionType_cases (tag : UInt8) :
    (∃ c, tagToCompressionType tag = .ok c ∧ compressionTypeToTag c = tag) ∨
    (∃ msg, tagToCompressionType tag = .error (.compression msg)) ∧
      tag ≠ 0x00 ∧ tag ≠ 0x01 ∧ tag ≠ 0x02 := by
  unfold tagToCompressionType
  by_cases hnone : tag = 0x00
  · exact .inl ⟨.none, by simp [hnone], hnone.symm⟩
  · by_cases hlz4 : tag = 0x01
    · exact .inl ⟨.lz4, by simp [hlz4], hlz4.symm⟩
    · by_cases hzstd : tag = 0x02
      · exact .inl ⟨.zstd, by simp [hzstd], hzstd.symm⟩
      · exact .inr ⟨by simp [hnone, hlz4, hzstd], hnone, hlz4, hzstd⟩

/-! ### The wire format -/

/-- The bytes have no header of the format: they are too few, or their version or their tag is
unknown. -/
def BadHeader (bytes : List UInt8) : Prop :=
  bytes.length < 2 ∨
    ∃ version tag rawData, bytes = version :: tag :: rawData ∧
      (version ≠ 1 ∨ tag ≠ 0x00 ∧ tag ≠ 0x01 ∧ tag ≠ 0x02)

theorem fromWire_toWire (payload : CompressedPayload) : fromWire payload.toWire = .ok payload := by
  simp [toWire, fromWire, tagToCompressionType_tag]

/-- Bytes are the wire form of the payload that they are read as, or they have a bad header and
are rejected. -/
theorem fromWire_cases (bytes : List UInt8) :
    (∃ payload, fromWire bytes = .ok payload ∧ payload.toWire = bytes ∧ ¬ BadHeader bytes) ∨
      ∃ msg, fromWire bytes = .error (.compression msg) ∧ BadHeader bytes := by
  match bytes with
  | [] => exact .inr ⟨_, rfl, .inl (by simp)⟩
  | [_] => exact .inr ⟨_, rfl, .inl (by simp)⟩
  | version :: tag :: rawData =>
    by_cases hversion : version = wireFormatVersion
    · rcases tagToCompressionType_cases tag with ⟨c, hc, htag⟩ | ⟨⟨msg, hmsg⟩, htags⟩
      · refine .inl ⟨⟨c, rawData⟩, by simp [fromWire, hversion, hc],
          by simp [toWire, hversion, htag], ?_⟩
        rintro (hshort | ⟨version', tag', rawData', hbytes, hbad⟩)
        · simp only [List.length_cons] at hshort
          omega
        · -- the header is that of the codec `c`
          obtain ⟨rfl, rfl, -⟩ : version = version' ∧ tag = tag' ∧ rawData = rawData' := by
            simpa using hbytes
          rcases hbad with hbad | hbad
          · exact hbad hversion
          · cases c with
            | none => exact hbad.1 htag.symm
            | lz4 => exact hbad.2.1 htag.symm
            | zstd => exact hbad.2.2 htag.symm
      · exact .inr ⟨msg, by simp [fromWire, hversion, hmsg], .inr ⟨_, _, _, rfl, .inr htags⟩⟩
    · exact .inr ⟨_, by rw [fromWire, if_pos hversion], .inr ⟨_, _, _, rfl, .inl hversion⟩⟩

/-- A payload is read back from its wire form; bytes that are read are the wire form of the
result; and the bytes that are not read are those with a bad header. -/
theorem snapshotWire_inverse :
    (∀ payload, fromWire (toWire payload) = .ok payload) ∧
    (∀ bytes payload, fromWire bytes = .ok payload → toWire payload = bytes) ∧
    ∀ bytes, ((∃ e, fromWire bytes = .error e) ↔ BadHeader bytes) ∧
      ∀ e, fromWire bytes = .error e → ∃ msg, e = .compression msg := by
  refine ⟨fromWire_toWire, fun bytes payload hok => ?_, fun bytes => ?_⟩
  · rcases fromWire_cases bytes with ⟨payload', hok', hwire, -⟩ | ⟨msg, herror, -⟩
    · rw [hok] at hok'
      rw [Except.ok.inj hok', hwire]
    · rw [hok] at herror
      cases herror
  · rcases fromWire_cases bytes with ⟨payload', hok', -, hgood⟩ | ⟨msg, herror, hbad⟩
    · simp [hok', hgood]
    · simp [herror, hbad]

/-! ### The codecs -/

section
variable {W : Type} {codecs : Codecs W}

/-- A compressed payload is decompressed to its input. -/
theorem decompress_compress (hlossless : codecs.Lossless) (rawBytes : List UInt8)
    (strategy : CompressionType) :
    ∃ payload, compress codecs rawBytes strategy = .ok payload ∧
      payload.decompress codecs = .ok rawBytes := by
  cases strategy with
  | none => exact ⟨_, rfl, rfl⟩
  | lz4 => exact ⟨_, rfl, by simp [decompress, hlossless.lz4]⟩
  | zstd =>
    obtain ⟨written, flushed, hwrite, hflush, hread⟩ :=
      hlossless.brotli defaultBrotliQuality rawBytes
    refine ⟨⟨.zstd, codecs.intoInner flushed⟩, ?_, ?_⟩
    · simp [compress, brotliCompress, hwrite, hflush]
    · simp [decompress, brotliDecompress, hread]

/-- The whole format: the two directions of the wire form, the bytes that it rejects, and the way
of any input through a codec and the wire. -/
theorem snapshotWire_lossless (hlossless : codecs.Lossless) :
    (∀ payload, fromWire (toWire payload) = .ok payload) ∧
    (∀ bytes payload, fromWire bytes = .ok payload → toWire payload = bytes) ∧
    (∀ bytes, (∃ e, fromWire bytes = .error e) ↔ BadHeader bytes) ∧
    ∀ rawBytes strategy, ∃ wire, compressToWire codecs rawBytes strategy = .ok wire ∧
      decompressFromWire codecs wire = .ok rawBytes := by
  obtain ⟨hround, hback, hrejects⟩ := snapshotWire_inverse
  refine ⟨hround, hback, fun bytes => (hrejects bytes).1, fun rawBytes strategy => ?_⟩
  obtain ⟨payload, hcompress, hdecompress⟩ := decompress_compress hlossless rawBytes strategy
  refine ⟨payload.toWire, by simp [compressToWire, hcompress], ?_⟩
  simp [decompressFromWire, hround, hdecompress]

end

/-- Codecs that store their input. A short LZ4 block is its size, a token with the number of
literals, and the literals; a stored Brotli stream is a window size, the length of one block, the
block, and an empty last block. -/
def storingCodecs : Codecs (List UInt8) where
  lz4Compress input :=
    let size := input.length
    [UInt8.ofNat size, UInt8.ofNat (size / 256), UInt8.ofNat (size / 65536),
      UInt8.ofNat (size / 16777216), UInt8.ofNat (size * 16)] ++ input
  lz4Decompress bytes :=
    if bytes.length < 5 then .error "expected another byte, found none" else .ok (bytes.drop 5)
  compressorWriter _ _ _ := []
  writeAll written input := .ok (written ++ input)
  flush written := .ok written
  intoInner written :=
    let size := written.length - 1
    [UInt8.ofNat (0x0b + size % 2 * 128), UInt8.ofNat (size / 2), UInt8.ofNat (size / 512 + 128)]
      ++ written ++ [0x03]
  readToEnd input _ := .ok (input.drop 3).dropLast

theorem storingCodecs_lossless : storingCodecs.Lossless := by
  constructor
  case lz4 =>
    intro input
    simp [storingCodecs]
  case brotli =>
    intro quality input
    exact ⟨input, input, rfl, rfl, by simp [storingCodecs]⟩

/-- Three bytes go through the wire under LZ4: version, tag, size, token and literals. -/
theorem snapshotWire_lossless_lz4 :
    compressToWire storingCodecs [7, 8, 9] .lz4
        = .ok [0x01, 0x01, 0x03, 0x00, 0x00, 0x00, 0x30, 7, 8, 9] ∧
      decompressFromWire storingCodecs [0x01, 0x01, 0x03, 0x00, 0x00, 0x00, 0x30, 7, 8, 9]
        = .ok [7, 8, 9] := by
  have hwire : compressToWire storingCodecs [7, 8, 9] .lz4
      = .ok [0x01, 0x01, 0x03, 0x00, 0x00, 0x00, 0x30, 7, 8, 9] := rfl
  obtain ⟨wire, hcompress, hdecompress⟩ :=
    (snapshotWire_lossless storingCodecs_lossless).2.2.2 [7, 8, 9] .lz4
  rw [hwire] at hcompress
  rw [← Except.ok.inj hcompress] at hdecompress
  exact ⟨hwire, hdecompress⟩

end GrafeoLoro.Proofs
