import GrafeoLoro.Presence.Socket

/-!
# `GrafeoLoro.Proofs.PresenceEnvelope`: the format of the presence envelope

* `parseEphEnvelope_frame`: what the parser does with a frame, whose parts have the lengths that it
  reads.
* `parseEphEnvelope_cases`: other bytes are rejected before the parts are looked at.
* `presenceEnvelope_format`: what is built is read back, and what is read is an envelope; no read
  is out of bounds.
-/

set_option autoImplicit false

namespace GrafeoLoro.Proofs

open GrafeoLoro GrafeoLoro.Lib

section
variable {Payload : Type} {codec : PayloadCodec Payload}

/-- The parts of a frame, one after the other. -/
def ephFrame (lo hi : UInt8) (segment : List UInt8) (msgType : UInt8) (json : List UInt8) :
    List UInt8 :=
  ephMagic ++ [lo, hi] ++ segment ++ [msgType] ++ json

/-- What the parser does with the parts of a frame. -/
def parseParts (codec : PayloadCodec Payload) (segment : List UInt8) (msgType : UInt8)
    (json : List UInt8) : Except GrafeoLoroError (EphEnvelope Payload) :=
  match strFromUtf8 segment with
  | none => .error (.invalidEnvelope s!"bad room_id utf8: {codec.utf8Error segment}")
  | some roomId =>
    if msgType ≠ ephMsgTypePresence then
      .error (.invalidEnvelope s!"unsupported msg_type: 0x{hexByte msgType}")
    else
      match codec.fromSlice json with
      | .error e => .error (.invalidEnvelope s!"serde: {e}")
      | .ok payload => .ok ⟨roomId, payload⟩

/-- The parser reads the parts of a frame. -/
theorem parseEphEnvelope_frame {lo hi msgType : UInt8} {segment json : List UInt8}
    (hlength : segment.length = (u16FromLe lo hi).toNat) :
    parseEphEnvelope codec (ephFrame lo hi segment msgType json)
      = some (parseParts codec segment msgType json) := by
  have hsize : (ephFrame lo hi segment msgType json).length
      = ephMagic.length + 2 + segment.length + 1 + json.length := by
    simp [ephFrame, ephMagic]
    omega
  have hmagic : slice? (ephFrame lo hi segment msgType json) 0 ephMagic.length = some ephMagic :=
    slice?_middle [] ([lo, hi] ++ segment ++ [msgType] ++ json)
      (by simp [ephFrame]) rfl (by simp)
  have hlo : (ephFrame lo hi segment msgType json)[ephMagic.length]? = some lo :=
    getElem?_middle ephMagic ([hi] ++ segment ++ [msgType] ++ json)
      (by simp [ephFrame]) rfl
  have hhi : (ephFrame lo hi segment msgType json)[ephMagic.length + 1]? = some hi :=
    getElem?_middle (ephMagic ++ [lo]) (segment ++ [msgType] ++ json)
      (by simp [ephFrame]) (by simp)
  have hsegment : slice? (ephFrame lo hi segment msgType json) (ephMagic.length + 2)
      (ephMagic.length + 2 + segment.length) = some segment :=
    slice?_middle (ephMagic ++ [lo, hi]) ([msgType] ++ json)
      (by simp [ephFrame]) (by simp) (by simp)
  have htype : (ephFrame lo hi segment msgType json)[ephMagic.length + 2 + segment.length]?
      = some msgType :=
    getElem?_middle (ephMagic ++ [lo, hi] ++ segment) json
      (by simp [ephFrame]) (by simp; omega)
  have hjson : slice? (ephFrame lo hi segment msgType json)
      (ephMagic.length + 2 + segment.length + 1)
      (ephMagic.length + 2 + segment.length + 1 + json.length) = some json :=
    slice?_middle (ephMagic ++ [lo, hi] ++ segment ++ [msgType]) []
      (by simp [ephFrame]) (by simp; omega) (by simp; omega)
  simp only [parseEphEnvelope, parseParts, ← hlength, hmagic, hlo, hhi, hsegment, htype, hjson,
    hsize, Option.bind_eq_bind, Option.bind_some, Option.pure_def, ne_eq, not_true_eq_false,
    if_false]
  rw [if_neg (by omega), if_neg (by omega), if_neg (by omega)]
  cases strFromUtf8 segment with
  | none => rfl
  | some roomId =>
    by_cases htag : msgType = ephMsgTypePresence
    · cases codec.fromSlice json with
      | error e => simp [htag]
      | ok payload => simp [htag]
    · simp [htag]

/-- Bytes that are long enough are a magic of four, two bytes of length, and a tail. -/
theorem exists_header {bytes : List UInt8} (h : ephMagic.length + 2 ≤ bytes.length) :
    ∃ lo hi tail, bytes = bytes.take ephMagic.length ++ [lo, hi] ++ tail := by
  match hdrop : bytes.drop ephMagic.length with
  | lo :: hi :: tail =>
    refine ⟨lo, hi, tail, ?_⟩
    rw [List.append_assoc]
    show bytes = _ ++ lo :: hi :: tail
    rw [← hdrop, List.take_append_drop]
  | [] | [_] =>
    have hlength := congrArg List.length hdrop
    simp only [List.length_drop, List.length_cons, List.length_nil] at hlength
    omega

/-- Bytes are a frame, or they are rejected before the parts of one are read. -/
theorem parseEphEnvelope_cases (codec : PayloadCodec Payload) (bytes : List UInt8) :
    (∃ lo hi segment msgType json, bytes = ephFrame lo hi segment msgType json ∧
      segment.length = (u16FromLe lo hi).toNat) ∨
    ∃ msg, parseEphEnvelope codec bytes = some (.error (.invalidEnvelope msg)) := by
  by_cases hshort : bytes.length < ephMagic.length
  · exact .inr (by simp [parseEphEnvelope, hshort])
  have hhead : slice? bytes 0 ephMagic.length = some (bytes.take ephMagic.length) := by
    rw [slice?_eq_some (Nat.zero_le _) (by omega)]
    simp
  by_cases hmagic : bytes.take ephMagic.length = ephMagic
  case neg => exact .inr (by simp [parseEphEnvelope, hshort, hhead, hmagic])
  by_cases hnoLength : bytes.length < ephMagic.length + 2
  · exact .inr (by simp [parseEphEnvelope, hshort, hhead, hmagic, hnoLength])
  obtain ⟨lo, hi, tail, hbytes⟩ := exists_header (Nat.le_of_not_lt hnoLength)
  rw [hmagic] at hbytes
  have hlo : bytes[ephMagic.length]? = some lo :=
    getElem?_middle ephMagic ([hi] ++ tail) (by simp [hbytes]) rfl
  have hhi : bytes[ephMagic.length + 1]? = some hi :=
    getElem?_middle (ephMagic ++ [lo]) tail (by simp [hbytes]) (by simp)
  by_cases htruncated : bytes.length < ephMagic.length + 2 + (u16FromLe lo hi).toNat + 1
  · refine .inr ?_
    rw [parseEphEnvelope, if_neg hshort]
    simp only [hhead, hmagic, hlo, hhi, Option.bind_eq_bind, Option.bind_some, ne_eq,
      not_true_eq_false, if_false, if_neg hnoLength, if_pos htruncated]
    exact ⟨_, rfl⟩
  · -- the tail has a room id, a message type, and the rest
    have htail : (u16FromLe lo hi).toNat < tail.length := by
      rw [hbytes] at htruncated
      simp only [List.length_append, List.length_cons, List.length_nil] at htruncated
      omega
    refine .inl ⟨lo, hi, tail.take (u16FromLe lo hi).toNat, tail[(u16FromLe lo hi).toNat],
      tail.drop ((u16FromLe lo hi).toNat + 1), ?_, by simp; omega⟩
    rw [hbytes, ephFrame, List.append_assoc _ [_], List.append_assoc _ (List.take _ _)]
    simp

/-- The parts of a frame are read, or rejected with an `InvalidEnvelope` error. -/
theorem parseParts_cases (codec : PayloadCodec Payload) (segment : List UInt8) (msgType : UInt8)
    (json : List UInt8) :
    (∃ roomId payload, segment = asBytes roomId ∧ msgType = ephMsgTypePresence ∧
      codec.fromSlice json = .ok payload ∧
      parseParts codec segment msgType json = .ok ⟨roomId, payload⟩) ∨
    ∃ msg, parseParts codec segment msgType json = .error (.invalidEnvelope msg) := by
  unfold parseParts
  cases hroom : strFromUtf8 segment with
  | none => exact .inr ⟨_, rfl⟩
  | some roomId =>
    by_cases htype : msgType = ephMsgTypePresence
    · cases hjson : codec.fromSlice json with
      | error e => exact .inr (by simp [htype])
      | ok payload =>
        exact .inl ⟨roomId, payload, strFromUtf8_eq_some.mp hroom, htype, rfl, by simp [htype]⟩
    · exact .inr (by simp [htype])

/-- The bytes are an envelope of the room id with the payload bytes `json`. -/
def IsEnvelope (bytes : List UInt8) (roomId : String) (json : List UInt8) : Prop :=
  (asBytes roomId).length ≤ maxU16 ∧
    bytes = ephMagic ++ u16ToLe (UInt16.ofNat (asBytes roomId).length) ++ asBytes roomId
      ++ [ephMsgTypePresence] ++ json

/-- An envelope is a frame whose length is that of the room id. -/
theorem isEnvelope_iff {bytes json : List UInt8} {roomId : String} :
    IsEnvelope bytes roomId json ↔
      ∃ lo hi, bytes = ephFrame lo hi (asBytes roomId) ephMsgTypePresence json ∧
        (asBytes roomId).length = (u16FromLe lo hi).toNat := by
  constructor
  · rintro ⟨hlength, rfl⟩
    refine ⟨_, _, rfl, ?_⟩
    rw [u16FromLe_toLe, UInt16.toNat_ofNat']
    have hmax : maxU16 = 65535 := rfl
    omega
  · rintro ⟨lo, hi, rfl, hlength⟩
    have hmax : (u16FromLe lo hi).toNat < 65536 := (u16FromLe lo hi).toNat_lt
    refine ⟨?_, ?_⟩
    · show _ ≤ 65535
      omega
    · rw [hlength, UInt16.ofNat_toNat, u16ToLe_fromLe]
      rfl

/-- Every envelope is read, and what is read is an envelope. -/
theorem parseEphEnvelope_ok_iff {bytes : List UInt8} {envelope : EphEnvelope Payload} :
    parseEphEnvelope codec bytes = some (.ok envelope) ↔
      ∃ json, IsEnvelope bytes envelope.roomId json ∧
        codec.fromSlice json = .ok envelope.payload := by
  constructor
  · intro hok
    rcases parseEphEnvelope_cases codec bytes with
      ⟨lo, hi, segment, msgType, json, rfl, hlength⟩ | ⟨msg, herror⟩
    · rw [parseEphEnvelope_frame hlength] at hok
      rcases parseParts_cases codec segment msgType json with
        ⟨roomId, payload, rfl, rfl, hjson, hparts⟩ | ⟨msg, hparts⟩
      · rw [hparts] at hok
        cases hok
        exact ⟨json, isEnvelope_iff.mpr ⟨lo, hi, rfl, hlength⟩, hjson⟩
      · rw [hparts] at hok
        cases hok
    · rw [hok] at herror
      cases herror
  · rintro ⟨json, henvelope, hjson⟩
    obtain ⟨lo, hi, rfl, hlength⟩ := isEnvelope_iff.mp henvelope
    rw [parseEphEnvelope_frame hlength]
    simp [parseParts, hjson]

/-- The payload is decoded from its own encoding. -/
def RoundTrips (codec : PayloadCodec Payload) (payload : Payload) : Prop :=
  ∃ json, codec.toVec payload = .ok json ∧ codec.fromSlice json = .ok payload

/-- A room id of at most `u16::MAX` bytes and a payload that round-trips are read back from the
envelope that is built of them, and a longer room id is refused. On any bytes the parser reads
within bounds; it returns an envelope exactly when they are one, and otherwise an
`InvalidEnvelope` error. -/
theorem presenceEnvelope_format (codec : PayloadCodec Payload) :
    (∀ roomId payload, (asBytes roomId).length ≤ maxU16 → RoundTrips codec payload →
      ∃ bytes, buildEphEnvelope codec roomId payload = .ok bytes ∧
        parseEphEnvelope codec bytes = some (.ok ⟨roomId, payload⟩)) ∧
    (∀ roomId payload, maxU16 < (asBytes roomId).length →
      ∃ msg, buildEphEnvelope codec roomId payload = .error (.invalidEnvelope msg)) ∧
    ∀ bytes,
      (∃ envelope, parseEphEnvelope codec bytes = some (.ok envelope) ∧
        ∃ json, IsEnvelope bytes envelope.roomId json ∧
          codec.fromSlice json = .ok envelope.payload) ∨
      (∃ msg, parseEphEnvelope codec bytes = some (.error (.invalidEnvelope msg))) ∧
        ∀ roomId json payload, IsEnvelope bytes roomId json →
          codec.fromSlice json ≠ .ok payload := by
  refine ⟨fun roomId payload hlength hround => ?_, fun roomId payload hlong => ?_, fun bytes => ?_⟩
  · obtain ⟨json, hto, hfrom⟩ := hround
    have hnot : ¬ maxU16 < (asBytes roomId).length := Nat.not_lt.mpr hlength
    refine ⟨_, by rw [buildEphEnvelope, if_neg hnot, hto], ?_⟩
    exact parseEphEnvelope_ok_iff.mpr ⟨json, ⟨hlength, rfl⟩, hfrom⟩
  · exact ⟨_, by rw [buildEphEnvelope, if_pos hlong]⟩
  · have hreturns : (∃ envelope, parseEphEnvelope codec bytes = some (.ok envelope)) ∨
        ∃ msg, parseEphEnvelope codec bytes = some (.error (.invalidEnvelope msg)) := by
      rcases parseEphEnvelope_cases codec bytes with
        ⟨lo, hi, segment, msgType, json, rfl, hlength⟩ | herror
      · rw [parseEphEnvelope_frame hlength]
        rcases parseParts_cases codec segment msgType json with
          ⟨roomId, payload, -, -, -, hparts⟩ | ⟨msg, hparts⟩
        · exact .inl ⟨_, by rw [hparts]⟩
        · exact .inr ⟨msg, by rw [hparts]⟩
      · exact .inr herror
    rcases hreturns with ⟨envelope, hok⟩ | ⟨msg, herror⟩
    · exact .inl ⟨envelope, hok, parseEphEnvelope_ok_iff.mp hok⟩
    · refine .inr ⟨⟨msg, herror⟩, fun roomId json payload henvelope hjson => ?_⟩
      have hok : parseEphEnvelope codec bytes = some (.ok ⟨roomId, payload⟩) :=
        parseEphEnvelope_ok_iff.mpr ⟨json, henvelope, hjson⟩
      rw [herror] at hok
      cases hok

end

/-- The JSON of an idle peer. -/
def idleJson : List UInt8 :=
  asBytes ("\x7b\"peer_id\":7,\"active_node\":null,\"cursor_x\":0.0,\"cursor_y\":0.0," ++
    "\"last_active_ts\":0\x7d")

/-- The codec of a presence that is always idle. -/
def idleCodec : PayloadCodec Unit where
  toVec _ := .ok idleJson
  fromSlice json := if json = idleJson then .ok () else .error "expected value at line 1 column 1"
  utf8Error _ := "invalid utf-8 sequence of 1 bytes from index 0"

/-- An idle peer in a room. -/
theorem presenceEnvelope_format_idle :
    ∃ bytes, buildEphEnvelope idleCodec "room" () = .ok bytes ∧
      parseEphEnvelope idleCodec bytes = some (.ok ⟨"room", ()⟩) :=
  (presenceEnvelope_format idleCodec).1 "room" () (by decide)
    ⟨idleJson, rfl, by simp [idleCodec]⟩

end GrafeoLoro.Proofs
