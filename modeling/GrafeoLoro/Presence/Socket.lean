import GrafeoLoro.Error
import GrafeoLoro.Lib.Bytes

/-!
# `GrafeoLoro.Presence.Socket`: the envelope of a presence payload

The model of `build_eph_envelope` and `parse_eph_envelope` (`src/presence/socket.rs`). An envelope
is the magic bytes, the length of the room id as a little-endian `u16`, the room id in UTF-8, the
message type, and the payload as JSON.

The JSON comes from `serde_json`, so `PayloadCodec` is a parameter, over any type of payload. Every
read of the parser is a partial one: `none` is a panic at an index that is out of bounds.
-/

set_option autoImplicit false

namespace GrafeoLoro

open GrafeoLoro.Lib

/-- `EPH_MAGIC`, which is `%EPH`. -/
def ephMagic : List UInt8 := [0x25, 0x45, 0x50, 0x48]

/-- `EPH_MSG_TYPE_PRESENCE`. -/
def ephMsgTypePresence : UInt8 := 0x01

/-- `u16::MAX`. -/
def maxU16 : Nat := 65535

/-- The calls into `serde_json`, and the text of a UTF-8 error. The text of an error is its
`Display` form. -/
structure PayloadCodec (Payload : Type) where
  /-- `serde_json::to_vec`. -/
  toVec : Payload → Except String (List UInt8)
  /-- `serde_json::from_slice`. -/
  fromSlice : List UInt8 → Except String Payload
  utf8Error : List UInt8 → String

/-- `EphEnvelope`. -/
structure EphEnvelope (Payload : Type) where
  roomId : String
  payload : Payload
  deriving DecidableEq, Repr

section
variable {Payload : Type} (codec : PayloadCodec Payload)

/-- `PresenceManager::parse_eph_envelope`. -/
def parseEphEnvelope (bytes : List UInt8) :
    Option (Except GrafeoLoroError (EphEnvelope Payload)) :=
  if bytes.length < ephMagic.length then
    some (.error (.invalidEnvelope s!"buffer too short: {bytes.length} bytes"))
  else do
    let magic ← slice? bytes 0 ephMagic.length
    if magic ≠ ephMagic then
      return .error (.invalidEnvelope s!"bad magic: {magic}")
    else if bytes.length < ephMagic.length + 2 then
      return .error (.invalidEnvelope "truncated: missing room_id_len")
    else
      let lo ← bytes[ephMagic.length]?
      let hi ← bytes[ephMagic.length + 1]?
      let roomIdLen := (u16FromLe lo hi).toNat
      let roomIdStart := ephMagic.length + 2
      let roomIdEnd := roomIdStart + roomIdLen
      if bytes.length < roomIdEnd + 1 then
        return .error (.invalidEnvelope
          s!"room_id segment truncated: need {roomIdEnd + 1} bytes, have {bytes.length}")
      else
        let segment ← slice? bytes roomIdStart roomIdEnd
        match strFromUtf8 segment with
        | none =>
          return .error (.invalidEnvelope s!"bad room_id utf8: {codec.utf8Error segment}")
        | some roomId =>
          let msgType ← bytes[roomIdEnd]?
          if msgType ≠ ephMsgTypePresence then
            return .error (.invalidEnvelope s!"unsupported msg_type: 0x{hexByte msgType}")
          else
            let payloadBytes ← slice? bytes (roomIdEnd + 1) bytes.length
            match codec.fromSlice payloadBytes with
            | .error e => return .error (.invalidEnvelope s!"serde: {e}")
            | .ok payload => return .ok ⟨roomId, payload⟩

/-- `PresenceManager::build_eph_envelope`. -/
def buildEphEnvelope (roomId : String) (payload : Payload) :
    Except GrafeoLoroError (List UInt8) :=
  let roomIdBytes := asBytes roomId
  if maxU16 < roomIdBytes.length then
    .error (.invalidEnvelope
      s!"room_id too long: {roomIdBytes.length} bytes (max {maxU16})")
  else
    match codec.toVec payload with
    | .error e => .error (.invalidEnvelope s!"serde_json encode: {e}")
    | .ok json =>
      .ok (ephMagic ++ u16ToLe (UInt16.ofNat roomIdBytes.length) ++ roomIdBytes
        ++ [ephMsgTypePresence] ++ json)

end

end GrafeoLoro
