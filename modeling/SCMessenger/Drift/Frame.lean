import Mathlib.Data.List.GetD
import SCMessenger.Drift.Envelope

/-!
# The Drift frame

The framing of `drift/frame.rs`: length, type byte, payload and a CRC-32 over all of them, which is a
parameter.
-/

namespace SCMessenger

inductive FrameType where
  | data
  | syncReq
  | syncResp
  | ping
  | peerInfo
deriving DecidableEq, Repr

def FrameType.asU8 : FrameType → UInt8
  | .data => 0x01
  | .syncReq => 0x02
  | .syncResp => 0x03
  | .ping => 0x04
  | .peerInfo => 0x05

def FrameType.fromU8 (value : UInt8) : Except DriftError FrameType :=
  if value = 0x01 then .ok .data
  else if value = 0x02 then .ok .syncReq
  else if value = 0x03 then .ok .syncResp
  else if value = 0x04 then .ok .ping
  else if value = 0x05 then .ok .peerInfo
  else .error (.invalidFrameType value)

theorem FrameType.fromU8_asU8 (t : FrameType) : FrameType.fromU8 t.asU8 = .ok t := by
  cases t <;> rfl

theorem FrameType.asU8_of_fromU8 {v : UInt8} {t : FrameType} (h : FrameType.fromU8 v = .ok t) :
    t.asU8 = v := by
  unfold FrameType.fromU8 at h
  split_ifs at h with h1 h2 h3 h4 h5 <;> cases h <;> subst v <;> rfl

/-- A frame of a transport stream. -/
structure DriftFrame where
  frameType : FrameType
  payload : Bytes
deriving DecidableEq, Repr

namespace DriftFrame

def frameMaxPayload : Nat := 65535

def transportOverhead : Nat := 7

variable (crc32 : Bytes → UInt32)

def body (frame : DriftFrame) : Bytes :=
  leBytes 2 (1 + frame.payload.length) ++ frame.frameType.asU8 :: frame.payload

def toBytes (frame : DriftFrame) : Except DriftError Bytes :=
  if 65535 < 1 + frame.payload.length then
    .error (.bufferTooShort (1 + frame.payload.length) 65535)
  else .ok (frame.body ++ leBytes 4 (crc32 frame.body).toNat)

def fromBytes (data : Bytes) : Except DriftError DriftFrame :=
  if data.length < transportOverhead then .error (.bufferTooShort transportOverhead data.length)
  else
    let length := leNat (data.take 2)
    if frameMaxPayload + 1 < length then .error (.bufferTooShort frameMaxPayload length)
    else
      let expectedTotal := 2 + length + 4
      if data.length ≠ expectedTotal then .error (.bufferTooShort expectedTotal data.length)
      else
        let crcOffset := data.length - 4
        if (crc32 (data.take crcOffset)).toNat ≠ leNat (data.drop crcOffset) then .error .crcMismatch
        else
          -- the length was checked above, so the type byte is there
          match FrameType.fromU8 (data.getD 2 0) with
          | .error e => .error e
          | .ok frameType => .ok ⟨frameType, (data.take crcOffset).drop 3⟩

variable {crc32}

theorem body_length (frame : DriftFrame) : frame.body.length = frame.payload.length + 3 := by
  simp only [body, List.length_append, leBytes_length, List.length_cons]
  omega

variable {frame : DriftFrame}

theorem toBytes_length {b : Bytes} (h : frame.toBytes crc32 = .ok b) :
    b.length = frame.payload.length + transportOverhead := by
  unfold toBytes at h
  split at h
  · cases h
  · cases h
    simp only [List.length_append, body_length, leBytes_length, transportOverhead]

theorem toBytes_eq_ok (h : 1 + frame.payload.length ≤ 65535) :
    frame.toBytes crc32 = .ok (frame.body ++ leBytes 4 (crc32 frame.body).toNat) := by
  rw [toBytes, if_neg (by omega)]

/-- **A frame is read back** as it was written. -/
theorem fromBytes_toBytes {b : Bytes} (h : frame.toBytes crc32 = .ok b) :
    fromBytes crc32 b = .ok frame := by
  have hf : 1 + frame.payload.length ≤ 65535 := by
    by_contra hbig
    rw [toBytes, if_pos (by omega)] at h
    cases h
  have hle := toBytes_length h
  rw [toBytes_eq_ok hf] at h
  cases h
  have hb := body_length frame
  have hl : leNat ((frame.body ++ leBytes 4 (crc32 frame.body).toNat).take 2)
      = 1 + frame.payload.length := by
    rw [body, List.append_assoc, List.take_left' (leBytes_length 2 _), leNat_leBytes]
    exact Nat.mod_eq_of_lt (by omega)
  have ho : 2 + (1 + frame.payload.length) + 4 - 4 = frame.body.length := by omega
  have hc : leNat (leBytes 4 (crc32 frame.body).toNat) = (crc32 frame.body).toNat := by
    rw [leNat_leBytes]
    exact Nat.mod_eq_of_lt (crc32 frame.body).toNat_lt
  have hty : (frame.body ++ leBytes 4 (crc32 frame.body).toNat).getD 2 0
      = frame.frameType.asU8 := by
    simp [body, leBytes]
  have hp : frame.body.drop 3 = frame.payload := by
    simp [body, leBytes]
  have hmi : ¬ (frame.body ++ leBytes 4 (crc32 frame.body).toNat).length < transportOverhead := by
    omega
  have hm : ¬ frameMaxPayload + 1 < 1 + frame.payload.length := by
    simp only [frameMaxPayload]
    omega
  have ht : (frame.body ++ leBytes 4 (crc32 frame.body).toNat).length
      = 2 + (1 + frame.payload.length) + 4 := by
    rw [hle, transportOverhead]
    omega
  unfold fromBytes
  rw [if_neg hmi]
  simp only [hl, ht, ho, List.take_left, List.drop_left, hc, hty, hm, if_false,
    ne_eq, not_true_eq_false, FrameType.fromU8_asU8, hp]

theorem eq_body_append {d : Bytes} {n : Nat} (hl : d.length = n + transportOverhead) :
    d.take (d.length - 4)
      = d.take 2 ++ d.getD 2 0 :: (d.take (d.length - 4)).drop 3 := by
  simp only [transportOverhead] at hl
  have ht : 2 < (d.take (d.length - 4)).length := by
    rw [List.length_take]
    omega
  have hty : d.getD 2 0 = (d.take (d.length - 4))[2] := by
    rw [List.getElem_take, List.getD_eq_getElem d 0 (by omega)]
  rw [hty, ← List.drop_eq_getElem_cons ht, show d.take 2 = (d.take (d.length - 4)).take 2 by
    rw [List.take_take, Nat.min_eq_left (by omega)], List.take_append_drop]

/-- What is read as a frame are the bytes of that frame. -/
theorem toBytes_of_fromBytes {d : Bytes} (h : fromBytes crc32 d = .ok frame) :
    frame.toBytes crc32 = .ok d := by
  unfold fromBytes at h
  simp only at h
  split at h
  · cases h
  case isFalse hmin =>
  split at h
  · cases h
  split at h
  · cases h
  case isFalse htotal =>
  split at h
  · cases h
  case isFalse hc =>
  rw [not_not] at htotal hc
  split at h
  · cases h
  case h_2 frameType htype =>
  cases h
  -- seven bytes at least, so the length that is read is at least one
  simp only [transportOverhead] at hmin
  have hle : d.length = (d.length - 7) + transportOverhead := by
    rw [transportOverhead]
    omega
  have hp : ((d.take (d.length - 4)).drop 3).length = d.length - 7 := by
    rw [List.length_drop, List.length_take]
    omega
  have hn : leNat (d.take 2) = 1 + (d.length - 7) := by omega
  have ht : (d.take 2).length = 2 := by
    rw [List.length_take]
    omega
  have hf : (d.drop (d.length - 4)).length = 4 := by
    rw [List.length_drop]
    omega
  have hfi : 1 + (d.length - 7) ≤ 65535 := by
    have hlt := leNat_lt (d.take 2)
    rw [ht] at hlt
    omega
  have hb : body ⟨frameType, (d.take (d.length - 4)).drop 3⟩ = d.take (d.length - 4) := by
    have hl := leBytes_leNat (d.take 2)
    rw [ht, hn] at hl
    rw [body, hp, hl, FrameType.asU8_of_fromU8 htype, ← eq_body_append hle]
  rw [toBytes_eq_ok (by rw [hp]; exact hfi), hb, hc]
  have hla := leBytes_leNat (d.drop (d.length - 4))
  rw [hf] at hla
  rw [hla, List.take_append_drop]

/-- **The codec is exact**: a buffer is read as a frame iff it is what the frame is written as. -/
theorem fromBytes_eq_ok_iff (crc32 : Bytes → UInt32) (b : Bytes) (frame : DriftFrame) :
    fromBytes crc32 b = .ok frame ↔ frame.toBytes crc32 = .ok b :=
  ⟨toBytes_of_fromBytes, fromBytes_toBytes⟩

end DriftFrame

end SCMessenger
